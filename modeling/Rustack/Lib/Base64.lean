import Mathlib.Data.List.Basic

/-!
# Base64

The standard alphabet, padded.  Reading is strict: the padding must be there,
and the bits it leaves unused must be zero.
-/

namespace Base64

def alphabet : List Char :=
  "ABCDEFGHIJKLMNOPQRSTUVWXYZabcdefghijklmnopqrstuvwxyz0123456789+/".toList

def digit (n : ℕ) : Char := alphabet.getD n 'A'

def value (c : Char) : Option ℕ := alphabet.findIdx? (· == c)

def encode : List UInt8 → List Char
  | [] => []
  | [a] => [digit (a.toNat / 4), digit (a.toNat % 4 * 16), '=', '=']
  | [a, b] =>
    [digit (a.toNat / 4), digit (a.toNat % 4 * 16 + b.toNat / 16), digit (b.toNat % 16 * 4), '=']
  | a :: b :: c :: rest =>
    digit (a.toNat / 4) :: digit (a.toNat % 4 * 16 + b.toNat / 16) ::
      digit (b.toNat % 16 * 4 + c.toNat / 64) :: digit (c.toNat % 64) :: encode rest

/-- A group that ends in padding. -/
def decodePadded (c₀ c₁ c₂ : Char) : Option (List UInt8) := do
  let v₀ ← value c₀
  let v₁ ← value c₁
  if c₂ = '=' then
    if v₁ % 16 = 0 then some [.ofNat (v₀ * 4 + v₁ / 16)] else none
  else
    let v₂ ← value c₂
    if v₂ % 4 = 0 then
      some [.ofNat (v₀ * 4 + v₁ / 16), .ofNat (v₁ % 16 * 16 + v₂ / 4)]
    else none

def decodeGroup (c₀ c₁ c₂ c₃ : Char) : Option (List UInt8) := do
  let v₀ ← value c₀
  let v₁ ← value c₁
  let v₂ ← value c₂
  let v₃ ← value c₃
  some [.ofNat (v₀ * 4 + v₁ / 16), .ofNat (v₁ % 16 * 16 + v₂ / 4), .ofNat (v₂ % 4 * 64 + v₃)]

def decode : List Char → Option (List UInt8)
  | [] => some []
  | c₀ :: c₁ :: c₂ :: c₃ :: rest =>
    if c₃ = '=' ∧ rest = [] then decodePadded c₀ c₁ c₂
    else do
      let group ← decodeGroup c₀ c₁ c₂ c₃
      let bytes ← decode rest
      some (group ++ bytes)
  | _ => none

theorem value_digit {n : ℕ} (hn : n < 64) : value (digit n) = some n := by
  have halphabet : alphabet = _ := String.toList_ofList
  unfold value digit
  rw [halphabet]
  revert n
  decide +kernel

theorem digit_ne_pad {n : ℕ} (hn : n < 64) : digit n ≠ '=' := by
  have halphabet : alphabet = _ := String.toList_ofList
  unfold digit
  rw [halphabet]
  revert n
  decide +kernel

theorem ofNat_eq {a : UInt8} {n : ℕ} (h : n = a.toNat) : UInt8.ofNat n = a := by
  rw [h, UInt8.ofNat_toNat]

theorem decode_encode (bytes : List UInt8) : decode (encode bytes) = some bytes := by
  induction bytes using encode.induct with
  | case1 => rfl
  | case2 a =>
      have ha := a.toNat_lt
      have hbyte : UInt8.ofNat (a.toNat / 4 * 4 + a.toNat % 4 * 16 / 16) = a := ofNat_eq (by omega)
      have hzero : a.toNat % 4 * 16 % 16 = 0 := by omega
      simp only [encode, decode, and_self, if_true, decodePadded]
      rw [value_digit (by omega), value_digit (by omega)]
      simp only [Option.bind_eq_bind, Option.bind_some, hzero, hbyte, if_true]
  | case3 a b =>
      have ha := a.toNat_lt
      have hb := b.toNat_lt
      have hpad := digit_ne_pad (n := b.toNat % 16 * 4) (by omega)
      have hbyte₀ : UInt8.ofNat
          (a.toNat / 4 * 4 + (a.toNat % 4 * 16 + b.toNat / 16) / 16) = a := ofNat_eq (by omega)
      have hbyte₁ : UInt8.ofNat
          ((a.toNat % 4 * 16 + b.toNat / 16) % 16 * 16 + b.toNat % 16 * 4 / 4) = b :=
        ofNat_eq (by omega)
      have hzero : b.toNat % 16 * 4 % 4 = 0 := by omega
      simp only [encode, decode, and_self, if_true, decodePadded, hpad, if_false]
      rw [value_digit (by omega), value_digit (by omega), value_digit (by omega)]
      simp only [Option.bind_eq_bind, Option.bind_some, hzero, hbyte₀, hbyte₁, if_true]
  | case4 a b c rest ih =>
      have ha := a.toNat_lt
      have hb := b.toNat_lt
      have hc := c.toNat_lt
      have hpad := digit_ne_pad (n := c.toNat % 64) (by omega)
      have hbyte₀ : UInt8.ofNat
          (a.toNat / 4 * 4 + (a.toNat % 4 * 16 + b.toNat / 16) / 16) = a := ofNat_eq (by omega)
      have hbyte₁ : UInt8.ofNat ((a.toNat % 4 * 16 + b.toNat / 16) % 16 * 16 +
          (b.toNat % 16 * 4 + c.toNat / 64) / 4) = b := ofNat_eq (by omega)
      have hbyte₂ : UInt8.ofNat
          ((b.toNat % 16 * 4 + c.toNat / 64) % 4 * 64 + c.toNat % 64) = c := ofNat_eq (by omega)
      simp only [encode, decode, hpad, false_and, if_false, decodeGroup]
      rw [value_digit (by omega), value_digit (by omega), value_digit (by omega),
        value_digit (by omega), ih]
      simp only [Option.bind_eq_bind, Option.bind_some, hbyte₀, hbyte₁, hbyte₂, List.cons_append,
        List.nil_append]

end Base64
