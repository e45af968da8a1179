import Rustack.Lib.Hex
import Rustack.Lib.Utf8

/-!
# Percent-encoding

Bytes are written as the characters that are kept, and as `%` and two digits otherwise.  Reading
undoes this, and takes a `%` without two digits for itself.
-/

namespace Percent

open List Hex

def hexValue (b : UInt8) : Option ℕ := Hex.value (Char.ofNat b.toNat)

/-- The byte that two digits stand for. -/
def escaped (high low : UInt8) : Option UInt8 := do
  let h ← hexValue high
  let l ← hexValue low
  return UInt8.ofNat (16 * h + l)

def decode : List UInt8 → List UInt8
  | [] => []
  | [b] => [b]
  | [b, c] => [b, c]
  | b :: high :: low :: rest =>
    if b = 37 then
      match escaped high low with
      | some byte => byte :: decode rest
      | none => b :: decode (high :: low :: rest)
    else b :: decode (high :: low :: rest)

section
variable (keep : UInt8 → Bool)

def encodeByte (b : UInt8) : List Char :=
  if b < 128 && keep b then [Char.ofNat b.toNat]
  else ['%', Hex.upper (b.toNat / 16), Hex.upper (b.toNat % 16)]

def encode (bytes : List UInt8) : List Char := bytes.flatMap (encodeByte keep)

end

variable {keep : UInt8 → Bool}

/-- A byte that does not start an escape stands for itself. -/
theorem decode_cons_of_ne {b : UInt8} (h : b ≠ 37) (rest : List UInt8) :
    decode (b :: rest) = b :: decode rest := by
  match rest with
  | [] => rfl
  | [c] => rfl
  | high :: low :: rest => rw [decode, if_neg h]

theorem decode_cons_ne_nil (b : UInt8) (rest : List UInt8) : decode (b :: rest) ≠ [] := by
  match rest with
  | [] => exact cons_ne_nil _ _
  | [c] => exact cons_ne_nil _ _
  | high :: low :: rest =>
      rw [decode]
      split
      · split <;> exact cons_ne_nil _ _
      · exact cons_ne_nil _ _

theorem decode_escaped {high low byte : UInt8} (h : escaped high low = some byte)
    (rest : List UInt8) : decode (37 :: high :: low :: rest) = byte :: decode rest := by
  rw [decode, if_pos rfl, h]

theorem escaped_upper (b : UInt8) :
    ∃ high low, Utf8.encode [upper (b.toNat / 16), upper (b.toNat % 16)] = [high, low] ∧
      escaped high low = some b := by
  have hall : ∀ n < 16, ∃ d : UInt8, d < 128 ∧ Char.ofNat d.toNat = upper n := by
    intro n hn
    refine ⟨UInt8.ofNat (upper n).toNat, ?_⟩
    have hall : ∀ n < 16, UInt8.ofNat (upper n).toNat < 128 ∧
        Char.ofNat (UInt8.ofNat (upper n).toNat).toNat = upper n := by decide
    exact hall n hn
  obtain ⟨high, hhigh, hhigheq⟩ := hall _ (div_lt b)
  obtain ⟨low, hlow, hloweq⟩ := hall _ (mod_lt b)
  refine ⟨high, low, ?_, ?_⟩
  · rw [← hhigheq, ← hloweq, Utf8.encode_cons, Utf8.encode_cons, Utf8.encodeChar_ofNat hhigh,
      Utf8.encodeChar_ofNat hlow]
    rfl
  · simp only [escaped, hexValue, hhigheq, hloweq, value_upper (div_lt b),
      value_upper (mod_lt b)]
    have hb : 16 * (b.toNat / 16) + b.toNat % 16 = b.toNat := Nat.div_add_mod _ _
    exact congrArg some ((congrArg UInt8.ofNat hb).trans UInt8.ofNat_toNat)

theorem encode_cons (b : UInt8) (bytes : List UInt8) :
    encode keep (b :: bytes) = encodeByte keep b ++ encode keep bytes := rfl

/-- Reading undoes writing, if the sign of the escapes is not kept. -/
theorem decode_encode (hkeep : keep 37 = false) (bytes : List UInt8) :
    decode (Utf8.encode (encode keep bytes)) = bytes := by
  induction bytes with
  | nil => rfl
  | cons b bytes ih =>
      rw [encode_cons, Utf8.encode_append]
      unfold encodeByte
      split
      · next h =>
          rw [Bool.and_eq_true, decide_eq_true_eq] at h
          have hne : b ≠ 37 := by
            rintro rfl
            rw [hkeep] at h
            cases h.2
          have hone : Utf8.encode [Char.ofNat b.toNat] = [b] := by
            rw [Utf8.encode_cons, Utf8.encodeChar_ofNat h.1]
            rfl
          rw [hone, singleton_append, decode_cons_of_ne hne, ih]
      · next h =>
          obtain ⟨high, low, hdigits, hbyte⟩ := escaped_upper b
          have hthree : Utf8.encode ['%', upper (b.toNat / 16), upper (b.toNat % 16)] =
              [37, high, low] := by
            rw [Utf8.encode_cons, hdigits]
            rfl
          rw [hthree]
          exact (decode_escaped hbyte _).trans (congrArg _ ih)

theorem encode_injective (hkeep : keep 37 = false) : Function.Injective (encode keep) := by
  intro x y h
  have hdecode := decode_encode hkeep x
  rw [h, decode_encode hkeep y] at hdecode
  exact hdecode.symm

/-- What is written has no character besides those that are kept, digits and the sign. -/
theorem not_mem_encode {c : Char} (hc : c.toNat < 128) (hkeep : keep (UInt8.ofNat c.toNat) = false)
    (hescape : c ∉ "%0123456789ABCDEF".toList) (bytes : List UInt8) : c ∉ encode keep bytes := by
  have hupper : ∀ n < 16, c ≠ upper n := by
    have hall : ∀ n < 16, upper n ∈ "%0123456789ABCDEF".toList := by decide
    rintro n hn rfl
    exact hescape (hall n hn)
  intro hmem
  obtain ⟨b, -, hb⟩ := mem_flatMap.mp hmem
  unfold encodeByte at hb
  split at hb
  · next h =>
      rw [Bool.and_eq_true, decide_eq_true_eq] at h
      have hbyte : UInt8.ofNat c.toNat = b := by
        have hlt : b.toNat < 128 := h.1
        rw [mem_singleton.mp hb, Utf8.toNat_ofNat_of_valid (Or.inl (by omega))]
        simp
      rw [hbyte, h.2] at hkeep
      cases hkeep
  · rcases mem_cons.mp hb with rfl | hb
    · exact hescape (by decide)
    · rcases mem_cons.mp hb with hb | hb
      · exact hupper _ (div_lt b) hb
      · exact hupper _ (mod_lt b) (mem_singleton.mp hb)

end Percent
