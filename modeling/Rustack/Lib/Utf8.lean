import Mathlib.Data.Char
import Rustack.Lib.Needle

/-!
# UTF-8 as a list of bytes

The encoding of a text, the decoding that puts U+FFFD in place of every
ill-formed chunk, and two facts about them: decoding undoes encoding, and
comparing the encodings byte by byte is comparing the texts by code point.
-/

namespace Utf8

open List UInt8
open String (utf8EncodeChar)

def encode (cs : List Char) : List UInt8 := cs.flatMap String.utf8EncodeChar

def compareBytes : List UInt8 → List UInt8 → Ordering := List.compareLex compare

def compareChars : List Char → List Char → Ordering := List.compareLex compare

def replacement : Char := '\uFFFD'

def isContinuation (b : UInt8) : Bool := 0x80 ≤ b && b ≤ 0xBF

/-- The second bytes that keep a three byte sequence well formed: no overlong
forms after `E0`, no surrogates after `ED`. -/
def isSecondOfThree (first second : UInt8) : Bool :=
  if first = 0xE0 then 0xA0 ≤ second && second ≤ 0xBF
  else if first = 0xED then 0x80 ≤ second && second ≤ 0x9F
  else isContinuation second

/-- The same for four bytes: no overlong forms after `F0`, nothing above
U+10FFFF after `F4`. -/
def isSecondOfFour (first second : UInt8) : Bool :=
  if first = 0xF0 then 0x90 ≤ second && second ≤ 0xBF
  else if first = 0xF4 then 0x80 ≤ second && second ≤ 0x8F
  else isContinuation second

def payload (b : UInt8) : ℕ := b.toNat % 64

/-- Take one character or one ill-formed chunk off the front.  A chunk is as long
as the sequence it starts stays well formed. -/
def chunk (first : UInt8) (rest : List UInt8) : Char × List UInt8 :=
  if first < 0x80 then (Char.ofNat first.toNat, rest)
  else if 0xC2 ≤ first && first ≤ 0xDF then
    match rest with
    | b₁ :: r₁ =>
      if isContinuation b₁ then (Char.ofNat (first.toNat % 32 * 64 + payload b₁), r₁)
      else (replacement, rest)
    | [] => (replacement, [])
  else if 0xE0 ≤ first && first ≤ 0xEF then
    match rest with
    | b₁ :: r₁ =>
      if isSecondOfThree first b₁ then
        match r₁ with
        | b₂ :: r₂ =>
          if isContinuation b₂ then
            (Char.ofNat (first.toNat % 16 * 4096 + payload b₁ * 64 + payload b₂), r₂)
          else (replacement, r₁)
        | [] => (replacement, [])
      else (replacement, rest)
    | [] => (replacement, [])
  else if 0xF0 ≤ first && first ≤ 0xF4 then
    match rest with
    | b₁ :: r₁ =>
      if isSecondOfFour first b₁ then
        match r₁ with
        | b₂ :: r₂ =>
          if isContinuation b₂ then
            match r₂ with
            | b₃ :: r₃ =>
              if isContinuation b₃ then
                (Char.ofNat (first.toNat % 8 * 262144 + payload b₁ * 4096 + payload b₂ * 64 +
                  payload b₃), r₃)
              else (replacement, r₂)
            | [] => (replacement, [])
          else (replacement, r₁)
        | [] => (replacement, [])
      else (replacement, rest)
    | [] => (replacement, [])
  else (replacement, rest)

def decodeFuel : ℕ → List UInt8 → List Char
  | 0, _ => []
  | _ + 1, [] => []
  | fuel + 1, first :: rest => (chunk first rest).1 :: decodeFuel fuel (chunk first rest).2

/-- Every step takes at least one byte, so the length is fuel enough. -/
def decodeLossy (bytes : List UInt8) : List Char := decodeFuel bytes.length bytes

theorem toNat_ofNat_of_lt {n : ℕ} (hn : n < 256) : (ofNat n).toNat = n := by
  simpa using Nat.mod_eq_of_lt hn

theorem payload_ofNat {n : ℕ} (hn : n < 64) : payload (ofNat (n + 0x80)) = n := by
  simp only [payload]
  rw [toNat_ofNat_of_lt (by omega)]
  omega

theorem isContinuation_iff {b : UInt8} :
    isContinuation b = true ↔ 0x80 ≤ b.toNat ∧ b.toNat ≤ 0xBF := by
  simp [isContinuation, le_iff_toNat_le]

theorem isContinuation_ofNat {n : ℕ} (hn : n < 64) :
    isContinuation (ofNat (n + 0x80)) = true := by
  rw [isContinuation_iff, toNat_ofNat_of_lt (by omega)]
  omega

theorem isSecondOfThree_iff {first second : UInt8} :
    isSecondOfThree first second = true ↔
      0x80 ≤ second.toNat ∧ second.toNat ≤ 0xBF ∧ (first.toNat = 0xE0 → 0xA0 ≤ second.toNat) ∧
        (first.toNat = 0xED → second.toNat ≤ 0x9F) := by
  simp only [isSecondOfThree, ← UInt8.toNat_inj, UInt8.reduceToNat]
  split_ifs with h₁ h₂
  · simp [le_iff_toNat_le, h₁]; omega
  · simp [UInt8.le_iff_toNat_le, h₂]; omega
  · simp [isContinuation_iff, h₁, h₂]

theorem isSecondOfFour_iff {first second : UInt8} :
    isSecondOfFour first second = true ↔
      0x80 ≤ second.toNat ∧ second.toNat ≤ 0xBF ∧ (first.toNat = 0xF0 → 0x90 ≤ second.toNat) ∧
        (first.toNat = 0xF4 → second.toNat ≤ 0x8F) := by
  simp only [isSecondOfFour, ← UInt8.toNat_inj, UInt8.reduceToNat]
  split_ifs with h₁ h₂
  · simp [le_iff_toNat_le, h₁]; omega
  · simp [UInt8.le_iff_toNat_le, h₂]; omega
  · simp [isContinuation_iff, h₁, h₂]

/-- The lead byte alone decides how long a sequence may get. -/
theorem chunk_of_two {first : UInt8} (h : 0xC2 ≤ first.toNat ∧ first.toNat ≤ 0xDF) (b₁ : UInt8)
    (rest : List UInt8) :
    chunk first (b₁ :: rest) =
      if isContinuation b₁ then (Char.ofNat (first.toNat % 32 * 64 + payload b₁), rest)
      else (replacement, b₁ :: rest) := by
  have h₁ : ¬ first < 0x80 := by simp [lt_iff_toNat_lt]; omega
  have h₂ : (0xC2 ≤ first && first ≤ 0xDF) = true := by simp [le_iff_toNat_le, h]
  simp [chunk, h₁, h₂]

theorem chunk_of_three {first : UInt8} (h : 0xE0 ≤ first.toNat ∧ first.toNat ≤ 0xEF)
    (b₁ b₂ : UInt8) (rest : List UInt8) (hb : isSecondOfThree first b₁ = true) :
    chunk first (b₁ :: b₂ :: rest) =
      if isContinuation b₂ then
        (Char.ofNat (first.toNat % 16 * 4096 + payload b₁ * 64 + payload b₂), rest)
      else (replacement, b₂ :: rest) := by
  have h₁ : ¬ first < 0x80 := by simp [lt_iff_toNat_lt]; omega
  have h₂ : ¬ (0xC2 ≤ first && first ≤ 0xDF) = true := by simp [le_iff_toNat_le]; omega
  have h₃ : (0xE0 ≤ first && first ≤ 0xEF) = true := by simp [le_iff_toNat_le, h]
  simp only [chunk, h₁, h₂, h₃, hb, if_true, if_false]
  simp

theorem chunk_of_four {first : UInt8} (h : 0xF0 ≤ first.toNat ∧ first.toNat ≤ 0xF4)
    (b₁ b₂ b₃ : UInt8) (rest : List UInt8) (hb : isSecondOfFour first b₁ = true)
    (hb₂ : isContinuation b₂ = true) :
    chunk first (b₁ :: b₂ :: b₃ :: rest) =
      if isContinuation b₃ then
        (Char.ofNat (first.toNat % 8 * 262144 + payload b₁ * 4096 + payload b₂ * 64 +
          payload b₃), rest)
      else (replacement, b₃ :: rest) := by
  have h₁ : ¬ first < 0x80 := by simp [lt_iff_toNat_lt]; omega
  have h₂ : ¬ (0xC2 ≤ first && first ≤ 0xDF) = true := by simp [le_iff_toNat_le]; omega
  have h₃ : ¬ (0xE0 ≤ first && first ≤ 0xEF) = true := by simp [le_iff_toNat_le]; omega
  have h₄ : (0xF0 ≤ first && first ≤ 0xF4) = true := by simp [le_iff_toNat_le, h]
  simp only [chunk, h₁, h₂, h₃, h₄, hb, hb₂, if_true, if_false]
  simp

/-- The four shapes of an encoded character. -/
inductive Encoded (v : ℕ) : List UInt8 → Prop
  | one (h : v ≤ 0x7F) : Encoded v [UInt8.ofNat v]
  | two (h : 0x80 ≤ v ∧ v ≤ 0x7FF) :
      Encoded v [UInt8.ofNat (v / 64 % 32 + 0xC0), UInt8.ofNat (v % 64 + 0x80)]
  | three (h : 0x800 ≤ v ∧ v ≤ 0xFFFF) (hs : v < 0xD800 ∨ 0xDFFF < v) :
      Encoded v [UInt8.ofNat (v / 4096 % 16 + 0xE0), UInt8.ofNat (v / 64 % 64 + 0x80),
        UInt8.ofNat (v % 64 + 0x80)]
  | four (h : 0x10000 ≤ v ∧ v < 0x110000) :
      Encoded v [UInt8.ofNat (v / 262144 % 8 + 0xF0), UInt8.ofNat (v / 4096 % 64 + 0x80),
        UInt8.ofNat (v / 64 % 64 + 0x80), UInt8.ofNat (v % 64 + 0x80)]

theorem encoded_encodeChar (c : Char) : Encoded c.toNat (utf8EncodeChar c) := by
  have hvalid : c.toNat < 0xD800 ∨ 0xDFFF < c.toNat ∧ c.toNat < 0x110000 := c.valid
  unfold utf8EncodeChar
  change Encoded c.toNat (if c.toNat ≤ 0x7F then _ else if c.toNat ≤ 0x7FF then _
    else if c.toNat ≤ 0xFFFF then _ else _)
  split_ifs with h₁ h₂ h₃
  · exact .one h₁
  · exact .two (by omega)
  · exact .three (by omega) (by omega)
  · exact .four (by omega)

theorem chunk_encoded {v : ℕ} {bytes : List UInt8} (h : Encoded v bytes) :
    ∃ first tail, bytes = first :: tail ∧
      ∀ rest, chunk first (tail ++ rest) = (Char.ofNat v, rest) := by
  cases h with
  | one h =>
      refine ⟨_, _, rfl, fun rest => ?_⟩
      have hb := toNat_ofNat_of_lt (n := v) (by omega)
      have hlt : ofNat v < 0x80 := by
        rw [lt_iff_toNat_lt, hb]
        exact Nat.lt_succ_of_le h
      simp only [chunk, hlt, if_true, hb, nil_append]
  | two h =>
      refine ⟨_, _, rfl, fun rest => ?_⟩
      have hb := toNat_ofNat_of_lt (n := v / 64 % 32 + 0xC0) (by omega)
      rw [cons_append, chunk_of_two (by omega), isContinuation_ofNat (by omega),
        payload_ofNat (by omega), hb, if_pos rfl]
      congr 2
      omega
  | three h hs =>
      refine ⟨_, _, rfl, fun rest => ?_⟩
      have hb := toNat_ofNat_of_lt (n := v / 4096 % 16 + 0xE0) (by omega)
      have hb₁ := toNat_ofNat_of_lt (n := v / 64 % 64 + 0x80) (by omega)
      have hsecond : isSecondOfThree (ofNat (v / 4096 % 16 + 0xE0))
          (ofNat (v / 64 % 64 + 0x80)) = true := by
        rw [isSecondOfThree_iff, hb, hb₁]
        omega
      rw [cons_append, cons_append, chunk_of_three (by omega) _ _ _ hsecond,
        isContinuation_ofNat (by omega), payload_ofNat (by omega), payload_ofNat (by omega), hb,
        if_pos rfl]
      congr 2
      omega
  | four h =>
      refine ⟨_, _, rfl, fun rest => ?_⟩
      have hb := toNat_ofNat_of_lt (n := v / 262144 % 8 + 0xF0) (by omega)
      have hb₁ := toNat_ofNat_of_lt (n := v / 4096 % 64 + 0x80) (by omega)
      have hsecond : isSecondOfFour (ofNat (v / 262144 % 8 + 0xF0))
          (ofNat (v / 4096 % 64 + 0x80)) = true := by
        rw [isSecondOfFour_iff, hb, hb₁]
        omega
      rw [cons_append, cons_append, cons_append,
        chunk_of_four (by omega) _ _ _ _ hsecond (isContinuation_ofNat (by omega)),
        isContinuation_ofNat (by omega), payload_ofNat (by omega), payload_ofNat (by omega),
        payload_ofNat (by omega), hb, if_pos rfl]
      congr 2
      omega

theorem chunk_snd_length (first : UInt8) (rest : List UInt8) :
    (chunk first rest).2.length ≤ rest.length := by
  unfold chunk
  repeat' split
  all_goals simp_all
  all_goals omega

theorem decodeFuel_of_le {fuel fuel' : ℕ} {bytes : List UInt8} (h : bytes.length ≤ fuel)
    (h' : bytes.length ≤ fuel') : decodeFuel fuel bytes = decodeFuel fuel' bytes := by
  induction fuel generalizing fuel' bytes with
  | zero =>
      obtain rfl := length_eq_zero_iff.mp (Nat.le_zero.mp h)
      cases fuel' <;> rfl
  | succ fuel ih =>
      cases bytes with
      | nil => cases fuel' <;> rfl
      | cons first rest =>
          obtain ⟨fuel', rfl⟩ : ∃ n, fuel' = n + 1 := ⟨fuel' - 1, by simp at h'; omega⟩
          have hlen := chunk_snd_length first rest
          simp only [length_cons] at h h'
          simp only [decodeFuel]
          rw [ih (by omega) (show _ ≤ fuel' by omega)]

theorem decodeLossy_cons (first : UInt8) (rest : List UInt8) :
    decodeLossy (first :: rest) =
      (chunk first rest).1 :: decodeLossy (chunk first rest).2 := by
  simp only [decodeLossy, length_cons, decodeFuel]
  rw [decodeFuel_of_le (chunk_snd_length first rest) le_rfl]

@[simp] theorem encode_nil : encode [] = [] := rfl

@[simp] theorem encode_cons (c : Char) (cs : List Char) :
    encode (c :: cs) = utf8EncodeChar c ++ encode cs := rfl

@[simp] theorem encode_append (cs ds : List Char) : encode (cs ++ ds) = encode cs ++ encode ds := by
  simp [encode]

theorem decodeLossy_encode_append (cs : List Char) (rest : List UInt8) :
    decodeLossy (encode cs ++ rest) = cs ++ decodeLossy rest := by
  induction cs with
  | nil => rfl
  | cons c cs ih =>
      obtain ⟨first, tail, hc, hchunk⟩ := chunk_encoded (encoded_encodeChar c)
      rw [encode_cons, hc, append_assoc, cons_append, decodeLossy_cons, hchunk,
        Char.ofNat_toNat, ih, cons_append]

@[simp] theorem decodeLossy_encode (cs : List Char) : decodeLossy (encode cs) = cs := by
  simpa [decodeLossy, decodeFuel] using decodeLossy_encode_append cs []

/-- The characters of a well formed encoding. -/
def decode? (bytes : List UInt8) : Option (List Char) :=
  if encode (decodeLossy bytes) = bytes then some (decodeLossy bytes) else none

theorem decode?_eq_some_iff {bytes : List UInt8} {cs : List Char} :
    decode? bytes = some cs ↔ encode cs = bytes := by
  unfold decode?
  constructor
  · intro h
    split at h
    · next hencode =>
        cases h
        exact hencode
    · cases h
  · rintro rfl
    rw [decodeLossy_encode, if_pos rfl]

theorem encode_injective : Function.Injective encode :=
  Function.LeftInverse.injective decodeLossy_encode

theorem compare_ofNat {x y : ℕ} (hx : x < 256) (hy : y < 256) :
    compare (ofNat x) (ofNat y) = compare x y := by
  rw [← toNat_ofNat_of_lt hx, ← toNat_ofNat_of_lt hy]
  simp only [UInt8.ofNat_toNat]
  simp only [compare, compareOfLessAndEq, UInt8.lt_iff_toNat_lt, ← UInt8.toNat_inj]

theorem compareBytes_cons {x y : ℕ} (hx : x < 256) (hy : y < 256) (s t : List UInt8) :
    compareBytes (ofNat x :: s) (ofNat y :: t) =
      (compare x y).then (compareBytes s t) := by
  rw [compareBytes, List.compareLex_cons_cons, compare_ofNat hx hy]

/-- The first byte that differs decides. -/
theorem compareBytes_cons_lt {x y : ℕ} {s t : List UInt8} (hx : x < 256) (hy : y < 256)
    (h : x < y ∨ x = y ∧ compareBytes s t = .lt) :
    compareBytes (ofNat x :: s) (ofNat y :: t) = .lt := by
  rw [compareBytes_cons hx hy]
  rcases h with h | ⟨rfl, h⟩
  · rw [Nat.compare_eq_lt.mpr h, Ordering.lt_then]
  · rw [Nat.compare_eq_eq.mpr rfl, Ordering.eq_then, h]

theorem compareBytes_encoded_lt {v w : ℕ} {a b : List UInt8} (ha : Encoded v a)
    (hb : Encoded w b) (hlt : v < w) (s t : List UInt8) :
    compareBytes (a ++ s) (b ++ t) = .lt := by
  cases ha with
  | one h =>
      cases hb with
      | one h' => exact compareBytes_cons_lt (by omega) (by omega) (Or.inl hlt)
      | two | three | four => exact compareBytes_cons_lt (by omega) (by omega) (Or.inl (by omega))
  | two h =>
      cases hb with
      | one h' => omega
      | two h' =>
          refine compareBytes_cons_lt (by omega) (by omega) ?_
          by_cases h₁ : v / 64 < w / 64
          · exact Or.inl (by omega)
          · exact Or.inr ⟨by omega,
              compareBytes_cons_lt (by omega) (by omega) (Or.inl (by omega))⟩
      | three | four => exact compareBytes_cons_lt (by omega) (by omega) (Or.inl (by omega))
  | three h =>
      cases hb with
      | one h' => omega
      | two h' => omega
      | three h' =>
          refine compareBytes_cons_lt (by omega) (by omega) ?_
          by_cases h₁ : v / 4096 < w / 4096
          · exact Or.inl (by omega)
          refine Or.inr ⟨by omega, compareBytes_cons_lt (by omega) (by omega) ?_⟩
          by_cases h₂ : v / 64 < w / 64
          · exact Or.inl (by omega)
          · exact Or.inr ⟨by omega,
              compareBytes_cons_lt (by omega) (by omega) (Or.inl (by omega))⟩
      | four h' => exact compareBytes_cons_lt (by omega) (by omega) (Or.inl (by omega))
  | four h =>
      cases hb with
      | one h' => omega
      | two h' => omega
      | three h' => omega
      | four h' =>
          refine compareBytes_cons_lt (by omega) (by omega) ?_
          by_cases h₁ : v / 262144 < w / 262144
          · exact Or.inl (by omega)
          refine Or.inr ⟨by omega, compareBytes_cons_lt (by omega) (by omega) ?_⟩
          by_cases h₂ : v / 4096 < w / 4096
          · exact Or.inl (by omega)
          refine Or.inr ⟨by omega, compareBytes_cons_lt (by omega) (by omega) ?_⟩
          by_cases h₃ : v / 64 < w / 64
          · exact Or.inl (by omega)
          · exact Or.inr ⟨by omega,
              compareBytes_cons_lt (by omega) (by omega) (Or.inl (by omega))⟩

instance : Std.TransCmp compareBytes := inferInstanceAs (Std.TransCmp (List.compareLex compare))

instance : Std.LawfulEqCmp compareBytes :=
  inferInstanceAs (Std.LawfulEqCmp (List.compareLex compare))

theorem compareLex_append_self {α : Type} {cmp : α → α → Ordering} [Std.ReflCmp cmp]
    (front s t : List α) :
    List.compareLex cmp (front ++ s) (front ++ t) = List.compareLex cmp s t := by
  induction front with
  | nil => rfl
  | cons x front ih =>
      have hx : cmp x x = .eq := Std.ReflCmp.compare_self
      rw [List.cons_append, List.cons_append, List.compareLex_cons_cons, hx, Ordering.eq_then, ih]

theorem isLE_compareLex_append {α : Type} {cmp : α → α → Ordering} [Std.ReflCmp cmp]
    (front rest : List α) : (List.compareLex cmp front (front ++ rest)).isLE = true := by
  have h : List.compareLex cmp (front ++ []) (front ++ rest) = _ :=
    compareLex_append_self front [] rest
  rw [List.append_nil] at h
  rw [h]
  cases rest <;> rfl

theorem toNat_lt_of_compare {c d : Char} (h : compare c d = .lt) : c.toNat < d.toNat := by
  have : c < d := by
    simpa [compare, compareOfLessAndEq_eq_lt] using h
  exact this

theorem compareBytes_encode (cs ds : List Char) :
    compareBytes (encode cs) (encode ds) = compareChars cs ds := by
  induction cs generalizing ds with
  | nil =>
      cases ds with
      | nil => rfl
      | cons d ds =>
          obtain ⟨first, tail, hd, -⟩ := chunk_encoded (encoded_encodeChar d)
          rw [encode_nil, encode_cons, hd]
          rfl
  | cons c cs ih =>
      obtain ⟨first, tail, hc, -⟩ := chunk_encoded (encoded_encodeChar c)
      cases ds with
      | nil =>
          rw [encode_nil, encode_cons, hc]
          rfl
      | cons d ds =>
          rw [compareChars, List.compareLex_cons_cons, encode_cons, encode_cons]
          cases hcmp : compare c d with
          | lt =>
              exact compareBytes_encoded_lt (encoded_encodeChar c) (encoded_encodeChar d)
                (toNat_lt_of_compare hcmp) _ _
          | eq =>
              obtain rfl := Std.LawfulEqCmp.eq_of_compare hcmp
              rw [compareBytes, compareLex_append_self, Ordering.eq_then]
              exact ih ds
          | gt =>
              have hdc := Std.OrientedCmp.lt_of_gt hcmp
              exact Std.OrientedCmp.gt_of_lt (compareBytes_encoded_lt (encoded_encodeChar d)
                (encoded_encodeChar c) (toNat_lt_of_compare hdc) _ _)

/-- Add one to the last byte. -/
def incrementLast (bytes : List UInt8) : List UInt8 :=
  match bytes.getLast? with
  | some last => bytes.dropLast ++ [last + 1]
  | none => []

theorem incrementLast_append {bytes : List UInt8} (h : bytes ≠ []) (front : List UInt8) :
    incrementLast (front ++ bytes) = front ++ incrementLast bytes := by
  have hlast := getLast?_eq_some_getLast h
  simp only [incrementLast, getLast?_append, hlast, Option.some_or,
    dropLast_append_of_ne_nil h, append_assoc]

/-- The character with which the decoding of an incremented encoding starts. -/
def incremented (c : Char) : Char :=
  if c.toNat = 0x7F ∨ 0x80 ≤ c.toNat ∧ c.toNat % 64 = 63 then replacement
  else Char.ofNat (c.toNat + 1)

theorem ofNat_add_one (n : ℕ) : ofNat n + 1 = ofNat (n + 1) := by
  simp [ofNat_add]

theorem not_isContinuation_ofNat {n : ℕ} (hn : n = 63) :
    isContinuation (ofNat (n + 0x80 + 1)) = false := by
  subst hn
  decide

theorem decodeLossy_incrementLast (c : Char) :
    ∃ tail, decodeLossy (incrementLast (utf8EncodeChar c)) = incremented c :: tail := by
  have hshape := encoded_encodeChar c
  simp only [incremented]
  generalize c.toNat = v at hshape ⊢
  generalize utf8EncodeChar c = bytes at hshape
  -- below the last value of its block the incremented sequence encodes the next character
  have hnext : ∀ {next : List UInt8}, Encoded (v + 1) next →
      ∃ tail, decodeLossy next = Char.ofNat (v + 1) :: tail := by
    intro next hnext
    obtain ⟨first, tail, rfl, hchunk⟩ := chunk_encoded hnext
    have := hchunk []
    rw [append_nil] at this
    exact ⟨_, by rw [decodeLossy_cons, this]⟩
  cases hshape with
  | one h =>
      simp only [incrementLast, getLast?_singleton, dropLast_singleton, nil_append,
        ofNat_add_one]
      split_ifs with hlast
      · obtain rfl : v = 0x7F := by omega
        exact ⟨[], rfl⟩
      · exact hnext (.one (by omega))
  | two h =>
      simp only [incrementLast, getLast?_cons_cons, getLast?_singleton,
        dropLast_cons_cons, dropLast_singleton, cons_append, nil_append,
        ofNat_add_one]
      split_ifs with hlast
      · have hb := toNat_ofNat_of_lt (n := v / 64 % 32 + 0xC0) (by omega)
        refine ⟨decodeLossy [ofNat (v % 64 + 0x80 + 1)], ?_⟩
        rw [decodeLossy_cons, chunk_of_two (by omega), not_isContinuation_ofNat (by omega)]
        rfl
      · have := hnext (.two (by omega))
        rwa [show (v + 1) / 64 = v / 64 by omega,
          show (v + 1) % 64 + 0x80 = v % 64 + 0x80 + 1 by omega] at this
  | three h hs =>
      simp only [incrementLast, getLast?_cons_cons, getLast?_singleton,
        dropLast_cons_cons, dropLast_singleton, cons_append, nil_append,
        ofNat_add_one]
      split_ifs with hlast
      · have hb := toNat_ofNat_of_lt (n := v / 4096 % 16 + 0xE0) (by omega)
        have hb₁ := toNat_ofNat_of_lt (n := v / 64 % 64 + 0x80) (by omega)
        have hsecond : isSecondOfThree (ofNat (v / 4096 % 16 + 0xE0))
            (ofNat (v / 64 % 64 + 0x80)) = true := by
          rw [isSecondOfThree_iff, hb, hb₁]
          omega
        refine ⟨decodeLossy [ofNat (v % 64 + 0x80 + 1)], ?_⟩
        rw [decodeLossy_cons, chunk_of_three (by omega) _ _ _ hsecond,
          not_isContinuation_ofNat (by omega)]
        rfl
      · have := hnext (.three (by omega) (by omega))
        rwa [show (v + 1) / 64 = v / 64 by omega, show (v + 1) / 4096 = v / 4096 by omega,
          show (v + 1) % 64 + 0x80 = v % 64 + 0x80 + 1 by omega] at this
  | four h =>
      simp only [incrementLast, getLast?_cons_cons, getLast?_singleton,
        dropLast_cons_cons, dropLast_singleton, cons_append, nil_append,
        ofNat_add_one]
      split_ifs with hlast
      · have hb := toNat_ofNat_of_lt (n := v / 262144 % 8 + 0xF0) (by omega)
        have hb₁ := toNat_ofNat_of_lt (n := v / 4096 % 64 + 0x80) (by omega)
        have hsecond : isSecondOfFour (ofNat (v / 262144 % 8 + 0xF0))
            (ofNat (v / 4096 % 64 + 0x80)) = true := by
          rw [isSecondOfFour_iff, hb, hb₁]
          omega
        refine ⟨decodeLossy [ofNat (v % 64 + 0x80 + 1)], ?_⟩
        rw [decodeLossy_cons, chunk_of_four (by omega) _ _ _ _ hsecond
          (isContinuation_ofNat (by omega)), not_isContinuation_ofNat (by omega)]
        rfl
      · have := hnext (.four (by omega))
        rwa [show (v + 1) / 64 = v / 64 by omega, show (v + 1) / 4096 = v / 4096 by omega,
          show (v + 1) / 262144 = v / 262144 by omega,
          show (v + 1) % 64 + 0x80 = v % 64 + 0x80 + 1 by omega] at this

theorem toNat_ofNat_of_valid {n : ℕ} (h : n.isValidChar) : (Char.ofNat n).toNat = n := by
  rw [Char.ofNat, dif_pos h]
  rfl

theorem compare_eq_lt {c d : Char} (h : c.toNat < d.toNat) : compare c d = .lt :=
  compareOfLessAndEq_eq_lt.mpr h

/-- Incrementing a character moves up, except for the characters from U+FFFF on with
a full last byte: those come back as U+FFFD, which lies below them. -/
theorem compare_incremented (c : Char) :
    compare c (incremented c) =
      if 0xFFFF ≤ c.toNat ∧ c.toNat % 64 = 63 then .gt else .lt := by
  have hvalid : c.toNat < 0xD800 ∨ 0xDFFF < c.toNat ∧ c.toNat < 0x110000 := c.valid
  have hrep : replacement.toNat = 0xFFFD := rfl
  unfold incremented
  split_ifs with h₁ h₂ h₂
  · exact Std.OrientedCmp.gt_of_lt (compare_eq_lt (by omega))
  · exact compare_eq_lt (by omega)
  · omega
  · refine compare_eq_lt ?_
    rw [toNat_ofNat_of_valid (show Nat.isValidChar _ by unfold Nat.isValidChar; omega)]
    omega

theorem encodeChar_ne_nil (c : Char) : utf8EncodeChar c ≠ [] := by
  obtain ⟨first, tail, h, -⟩ := chunk_encoded (encoded_encodeChar c)
  rw [h]
  exact cons_ne_nil _ _

/-- No byte of an encoding is `FF`. -/
theorem ne_of_mem_encodeChar {c : Char} {byte : UInt8} (h : byte ∈ utf8EncodeChar c) :
    byte ≠ 0xFF := by
  have hshape := encoded_encodeChar c
  have hne : ∀ {n : ℕ}, n < 0xFF → ofNat n ≠ 0xFF := by
    intro n hn heq
    have := congrArg toNat heq
    rw [toNat_ofNat_of_lt (by omega)] at this
    exact absurd this (by simp; omega)
  generalize c.toNat = v at hshape
  generalize utf8EncodeChar c = bytes at hshape h
  cases hshape <;> simp only [mem_cons, not_mem_nil, or_false] at h
  · exact h ▸ hne (by omega)
  · rcases h with rfl | rfl <;> exact hne (by omega)
  · rcases h with rfl | rfl | rfl <;> exact hne (by omega)
  · rcases h with rfl | rfl | rfl | rfl <;> exact hne (by omega)

/-- An ASCII byte stands for its character alone. -/
theorem encodeChar_of_mem {b : UInt8} (hb : b < 128) {c : Char}
    (h : b ∈ utf8EncodeChar c) :
    c = Char.ofNat b.toNat ∧ utf8EncodeChar c = [b] := by
  have hshape := encoded_encodeChar c
  have hne : ∀ {n : ℕ}, 128 ≤ n → n < 256 → b ≠ ofNat n := by
    rintro n hle hlt rfl
    have hsmall : (ofNat n).toNat < 128 := hb
    rw [toNat_ofNat_of_lt hlt] at hsmall
    omega
  have hchar : c = Char.ofNat c.toNat := (Char.ofNat_toNat c).symm
  generalize c.toNat = v at hshape hchar
  generalize utf8EncodeChar c = bytes at hshape h
  cases hshape <;> simp only [mem_cons, not_mem_nil, or_false] at h
  case one hv =>
      rw [h, toNat_ofNat_of_lt (by omega)]
      exact ⟨hchar, rfl⟩
  case two hv => rcases h with h | h <;> exact absurd h (hne (by omega) (by omega))
  case three hv hs => rcases h with h | h | h <;> exact absurd h (hne (by omega) (by omega))
  case four hv => rcases h with h | h | h | h <;> exact absurd h (hne (by omega) (by omega))

/-- An ASCII character is one byte. -/
theorem encodeChar_ofNat {b : UInt8} (h : b < 128) :
    utf8EncodeChar (Char.ofNat b.toNat) = [b] := by
  have hb : b.toNat < 128 := h
  have hval : (Char.ofNat b.toNat).val.toNat = b.toNat := toNat_ofNat_of_valid (Or.inl (by omega))
  unfold utf8EncodeChar
  rw [hval, if_pos (by omega)]
  simp

theorem encode_ascii {bytes : List UInt8} (h : ∀ b ∈ bytes, b < 128) :
    encode (bytes.map fun b => Char.ofNat b.toNat) = bytes := by
  induction bytes with
  | nil => rfl
  | cons b bytes ih =>
      rw [map_cons, encode_cons, ih fun c hc => h c (mem_cons_of_mem b hc),
        encodeChar_ofNat (h b (.head _))]
      rfl

/-! ### ASCII texts -/

theorem chunk_snd_suffix (first : UInt8) (rest : List UInt8) : (chunk first rest).2 <:+ rest := by
  have htail : ∀ (b : UInt8) (r : List UInt8), r <:+ b :: r := fun b r => ⟨[b], rfl⟩
  unfold chunk
  repeat' split
  all_goals first
    | exact suffix_refl _
    | exact htail _ _
    | exact (htail _ _).trans (htail _ _)
    | exact (htail _ _).trans ((htail _ _).trans (htail _ _))

/-- A chunk that gives an ASCII character is that byte. -/
theorem chunk_of_ascii {first : UInt8} {rest : List UInt8}
    (h : (chunk first rest).1.toNat < 128) :
    first < 0x80 ∧ chunk first rest = (Char.ofNat first.toNat, rest) := by
  have hreplacement : ¬replacement.toNat < 128 := by decide
  have hbelow : ∀ n, n < 0xD800 → 128 ≤ n → ¬(Char.ofNat n).toNat < 128 := by
    intro n hlt hle
    rw [toNat_ofNat_of_valid (.inl hlt)]
    exact Nat.not_lt.mpr hle
  have habove : ∀ n, 0xDFFF < n → n < 0x110000 → ¬(Char.ofNat n).toNat < 128 := by
    intro n hlt hle
    rw [toNat_ofNat_of_valid (.inr ⟨hlt, hle⟩)]
    omega
  unfold chunk at h ⊢
  by_cases hfirst : first < 0x80
  · rw [if_pos hfirst]
    exact ⟨hfirst, rfl⟩
  · rw [if_neg hfirst] at h
    exfalso
    split at h
    · next htwo =>
      simp only [Bool.and_eq_true, decide_eq_true_eq, le_iff_toNat_le] at htwo
      change 0xC2 ≤ first.toNat ∧ first.toNat ≤ 0xDF at htwo
      split at h
      · next b₁ r₁ =>
        split_ifs at h with hb₁
        · have hpayload : payload b₁ < 64 := Nat.mod_lt _ (by decide)
          exact hbelow _ (by omega) (by omega) h
        · exact hreplacement h
      · exact hreplacement h
    · split at h
      · next hthree =>
        simp only [Bool.and_eq_true, decide_eq_true_eq, le_iff_toNat_le] at hthree
        change 0xE0 ≤ first.toNat ∧ first.toNat ≤ 0xEF at hthree
        split at h
        · next b₁ r₁ =>
          split_ifs at h with hb₁
          · split at h
            · next b₂ r₂ =>
              split_ifs at h with hb₂
              · have hpayload : payload b₂ < 64 := Nat.mod_lt _ (by decide)
                have hsecond := isSecondOfThree_iff.mp hb₁
                have hvalue : payload b₁ = b₁.toNat - 0x80 := by
                  unfold payload
                  omega
                by_cases hlow : first.toNat ≤ 0xED
                · exact hbelow _ (by omega) (by omega) h
                · exact habove _ (by omega) (by omega) h
              · exact hreplacement h
            · exact hreplacement h
          · exact hreplacement h
        · exact hreplacement h
      · split at h
        · next hfour =>
          simp only [Bool.and_eq_true, decide_eq_true_eq, le_iff_toNat_le] at hfour
          change 0xF0 ≤ first.toNat ∧ first.toNat ≤ 0xF4 at hfour
          split at h
          · next b₁ r₁ =>
            split_ifs at h with hb₁
            · split at h
              · next b₂ r₂ =>
                split_ifs at h with hb₂
                · split at h
                  · next b₃ r₃ =>
                    split_ifs at h with hb₃
                    · have hpayload₂ : payload b₂ < 64 := Nat.mod_lt _ (by decide)
                      have hpayload₃ : payload b₃ < 64 := Nat.mod_lt _ (by decide)
                      have hsecond := isSecondOfFour_iff.mp hb₁
                      have hvalue : payload b₁ = b₁.toNat - 0x80 := by
                        unfold payload
                        omega
                      exact habove _ (by omega) (by omega) h
                    · exact hreplacement h
                  · exact hreplacement h
                · exact hreplacement h
              · exact hreplacement h
            · exact hreplacement h
          · exact hreplacement h
        · exact hreplacement h

theorem prefix_of_decodeLossy {word : List Char} {bytes : List UInt8}
    (hword : ∀ c ∈ word, c.toNat < 128) (h : word <+: decodeLossy bytes) :
    encode word <+: bytes := by
  induction word generalizing bytes with
  | nil => exact nil_prefix
  | cons c word ih =>
      cases bytes with
      | nil => exact absurd (prefix_nil.mp h) (cons_ne_nil _ _)
      | cons first rest =>
          rw [decodeLossy_cons, cons_prefix_cons] at h
          obtain ⟨hc, hrest⟩ := h
          obtain ⟨hfirst, hchunk⟩ := chunk_of_ascii (hc ▸ hword c (.head _))
          rw [hchunk] at hc hrest
          rw [hc, encode_cons, encodeChar_ofNat hfirst, singleton_append,
            cons_prefix_cons]
          exact ⟨rfl, ih (fun d hd => hword d (.tail _ hd)) hrest⟩

/-- Decoding makes up no ASCII text. -/
theorem infix_of_decodeLossy {word : List Char} {bytes : List UInt8}
    (hword : ∀ c ∈ word, c.toNat < 128) (h : word <:+: decodeLossy bytes) :
    encode word <:+: bytes := by
  induction hlength : bytes.length using Nat.strong_induction_on generalizing bytes with
  | _ n ih =>
      subst hlength
      cases bytes with
      | nil =>
          rw [infix_nil.mp h]
          exact nil_infix
      | cons first rest =>
          rw [decodeLossy_cons, infix_cons_iff, ← decodeLossy_cons] at h
          rcases h with h | h
          · exact (prefix_of_decodeLossy hword h).isInfix
          · have hsuffix := chunk_snd_suffix first rest
            have hrest := ih _ (Nat.lt_succ_of_le (chunk_snd_length first rest)) h rfl
            exact hrest.trans (hsuffix.isInfix.trans ⟨[first], [], by simp⟩)

theorem encodeChar_ascii {c : Char} (h : c.toNat < 128) :
    utf8EncodeChar c = [ofNat c.toNat] := by
  have hbyte : ofNat c.toNat < 128 := by
    rw [lt_iff_toNat_lt, toNat_ofNat_of_lt (by omega)]
    exact h
  have hencode := encodeChar_ofNat hbyte
  rwa [toNat_ofNat_of_lt (by omega), Char.ofNat_toNat] at hencode

/-- An ASCII character and another character are not encoded with the same first byte. -/
theorem eq_of_encodeChar_cons {c d : Char} (hc : c.toNat < 128) {s t : List UInt8}
    (h : ofNat c.toNat :: s = utf8EncodeChar d ++ t) : d = c ∧ s = t := by
  have hbyte : ofNat c.toNat < 128 := by
    rw [lt_iff_toNat_lt, toNat_ofNat_of_lt (by omega)]
    exact hc
  cases hd : utf8EncodeChar d with
  | nil => exact absurd hd (encodeChar_ne_nil d)
  | cons b bs =>
      rw [hd, cons_append] at h
      obtain ⟨hb, hs⟩ := cons.inj h
      have hmem : ofNat c.toNat ∈ utf8EncodeChar d := by
        rw [hd, hb]
        exact .head _
      obtain ⟨hchar, hencode⟩ := encodeChar_of_mem hbyte hmem
      rw [hd] at hencode
      rw [toNat_ofNat_of_lt (by omega), Char.ofNat_toNat] at hchar
      rw [(cons.inj hencode).2] at hs
      exact ⟨hchar, hs⟩

theorem prefix_of_encode {word cs : List Char} (hword : ∀ c ∈ word, c.toNat < 128)
    (h : encode word <+: encode cs) : word <+: cs := by
  induction word generalizing cs with
  | nil => exact nil_prefix
  | cons c word ih =>
      have hc := hword c (.head _)
      rw [encode_cons, encodeChar_ascii hc, singleton_append] at h
      cases cs with
      | nil => exact absurd (prefix_nil.mp h) (cons_ne_nil _ _)
      | cons d cs =>
          obtain ⟨rest, hrest⟩ := h
          rw [encode_cons, cons_append] at hrest
          obtain ⟨rfl, htail⟩ := eq_of_encodeChar_cons hc hrest
          exact (prefix_cons_inj _).mpr
            (ih (fun e he => hword e (.tail _ he)) ⟨rest, htail⟩)

/-- Encoding makes up no ASCII text. -/
theorem infix_of_encode {word cs : List Char} (hword : ∀ c ∈ word, c.toNat < 128)
    (h : encode word <:+: encode cs) : word <:+: cs := by
  cases word with
  | nil => exact nil_infix
  | cons c word =>
      have hc := hword c (.head _)
      induction cs with
      | nil =>
          rw [encode_cons, encodeChar_ascii hc] at h
          exact absurd (infix_nil.mp h) (cons_ne_nil _ _)
      | cons d cs ih =>
          by_cases hd : d = c
          · subst hd
            have hcons := h
            rw [encode_cons d cs, encodeChar_ascii hc, singleton_append,
              infix_cons_iff] at hcons
            rcases hcons with hcons | hcons
            · have hpre : encode (d :: word) <+: encode (d :: cs) := by
                rw [encode_cons d cs, encodeChar_ascii hc]
                exact hcons
              exact (prefix_of_encode hword hpre).isInfix
            · exact (ih hcons).trans ⟨[d], [], by simp⟩
          · have hbyte : ofNat c.toNat < 128 := by
              rw [lt_iff_toNat_lt, toNat_ofNat_of_lt (by omega)]
              exact hc
            have hnot : ofNat c.toNat ∉ utf8EncodeChar d := fun hmem => by
              have hchar := (encodeChar_of_mem hbyte hmem).1
              rw [toNat_ofNat_of_lt (by omega), Char.ofNat_toNat] at hchar
              exact hd hchar
            rw [encode_cons, encode_cons, encodeChar_ascii hc, singleton_append] at h
            have hrest := Needle.infix_of_append hnot h
            have hword' : encode (c :: word) <:+: encode cs := by
              rw [encode_cons, encodeChar_ascii hc]
              exact hrest
            exact (ih hword').trans ⟨[d], [], by simp⟩

end Utf8
