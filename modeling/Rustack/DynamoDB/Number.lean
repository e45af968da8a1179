import Mathlib.Algebra.Order.Ring.Int
import Mathlib.Data.List.DropRight

/-!
# Number strings

A number is kept as the string it arrived as and compared after
normalisation: a sign, the significant digits, and the exponent with which
the value is `0.digits * 10 ^ exponent`.  The comparison is a total preorder
on all strings, valid numbers or not; that is what makes it usable as the
order of a tree.
-/

namespace Rustack.DynamoDB

/-! ## Pieces of text -/

/-- The characters `trim` removes. -/
def isWhitespace (c : Char) : Bool :=
  (0x9 ≤ c.toNat && c.toNat ≤ 0xD) || c.toNat = 0x20 || c.toNat = 0x85 || c.toNat = 0xA0 ||
    c.toNat = 0x1680 || (0x2000 ≤ c.toNat && c.toNat ≤ 0x200A) || c.toNat = 0x2028 ||
    c.toNat = 0x2029 || c.toNat = 0x202F || c.toNat = 0x205F || c.toNat = 0x3000

def trim (cs : List Char) : List Char :=
  (cs.dropWhile isWhitespace).rdropWhile isWhitespace

def isAsciiDigit (c : Char) : Bool := '0' ≤ c && c ≤ '9'

def digitValue (c : Char) : ℕ := c.toNat - '0'.toNat

/-- Split at the first character that satisfies `p`; the character itself is dropped. -/
def splitAtFirst (p : Char → Bool) (cs : List Char) : List Char × Option (List Char) :=
  match cs.dropWhile fun c => !p c with
  | [] => (cs, none)
  | _ :: rest => (cs.takeWhile fun c => !p c, some rest)

def isExponentMark (c : Char) : Bool := c = 'e' || c = 'E'

/-- Take the sign off; `true` for a minus. -/
def stripSign : List Char → Bool × List Char
  | '-' :: rest => (true, rest)
  | '+' :: rest => (false, rest)
  | rest => (false, rest)

/-- The value of a string of digits read from the left. -/
def digitsValue (digits : List ℕ) : ℕ := digits.foldl (fun acc d => acc * 10 + d) 0

/-- `str::parse` of a signed integer: an optional sign, at least one digit, and no overflow. -/
def parseSigned (limit : ℤ) (cs : List Char) : Option ℤ :=
  let (negative, digits) := stripSign cs
  if digits.isEmpty || !digits.all isAsciiDigit then none
  else
    let magnitude : ℤ := digitsValue (digits.map digitValue)
    let value := if negative then -magnitude else magnitude
    if -limit ≤ value ∧ value < limit then some value else none

def parseI64 (cs : List Char) : Option ℤ := parseSigned (2 ^ 63) cs

def parseI128 (cs : List Char) : Option ℤ := parseSigned (2 ^ 127) cs

/-- Two's complement `i64` arithmetic. -/
def wrapI64 (x : ℤ) : ℤ := x.bmod (2 ^ 64)

/-! ## Normal form -/

/-- `0.digits * 10 ^ exponent` with the sign; zero has no digits. -/
structure NormalizedNumber where
  negative : Bool
  digits : List ℕ
  exponent : ℤ
  deriving DecidableEq

def normalizeNumber (s : String) : NormalizedNumber :=
  let (negative, rest) := stripSign (trim s.toList)
  let (mantissa, exponentPart) := splitAtFirst isExponentMark rest
  let explicitExp : ℤ := match exponentPart with
    | some text => (parseI64 text).getD 0
    | none => 0
  let (intPart, fracPart) := splitAtFirst (· = '.') mantissa
  let intDigits := (intPart.filter isAsciiDigit).map digitValue
  let fracDigits := ((fracPart.getD []).filter isAsciiDigit).map digitValue
  let allDigits := intDigits ++ fracDigits
  let exponent := wrapI64 (intDigits.length + explicitExp)
  let leadingZeros := (allDigits.takeWhile (· = 0)).length
  let exponent := wrapI64 (exponent - leadingZeros)
  let digits := (allDigits.drop leadingZeros).rdropWhile (· = 0)
  if digits.isEmpty then { negative := false, digits := [], exponent := 0 }
  else { negative, digits, exponent }

/-- Digit by digit for `count` digits, a missing digit counting as zero. -/
def compareDigitsLoop : ℕ → List ℕ → List ℕ → Ordering
  | 0, _, _ => .eq
  | count + 1, a, b =>
    (compare (a.headD 0) (b.headD 0)).then (compareDigitsLoop count a.tail b.tail)

def compareDigits (a b : List ℕ) : Ordering :=
  compareDigitsLoop (max a.length b.length) a b

def compareMagnitude (a b : NormalizedNumber) : Ordering :=
  (compare a.exponent b.exponent).then (compareDigits a.digits b.digits)

def compareNormalized (a b : NormalizedNumber) : Ordering :=
  if a.digits.isEmpty && b.digits.isEmpty then .eq
  else if a.digits.isEmpty then if b.negative then .gt else .lt
  else if b.digits.isEmpty then if a.negative then .lt else .gt
  else match a.negative, b.negative with
    | true, false => .lt
    | false, true => .gt
    | true, true => (compareMagnitude a b).swap
    | false, false => compareMagnitude a b

def compareNumberStrings (a b : String) : Ordering :=
  compareNormalized (normalizeNumber a) (normalizeNumber b)

/-! ## The comparison is a total preorder -/

theorem compareDigitsLoop_nil (count : ℕ) : compareDigitsLoop count [] [] = .eq := by
  induction count with
  | zero => rfl
  | succ count ih => rw [compareDigitsLoop, List.tail_nil, ih]; rfl

/-- Looking past the end of both lists changes nothing. -/
theorem compareDigitsLoop_eq (count : ℕ) {a b : List ℕ} (h : max a.length b.length ≤ count) :
    compareDigitsLoop count a b = compareDigits a b := by
  suffices ∀ (n m : ℕ) (a b : List ℕ), max a.length b.length ≤ n → max a.length b.length ≤ m →
      compareDigitsLoop n a b = compareDigitsLoop m a b from this _ _ a b h le_rfl
  intro n
  induction n with
  | zero =>
      intro m a b hn hm
      obtain ⟨rfl, rfl⟩ : a = [] ∧ b = [] := by
        simpa using hn
      rw [compareDigitsLoop_nil, compareDigitsLoop_nil]
  | succ n ih =>
      intro m a b hn hm
      cases m with
      | zero =>
          obtain ⟨rfl, rfl⟩ : a = [] ∧ b = [] := by
            simpa using hm
          rw [compareDigitsLoop_nil, compareDigitsLoop_nil]
      | succ m =>
          rw [compareDigitsLoop, compareDigitsLoop, ih m] <;>
            simp only [List.length_tail] <;> omega

theorem compareDigitsLoop_swap (count : ℕ) (a b : List ℕ) :
    (compareDigitsLoop count a b).swap = compareDigitsLoop count b a := by
  induction count generalizing a b with
  | zero => rfl
  | succ count ih => rw [compareDigitsLoop, Ordering.swap_then, ih, Nat.compare_swap,
      compareDigitsLoop]

theorem compareDigitsLoop_isLE_trans (count : ℕ) {a b c : List ℕ}
    (hab : (compareDigitsLoop count a b).isLE = true)
    (hbc : (compareDigitsLoop count b c).isLE = true) :
    (compareDigitsLoop count a c).isLE = true := by
  induction count generalizing a b c with
  | zero => rfl
  | succ count ih =>
      rw [compareDigitsLoop, Ordering.isLE_then_iff_and, Nat.isLE_compare,
        Nat.compare_eq_lt] at hab hbc ⊢
      refine ⟨hab.1.trans hbc.1, ?_⟩
      rcases hab.2 with h | htail
      · exact Or.inl (lt_of_lt_of_le h hbc.1)
      rcases hbc.2 with h | htail'
      · exact Or.inl (lt_of_le_of_lt hab.1 h)
      · exact Or.inr (ih htail htail')

instance : Std.TransCmp compareDigits where
  eq_swap := fun {a b} => by
    rw [compareDigits, compareDigits, compareDigitsLoop_swap, max_comm]
  isLE_trans := fun {a b c} => by
    rw [← compareDigitsLoop_eq (a.length + b.length + c.length) (by omega),
      ← compareDigitsLoop_eq (a.length + b.length + c.length) (by omega),
      ← compareDigitsLoop_eq (a.length + b.length + c.length) (by omega)]
    exact compareDigitsLoop_isLE_trans _

instance : Std.TransCmp compareMagnitude where
  eq_swap := fun {a b} => by
    rw [compareMagnitude, compareMagnitude, Ordering.swap_then, ← Std.OrientedCmp.eq_swap,
      ← Std.OrientedCmp.eq_swap]
  isLE_trans := fun {a b c} hab hbc => by
    rw [compareMagnitude, Ordering.isLE_then_iff_and, Int.isLE_compare, Int.compare_eq_lt]
      at hab hbc ⊢
    refine ⟨Int.le_trans hab.1 hbc.1, ?_⟩
    rcases hab.2 with h | hdigits
    · exact Or.inl (Int.lt_of_lt_of_le h hbc.1)
    rcases hbc.2 with h | hdigits'
    · exact Or.inl (Int.lt_of_le_of_lt hab.1 h)
    · exact Or.inr (Std.TransCmp.isLE_trans hdigits hdigits')

instance : Std.TransCmp compareNormalized where
  eq_swap := fun {a b} => by
    have hmag : compareMagnitude a b = (compareMagnitude b a).swap := Std.OrientedCmp.eq_swap
    unfold compareNormalized
    cases a.digits.isEmpty <;> cases b.digits.isEmpty <;> cases a.negative <;>
      cases b.negative <;> simp [hmag]
  isLE_trans := fun {a b c} hab hbc => by
    have hle : (compareMagnitude a b).isLE = true → (compareMagnitude b c).isLE = true →
        (compareMagnitude a c).isLE = true := Std.TransCmp.isLE_trans
    have hge : (compareMagnitude a b).isGE = true → (compareMagnitude b c).isGE = true →
        (compareMagnitude a c).isGE = true := Std.TransCmp.isGE_trans
    unfold compareNormalized at hab hbc ⊢
    revert hab hbc
    cases a.digits.isEmpty <;> cases b.digits.isEmpty <;> cases c.digits.isEmpty <;>
      cases a.negative <;> cases b.negative <;> cases c.negative <;> simp_all

instance : Std.TransCmp compareNumberStrings where
  eq_swap := fun {a b} =>
    (Std.OrientedCmp.eq_swap : compareNormalized (normalizeNumber a) (normalizeNumber b) = _)
  isLE_trans := fun {a _ c} hab hbc => (Std.TransCmp.isLE_trans hab hbc :
    (compareNormalized (normalizeNumber a) (normalizeNumber c)).isLE = true)

/-! ## Reading back what was printed -/

theorem stripSign_of_digit {c : Char} (hc : isAsciiDigit c = true) (cs : List Char) :
    stripSign (c :: cs) = (false, c :: cs) := by
  unfold stripSign
  split
  · next heq => cases heq; exact absurd hc (by decide)
  · next heq => cases heq; exact absurd hc (by decide)
  · rfl

theorem digitsValue_toDigits (n : ℕ) :
    digitsValue ((Nat.toDigits 10 n).map digitValue) = n := by
  have h := Nat.ofDigitChars_ten_toDigits (n := n)
  rw [Nat.ofDigitChars_eq_foldl] at h
  rw [digitsValue, List.foldl_map]
  calc (Nat.toDigits 10 n).foldl (fun acc c => acc * 10 + digitValue c) 0
      = (Nat.toDigits 10 n).foldl (fun acc c => 10 * acc + (c.toNat - '0'.toNat)) 0 := by
        refine congrArg (fun f => (Nat.toDigits 10 n).foldl f 0) ?_
        funext acc c
        rw [Nat.mul_comm, digitValue]
    _ = n := h

theorem isAsciiDigit_of_mem_toDigits {n : ℕ} {c : Char} (hc : c ∈ Nat.toDigits 10 n) :
    isAsciiDigit c = true := by
  have h := Nat.isDigit_of_mem_toDigits (by decide) (by decide) hc
  exact h

/-- A number in the range is read back from its digits. -/
theorem parseSigned_toString {limit n : ℤ} (hle : -limit ≤ n) (hlt : n < limit) :
    parseSigned limit (toString n).toList = some n := by
  have hparse : ∀ m : ℕ, (Nat.toDigits 10 m).isEmpty = false ∧
      (Nat.toDigits 10 m).all isAsciiDigit = true := by
    intro m
    refine ⟨by simp, List.all_eq_true.mpr fun c hc => isAsciiDigit_of_mem_toDigits hc⟩
  cases n with
  | ofNat m =>
      have htext : (toString (Int.ofNat m)).toList = Nat.toDigits 10 m := Nat.toList_repr
      have hsign : stripSign (Nat.toDigits 10 m) = (false, Nat.toDigits 10 m) := by
        cases hdigits : Nat.toDigits 10 m with
        | nil => exact absurd hdigits Nat.toDigits_ne_nil
        | cons c cs =>
            have hc : c ∈ Nat.toDigits 10 m := hdigits ▸ List.mem_cons_self
            exact stripSign_of_digit (isAsciiDigit_of_mem_toDigits hc) cs
      have hrange : -limit ≤ (m : ℤ) ∧ (m : ℤ) < limit := ⟨hle, hlt⟩
      simp only [parseSigned, htext, hsign, hparse m, digitsValue_toDigits, Bool.not_true,
        Bool.or_self, Bool.false_eq_true, if_false]
      exact if_pos hrange
  | negSucc m =>
      have htext : (toString (Int.negSucc m)).toList = '-' :: Nat.toDigits 10 (m + 1) := by
        have hneg : toString (Int.negSucc m) = "-" ++ (m + 1).repr := rfl
        rw [hneg, String.toList_append, Nat.toList_repr]
        rfl
      have hrange : -limit ≤ -((m + 1 : ℕ) : ℤ) ∧ -((m + 1 : ℕ) : ℤ) < limit := ⟨hle, hlt⟩
      simp only [parseSigned, htext, stripSign, hparse (m + 1), digitsValue_toDigits, Bool.not_true,
        Bool.or_self, Bool.false_eq_true, if_false, if_true]
      exact if_pos hrange

end Rustack.DynamoDB
