import Rustack.Lib.Positional
import Rustack.DynamoDB.Provider.Checks

/-!
# The value of a number string

A number string denotes a rational: a sign, digits around a point, and a power of ten.  What the
checks of a request let through denotes zero, or a number of at most 38 digits between the
places -130 and 125; the two readings of a number, one for its order and one for its sums, are
readings of that rational.
-/

namespace Rustack.DynamoDB

open List

/-! ## Denotation -/

/-- An integer of any size. -/
def integerValue (cs : List Char) : ℤ :=
  let (negative, digits) := stripSign cs
  if negative then -digitsValue (digits.map digitValue) else digitsValue (digits.map digitValue)

/-- What a number string consists of. -/
structure Spelling where
  negative : Bool
  integer : List Char
  fraction : List Char
  exponent : ℤ
  deriving DecidableEq

def mantissaText (s : String) : List Char :=
  (splitAtFirst isExponentMark (stripSign s.toList).2).1

def exponentText (s : String) : Option (List Char) :=
  (splitAtFirst isExponentMark (stripSign s.toList).2).2

def spelling (s : String) : Spelling where
  negative := (stripSign s.toList).1
  integer := (splitAtFirst (· = '.') (mantissaText s)).1
  fraction := (splitAtFirst (· = '.') (mantissaText s)).2.getD []
  exponent := ((exponentText s).map integerValue).getD 0

def signValue (negative : Bool) : ℚ := if negative then -1 else 1

namespace Spelling

variable (p : Spelling)

def digits : List Char := p.integer ++ p.fraction

/-- The digits without the zeros in front. -/
def leading : List Char := p.digits.dropWhile (· = '0')

def significant : List Char := p.leading.rdropWhile (· = '0')

/-- The place of the first digit that is not zero. -/
def magnitude : ℤ :=
  p.exponent - p.fraction.length + p.leading.length - 1

def value : ℚ :=
  signValue p.negative * digitsValue (p.digits.map digitValue) *
    (10 : ℚ) ^ (p.exponent - p.fraction.length)

end Spelling

def numberValue (s : String) : ℚ := (spelling s).value

/-- A number of 38 digits and of a place in the range, or zero. -/
def Representable (x : ℚ) : Prop :=
  x = 0 ∨ (∃ n k : ℤ, x = n * (10 : ℚ) ^ k ∧ |n| < 10 ^ 38) ∧
    (10 : ℚ) ^ (-130 : ℤ) ≤ |x| ∧ |x| < (10 : ℚ) ^ (126 : ℤ)

/-- A number that a request can bring: it has passed its check, and it is not longer than a
body. -/
structure NumberString where
  text : String
  valid : validateNumberString text = .ok ()
  length : text.toList.length < 2 ^ 62

/-! ## Pieces of text -/

section Pieces

variable {p : Char → Bool} {cs front behind : List Char} {c : Char}

theorem splitAtFirst_append (h : ∀ c ∈ front, p c = false) (hc : p c = true) :
    splitAtFirst p (front ++ c :: behind) = (front, some behind) := by
  have htake : (front ++ c :: behind).takeWhile (fun c => !p c) = front := by
    rw [takeWhile_append_of_pos fun c hc => by simp [h c hc], takeWhile_cons_of_neg
      (by simp [hc]), append_nil]
  have hdrop : (front ++ c :: behind).dropWhile (fun c => !p c) = c :: behind := by
    rw [dropWhile_append_of_pos fun c hc => by simp [h c hc], dropWhile_cons_of_neg
      (by simp [hc])]
  rw [splitAtFirst, hdrop, htake]

theorem splitAtFirst_none (h : ∀ c ∈ cs, p c = false) : splitAtFirst p cs = (cs, none) := by
  have hdrop : cs.dropWhile (fun c => !p c) = [] := by
    rw [dropWhile_eq_nil_iff]
    exact fun c hc => by simp [h c hc]
  rw [splitAtFirst, hdrop]

theorem splitAtFirst_cases (p : Char → Bool) (cs : List Char) :
    ((∀ c ∈ cs, p c = false) ∧ splitAtFirst p cs = (cs, none)) ∨
      ∃ front c behind, cs = front ++ c :: behind ∧ (∀ c ∈ front, p c = false) ∧ p c = true ∧
        splitAtFirst p cs = (front, some behind) := by
  cases hdrop : cs.dropWhile fun c => !p c with
  | nil =>
      rw [dropWhile_eq_nil_iff] at hdrop
      have hall : ∀ c ∈ cs, p c = false := fun c hc => by simpa using hdrop c hc
      exact .inl ⟨hall, splitAtFirst_none hall⟩
  | cons c behind =>
      have hc : p c = true := by
        have hne : cs.dropWhile (fun c => !p c) ≠ [] := by simp [hdrop]
        have h := head_dropWhile_not _ hne
        simpa [hdrop] using h
      have hfront : ∀ c ∈ cs.takeWhile (fun c => !p c), p c = false := fun c hc => by
        simpa using mem_takeWhile_imp hc
      have hcs : cs = cs.takeWhile (fun c => !p c) ++ c :: behind := by
        rw [← hdrop, takeWhile_append_dropWhile]
      refine .inr ⟨_, c, behind, hcs, hfront, hc, ?_⟩
      exact (congrArg (splitAtFirst p) hcs).trans (splitAtFirst_append hfront hc)

end Pieces

/-! ## Digits -/

theorem digitsValue_eq (ds : List ℕ) : digitsValue ds = Positional.value 10 ds := rfl

theorem digitValue_lt {c : Char} (hc : isAsciiDigit c = true) : digitValue c < 10 := by
  simp only [isAsciiDigit, Bool.and_eq_true, decide_eq_true_eq] at hc
  have hle : c.toNat ≤ '9'.toNat := hc.2
  have hnine : '9'.toNat = 57 := rfl
  have hzero : '0'.toNat = 48 := rfl
  unfold digitValue
  omega

theorem digitValue_eq_zero {c : Char} (hc : isAsciiDigit c = true) :
    digitValue c = 0 ↔ c = '0' := by
  simp only [isAsciiDigit, Bool.and_eq_true, decide_eq_true_eq] at hc
  have hle : '0'.toNat ≤ c.toNat := hc.1
  unfold digitValue
  constructor
  · intro h
    apply Char.toNat_inj.mp
    omega
  · rintro rfl
    rfl

section Digits

variable {cs : List Char} (hcs : ∀ c ∈ cs, isAsciiDigit c = true)

include hcs

theorem map_digitValue_lt : ∀ d ∈ cs.map digitValue, d < 10 := by
  intro d hd
  obtain ⟨c, hc, rfl⟩ := mem_map.mp hd
  exact digitValue_lt (hcs c hc)

theorem map_digitValue_dropWhile :
    (cs.dropWhile (· = '0')).map digitValue = (cs.map digitValue).dropWhile (· = 0) := by
  rw [dropWhile_map]
  congr 1
  induction cs with
  | nil => rfl
  | cons c cs ih =>
      rw [forall_mem_cons] at hcs
      have hiff := digitValue_eq_zero hcs.1
      by_cases hc : c = '0' <;> simp_all

theorem map_digitValue_rdropWhile :
    (cs.rdropWhile (· = '0')).map digitValue = (cs.map digitValue).rdropWhile (· = 0) := by
  rw [rdropWhile, rdropWhile, map_reverse, map_digitValue_dropWhile, map_reverse]
  intro c hc
  exact hcs c (mem_reverse.mp hc)

end Digits

theorem isAsciiDigit_ne {c d : Char} (hc : isAsciiDigit c = true) (hd : isAsciiDigit d = false) :
    c ≠ d := by
  rintro rfl
  rw [hc] at hd
  cases hd

/-! ## What the checks let through -/

theorem parseSigned_eq_some {limit value : ℤ} {cs : List Char}
    (h : parseSigned limit cs = some value) :
    value = integerValue cs ∧ -limit ≤ value ∧ value < limit := by
  unfold parseSigned at h
  unfold integerValue
  generalize stripSign cs = parts at h ⊢
  obtain ⟨negative, digits⟩ := parts
  simp only [Option.ite_none_left_eq_some, Option.ite_none_right_eq_some, Option.some.injEq] at h
  obtain ⟨-, hrange, rfl⟩ := h
  exact ⟨rfl, hrange⟩

theorem all_digits_of_checkMantissa {cs : List Char} (h : checkMantissa true cs = .ok ()) :
    ∀ c ∈ cs, isAsciiDigit c = true := by
  induction cs with
  | nil => exact fun c hc => absurd hc not_mem_nil
  | cons c cs ih =>
      rw [checkMantissa] at h
      by_cases hdot : c = '.'
      · rw [if_pos hdot, if_pos rfl] at h
        cases h
      · rw [if_neg hdot] at h
        split at h
        · next hdigit => exact forall_mem_cons.mpr ⟨hdigit, ih h⟩
        · cases h

theorem checkMantissa_cases {cs : List Char} (h : checkMantissa false cs = .ok ()) :
    (∀ c ∈ cs, isAsciiDigit c = true) ∨ ∃ front behind, cs = front ++ '.' :: behind ∧
      (∀ c ∈ front, isAsciiDigit c = true) ∧ ∀ c ∈ behind, isAsciiDigit c = true := by
  induction cs with
  | nil => exact .inl fun c hc => absurd hc not_mem_nil
  | cons c cs ih =>
      rw [checkMantissa] at h
      by_cases hdot : c = '.'
      · subst hdot
        rw [if_pos rfl, if_neg Bool.false_ne_true] at h
        refine .inr ⟨[], cs, rfl, ?_, all_digits_of_checkMantissa h⟩
        exact fun c hc => absurd hc not_mem_nil
      · rw [if_neg hdot] at h
        split at h
        · next hdigit =>
            rcases ih h with hall | ⟨front, behind, rfl, hfront, hbehind⟩
            · exact .inl (forall_mem_cons.mpr ⟨hdigit, hall⟩)
            · exact .inr ⟨c :: front, behind, rfl, forall_mem_cons.mpr ⟨hdigit, hfront⟩,
                hbehind⟩
        · cases h

theorem digit_ne_dot {c : Char} (hc : isAsciiDigit c = true) : decide (c = '.') = false :=
  decide_eq_false (isAsciiDigit_ne hc (by decide))

/-- What passes the check of a mantissa falls into digits at its dot. -/
theorem pieces_of_checkMantissa {cs : List Char} (h : checkMantissa false cs = .ok ()) :
    ∃ integer fraction, splitAtFirst (· = '.') cs = (integer, fraction) ∧
      (∀ c ∈ integer ++ fraction.getD [], isAsciiDigit c = true) ∧
      cs.filter isAsciiDigit = integer ++ fraction.getD [] := by
  rcases checkMantissa_cases h with hall | ⟨front, behind, rfl, hfront, hbehind⟩
  · refine ⟨cs, none, splitAtFirst_none fun c hc => digit_ne_dot (hall c hc), ?_, ?_⟩
    · rwa [Option.getD_none, append_nil]
    · rw [Option.getD_none, append_nil, filter_eq_self]
      exact hall
  · refine ⟨front, some behind, ?_, ?_, ?_⟩
    · exact splitAtFirst_append (fun c hc => digit_ne_dot (hfront c hc)) (decide_eq_true rfl)
    · rw [Option.getD_some, forall_mem_append]
      exact ⟨hfront, hbehind⟩
    · rw [Option.getD_some, filter_append, filter_cons_of_neg (by decide),
        filter_eq_self.mpr hfront, filter_eq_self.mpr hbehind]

/-- The pieces of a number string are digits, and its exponent is one of 64 bits. -/
structure Spelled (s : String) : Prop where
  trim : trim s.toList = s.toList
  exponent : ∀ text, exponentText s = some text → parseI64 text = some (integerValue text)
  digits : ∀ c ∈ (spelling s).digits, isAsciiDigit c = true
  filter : (mantissaText s).filter isAsciiDigit = (spelling s).digits

/-- The place that the check computes, with 64-bit arithmetic that stops at its bounds. -/
def saturatedMagnitude (p : Spelling) : ℤ :=
  saturate (saturate (saturate (saturate (p.exponent - p.fraction.length) + p.digits.length) -
    (p.digits.length - p.leading.length : ℕ)) - 1)

theorem guard_eq_ok {ε α : Type} {c : Prop} [Decidable c] {e : ε} {f : Unit → Except ε α} {a : α}
    (h : (if c then (do let r ← Except.error e; f r) else (do let r ← Except.ok (); f r)) =
      Except.ok a) : ¬c ∧ f () = Except.ok a := by
  split at h
  · cases h
  · next hc => exact ⟨hc, h⟩

theorem spelled_of_valid {s : String} (h : validateNumberString s = .ok ()) :
    Spelled s ∧ ((spelling s).significant = [] ∨ (spelling s).significant.length ≤ 38 ∧
      -130 ≤ saturatedMagnitude (spelling s) ∧ saturatedMagnitude (spelling s) ≤ 125) := by
  unfold validateNumberString at h
  extract_lets cs rest afterRest at h
  split at h
  · cases h
  next htrim =>
    split at h
    · cases h
    obtain ⟨-, h⟩ := guard_eq_ok h
    have hsplit : splitAtFirst isExponentMark rest = (mantissaText s, exponentText s) := rfl
    dsimp -zeta only [afterRest] at h
    rw [hsplit] at h
    dsimp -zeta only at h
    extract_lets allDigits trimmedLeading significant fracDigits leadingZeros afterExponent at h
    obtain ⟨explicitExp, hexponent, hparse, h⟩ : ∃ e, (spelling s).exponent = e ∧
        (∀ text, exponentText s = some text → parseI64 text = some (integerValue text)) ∧
        afterExponent e = .ok () := by
      unfold spelling
      cases hpart : exponentText s with
      | none =>
          rw [hpart] at h
          exact ⟨0, rfl, fun text htext => absurd htext (by simp), h⟩
      | some text =>
          rw [hpart] at h
          dsimp -zeta only at h
          cases hexp : parseI64 text with
          | none =>
              rw [hexp] at h
              cases h
          | some exp =>
              rw [hexp] at h
              obtain ⟨rfl, -⟩ := parseSigned_eq_some hexp
              refine ⟨_, rfl, ?_, h⟩
              rintro _ ⟨⟩
              exact hexp
    dsimp -zeta only [afterExponent] at h
    extract_lets magnitude afterDigits afterMantissa at h
    obtain ⟨-, h⟩ := guard_eq_ok h
    dsimp -zeta only [afterMantissa] at h
    obtain ⟨_, hmantissa, h⟩ := Except.bind_eq_ok.mp h
    obtain ⟨-, h⟩ := guard_eq_ok h
    dsimp -zeta only [afterDigits] at h
    obtain ⟨integer, fraction, hpieces, hdigits, hfilter⟩ := pieces_of_checkMantissa hmantissa
    have hall : (spelling s).digits = integer ++ fraction.getD [] := by
      rw [Spelling.digits, spelling, hpieces]
    have hallDigits : allDigits = (spelling s).digits := hfilter.trans hall.symm
    refine ⟨⟨(not_not.mp htrim).symm, hparse, hall ▸ hdigits, hallDigits⟩, ?_⟩
    have hsignificant : significant = (spelling s).significant := by
      rw [Spelling.significant, Spelling.leading, ← hallDigits]
    have hmagnitude : magnitude = saturatedMagnitude (spelling s) := by
      rw [saturatedMagnitude, Spelling.leading, ← hallDigits, hexponent]
      rfl
    rw [← hsignificant, ← hmagnitude]
    split at h
    · next hzero => exact .inl (isEmpty_iff.mp hzero)
    split at h
    · cases h
    next hlength =>
      split at h
      · cases h
      next hover =>
        split at h
        · cases h
        next hunder =>
          exact .inr ⟨Nat.le_of_not_lt hlength, Int.not_lt.mp hunder, Int.not_lt.mp hover⟩

/-! ## The significant digits -/

namespace Spelling

variable {p : Spelling}

theorem length_leading_le (p : Spelling) : p.leading.length ≤ p.digits.length :=
  (dropWhile_sublist _).length_le

theorem significant_prefix (p : Spelling) : p.significant <+: p.leading :=
  rdropWhile_prefix _ _

theorem length_significant_le (p : Spelling) : p.significant.length ≤ p.leading.length :=
  p.significant_prefix.length_le

theorem mem_digits_of_mem_significant {c : Char} (hc : c ∈ p.significant) : c ∈ p.digits :=
  (dropWhile_sublist _).subset (p.significant_prefix.subset hc)

theorem head_leading_ne {c : Char} {cs : List Char} (h : p.leading = c :: cs) : c ≠ '0' := by
  have hne : p.leading ≠ [] := by simp [h]
  have hhead := head_dropWhile_not (fun c => decide (c = '0')) hne
  unfold leading at h
  simpa [h] using hhead

theorem leading_eq_nil_iff : p.leading = [] ↔ p.significant = [] := by
  constructor
  · intro h
    rw [significant, h]
    rfl
  · intro h
    cases hleading : p.leading with
    | nil => rfl
    | cons c cs =>
        rw [significant, rdropWhile_eq_nil_iff, hleading] at h
        exact absurd (of_decide_eq_true (h c (.head _))) (head_leading_ne hleading)

theorem head_significant_ne {c : Char} {cs : List Char} (h : p.significant = c :: cs) :
    c ≠ '0' := by
  obtain ⟨rest, hrest⟩ := p.significant_prefix
  rw [h, cons_append] at hrest
  exact head_leading_ne hrest.symm

theorem last_significant_ne (h : p.significant ≠ []) : p.significant.getLast h ≠ '0' := by
  intro hlast
  exact rdropWhile_last_not (fun c => decide (c = '0')) p.leading h (decide_eq_true hlast)

/-- What the zeros at both ends amount to. -/
theorem digitsValue_digits (h : ∀ c ∈ p.digits, isAsciiDigit c = true) :
    digitsValue (p.digits.map digitValue) = digitsValue (p.significant.map digitValue) *
      10 ^ (p.leading.length - p.significant.length) := by
  have hleading : ∀ c ∈ p.leading, isAsciiDigit c = true := fun c hc =>
    h c ((dropWhile_sublist _).subset hc)
  have hsignificant : (p.leading.map digitValue).rdropWhile (· = 0) =
      p.significant.map digitValue := (map_digitValue_rdropWhile hleading).symm
  have hdigits : (p.digits.map digitValue).dropWhile (· = 0) = p.leading.map digitValue :=
    (map_digitValue_dropWhile h).symm
  rw [digitsValue_eq, digitsValue_eq, ← Positional.value_dropWhile (p.digits.map digitValue),
    hdigits, Positional.value_rdropWhile (p.leading.map digitValue), hsignificant, length_map,
    length_map]

/-- The value, with the point behind the last significant digit. -/
theorem value_eq (h : ∀ c ∈ p.digits, isAsciiDigit c = true) :
    p.value = signValue p.negative * digitsValue (p.significant.map digitValue) *
      (10 : ℚ) ^ (p.exponent - p.fraction.length +
        (p.leading.length - p.significant.length : ℕ)) := by
  rw [value, digitsValue_digits h, zpow_add₀ (by norm_num), zpow_natCast]
  push_cast
  ring

theorem value_eq_zero (h : ∀ c ∈ p.digits, isAsciiDigit c = true) (hzero : p.significant = []) :
    p.value = 0 := by
  rw [value_eq h, hzero]
  simp [digitsValue]

end Spelling

theorem length_splitAtFirst_le (p : Char → Bool) (cs : List Char) :
    (splitAtFirst p cs).1.length ≤ cs.length := by
  rcases splitAtFirst_cases p cs with ⟨-, h⟩ | ⟨front, c, behind, rfl, -, -, h⟩ <;> rw [h]
  simp

theorem length_stripSign_le (cs : List Char) : (stripSign cs).2.length ≤ cs.length := by
  unfold stripSign
  split <;> simp

theorem Spelled.length_digits_le {s : String} (h : Spelled s) :
    (spelling s).digits.length ≤ s.toList.length := by
  rw [← h.filter]
  calc ((mantissaText s).filter isAsciiDigit).length ≤ (mantissaText s).length :=
        length_filter_le _ _
    _ ≤ (stripSign s.toList).2.length := length_splitAtFirst_le _ _
    _ ≤ s.toList.length := length_stripSign_le _

theorem Spelled.exponent_range {s : String} (h : Spelled s) :
    -(2 ^ 63) ≤ (spelling s).exponent ∧ (spelling s).exponent < 2 ^ 63 := by
  unfold spelling
  cases hpart : exponentText s with
  | none => simp
  | some text =>
      obtain ⟨-, hrange⟩ := parseSigned_eq_some (h.exponent text hpart)
      exact hrange

theorem wrapI64_eq {x : ℤ} (hlow : -(2 ^ 63) ≤ x) (hhigh : x < 2 ^ 63) : wrapI64 x = x := by
  apply Int.bmod_eq_of_le <;> omega

namespace NumberString

variable (x : NumberString)

theorem spelled : Spelled x.text := (spelled_of_valid x.valid).1

theorem length_digits : (spelling x.text).digits.length < 2 ^ 62 :=
  x.spelled.length_digits_le.trans_lt x.length

/-- A number that is not zero has few digits and a place in the range; no bound of the arithmetic
is met on the way. -/
theorem significant_range (h : (spelling x.text).significant ≠ []) :
    (spelling x.text).significant.length ≤ 38 ∧ -130 ≤ (spelling x.text).magnitude ∧
      (spelling x.text).magnitude ≤ 125 := by
  rcases (spelled_of_valid x.valid).2 with hzero | ⟨hlength, hlow, hhigh⟩
  · exact absurd hzero h
  have hdigits := x.length_digits
  have hleading := (spelling x.text).length_leading_le
  have hfraction : (spelling x.text).fraction.length ≤ (spelling x.text).digits.length := by
    rw [Spelling.digits, length_append]
    omega
  obtain ⟨hexp, hexp'⟩ := x.spelled.exponent_range
  unfold saturatedMagnitude saturate at hlow hhigh
  unfold Spelling.magnitude
  refine ⟨hlength, ?_, ?_⟩ <;> omega

end NumberString

end Rustack.DynamoDB
