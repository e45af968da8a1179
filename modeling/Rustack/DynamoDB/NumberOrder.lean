import Mathlib.Data.List.GetD
import Rustack.DynamoDB.NumberValue

/-!
# The order of number keys

Normalisation keeps the value, so the comparison of number strings is that of the rationals they
denote, and equal keys have one hash.  Its exponents are 64-bit sums, which are in range for every
number but a zero with an exponent at the bounds.
-/

namespace Rustack.DynamoDB

open List Positional

/-! ## With overflow checks -/

/-- A sum of `i64` values; where overflows are checked one out of range is a panic. -/
def checkedI64 (x : ℤ) : Option ℤ := if -(2 ^ 63) ≤ x ∧ x < 2 ^ 63 then some x else none

/-- The end of `normalize_number`, from the digits around the point. -/
def normalizeDigits (negative : Bool) (exponent : ℤ) (allDigits : List ℕ) : NormalizedNumber :=
  let digits := (allDigits.drop (allDigits.takeWhile (· = 0)).length).rdropWhile (· = 0)
  if digits.isEmpty then { negative := false, digits := [], exponent := 0 }
  else { negative, digits, exponent }

def explicitExponent : Option (List Char) → ℤ
  | some text => (parseI64 text).getD 0
  | none => 0

/-- `normalize_number` as a build with overflow checks runs it. -/
def normalizeChecked (s : String) : Option NormalizedNumber := do
  let (negative, rest) := stripSign (trim s.toList)
  let (mantissa, exponentPart) := splitAtFirst isExponentMark rest
  let explicitExp := explicitExponent exponentPart
  let (intPart, fracPart) := splitAtFirst (· = '.') mantissa
  let intDigits := (intPart.filter isAsciiDigit).map digitValue
  let fracDigits := ((fracPart.getD []).filter isAsciiDigit).map digitValue
  let allDigits := intDigits ++ fracDigits
  let exponent ← checkedI64 (intDigits.length + explicitExp)
  let exponent ← checkedI64 (exponent - (allDigits.takeWhile (· = 0)).length)
  return normalizeDigits negative exponent allDigits

/-- What a key puts into a hash. -/
inductive HashInput where
  | s (bytes : List UInt8)
  | n (negative : Bool) (digits : List ℕ) (exponent : ℤ)
  | b (bytes : List UInt8)
  | sentinel
  deriving DecidableEq

def SortableAttributeValue.hashInput : SortableAttributeValue → HashInput
  | .s v => .s (asBytes v)
  | .n v =>
    let norm := normalizeNumber v
    .n norm.negative norm.digits norm.exponent
  | .b v => .b v
  | .sentinel => .sentinel

/-! ## Values of normal forms -/

def NormalizedNumber.magnitude (n : NormalizedNumber) : ℚ :=
  Positional.fraction 10 n.digits * (10 : ℚ) ^ n.exponent

def NormalizedNumber.value (n : NormalizedNumber) : ℚ := signValue n.negative * n.magnitude

structure NormalizedNumber.Normal (n : NormalizedNumber) : Prop where
  digits : ∀ d ∈ n.digits, d < 10
  first : ∀ ds, n.digits ≠ 0 :: ds

section Compare

variable {a b : NormalizedNumber}

theorem compare_congr {α β : Type} [LinearOrder α] [LinearOrder β] {x y : α} {x' y' : β}
    (hlt : x < y ↔ x' < y') (hgt : y < x ↔ y' < x') : compare x y = compare x' y' := by
  rcases lt_trichotomy x y with h | rfl | h
  · rw [compare_lt_iff_lt.mpr h, compare_lt_iff_lt.mpr (hlt.mp h)]
  · have heq : x' = y' := le_antisymm (not_lt.mp fun h => lt_irrefl _ (hgt.mpr h))
      (not_lt.mp fun h => lt_irrefl _ (hlt.mpr h))
    rw [compare_eq_iff_eq.mpr rfl, compare_eq_iff_eq.mpr heq]
  · rw [compare_gt_iff_gt.mpr h, compare_gt_iff_gt.mpr (hgt.mp h)]

theorem compareDigitsLoop_eq_compare (count : ℕ) {a b : List ℕ} (ha : ∀ d ∈ a, d < 10)
    (hb : ∀ d ∈ b, d < 10) (hlength : max a.length b.length ≤ count) :
    compareDigitsLoop count a b =
      compare (fraction 10 a) (fraction 10 b) := by
  have hfraction : ∀ ds : List ℕ, fraction 10 ds =
      fraction 10 (ds.headD 0 :: ds.tail) := by
    intro ds
    cases ds with
    | nil => simp [fraction]
    | cons d ds => rfl
  induction count generalizing a b with
  | zero =>
      obtain ⟨rfl, rfl⟩ : a = [] ∧ b = [] := by simpa using hlength
      simp [compareDigitsLoop]
  | succ count ih =>
      have hatail : ∀ d ∈ a.tail, d < 10 := fun d hd => ha d (mem_of_mem_tail hd)
      have hbtail : ∀ d ∈ b.tail, d < 10 := fun d hd => hb d (mem_of_mem_tail hd)
      rw [compareDigitsLoop, ih hatail hbtail (by simp only [length_tail]; omega),
        hfraction a, hfraction b]
      rcases lt_trichotomy (a.headD 0) (b.headD 0) with hlt | heq | hgt
      · rw [compare_lt_iff_lt.mpr hlt, compare_lt_iff_lt.mpr
          (fraction_lt_of_lt (by decide) hatail hlt)]
        rfl
      · rw [heq, compare_eq_iff_eq.mpr rfl, Ordering.eq_then, fraction,
          fraction]
        have hten : (0 : ℚ) < (10 : ℕ) := by norm_num
        apply compare_congr <;> rw [div_lt_div_iff_of_pos_right hten, add_lt_add_iff_left]
      · rw [compare_gt_iff_gt.mpr hgt, compare_gt_iff_gt.mpr
          (fraction_lt_of_lt (by decide) hbtail hgt)]
        rfl

theorem compareDigits_eq {a b : List ℕ} (ha : ∀ d ∈ a, d < 10) (hb : ∀ d ∈ b, d < 10) :
    compareDigits a b = compare (fraction 10 a) (fraction 10 b) :=
  compareDigitsLoop_eq_compare _ ha hb (le_refl _)

namespace NormalizedNumber.Normal

theorem inv_le_fraction (ha : a.Normal) (hne : a.digits ≠ []) :
    (10 : ℚ)⁻¹ ≤ fraction 10 a.digits := by
  cases hdigits : a.digits with
  | nil => exact absurd hdigits hne
  | cons d ds =>
      have hd : 0 < d := Nat.pos_of_ne_zero fun h => ha.first ds (by rw [hdigits, h])
      exact Positional.inv_le_fraction (by decide) hd ds

theorem magnitude_pos (ha : a.Normal) (hne : a.digits ≠ []) : 0 < a.magnitude := by
  have hfraction := ha.inv_le_fraction hne
  have hpos : (0 : ℚ) < fraction 10 a.digits :=
    lt_of_lt_of_le (by norm_num) hfraction
  exact mul_pos hpos (zpow_pos (by norm_num) _)

theorem magnitude_lt (ha : a.Normal) (hb : b.Normal) (hne : b.digits ≠ [])
    (h : a.exponent < b.exponent) : a.magnitude < b.magnitude :=
  scaled_lt_of_lt (by decide) (fraction_lt_one ha.digits)
    (hb.inv_le_fraction hne) h

theorem compareMagnitude_eq (ha : a.Normal) (hb : b.Normal) (hane : a.digits ≠ [])
    (hbne : b.digits ≠ []) : compareMagnitude a b = compare a.magnitude b.magnitude := by
  unfold compareMagnitude
  rcases lt_trichotomy a.exponent b.exponent with hlt | heq | hgt
  · rw [compare_lt_iff_lt.mpr hlt, compare_lt_iff_lt.mpr (ha.magnitude_lt hb hbne hlt)]
    rfl
  · rw [compare_eq_iff_eq.mpr heq, Ordering.eq_then, compareDigits_eq ha.digits hb.digits,
      magnitude, magnitude, heq]
    have hpow : (0 : ℚ) < (10 : ℚ) ^ b.exponent := zpow_pos (by norm_num) _
    apply compare_congr <;> rw [mul_lt_mul_iff_left₀ hpow]
  · rw [compare_gt_iff_gt.mpr hgt, compare_gt_iff_gt.mpr (hb.magnitude_lt ha hane hgt)]
    rfl

end NormalizedNumber.Normal

theorem value_of_digits_nil (h : a.digits = []) : a.value = 0 := by
  rw [NormalizedNumber.value, NormalizedNumber.magnitude, h, fraction, zero_mul,
    mul_zero]

/-- Zeros, signs, magnitudes: the comparison is that of the values. -/
theorem compareNormalized_eq (ha : a.Normal) (hb : b.Normal) :
    compareNormalized a b = compare a.value b.value := by
  unfold compareNormalized
  by_cases hane : a.digits = []
  · by_cases hbne : b.digits = []
    · rw [value_of_digits_nil hane, value_of_digits_nil hbne, hane, hbne]
      rfl
    · have hpos := hb.magnitude_pos hbne
      rw [if_neg (by simp [hbne]), if_pos (by simp [hane]), value_of_digits_nil hane]
      cases hneg : b.negative
      · rw [if_neg Bool.false_ne_true]
        refine (compare_lt_iff_lt.mpr ?_).symm
        simpa [NormalizedNumber.value, signValue, hneg] using hpos
      · rw [if_pos rfl]
        refine (compare_gt_iff_gt.mpr ?_).symm
        simpa [NormalizedNumber.value, signValue, hneg] using hpos
  have hapos := ha.magnitude_pos hane
  by_cases hbne : b.digits = []
  · rw [if_neg (by simp [hane]), if_neg (by simp [hane]), if_pos (by simp [hbne]),
      value_of_digits_nil hbne]
    cases hneg : a.negative
    · rw [if_neg Bool.false_ne_true]
      refine (compare_gt_iff_gt.mpr ?_).symm
      simpa [NormalizedNumber.value, signValue, hneg] using hapos
    · rw [if_pos rfl]
      refine (compare_lt_iff_lt.mpr ?_).symm
      simpa [NormalizedNumber.value, signValue, hneg] using hapos
  have hbpos := hb.magnitude_pos hbne
  rw [if_neg (by simp [hane]), if_neg (by simp [hane]), if_neg (by simp [hbne])]
  unfold NormalizedNumber.value signValue
  cases a.negative <;> cases b.negative <;> dsimp only <;>
    simp only [Bool.false_eq_true, if_false, if_true, one_mul, neg_mul]
  · exact ha.compareMagnitude_eq hb hane hbne
  · exact (compare_gt_iff_gt.mpr (by linarith)).symm
  · exact (compare_lt_iff_lt.mpr (by linarith)).symm
  · rw [ha.compareMagnitude_eq hb hane hbne, ← Std.OrientedCmp.eq_swap]
    apply compare_congr <;> rw [neg_lt_neg_iff]

end Compare

/-! ## The normal form of a number string -/

section Normalize

variable {s : String}

theorem explicitExponent_eq (h : Spelled s) :
    explicitExponent (exponentText s) = (spelling s).exponent := by
  unfold spelling
  cases hpart : exponentText s with
  | none => rfl
  | some text =>
      rw [explicitExponent, h.exponent text hpart]
      rfl

theorem drop_takeWhile_length {α : Type} (p : α → Bool) (xs : List α) :
    xs.drop (xs.takeWhile p).length = xs.dropWhile p := by
  induction xs with
  | nil => rfl
  | cons x xs ih => by_cases hx : p x <;> simp [hx, ih]

theorem length_takeWhile_zeros (h : Spelled s) :
    (((spelling s).digits.map digitValue).takeWhile (· = 0)).length =
      (spelling s).digits.length - (spelling s).leading.length := by
  have hsplit := congrArg length
    (takeWhile_append_dropWhile (p := (· = 0)) (l := (spelling s).digits.map digitValue))
  have hlength := congrArg length (map_digitValue_dropWhile h.digits)
  rw [length_map] at hlength
  rw [length_append, ← hlength, length_map] at hsplit
  unfold Spelling.leading
  omega

/-- The digits around the point are those of the spelling. -/
theorem filter_pieces (h : Spelled s) :
    ((spelling s).integer.filter isAsciiDigit).map digitValue ++
        ((spelling s).fraction.filter isAsciiDigit).map digitValue =
      (spelling s).digits.map digitValue := by
  have hdigits := h.digits
  rw [Spelling.digits, forall_mem_append] at hdigits
  rw [filter_eq_self.mpr hdigits.1, filter_eq_self.mpr hdigits.2, ← map_append]
  rfl

theorem normalizeDigits_eq (h : Spelled s) (negative : Bool) (exponent : ℤ) :
    normalizeDigits negative exponent ((spelling s).digits.map digitValue) =
      if (spelling s).significant = [] then ⟨false, [], 0⟩
      else ⟨negative, (spelling s).significant.map digitValue, exponent⟩ := by
  have hleading : ∀ c ∈ (spelling s).leading, isAsciiDigit c = true := fun c hc =>
    h.digits c ((dropWhile_sublist _).subset hc)
  have hdigits : (((spelling s).digits.map digitValue).drop
      (((spelling s).digits.map digitValue).takeWhile (· = 0)).length).rdropWhile (· = 0) =
        (spelling s).significant.map digitValue := by
    rw [drop_takeWhile_length, ← map_digitValue_dropWhile h.digits]
    exact (map_digitValue_rdropWhile hleading).symm
  unfold normalizeDigits
  dsimp only
  rw [hdigits]
  by_cases hzero : (spelling s).significant = []
  · rw [if_pos hzero, if_pos (by simp [hzero])]
  · rw [if_neg hzero, if_neg (by simp [hzero])]

/-- The exponent before the zeros in front are taken off. -/
def exponentSum (s : String) : ℤ := (spelling s).integer.length + (spelling s).exponent

theorem strippedExponent_eq (s : String) :
    exponentSum s - ((spelling s).digits.length - (spelling s).leading.length : ℕ) =
      (spelling s).magnitude + 1 := by
  have hleading := (spelling s).length_leading_le
  have hdigits : (spelling s).digits.length =
      (spelling s).integer.length + (spelling s).fraction.length := length_append
  unfold exponentSum Spelling.magnitude
  omega

theorem length_integer (h : Spelled s) :
    (((spelling s).integer.filter isAsciiDigit).map digitValue).length =
      (spelling s).integer.length := by
  have hdigits := h.digits
  rw [Spelling.digits, forall_mem_append] at hdigits
  rw [filter_eq_self.mpr hdigits.1, length_map]

theorem normalizeNumber_eq (h : Spelled s) :
    normalizeNumber s = normalizeDigits (spelling s).negative
      (wrapI64 (wrapI64 (exponentSum s) -
        ((spelling s).digits.length - (spelling s).leading.length : ℕ)))
      ((spelling s).digits.map digitValue) := by
  rw [← length_takeWhile_zeros h, exponentSum, ← length_integer h, ← explicitExponent_eq h,
    ← filter_pieces h]
  unfold normalizeNumber
  rw [h.trim]
  rfl

theorem normalizeChecked_eq (h : Spelled s) :
    normalizeChecked s = do
      let exponent ← checkedI64 (exponentSum s)
      let exponent ←
        checkedI64 (exponent - ((spelling s).digits.length - (spelling s).leading.length : ℕ))
      return normalizeDigits (spelling s).negative exponent
        ((spelling s).digits.map digitValue) := by
  rw [← length_takeWhile_zeros h, exponentSum, ← length_integer h, ← explicitExponent_eq h,
    ← filter_pieces h]
  unfold normalizeChecked
  rw [h.trim]
  rfl

end Normalize

namespace NumberString

variable (x y : NumberString)

/-- A zero is written with an exponent that stays in range when its digits are counted. -/
def ZeroInRange : Prop :=
  (spelling x.text).significant = [] →
    (spelling x.text).exponent + (spelling x.text).integer.length < 2 ^ 63 ∧
      -(2 ^ 63) ≤ (spelling x.text).exponent - (spelling x.text).fraction.length

theorem normalizeNumber_of_zero (h : (spelling x.text).significant = []) :
    normalizeNumber x.text = ⟨false, [], 0⟩ := by
  rw [normalizeNumber_eq x.spelled, normalizeDigits_eq x.spelled, if_pos h]

/-- The sums of a number that is not zero are in range. -/
theorem exponentSum_range (h : (spelling x.text).significant ≠ []) :
    -(2 ^ 63) ≤ exponentSum x.text ∧ exponentSum x.text < 2 ^ 63 := by
  obtain ⟨-, hlow, hhigh⟩ := x.significant_range h
  have hstripped := strippedExponent_eq x.text
  have hlength := x.length_digits
  have hleading := (spelling x.text).length_leading_le
  omega

theorem normalizeNumber_of_ne_zero (h : (spelling x.text).significant ≠ []) :
    normalizeNumber x.text = ⟨(spelling x.text).negative,
      (spelling x.text).significant.map digitValue, (spelling x.text).magnitude + 1⟩ := by
  obtain ⟨hlow, hhigh⟩ := x.exponentSum_range h
  obtain ⟨-, hplace, hplace'⟩ := x.significant_range h
  rw [normalizeNumber_eq x.spelled, normalizeDigits_eq x.spelled, if_neg h, wrapI64_eq hlow hhigh,
    strippedExponent_eq, wrapI64_eq (by omega) (by omega)]

theorem normalizeNumber_normal : (normalizeNumber x.text).Normal := by
  by_cases h : (spelling x.text).significant = []
  · rw [x.normalizeNumber_of_zero h]
    exact ⟨fun d hd => absurd hd not_mem_nil, fun ds hds => absurd hds (by simp)⟩
  · have hdigits : ∀ c ∈ (spelling x.text).significant, isAsciiDigit c = true := fun c hc =>
      x.spelled.digits c (Spelling.mem_digits_of_mem_significant hc)
    rw [x.normalizeNumber_of_ne_zero h]
    refine ⟨map_digitValue_lt hdigits, ?_⟩
    intro ds hds
    cases hsignificant : (spelling x.text).significant with
    | nil => exact h hsignificant
    | cons c cs =>
        rw [hsignificant, map_cons] at hds
        have hc : isAsciiDigit c = true := hdigits c (hsignificant ▸ mem_cons_self)
        have hzero := (digitValue_eq_zero hc).mp (cons.inj hds).1
        exact Spelling.head_significant_ne hsignificant hzero

/-- Normalisation keeps the value. -/
theorem normalizeNumber_value : (normalizeNumber x.text).value = numberValue x.text := by
  by_cases h : (spelling x.text).significant = []
  · rw [x.normalizeNumber_of_zero h, value_of_digits_nil rfl]
    exact (Spelling.value_eq_zero x.spelled.digits h).symm
  · have hlength := (spelling x.text).length_significant_le
    have hexp : (spelling x.text).magnitude + 1 = (spelling x.text).exponent -
        (spelling x.text).fraction.length + ((spelling x.text).leading.length -
          (spelling x.text).significant.length : ℕ) + (spelling x.text).significant.length := by
      unfold Spelling.magnitude
      omega
    rw [x.normalizeNumber_of_ne_zero h, numberValue, Spelling.value_eq x.spelled.digits,
      NormalizedNumber.value, NormalizedNumber.magnitude, fraction_eq (by decide), hexp,
      zpow_add₀ (by norm_num) _ ((spelling x.text).significant.length : ℤ), zpow_natCast,
      length_map, digitsValue_eq]
    push_cast
    field_simp

/-- Number strings compare as the rationals they denote. -/
theorem compareNumberStrings_eq :
    compareNumberStrings x.text y.text = compare (numberValue x.text) (numberValue y.text) := by
  rw [compareNumberStrings, compareNormalized_eq x.normalizeNumber_normal y.normalizeNumber_normal,
    x.normalizeNumber_value, y.normalizeNumber_value]

theorem checkedI64_eq_some {v w : ℤ} :
    checkedI64 v = some w ↔ (-(2 ^ 63) ≤ v ∧ v < 2 ^ 63) ∧ v = w := by
  unfold checkedI64
  split <;> simp_all

/-- Both sums of the normalisation are in range. -/
def SumsInRange : Prop :=
  (-(2 ^ 63) ≤ exponentSum x.text ∧ exponentSum x.text < 2 ^ 63) ∧
    -(2 ^ 63) ≤ (spelling x.text).magnitude + 1 ∧ (spelling x.text).magnitude + 1 < 2 ^ 63

theorem normalizeChecked_iff_sums :
    normalizeChecked x.text = some (normalizeNumber x.text) ↔ x.SumsInRange := by
  rw [normalizeChecked_eq x.spelled, normalizeNumber_eq x.spelled]
  constructor
  · intro h
    obtain ⟨sum, hsum, h⟩ := Option.bind_eq_some_iff.mp h
    obtain ⟨stripped, hstripped, -⟩ := Option.bind_eq_some_iff.mp h
    obtain ⟨hrange, rfl⟩ := checkedI64_eq_some.mp hsum
    obtain ⟨hrange', -⟩ := checkedI64_eq_some.mp hstripped
    rw [strippedExponent_eq] at hrange'
    exact ⟨hrange, hrange'⟩
  · rintro ⟨hrange, hrange'⟩
    have hsum : checkedI64 (exponentSum x.text) = some (exponentSum x.text) :=
      checkedI64_eq_some.mpr ⟨hrange, rfl⟩
    have hstripped : checkedI64 ((spelling x.text).magnitude + 1) =
        some ((spelling x.text).magnitude + 1) := checkedI64_eq_some.mpr ⟨hrange', rfl⟩
    rw [wrapI64_eq hrange.1 hrange.2, strippedExponent_eq, wrapI64_eq hrange'.1 hrange'.2, hsum]
    dsimp only [bind, Option.bind]
    rw [strippedExponent_eq, hstripped]
    rfl

/-- Only a zero can have an exponent at the bounds. -/
theorem sumsInRange_iff : x.SumsInRange ↔ x.ZeroInRange := by
  obtain ⟨hexp, hexp'⟩ := x.spelled.exponent_range
  constructor
  · rintro ⟨hrange, hrange'⟩ hzero
    rw [← Spelling.leading_eq_nil_iff] at hzero
    unfold exponentSum at hrange
    unfold Spelling.magnitude at hrange'
    rw [hzero, length_nil] at hrange'
    omega
  · intro h
    by_cases hzero : (spelling x.text).significant = []
    · obtain ⟨hlow, hhigh⟩ := h hzero
      rw [← Spelling.leading_eq_nil_iff] at hzero
      unfold SumsInRange exponentSum Spelling.magnitude
      rw [hzero, length_nil]
      omega
    · obtain ⟨-, hlow, hhigh⟩ := x.significant_range hzero
      exact ⟨x.exponentSum_range hzero, by omega, by omega⟩

/-- The normalisation overflows on nothing but a zero. -/
theorem normalizeChecked_iff :
    normalizeChecked x.text = some (normalizeNumber x.text) ↔ x.ZeroInRange :=
  x.normalizeChecked_iff_sums.trans x.sumsInRange_iff

end NumberString

/-! ## Equal keys have equal hashes -/

theorem getD_eq_of_compareDigitsLoop {count : ℕ} {a b : List ℕ}
    (h : compareDigitsLoop count a b = .eq) : ∀ i < count, a.getD i 0 = b.getD i 0 := by
  induction count generalizing a b with
  | zero => exact fun i hi => absurd hi (Nat.not_lt_zero i)
  | succ count ih =>
      rw [compareDigitsLoop, Ordering.then_eq_eq, Nat.compare_eq_eq] at h
      intro i hi
      cases i with
      | zero =>
          have hzero : ∀ ds : List ℕ, ds.getD 0 0 = ds.headD 0 := fun ds => by cases ds <;> rfl
          rw [hzero, hzero]
          exact h.1
      | succ i =>
          have hsucc : ∀ ds : List ℕ, ds.getD (i + 1) 0 = ds.tail.getD i 0 := fun ds => by
            cases ds <;> simp
          rw [hsucc, hsucc]
          exact ih h.2 i (Nat.lt_of_succ_lt_succ hi)

theorem length_le_of_getD {count : ℕ} {a b : List ℕ} (hb : ∀ h : b ≠ [], b.getLast h ≠ 0)
    (h : ∀ i < count, a.getD i 0 = b.getD i 0) (hlength : b.length ≤ count) :
    b.length ≤ a.length := by
  by_contra hlt
  have hne : b ≠ [] := by
    rintro rfl
    exact hlt (Nat.zero_le _)
  have hi : b.length - 1 < b.length := by
    have hpos := length_pos_iff.mpr hne
    omega
  have hlast := h (b.length - 1) (hi.trans_le hlength)
  rw [getD_eq_default _ _ (by omega), getD_eq_getElem _ _ hi] at hlast
  apply hb hne
  rw [getLast_eq_getElem, ← hlast]

/-- Digits without zeros at the end are equal if they compare equal. -/
theorem eq_of_compareDigits {a b : List ℕ} (ha : ∀ h : a ≠ [], a.getLast h ≠ 0)
    (hb : ∀ h : b ≠ [], b.getLast h ≠ 0) (h : compareDigits a b = .eq) : a = b := by
  have hsame := getD_eq_of_compareDigitsLoop h
  have hle := length_le_of_getD hb hsame (le_max_right _ _)
  have hge := length_le_of_getD ha (fun i hi => (hsame i hi).symm) (le_max_left _ _)
  apply ext_getElem (le_antisymm hge hle)
  intro i hi hi'
  have hat := hsame i (hi.trans_le (le_max_left _ _))
  rwa [getD_eq_getElem _ _ hi, getD_eq_getElem _ _ hi'] at hat

/-- What normalisation leaves: no zero at the end, and one form of zero. -/
structure NormalizedNumber.Reduced (n : NormalizedNumber) : Prop where
  last : ∀ h : n.digits ≠ [], n.digits.getLast h ≠ 0
  zero : n.digits = [] → n = ⟨false, [], 0⟩

theorem normalizeDigits_reduced (negative : Bool) (exponent : ℤ) (allDigits : List ℕ) :
    (normalizeDigits negative exponent allDigits).Reduced := by
  unfold normalizeDigits
  dsimp only
  split
  · exact ⟨fun h => absurd rfl h, fun _ => rfl⟩
  · next hne =>
      refine ⟨fun h hzero => ?_, fun h => absurd (isEmpty_iff.mpr h) hne⟩
      exact rdropWhile_last_not _ _ h (decide_eq_true hzero)

theorem normalizeNumber_reduced (s : String) : (normalizeNumber s).Reduced :=
  normalizeDigits_reduced (stripSign (trim s.toList)).1 _ _

theorem eq_of_compareNormalized {a b : NormalizedNumber} (ha : a.Reduced) (hb : b.Reduced)
    (h : compareNormalized a b = .eq) : a = b := by
  unfold compareNormalized at h
  by_cases hane : a.digits = []
  · by_cases hbne : b.digits = []
    · rw [ha.zero hane, hb.zero hbne]
    · rw [if_neg (by simp [hbne]), if_pos (by simp [hane])] at h
      split at h <;> cases h
  by_cases hbne : b.digits = []
  · rw [if_neg (by simp [hane]), if_neg (by simp [hane]), if_pos (by simp [hbne])] at h
    split at h <;> cases h
  rw [if_neg (by simp [hane]), if_neg (by simp [hane]), if_neg (by simp [hbne])] at h
  have hsame : a.negative = b.negative ∧ compareMagnitude a b = .eq := by
    cases hneg : a.negative <;> cases hneg' : b.negative <;> rw [hneg, hneg'] at h
    · exact ⟨rfl, h⟩
    · cases h
    · cases h
    · exact ⟨rfl, Ordering.swap_eq_eq.mp h⟩
  obtain ⟨hneg, hmagnitude⟩ := hsame
  rw [compareMagnitude, Ordering.then_eq_eq, Int.compare_eq_eq] at hmagnitude
  have hdigits := eq_of_compareDigits ha.last hb.last hmagnitude.2
  cases a
  cases b
  simp_all

/-- Equal number keys are hashed alike. -/
theorem hashInput_eq {x y : String}
    (h : SortableAttributeValue.cmp (.n x) (.n y) = .eq) :
    SortableAttributeValue.hashInput (.n x) = SortableAttributeValue.hashInput (.n y) := by
  have heq := eq_of_compareNormalized (normalizeNumber_reduced x) (normalizeNumber_reduced y) h
  rw [SortableAttributeValue.hashInput, SortableAttributeValue.hashInput, heq]

/-! ## The order of number keys -/

/-- Three number keys are ordered by value, equal ones are hashed alike, and no sum of 64 bits
overflows on the way. -/
structure NumericOrder (a b c : NumberString) : Prop where
  order : ∀ x ∈ [a, b, c], ∀ y ∈ [a, b, c],
    compareNumberStrings x.text y.text = compare (numberValue x.text) (numberValue y.text)
  hash : ∀ x ∈ [a, b, c], ∀ y ∈ [a, b, c],
    SortableAttributeValue.cmp (.n x.text) (.n y.text) = .eq →
      SortableAttributeValue.hashInput (.n x.text) = SortableAttributeValue.hashInput (.n y.text)
  noOverflow : ∀ x ∈ [a, b, c], normalizeChecked x.text = some (normalizeNumber x.text)

/-- Numbers are ordered by value, and only a zero with an exponent at the bounds overflows. -/
theorem numericOrder_iff (a b c : NumberString) :
    NumericOrder a b c ↔ a.ZeroInRange ∧ b.ZeroInRange ∧ c.ZeroInRange := by
  have hrange : (∀ x ∈ [a, b, c], normalizeChecked x.text = some (normalizeNumber x.text)) ↔
      a.ZeroInRange ∧ b.ZeroInRange ∧ c.ZeroInRange := by
    simp only [forall_mem_cons, NumberString.normalizeChecked_iff, not_mem_nil,
      false_implies, implies_true, and_true]
  constructor
  · intro h
    exact hrange.mp h.noOverflow
  · intro h
    refine ⟨?_, ?_, hrange.mpr h⟩
    · intro x _ y _
      exact x.compareNumberStrings_eq y
    · intro x _ y _ heq
      exact hashInput_eq heq

/-- A zero whose exponent is the largest `i64`. -/
def largeZero : NumberString where
  text := "0e9223372036854775807"
  valid := by decide +kernel
  length := by decide +kernel

/-- The digit before the exponent is counted beyond the largest `i64`. -/
theorem largeZero_overflows : ¬∀ a b c : NumberString, NumericOrder a b c := by
  intro h
  have hzero := (h largeZero largeZero largeZero).noOverflow largeZero (.head _)
  have hchecked : normalizeChecked largeZero.text = none := by decide +kernel
  rw [hchecked] at hzero
  cases hzero

end Rustack.DynamoDB
