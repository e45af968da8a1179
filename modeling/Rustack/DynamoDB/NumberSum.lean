import Rustack.DynamoDB.NumberValue

/-!
# Sums of numbers

A sum is written out exactly or refused, as far as the operands, written as integers over their
last place, and their sum fit 128 bits.  Beyond that lie sums of 38 digits that are refused, and
sums that overflow.
-/

namespace Rustack.DynamoDB

open List ParsedNumber
open Option (getD_none getD_some)

/-! ## With overflow checks -/

/-- `precise_arithmetic` over a sum of `i128` values. -/
def arithmeticWith (sum : ℤ → ℤ → Outcome ExpressionError ℤ) (a b : String) (isAdd : Bool) :
    Outcome ExpressionError String := do
  let pa ← (parseNumberComponents a : Except _ _)
  let parsedB ← (parseNumberComponents b : Except _ _)
  let pb : ParsedNumber :=
    { parsedB with negative := if isAdd then parsedB.negative else !parsedB.negative }
  if pa.digits = ['0'] then pure (formatParsedNumber pb)
  else if pb.digits = ['0'] then pure (formatParsedNumber pa)
  else
    let minExp := min pa.exponent pb.exponent
    let aZeros ← repeatZero (wrapI64 (pa.exponent - minExp))
    let bZeros ← repeatZero (wrapI64 (pb.exponent - minExp))
    let aDigits := pa.digits ++ aZeros
    let bDigits := pb.digits ++ bZeros
    if 38 + 2 < max aDigits.length bDigits.length then throw (.validation overflowMessage)
    else
      let aVal ← (parseDigits aDigits : Except _ _)
      let bVal ← (parseDigits bDigits : Except _ _)
      let aSigned := if pa.negative then -aVal else aVal
      let bSigned := if pb.negative then -bVal else bVal
      let result ← sum aSigned bSigned
      (formatSum result minExp : Except _ _)

def wrappedSum (x y : ℤ) : Outcome ExpressionError ℤ := pure ((x + y).bmod (2 ^ 128))

/-- A sum out of range is a panic where overflows are checked. -/
def checkedSum (x y : ℤ) : Outcome ExpressionError ℤ :=
  if -(2 ^ 127) ≤ x + y ∧ x + y < 2 ^ 127 then pure (x + y) else .panic

theorem preciseArithmetic_eq (a b : String) (isAdd : Bool) :
    preciseArithmetic a b isAdd = arithmeticWith wrappedSum a b isAdd := rfl

/-! ## Parsed numbers -/

namespace ParsedNumber

def value (p : ParsedNumber) : ℚ :=
  signValue p.negative * digitsValue (p.digits.map digitValue) * (10 : ℚ) ^ p.exponent

/-- Digits without zeros at either end. -/
structure Trimmed (p : ParsedNumber) : Prop where
  digits : ∀ c ∈ p.digits, isAsciiDigit c = true
  ne_nil : p.digits ≠ []
  first : ∀ cs, p.digits ≠ '0' :: cs
  last : ∀ cs, p.digits ≠ cs ++ ['0']

/-- The digits are few enough, and in the range of places. -/
structure Normal (p : ParsedNumber) : Prop extends p.Trimmed where
  length : p.digits.length ≤ 38
  low : -130 ≤ p.exponent + p.digits.length - 1
  high : p.exponent + p.digits.length - 1 ≤ 125

/-- The digits as an integer with the sign. -/
def signed (p : ParsedNumber) : ℤ :=
  if p.negative then -digitsValue (p.digits.map digitValue)
  else digitsValue (p.digits.map digitValue)

theorem value_eq (p : ParsedNumber) : p.value = p.signed * (10 : ℚ) ^ p.exponent := by
  rw [value, signed]
  cases p.negative <;> simp [signValue]

theorem abs_signed (p : ParsedNumber) : |p.signed| = digitsValue (p.digits.map digitValue) := by
  rw [signed]
  cases p.negative <;> simp

theorem abs_value (p : ParsedNumber) :
    |p.value| = digitsValue (p.digits.map digitValue) * (10 : ℚ) ^ p.exponent := by
  have hpow : (0 : ℚ) < (10 : ℚ) ^ p.exponent := zpow_pos (by norm_num) _
  have hsigned : |(p.signed : ℚ)| = digitsValue (p.digits.map digitValue) := by
    exact_mod_cast congrArg (Int.cast (R := ℚ)) p.abs_signed
  rw [p.value_eq, abs_mul, abs_of_pos hpow, hsigned]

end ParsedNumber

theorem parseNumberComponents_eq {s : String} (h : Spelled s) :
    parseNumberComponents s =
      if (spelling s).leading = [] then .ok ⟨false, ['0'], 0⟩
      else .ok ⟨(spelling s).negative, (spelling s).significant,
        wrapI64 (wrapI64 ((spelling s).exponent - (spelling s).fraction.length) +
          ((spelling s).leading.length - (spelling s).significant.length : ℕ))⟩ := by
  have hexponent := h.exponent
  rcases hsign : stripSign s.toList with ⟨negative, rest⟩
  rcases hmark : splitAtFirst isExponentMark rest with ⟨mantissa, exponentPart⟩
  rcases hdot : splitAtFirst (· = '.') mantissa with ⟨integer, fraction⟩
  have hspelling : spelling s =
      ⟨negative, integer, fraction.getD [], (exponentPart.map integerValue).getD 0⟩ := by
    simp only [spelling, mantissaText, exponentText, hsign, hmark, hdot]
  have htext : exponentText s = exponentPart := by
    rw [exponentText, hsign, hmark]
  rw [htext] at hexponent
  unfold parseNumberComponents
  rw [h.trim]
  simp only [hsign, hmark, hdot]
  rw [hspelling]
  cases exponentPart with
  | none =>
      simp only [bind, Except.bind, List.isEmpty_iff]
      rfl
  | some text =>
      simp only [bind, Except.bind, hexponent text rfl, List.isEmpty_iff]
      rfl

/-- The significant digits, over the place of the last of them. -/
theorem Spelling.trimmed {p : Spelling} (h : ∀ c ∈ p.digits, isAsciiDigit c = true)
    (hne : p.significant ≠ []) (exponent : ℤ) :
    ParsedNumber.Trimmed ⟨p.negative, p.significant, exponent⟩ where
  digits c hc := h c (Spelling.mem_digits_of_mem_significant hc)
  ne_nil := hne
  first cs hcs := Spelling.head_significant_ne hcs rfl
  last cs hcs := by
    apply Spelling.last_significant_ne hne
    dsimp only at hcs
    rw [getLast_congr _ (by simp) hcs, getLast_append_singleton]

/-- A number is parsed to its value: to the one form of zero, or to its significant digits. -/
theorem NumberString.exists_parsed (x : NumberString) :
    ∃ p, parseNumberComponents x.text = .ok p ∧
      (p = ⟨false, ['0'], 0⟩ ∧ numberValue x.text = 0 ∨
        p.Normal ∧ p.value = numberValue x.text) := by
  rw [parseNumberComponents_eq x.spelled]
  by_cases hzero : (spelling x.text).leading = []
  · refine ⟨_, if_pos hzero, .inl ⟨rfl, ?_⟩⟩
    exact Spelling.value_eq_zero x.spelled.digits (Spelling.leading_eq_nil_iff.mp hzero)
  have hne : (spelling x.text).significant ≠ [] := fun h =>
    hzero (Spelling.leading_eq_nil_iff.mpr h)
  obtain ⟨hlength, hlow, hhigh⟩ := x.significant_range hne
  have hdigits := x.length_digits
  have hleading := (spelling x.text).length_leading_le
  have hsignificant := (spelling x.text).length_significant_le
  unfold Spelling.magnitude at hlow hhigh
  have hpoint : wrapI64 ((spelling x.text).exponent - (spelling x.text).fraction.length) =
      (spelling x.text).exponent - (spelling x.text).fraction.length :=
    wrapI64_eq (by omega) (by omega)
  rw [hpoint, wrapI64_eq (by omega) (by omega)]
  refine ⟨_, if_neg hzero, .inr ⟨⟨Spelling.trimmed x.spelled.digits hne _, hlength, ?_, ?_⟩, ?_⟩⟩
  · dsimp only
    omega
  · dsimp only
    omega
  · rw [value, numberValue, Spelling.value_eq x.spelled.digits]

/-! ## The text of a number -/

/-- A sign, digits, digits behind a point, and an exponent. -/
def numberText (negative : Bool) (integer : List Char) (fraction : Option (List Char))
    (exponent : Option ℤ) : List Char :=
  (signText negative).toList ++ (integer ++ (fraction.map fun cs => '.' :: cs).getD []) ++
    (exponent.map fun e => 'E' :: (toString e).toList).getD []

theorem integerValue_toString (e : ℤ) : integerValue (toString e).toList = e := by
  have hlow := neg_abs_le e
  have hhigh := le_abs_self e
  have hparse : parseSigned (|e| + 1) (toString e).toList = some e :=
    parseSigned_toString (by omega) (by omega)
  exact (parseSigned_eq_some hparse).1.symm

section Text

variable {s : String} {negative : Bool} {integer : List Char} {fraction : Option (List Char)}
  {exponent : Option ℤ}

theorem stripSign_numberText (hinteger : ∀ c ∈ integer, isAsciiDigit c = true)
    (hne : integer ≠ []) :
    stripSign (numberText negative integer fraction exponent) =
      (negative, numberText false integer fraction exponent) := by
  cases hcons : integer with
  | nil => exact absurd hcons hne
  | cons c cs =>
      have hc : isAsciiDigit c = true := hinteger c (hcons ▸ mem_cons_self)
      cases negative with
      | true => rfl
      | false => exact stripSign_of_digit hc _

theorem splitAtFirst_numberText (hinteger : ∀ c ∈ integer, isAsciiDigit c = true)
    (hfraction : ∀ c ∈ fraction.getD [], isAsciiDigit c = true) :
    splitAtFirst isExponentMark (numberText false integer fraction exponent) =
      (integer ++ (fraction.map fun cs => '.' :: cs).getD [],
        exponent.map fun e => (toString e).toList) := by
  have hmark : ∀ c, isAsciiDigit c = true → isExponentMark c = false := by
    intro c hc
    have he := isAsciiDigit_ne hc (d := 'e') (by decide)
    have hE := isAsciiDigit_ne hc (d := 'E') (by decide)
    simp [isExponentMark, he, hE]
  have hmantissa : ∀ c ∈ integer ++ (fraction.map fun cs => '.' :: cs).getD [],
      isExponentMark c = false := by
    rw [forall_mem_append]
    refine ⟨fun c hc => hmark c (hinteger c hc), ?_⟩
    cases fraction with
    | none => exact fun c hc => absurd hc not_mem_nil
    | some cs => exact forall_mem_cons.mpr ⟨by decide, fun c hc => hmark c (hfraction c hc)⟩
  cases exponent with
  | none =>
      rw [numberText, Option.map_none, getD_none, append_nil]
      exact splitAtFirst_none hmantissa
  | some e => exact splitAtFirst_append hmantissa (by decide)

/-- What is written out is read back. -/
theorem spelling_numberText (h : s.toList = numberText negative integer fraction exponent)
    (hinteger : ∀ c ∈ integer, isAsciiDigit c = true) (hne : integer ≠ [])
    (hfraction : ∀ c ∈ fraction.getD [], isAsciiDigit c = true) :
    spelling s = ⟨negative, integer, fraction.getD [], exponent.getD 0⟩ := by
  have hdot : splitAtFirst (· = '.') (integer ++ (fraction.map fun cs => '.' :: cs).getD []) =
      (integer, fraction) := by
    have hnot : ∀ c ∈ integer, decide (c = '.') = false := fun c hc => digit_ne_dot (hinteger c hc)
    cases fraction with
    | none =>
        rw [Option.map_none, getD_none, append_nil]
        exact splitAtFirst_none hnot
    | some cs => exact splitAtFirst_append hnot (by decide)
  have hexponent : ((exponent.map fun e => (toString e).toList).map integerValue).getD 0 =
      exponent.getD 0 := by
    cases exponent with
    | none => rfl
    | some e => exact integerValue_toString e
  rw [spelling, mantissaText, exponentText, h, stripSign_numberText hinteger hne,
    splitAtFirst_numberText hinteger hfraction]
  dsimp only
  rw [hdot, hexponent]

theorem numberValue_of_text (h : s.toList = numberText negative integer fraction exponent)
    (hinteger : ∀ c ∈ integer, isAsciiDigit c = true) (hne : integer ≠ [])
    (hfraction : ∀ c ∈ fraction.getD [], isAsciiDigit c = true) :
    numberValue s = signValue negative *
      digitsValue ((integer ++ fraction.getD []).map digitValue) *
        (10 : ℚ) ^ (exponent.getD 0 - (fraction.getD []).length) := by
  rw [numberValue, spelling_numberText h hinteger hne hfraction]
  rfl

end Text

theorem isAsciiDigit_zeros (n : ℕ) : ∀ c ∈ replicate n '0', isAsciiDigit c = true := by
  intro c hc
  rw [(mem_replicate.mp hc).2]
  decide

theorem digitsValue_append_zeros (cs : List Char) (n : ℕ) :
    digitsValue ((cs ++ replicate n '0').map digitValue) =
      digitsValue (cs.map digitValue) * 10 ^ n := by
  have hzero : digitValue '0' = 0 := rfl
  rw [map_append, map_replicate, hzero, digitsValue_eq, Positional.value_append_zeros,
    digitsValue_eq]

theorem digitsValue_zeros_append (n : ℕ) (cs : List Char) :
    digitsValue ((replicate n '0' ++ cs).map digitValue) = digitsValue (cs.map digitValue) := by
  have hzero : digitValue '0' = 0 := rfl
  rw [map_append, map_replicate, hzero, digitsValue_eq, Positional.value_append,
    Positional.value_zeros, Nat.zero_mul, Nat.zero_add, digitsValue_eq]

/-- The pieces of a text that denotes a number, none of them long. -/
structure Layout (p : ParsedNumber) (s : String) where
  integer : List Char
  fraction : Option (List Char)
  exponent : Option ℤ
  text : s.toList = numberText p.negative integer fraction exponent
  integer_digits : ∀ c ∈ integer, isAsciiDigit c = true
  integer_ne_nil : integer ≠ []
  fraction_digits : ∀ c ∈ fraction.getD [], isAsciiDigit c = true
  value : digitsValue ((integer ++ fraction.getD []).map digitValue) *
    (10 : ℚ) ^ (exponent.getD 0 - (fraction.getD []).length) =
      digitsValue (p.digits.map digitValue) * (10 : ℚ) ^ p.exponent
  length : integer.length + (fraction.getD []).length ≤ 64
  exponent_low : -200 ≤ exponent.getD 0
  exponent_high : exponent.getD 0 ≤ 200

theorem Layout.numberValue {p : ParsedNumber} {s : String} (l : Layout p s) :
    numberValue s = p.value := by
  rw [numberValue_of_text l.text l.integer_digits l.integer_ne_nil l.fraction_digits, mul_assoc,
    l.value, ParsedNumber.value, mul_assoc]

/-- All notations of a number denote it. -/
theorem exists_layout {p : ParsedNumber} (hp : p.Normal) :
    Nonempty (Layout p (formatParsedNumber p)) := by
  have hpos := length_pos_iff.mpr hp.ne_nil
  have hlength := hp.length
  have hlow := hp.low
  have hhigh := hp.high
  have htotal : wrapI64 (p.digits.length + p.exponent) = p.digits.length + p.exponent :=
    wrapI64_eq (by omega) (by omega)
  have htake : ∀ n, ∀ c ∈ p.digits.take n, isAsciiDigit c = true := fun n c hc =>
    hp.digits c (mem_of_mem_take hc)
  have hdrop : ∀ n, ∀ c ∈ p.digits.drop n, isAsciiDigit c = true := fun n c hc =>
    hp.digits c (mem_of_mem_drop hc)
  have hnone : ∀ c ∈ (none : Option (List Char)).getD [], isAsciiDigit c = true := fun c hc =>
    absurd hc not_mem_nil
  unfold formatParsedNumber
  rw [if_neg (hp.first []), htotal]
  dsimp only
  rw [wrapI64_eq (by omega) (by omega)]
  split_ifs with hinteger hmixed hsmall hone
  · have hpow : (10 : ℚ) ^ p.exponent = 10 ^ p.exponent.toNat := by
      rw [← zpow_natCast, Int.toNat_of_nonneg hinteger.1]
    refine ⟨⟨p.digits ++ replicate p.exponent.toNat '0', none, none, ?_,
      forall_mem_append.mpr ⟨hp.digits, isAsciiDigit_zeros _⟩, by simp [hp.ne_nil], hnone, ?_,
      ?_, by simp, by simp⟩⟩
    · simp [numberText]
    · rw [getD_none, append_nil, digitsValue_append_zeros, hpow]
      simp
    · rw [length_append, length_replicate, getD_none, length_nil]
      omega
  · have hnot : ¬0 ≤ p.exponent := fun h => hinteger ⟨h, hmixed.2⟩
    have hne : p.digits.take (p.digits.length + p.exponent).toNat ≠ [] := by
      simp only [ne_eq, take_eq_nil_iff, hp.ne_nil, or_false]
      omega
    refine ⟨⟨p.digits.take (p.digits.length + p.exponent).toNat,
      some (p.digits.drop (p.digits.length + p.exponent).toNat), none, ?_, htake _, hne, hdrop _,
      ?_, ?_, by simp, by simp⟩⟩
    · simp [numberText]
    · have hexp : (0 : ℤ) - (p.digits.drop (p.digits.length + p.exponent).toNat).length =
          p.exponent := by
        rw [length_drop]
        omega
      rw [getD_some, take_append_drop, getD_none, hexp]
    · rw [getD_some, ← length_append, take_append_drop]
      omega
  · refine ⟨⟨['0'], some (replicate (-(p.digits.length + p.exponent)).toNat '0' ++ p.digits),
      none, ?_, by simp [isAsciiDigit], cons_ne_nil _ _,
      forall_mem_append.mpr ⟨isAsciiDigit_zeros _, hp.digits⟩, ?_, ?_, by simp, by simp⟩⟩
    · simp [numberText]
    · have hexp : (0 : ℤ) - (replicate (-(p.digits.length + p.exponent)).toNat '0' ++
          p.digits).length = p.exponent := by
        rw [length_append, length_replicate]
        omega
      have hdigits := (digitsValue_zeros_append 1 (replicate
        (-(p.digits.length + p.exponent)).toNat '0' ++ p.digits)).trans
          (digitsValue_zeros_append _ p.digits)
      rw [getD_some, getD_none, hexp]
      exact congrArg (fun n : ℕ => (n : ℚ) * (10 : ℚ) ^ p.exponent) hdigits
    · rw [getD_some, length_append, length_replicate, length_singleton]
      omega
  · refine ⟨⟨p.digits, none, some (p.digits.length + p.exponent - 1), ?_, hp.digits, hp.ne_nil,
      hnone, ?_, ?_, ?_, ?_⟩⟩
    · simp [numberText]
    · rw [getD_none, append_nil, hone]
      simp
    · rw [getD_none, length_nil]
      omega
    · rw [getD_some]
      omega
    · rw [getD_some]
      omega
  · refine ⟨⟨p.digits.take 1, some (p.digits.drop 1), some (p.digits.length + p.exponent - 1), ?_,
      htake _, by simp [hp.ne_nil], hdrop _, ?_, ?_, ?_, ?_⟩⟩
    · simp [numberText]
    · have hexp : (p.digits.length : ℤ) + p.exponent - 1 - (p.digits.drop 1).length =
          p.exponent := by
        rw [length_drop]
        omega
      rw [getD_some, getD_some, take_append_drop, hexp]
    · rw [getD_some, ← length_append, take_append_drop]
      omega
    · rw [getD_some]
      omega
    · rw [getD_some]
      omega

theorem numberValue_format {p : ParsedNumber} (hp : p.Normal) :
    numberValue (formatParsedNumber p) = p.value := by
  obtain ⟨l⟩ := exists_layout hp
  exact l.numberValue

/-! ## What can be written out -/

namespace ParsedNumber.Trimmed

variable {p : ParsedNumber} (hp : p.Trimmed)

include hp

theorem pow_le : 10 ^ (p.digits.length - 1) ≤ digitsValue (p.digits.map digitValue) := by
  cases hdigits : p.digits with
  | nil => exact absurd hdigits hp.ne_nil
  | cons c cs =>
      have hc : isAsciiDigit c = true := hp.digits c (hdigits ▸ mem_cons_self)
      have hpos : 0 < digitValue c := Nat.pos_of_ne_zero fun h =>
        hp.first cs (by rw [hdigits, (digitValue_eq_zero hc).mp h])
      have hle := Positional.pow_le_value (b := 10) hpos (cs.map digitValue)
      rw [length_map] at hle
      exact hle

theorem lt_pow : digitsValue (p.digits.map digitValue) < 10 ^ p.digits.length := by
  have h := Positional.value_lt (map_digitValue_lt hp.digits)
  rwa [length_map] at h

theorem not_dvd : ¬10 ∣ digitsValue (p.digits.map digitValue) := by
  rcases eq_nil_or_concat p.digits with hnil | ⟨cs, c, hdigits⟩
  · exact absurd hnil hp.ne_nil
  · rw [concat_eq_append] at hdigits
    have hc : isAsciiDigit c = true := hp.digits c (by simp [hdigits])
    have hpos : 0 < digitValue c := Nat.pos_of_ne_zero fun h =>
      hp.last cs (by rw [hdigits, (digitValue_eq_zero hc).mp h])
    rw [hdigits, map_append, map_singleton]
    exact Positional.not_dvd_value hpos (digitValue_lt hc) _

theorem not_dvd_signed : ¬(10 : ℤ) ∣ p.signed := by
  intro h
  apply hp.not_dvd
  rw [← dvd_abs, p.abs_signed] at h
  exact_mod_cast h

theorem pow_le_abs : (10 : ℚ) ^ (p.exponent + p.digits.length - 1) ≤ |p.value| := by
  have hpos := length_pos_iff.mpr hp.ne_nil
  have hle : ((10 : ℚ) ^ (p.digits.length - 1 : ℕ)) ≤ digitsValue (p.digits.map digitValue) := by
    exact_mod_cast hp.pow_le
  have hexp : p.exponent + p.digits.length - 1 = (p.digits.length - 1 : ℕ) + p.exponent := by omega
  rw [p.abs_value, hexp, zpow_add₀ (by norm_num), zpow_natCast]
  exact mul_le_mul_of_nonneg_right hle (zpow_pos (by norm_num) _).le

theorem abs_lt_pow : |p.value| < (10 : ℚ) ^ (p.exponent + p.digits.length) := by
  have hlt : (digitsValue (p.digits.map digitValue) : ℚ) < (10 : ℚ) ^ p.digits.length := by
    exact_mod_cast hp.lt_pow
  rw [p.abs_value, add_comm, zpow_add₀ (by norm_num), zpow_natCast]
  exact mul_lt_mul_of_pos_right hlt (zpow_pos (by norm_num) _)

theorem value_ne_zero : p.value ≠ 0 := by
  intro h
  have hle := hp.pow_le_abs
  rw [h, abs_zero] at hle
  exact absurd (zpow_pos (by norm_num : (0 : ℚ) < 10) _) (not_lt.mpr hle)

/-- Few enough digits, in the range of places: that is what representable means. -/
theorem representable_iff : Representable p.value ↔ p.Normal := by
  have hten : (1 : ℚ) < 10 := by norm_num
  constructor
  · rintro (h | ⟨⟨n, k, heq, hn⟩, hlow, hhigh⟩)
    · exact absurd h hp.value_ne_zero
    refine ⟨hp, ?_, ?_, ?_⟩
    · rw [p.value_eq] at heq
      have hle := (Positional.le_of_not_dvd (b := 10) (by decide) hp.not_dvd_signed heq).2
      rw [p.abs_signed] at hle
      have hdigits : digitsValue (p.digits.map digitValue) < 10 ^ 38 := by
        exact_mod_cast hle.trans_lt hn
      have hlength := (Nat.pow_lt_pow_iff_right (by decide)).mp (hp.pow_le.trans_lt hdigits)
      omega
    · by_contra hlt
      have hle : (10 : ℚ) ^ (p.exponent + p.digits.length) ≤ (10 : ℚ) ^ (-130 : ℤ) :=
        zpow_le_zpow_right₀ hten.le (by omega)
      exact absurd (hlow.trans_lt hp.abs_lt_pow) (not_lt.mpr hle)
    · by_contra hgt
      have hle : (10 : ℚ) ^ (126 : ℤ) ≤ (10 : ℚ) ^ (p.exponent + p.digits.length - 1) :=
        zpow_le_zpow_right₀ hten.le (by omega)
      exact absurd (hp.pow_le_abs.trans_lt hhigh) (not_lt.mpr hle)
  · intro h
    refine .inr ⟨⟨_, p.exponent, p.value_eq, ?_⟩, ?_, ?_⟩
    · rw [p.abs_signed]
      have hlt := hp.lt_pow.trans_le (Nat.pow_le_pow_right (by decide) h.length)
      exact_mod_cast hlt
    · have hlow := h.low
      exact (zpow_le_zpow_right₀ hten.le (by omega)).trans hp.pow_le_abs
    · have hhigh := h.high
      exact hp.abs_lt_pow.trans_le (zpow_le_zpow_right₀ hten.le (by omega))

end ParsedNumber.Trimmed

theorem NumberString.abs_numberValue_lt (x : NumberString) :
    |numberValue x.text| < (10 : ℚ) ^ 126 := by
  obtain ⟨p, -, ⟨-, hzero⟩ | ⟨hp, hvalue⟩⟩ := x.exists_parsed
  · rw [hzero, abs_zero]
    positivity
  · have hhigh := hp.high
    rw [← hvalue, ← zpow_natCast]
    exact hp.abs_lt_pow.trans_le (zpow_le_zpow_right₀ (by norm_num) (by omega))

/-! ## Writing out a sum -/

theorem toDigits_ne_zero_cons {n : ℕ} (hn : 0 < n) (cs : List Char) :
    Nat.toDigits 10 n ≠ '0' :: cs := by
  induction n using Nat.strong_induction_on generalizing cs with
  | _ n ih =>
      by_cases hlt : n < 10
      · rw [Nat.toDigits_of_lt_base hlt]
        intro h
        rw [cons.injEq, Nat.digitChar_eq_zero] at h
        omega
      · rw [Nat.toDigits_of_base_le (by decide) (by omega)]
        have hfront := ih (n / 10) (by omega) (by omega)
        intro h
        cases hdigits : Nat.toDigits 10 (n / 10) with
        | nil => exact Nat.toDigits_ne_nil hdigits
        | cons d ds =>
            rw [hdigits, cons_append, cons.injEq] at h
            exact hfront ds (by rw [hdigits, h.1])

/-- The digits of a sum without the zeros at their end. -/
def sumParsed (result minExp : ℤ) : ParsedNumber where
  negative := decide (result < 0)
  digits := (Nat.toDigits 10 result.natAbs).rdropWhile (· = '0')
  exponent := minExp + ((Nat.toDigits 10 result.natAbs).length -
    ((Nat.toDigits 10 result.natAbs).rdropWhile (· = '0')).length : ℕ)

section Sum

variable {result minExp : ℤ}

theorem sumParsed_trimmed (hne : result ≠ 0) : (sumParsed result minExp).Trimmed := by
  have hpos : 0 < result.natAbs := Int.natAbs_pos.mpr hne
  have hpre : (sumParsed result minExp).digits <+: Nat.toDigits 10 result.natAbs :=
    rdropWhile_prefix _ _
  refine ⟨?_, ?_, ?_, ?_⟩
  · exact fun c hc => isAsciiDigit_of_mem_toDigits (hpre.subset hc)
  · intro hnil
    have hzeros := rdropWhile_eq_nil_iff.mp hnil
    cases hdigits : Nat.toDigits 10 result.natAbs with
    | nil => exact Nat.toDigits_ne_nil hdigits
    | cons c cs =>
        have hc : c = '0' := of_decide_eq_true (hzeros c (hdigits ▸ mem_cons_self))
        exact toDigits_ne_zero_cons hpos cs (by rw [hdigits, hc])
  · intro cs hcs
    obtain ⟨rest, hrest⟩ := hpre
    rw [hcs, cons_append] at hrest
    exact toDigits_ne_zero_cons hpos _ hrest.symm
  · intro cs hcs
    have hlast := rdropWhile_last_not (fun c => decide (c = '0'))
      (Nat.toDigits 10 result.natAbs)
    change ∀ h : (sumParsed result minExp).digits ≠ [],
      ¬decide ((sumParsed result minExp).digits.getLast h = '0') = true at hlast
    rw [hcs] at hlast
    exact hlast (by simp) (by simp)

theorem sumParsed_value (result minExp : ℤ) :
    (sumParsed result minExp).value = result * (10 : ℚ) ^ minExp := by
  have hdigits : ∀ c ∈ Nat.toDigits 10 result.natAbs, isAsciiDigit c = true := fun c hc =>
    isAsciiDigit_of_mem_toDigits hc
  have hvalue := digitsValue_toDigits result.natAbs
  rw [digitsValue_eq, Positional.value_rdropWhile, ← map_digitValue_rdropWhile hdigits,
    length_map, length_map] at hvalue
  have hsign : (result : ℚ) = signValue (decide (result < 0)) * result.natAbs := by
    rw [Nat.cast_natAbs, signValue]
    by_cases hneg : result < 0
    · simp [hneg, abs_of_neg hneg]
    · simp [hneg, abs_of_nonneg (not_lt.mp hneg)]
  have hcast := congrArg (Nat.cast (R := ℚ)) hvalue
  rw [value, sumParsed]
  dsimp only
  rw [zpow_add₀ (by norm_num), zpow_natCast, hsign, ← hcast, digitsValue_eq]
  push_cast
  ring

theorem formatSum_zero (minExp : ℤ) : formatSum 0 minExp = .ok "0" := by
  rfl

theorem numberValue_zero : numberValue "0" = 0 := by
  have hspelling : spelling "0" = ⟨false, ['0'], [], 0⟩ := by decide
  rw [numberValue, hspelling]
  simp [Spelling.value, Spelling.digits, digitsValue, digitValue]

/-- A sum is written out if it can be, and refused otherwise. -/
theorem formatSum_spec (hne : result ≠ 0) (hresult : result.natAbs < 10 ^ 40)
    (hlow : -(2 ^ 60) ≤ minExp) (hhigh : minExp ≤ 2 ^ 60) :
    ((sumParsed result minExp).Normal →
      formatSum result minExp = .ok (formatParsedNumber (sumParsed result minExp))) ∧
    (¬(sumParsed result minExp).Normal → ∃ e, formatSum result minExp = .error e) := by
  have htrimmed : (sumParsed result minExp).Trimmed := sumParsed_trimmed hne
  have hlength : (Nat.toDigits 10 result.natAbs).length ≤ 40 :=
    (Nat.length_toDigits_le_iff (by decide) (by decide)).mpr hresult
  have hle : (sumParsed result minExp).digits.length ≤ (Nat.toDigits 10 result.natAbs).length :=
    ( rdropWhile_prefix _ _).length_le
  have hdef : (sumParsed result minExp).exponent = minExp +
      ((Nat.toDigits 10 result.natAbs).length - (sumParsed result minExp).digits.length : ℕ) := rfl
  have htext : (toString result.natAbs).toList = Nat.toDigits 10 result.natAbs := Nat.toList_repr
  have hempty : (sumParsed result minExp).digits.isEmpty = false := by
    simp [htrimmed.ne_nil]
  have hformat : formatSum result minExp =
      if 38 < (sumParsed result minExp).digits.length then .error (.validation overflowMessage)
      else if 125 < (sumParsed result minExp).exponent + (sumParsed result minExp).digits.length - 1
        then .error (.validation overflowMessage)
      else if (sumParsed result minExp).exponent +
          (sumParsed result minExp).digits.length - 1 < -130
        then .error (.validation underflowMessage)
      else .ok (formatParsedNumber (sumParsed result minExp)) := by
    unfold formatSum
    dsimp only
    rw [htext, wrapI64_eq (x := minExp + _) (by omega) (by omega)]
    change (if (sumParsed result minExp).digits.isEmpty = true then _ else
      if 38 < (sumParsed result minExp).digits.length then _ else
        if 125 < wrapI64 ((sumParsed result minExp).exponent +
          (sumParsed result minExp).digits.length - 1) then _ else
            if wrapI64 ((sumParsed result minExp).exponent +
              (sumParsed result minExp).digits.length - 1) < -130 then _ else _) = _
    rw [hempty, if_neg Bool.false_ne_true, wrapI64_eq (by omega) (by omega)]
    rfl
  rw [hformat]
  constructor
  · intro hp
    rw [if_neg (not_lt.mpr hp.length), if_neg (not_lt.mpr hp.high), if_neg (not_lt.mpr hp.low)]
  · intro hnot
    split_ifs with hlong hover hunder
    · exact ⟨_, rfl⟩
    · exact ⟨_, rfl⟩
    · exact ⟨_, rfl⟩
    · exact absurd ⟨htrimmed, not_lt.mp hlong, not_lt.mp hunder, not_lt.mp hover⟩ hnot

theorem formatSum_exact (hresult : result.natAbs < 10 ^ 40) (hlow : -(2 ^ 60) ≤ minExp)
    (hhigh : minExp ≤ 2 ^ 60) :
    (Representable (result * (10 : ℚ) ^ minExp) → ∃ s, formatSum result minExp = .ok s ∧
      numberValue s = result * (10 : ℚ) ^ minExp) ∧
    (¬Representable (result * (10 : ℚ) ^ minExp) → ∃ e, formatSum result minExp = .error e) := by
  by_cases hne : result = 0
  · subst hne
    refine ⟨fun _ => ⟨"0", formatSum_zero minExp, ?_⟩, fun hnot => absurd (.inl ?_) hnot⟩
    · simp [numberValue_zero]
    · simp
  · obtain ⟨hok, herror⟩ := formatSum_spec hne hresult hlow hhigh
    rw [← sumParsed_value, (sumParsed_trimmed hne).representable_iff]
    exact ⟨fun hp => ⟨_, hok hp, numberValue_format hp⟩, herror⟩

end Sum

/-! ## Operands over one place -/

namespace ParsedNumber

/-- The second operand of a difference has its sign turned. -/
def operand (isAdd : Bool) (p : ParsedNumber) : ParsedNumber :=
  { p with negative := if isAdd then p.negative else !p.negative }

theorem Normal.operand {p : ParsedNumber} (hp : p.Normal) (isAdd : Bool) :
    (p.operand isAdd).Normal :=
  ⟨⟨hp.digits, hp.ne_nil, hp.first, hp.last⟩, hp.length, hp.low, hp.high⟩

theorem value_operand (isAdd : Bool) (p : ParsedNumber) :
    (p.operand isAdd).value = if isAdd then p.value else -p.value := by
  cases isAdd <;> cases hneg : p.negative <;> simp [operand, value, signValue, hneg]

/-- The digits over the place `minExp`. -/
def alignedDigits (p : ParsedNumber) (minExp : ℤ) : List Char :=
  p.digits ++ List.replicate (p.exponent - minExp).toNat '0'

def aligned (p : ParsedNumber) (minExp : ℤ) : ℤ := p.signed * 10 ^ (p.exponent - minExp).toNat

theorem value_aligned {p : ParsedNumber} {minExp : ℤ} (h : minExp ≤ p.exponent) :
    p.value = p.aligned minExp * (10 : ℚ) ^ minExp := by
  have hexp : p.exponent = (p.exponent - minExp).toNat + minExp := by omega
  rw [p.value_eq, aligned]
  conv_lhs => rw [hexp, zpow_add₀ (by norm_num), zpow_natCast]
  push_cast
  ring

theorem abs_aligned (p : ParsedNumber) (minExp : ℤ) :
    |p.aligned minExp| = digitsValue ((p.alignedDigits minExp).map digitValue) := by
  rw [aligned, alignedDigits, digitsValue_append_zeros, abs_mul, p.abs_signed, abs_pow]
  push_cast
  simp

end ParsedNumber

theorem parseDigits_of_digits {cs : List Char} (hcs : ∀ c ∈ cs, isAsciiDigit c = true)
    (hne : cs ≠ []) : (digitsValue (cs.map digitValue) < 2 ^ 127 →
      parseDigits cs = .ok (digitsValue (cs.map digitValue))) ∧
    (2 ^ 127 ≤ digitsValue (cs.map digitValue) → ∃ e, parseDigits cs = .error e) := by
  cases hcons : cs with
  | nil => exact absurd hcons hne
  | cons c rest =>
      have hc : isAsciiDigit c = true := hcs c (hcons ▸ mem_cons_self)
      have hparse : parseI128 cs = if -(2 ^ 127) ≤ (digitsValue (cs.map digitValue) : ℤ) ∧
          (digitsValue (cs.map digitValue) : ℤ) < 2 ^ 127 then
            some (digitsValue (cs.map digitValue) : ℤ) else none := by
        rw [parseI128, parseSigned, hcons, stripSign_of_digit hc, ← hcons]
        dsimp only
        rw [all_eq_true.mpr hcs, if_neg (by simp [hne]), if_neg Bool.false_ne_true]
      rw [← hcons, parseDigits, hparse]
      constructor
      · intro hlt
        rw [if_pos (by omega)]
      · intro hle
        rw [if_neg (by omega)]
        exact ⟨_, rfl⟩

theorem repeatZero_eq {n : ℤ} (hn : 0 ≤ n) (hlt : n < 2 ^ 63) :
    repeatZero (wrapI64 n) = .ok (replicate n.toNat '0') := by
  rw [wrapI64_eq (by omega) hlt, repeatZero, if_neg (by omega)]

/-- An operand fits 128 bits. -/
def FitsI128 (n : ℤ) : Prop := |n| < 2 ^ 127

/-- A sum fits 128 bits. -/
def SumFits (x y : ℤ) : Prop := -(2 ^ 127) ≤ x + y ∧ x + y < 2 ^ 127

section Aligned

variable {p q : ParsedNumber} {minExp : ℤ}

theorem fitsI128_aligned : FitsI128 (p.aligned minExp) ↔
    digitsValue ((p.alignedDigits minExp).map digitValue) < 2 ^ 127 := by
  rw [FitsI128, p.abs_aligned]
  exact_mod_cast Iff.rfl

theorem length_alignedDigits (p : ParsedNumber) (minExp : ℤ) :
    (p.alignedDigits minExp).length = p.digits.length + (p.exponent - minExp).toNat := by
  rw [alignedDigits, length_append, length_replicate]

theorem ParsedNumber.Normal.pow_le_aligned (hp : p.Normal) (minExp : ℤ) :
    (10 : ℤ) ^ ((p.alignedDigits minExp).length - 1) ≤ |p.aligned minExp| := by
  have hpos := length_pos_iff.mpr hp.ne_nil
  have hexp : (p.alignedDigits minExp).length - 1 =
      (p.digits.length - 1) + (p.exponent - minExp).toNat := by
    rw [length_alignedDigits]
    omega
  have hle : 10 ^ ((p.alignedDigits minExp).length - 1) ≤
      digitsValue ((p.alignedDigits minExp).map digitValue) := by
    rw [hexp, pow_add, alignedDigits, digitsValue_append_zeros]
    exact Nat.mul_le_mul_right _ hp.pow_le
  rw [p.abs_aligned]
  exact_mod_cast hle

theorem ParsedNumber.Normal.length_of_fits (hp : p.Normal) (h : FitsI128 (p.aligned minExp)) :
    (p.alignedDigits minExp).length ≤ 40 := by
  by_contra hlong
  have hle : (10 : ℤ) ^ 40 ≤ 10 ^ ((p.alignedDigits minExp).length - 1) :=
    pow_le_pow_right₀ (by norm_num) (by omega)
  have habs := (hle.trans (hp.pow_le_aligned minExp)).trans_lt h
  norm_num at habs

end Aligned

section Arithmetic

variable {sum : ℤ → ℤ → Outcome ExpressionError ℤ} {a b : String} {isAdd : Bool}
  {pa pb : ParsedNumber}

theorem signed_of_digits (p : ParsedNumber) (minExp : ℤ) :
    (if p.negative then -(digitsValue ((p.alignedDigits minExp).map digitValue) : ℤ)
      else digitsValue ((p.alignedDigits minExp).map digitValue)) = p.aligned minExp := by
  rw [aligned, signed, alignedDigits,
    digitsValue_append_zeros]
  cases p.negative <;> simp

theorem isAsciiDigit_alignedDigits {p : ParsedNumber} (hp : p.Normal) (minExp : ℤ) :
    ∀ c ∈ p.alignedDigits minExp, isAsciiDigit c = true :=
  forall_mem_append.mpr ⟨hp.digits, isAsciiDigit_zeros _⟩

theorem alignedDigits_ne_nil {p : ParsedNumber} (hp : p.Normal) (minExp : ℤ) :
    p.alignedDigits minExp ≠ [] := by
  simp [alignedDigits, hp.ne_nil]

/-- The steps of the arithmetic on two numbers that are not zero. -/
theorem arithmeticWith_eq (hpa : parseNumberComponents a = .ok pa)
    (hpb : parseNumberComponents b = .ok pb) (ha : pa.Normal) (hb : pb.Normal) :
    arithmeticWith sum a b isAdd =
      if 40 < max (pa.alignedDigits (min pa.exponent pb.exponent)).length
          ((pb.operand isAdd).alignedDigits (min pa.exponent pb.exponent)).length then
        .err (.validation overflowMessage)
      else (do
        let aVal ← (parseDigits (pa.alignedDigits (min pa.exponent pb.exponent)) : Except _ _)
        let bVal ←
          (parseDigits ((pb.operand isAdd).alignedDigits (min pa.exponent pb.exponent)) :
            Except _ _)
        let result ← sum (if pa.negative then -aVal else aVal)
          (if (pb.operand isAdd).negative then -bVal else bVal)
        (formatSum result (min pa.exponent pb.exponent) : Except _ _)) := by
  have hpos := length_pos_iff.mpr ha.ne_nil
  have hpos' := length_pos_iff.mpr hb.ne_nil
  have hle := ha.length
  have hle' := hb.length
  have hlow := ha.low
  have hlow' := hb.low
  have hhigh := ha.high
  have hhigh' := hb.high
  have hshift : ∀ e, e = pa.exponent ∨ e = pb.exponent →
      repeatZero (wrapI64 (e - min pa.exponent pb.exponent)) =
        .ok (replicate (e - min pa.exponent pb.exponent).toNat '0') := by
    rintro e (rfl | rfl) <;> exact repeatZero_eq (by omega) (by omega)
  have hshiftA := hshift _ (.inl rfl)
  have hshiftB := hshift _ (.inr rfl)
  unfold arithmeticWith
  rw [hpa, hpb]
  simp only [Outcome.liftM_eq, Outcome.ofExcept, Outcome.ok_bind]
  rw [if_neg (ha.first []), if_neg (hb.first [])]
  rw [hshiftA, Outcome.ok_bind, hshiftB, Outcome.ok_bind]
  rfl

theorem arithmeticWith_fits (hpa : parseNumberComponents a = .ok pa)
    (hpb : parseNumberComponents b = .ok pb) (ha : pa.Normal) (hb : pb.Normal)
    (hA : FitsI128 (pa.aligned (min pa.exponent pb.exponent)))
    (hB : FitsI128 ((pb.operand isAdd).aligned (min pa.exponent pb.exponent))) :
    arithmeticWith sum a b isAdd =
      (sum (pa.aligned (min pa.exponent pb.exponent))
        ((pb.operand isAdd).aligned (min pa.exponent pb.exponent)) >>= fun result =>
          Outcome.ofExcept (formatSum result (min pa.exponent pb.exponent))) := by
  have hb' := hb.operand isAdd
  have hlengthA := ha.length_of_fits hA
  have hlengthB := hb'.length_of_fits hB
  have hparseA := (parseDigits_of_digits (isAsciiDigit_alignedDigits ha _)
    (alignedDigits_ne_nil ha _)).1 (fitsI128_aligned.mp hA)
  have hparseB := (parseDigits_of_digits (isAsciiDigit_alignedDigits hb' _)
    (alignedDigits_ne_nil hb' _)).1 (fitsI128_aligned.mp hB)
  rw [arithmeticWith_eq hpa hpb ha hb, if_neg (by omega), hparseA, hparseB]
  simp only [Outcome.liftM_eq, Outcome.ofExcept, Outcome.ok_bind]
  rw [signed_of_digits, signed_of_digits]

theorem arithmeticWith_unfit (hpa : parseNumberComponents a = .ok pa)
    (hpb : parseNumberComponents b = .ok pb) (ha : pa.Normal) (hb : pb.Normal)
    (h : ¬(FitsI128 (pa.aligned (min pa.exponent pb.exponent)) ∧
      FitsI128 ((pb.operand isAdd).aligned (min pa.exponent pb.exponent)))) :
    ∃ e, arithmeticWith sum a b isAdd = .err e := by
  have hb' := hb.operand isAdd
  have hparse : ∀ {p : ParsedNumber}, p.Normal → ∀ minExp, ¬FitsI128 (p.aligned minExp) →
      ∃ e, parseDigits (p.alignedDigits minExp) = .error e := by
    intro p hp minExp hnot
    refine (parseDigits_of_digits (isAsciiDigit_alignedDigits hp _)
      (alignedDigits_ne_nil hp _)).2 ?_
    exact not_lt.mp fun hlt => hnot (fitsI128_aligned.mpr hlt)
  rw [arithmeticWith_eq hpa hpb ha hb]
  split
  · exact ⟨_, rfl⟩
  cases hA : parseDigits (pa.alignedDigits (min pa.exponent pb.exponent)) with
  | error e => exact ⟨e, rfl⟩
  | ok aVal =>
      cases hB : parseDigits ((pb.operand isAdd).alignedDigits (min pa.exponent pb.exponent)) with
      | error e => exact ⟨e, rfl⟩
      | ok bVal =>
          exfalso
          apply h
          constructor
          · by_contra hnot
            obtain ⟨e, he⟩ := hparse ha _ hnot
            rw [hA] at he
            cases he
          · by_contra hnot
            obtain ⟨e, he⟩ := hparse hb' _ hnot
            rw [hB] at he
            cases he

end Arithmetic

/-! ## Exact or refused -/

/-- The second operand of a sum, or of a difference. -/
def operandValue (isAdd : Bool) (y : ℚ) : ℚ := if isAdd then y else -y

def exactResult (a b : String) (isAdd : Bool) : ℚ :=
  numberValue a + operandValue isAdd (numberValue b)

/-- The result is written out exactly if it can be and refused otherwise, and no sum of 128 bits
overflows. -/
structure ExactOrRefused (a b : String) (isAdd : Bool) : Prop where
  noOverflow : arithmeticWith checkedSum a b isAdd ≠ .panic
  exact : Representable (exactResult a b isAdd) →
    ∃ s, preciseArithmetic a b isAdd = .ok s ∧ numberValue s = exactResult a b isAdd
  refused : ¬Representable (exactResult a b isAdd) → ∃ e, preciseArithmetic a b isAdd = .err e

/-- Two numbers as integers over the last place where one of them has a digit. -/
structure Aligned (x y : ℚ) (minExp A B : ℤ) : Prop where
  left : x = A * (10 : ℚ) ^ minExp
  right : y = B * (10 : ℚ) ^ minExp
  last : ¬((10 : ℤ) ∣ A ∧ (10 : ℤ) ∣ B)

/-- If both integers fit 128 bits, so does their sum; and if the sum can be written out, both
integers fit. -/
def Addable (x y : ℚ) : Prop :=
  ∀ minExp A B, Aligned x y minExp A B → x ≠ 0 → y ≠ 0 →
    (FitsI128 A → FitsI128 B → SumFits A B) ∧ (Representable (x + y) → FitsI128 A ∧ FitsI128 B)

theorem Aligned.place_le {x y : ℚ} {j k A B A' B' : ℤ} (h : Aligned x y j A B)
    (h' : Aligned x y k A' B') : k ≤ j := by
  by_cases hA : (10 : ℤ) ∣ A
  · have hB : ¬(10 : ℤ) ∣ B := fun hB => h.last ⟨hA, hB⟩
    exact (Positional.le_of_not_dvd (b := 10) (by decide) hB (h.right.symm.trans h'.right)).1
  · exact (Positional.le_of_not_dvd (b := 10) (by decide) hA (h.left.symm.trans h'.left)).1

theorem Aligned.unique {x y : ℚ} {j k A B A' B' : ℤ} (h : Aligned x y j A B)
    (h' : Aligned x y k A' B') : j = k ∧ A = A' ∧ B = B' := by
  obtain rfl : j = k := le_antisymm (h'.place_le h) (h.place_le h')
  have hne : (10 : ℚ) ^ j ≠ 0 := zpow_ne_zero _ (by norm_num)
  have hA := mul_right_cancel₀ hne (h.left.symm.trans h'.left)
  have hB := mul_right_cancel₀ hne (h.right.symm.trans h'.right)
  exact ⟨rfl, by exact_mod_cast hA, by exact_mod_cast hB⟩

theorem ParsedNumber.Normal.aligned {pa pb : ParsedNumber} (ha : pa.Normal) (hb : pb.Normal)
    (isAdd : Bool) : Aligned pa.value (operandValue isAdd pb.value) (min pa.exponent pb.exponent)
      (pa.aligned (min pa.exponent pb.exponent))
      ((pb.operand isAdd).aligned (min pa.exponent pb.exponent)) := by
  refine ⟨value_aligned (min_le_left _ _), ?_, ?_⟩
  · rw [operandValue, ← value_operand]
    exact value_aligned (min_le_right _ _)
  · have hlast : ∀ {p : ParsedNumber}, p.Normal → ¬(10 : ℤ) ∣ p.aligned p.exponent := by
      intro p hp
      rw [ParsedNumber.aligned, sub_self, Int.toNat_zero, pow_zero, mul_one]
      exact hp.not_dvd_signed
    rintro ⟨hA, hB⟩
    rcases min_choice pa.exponent pb.exponent with hmin | hmin
    · rw [hmin] at hA
      exact hlast ha hA
    · rw [hmin] at hB
      exact hlast (hb.operand isAdd) hB

theorem ExactOrRefused.of_ok {a b s : String} {isAdd : Bool}
    (h : ∀ sum, arithmeticWith sum a b isAdd = .ok s)
    (hs : numberValue s = exactResult a b isAdd)
    (hrepresentable : Representable (exactResult a b isAdd)) : ExactOrRefused a b isAdd := by
  refine ⟨?_, fun _ => ⟨s, h wrappedSum, hs⟩, fun hnot => absurd hrepresentable hnot⟩
  rw [h checkedSum]
  simp

/-- A zero leaves the other operand. -/
theorem exactOrRefused_of_zero {a b : NumberString} {isAdd : Bool}
    (h : numberValue a.text = 0 ∨ numberValue b.text = 0) :
    ExactOrRefused a.text b.text isAdd := by
  obtain ⟨pa, hpa, hva⟩ := a.exists_parsed
  obtain ⟨pb, hpb, hvb⟩ := b.exists_parsed
  have hzero : formatParsedNumber (operand isAdd ⟨false, ['0'], 0⟩) = "0" := rfl
  rcases hva with ⟨rfl, hva⟩ | ⟨ha, hva⟩ <;> rcases hvb with ⟨rfl, hvb⟩ | ⟨hb, hvb⟩
  · refine ExactOrRefused.of_ok (s := "0") (fun sum => ?_) ?_ (.inl ?_)
    · rw [arithmeticWith, hpa, hpb, ← hzero]
      rfl
    · simp [exactResult, operandValue, hva, hvb, numberValue_zero]
    · simp [exactResult, operandValue, hva, hvb]
  · have hexact : exactResult a.text b.text isAdd = (pb.operand isAdd).value := by
      rw [exactResult, operandValue, hva, zero_add, value_operand, hvb]
    refine ExactOrRefused.of_ok (s := formatParsedNumber (pb.operand isAdd)) (fun sum => ?_) ?_ ?_
    · rw [arithmeticWith, hpa, hpb]
      rfl
    · rw [hexact, numberValue_format (hb.operand isAdd)]
    · rw [hexact]
      exact ((hb.operand isAdd).toTrimmed.representable_iff).mpr (hb.operand isAdd)
  · have hexact : exactResult a.text b.text isAdd = pa.value := by
      rw [exactResult, operandValue, hvb, hva]
      simp
    refine ExactOrRefused.of_ok (s := formatParsedNumber pa) (fun sum => ?_) ?_ ?_
    · rw [arithmeticWith, hpa, hpb]
      simp only [Outcome.liftM_eq, Outcome.ofExcept, Outcome.ok_bind]
      rw [if_neg (ha.first [])]
      rfl
    · rw [hexact, numberValue_format ha]
    · rw [hexact]
      exact (ha.toTrimmed.representable_iff).mpr ha
  · rw [← hva, ← hvb] at h
    exact absurd h (not_or.mpr ⟨ha.value_ne_zero, hb.value_ne_zero⟩)

/-- Sums are exact or refused for the operands that fit 128 bits with their sum, and where an
operand does not fit and the sum could not be written out either. -/
theorem exactOrRefused_iff (a b : NumberString) (isAdd : Bool) :
    ExactOrRefused a.text b.text isAdd ↔
      Addable (numberValue a.text) (operandValue isAdd (numberValue b.text)) := by
  by_cases hzero : numberValue a.text = 0 ∨ numberValue b.text = 0
  · refine iff_of_true (exactOrRefused_of_zero hzero) ?_
    intro minExp A B _ hx hy
    rcases hzero with h | h
    · exact absurd h hx
    · exact absurd (by cases isAdd <;> simp [operandValue, h]) hy
  rw [not_or] at hzero
  obtain ⟨pa, hpa, ⟨rfl, hva⟩ | ⟨ha, hva⟩⟩ := a.exists_parsed
  · exact absurd hva hzero.1
  obtain ⟨pb, hpb, ⟨rfl, hvb⟩ | ⟨hb, hvb⟩⟩ := b.exists_parsed
  · exact absurd hvb hzero.2
  have haligned := ha.aligned hb isAdd
  rw [hva, hvb] at haligned
  have hexact : exactResult a.text b.text isAdd =
      ((pa.aligned (min pa.exponent pb.exponent) +
        (pb.operand isAdd).aligned (min pa.exponent pb.exponent) : ℤ) : ℚ) *
          (10 : ℚ) ^ min pa.exponent pb.exponent := by
    rw [exactResult, haligned.left, haligned.right]
    push_cast
    ring
  have hpos := length_pos_iff.mpr ha.ne_nil
  have hpos' := length_pos_iff.mpr hb.ne_nil
  have hrange := ha.low
  have hrange' := hb.low
  have hplace := ha.high
  have hplace' := hb.high
  have hlength := ha.length
  have hlength' := hb.length
  generalize hminExp : min pa.exponent pb.exponent = minExp at haligned hexact
  generalize hA : pa.aligned minExp = A at haligned hexact
  generalize hB : (pb.operand isAdd).aligned minExp = B at haligned hexact
  have hfits : ∀ sum, FitsI128 A → FitsI128 B → arithmeticWith sum a.text b.text isAdd =
      (sum A B >>= fun result => Outcome.ofExcept (formatSum result minExp)) := by
    intro sum hfitsA hfitsB
    subst hA hB hminExp
    exact arithmeticWith_fits hpa hpb ha hb hfitsA hfitsB
  have hunfit : ∀ sum, ¬(FitsI128 A ∧ FitsI128 B) →
      ∃ e, arithmeticWith sum a.text b.text isAdd = .err e := by
    intro sum hnot
    subst hA hB hminExp
    exact arithmeticWith_unfit hpa hpb ha hb hnot
  constructor
  · intro h j A' B' haligned' _ _
    obtain ⟨rfl, rfl, rfl⟩ := haligned.unique haligned'
    constructor
    · intro hfitsA hfitsB
      by_contra hnot
      have hchecked : checkedSum A B = .panic := if_neg hnot
      apply h.noOverflow
      rw [hfits _ hfitsA hfitsB, hchecked]
      rfl
    · intro hrepresentable
      by_contra hnot
      obtain ⟨s, hs, -⟩ := h.exact hrepresentable
      obtain ⟨e, he⟩ := hunfit wrappedSum hnot
      rw [preciseArithmetic_eq, he] at hs
      cases hs
  · intro h
    have hy : operandValue isAdd (numberValue b.text) ≠ 0 := by
      cases isAdd <;> simp [operandValue, hzero.2]
    obtain ⟨hsum, hrep⟩ := h minExp A B haligned hzero.1 hy
    by_cases hfit : FitsI128 A ∧ FitsI128 B
    · obtain ⟨hlow, hhigh⟩ := hsum hfit.1 hfit.2
      have hchecked : checkedSum A B = .ok (A + B) := if_pos ⟨hlow, hhigh⟩
      have hwrapped : wrappedSum A B = .ok (A + B) := by
        rw [wrappedSum, Int.bmod_eq_of_le (by omega) (by omega)]
        rfl
      have hbound : (A + B).natAbs < 10 ^ 40 := by omega
      obtain ⟨hok, herror⟩ := @formatSum_exact _ minExp hbound (by omega) (by omega)
      rw [← hexact] at hok herror
      refine ⟨?_, ?_, ?_⟩
      · rw [hfits _ hfit.1 hfit.2, hchecked, Outcome.ok_bind]
        exact Outcome.ofExcept_ne_panic _
      · intro hrepresentable
        obtain ⟨s, hs, hvalue⟩ := hok hrepresentable
        refine ⟨s, ?_, hvalue⟩
        rw [preciseArithmetic_eq, hfits _ hfit.1 hfit.2, hwrapped, Outcome.ok_bind, hs]
        rfl
      · intro hnot
        obtain ⟨e, he⟩ := herror hnot
        refine ⟨e, ?_⟩
        rw [preciseArithmetic_eq, hfits _ hfit.1 hfit.2, hwrapped, Outcome.ok_bind, he]
        rfl
    · obtain ⟨e, he⟩ := hunfit checkedSum hfit
      obtain ⟨e', he'⟩ := hunfit wrappedSum hfit
      refine ⟨?_, fun hrepresentable => absurd (hrep hrepresentable) hfit, fun _ => ⟨e', he'⟩⟩
      rw [he]
      simp

/-- Numbers with 39 places over their last digit. -/
def largeNumber : NumberString where
  text := "1.75e38"
  valid := by decide +kernel
  length := by decide +kernel

def ninesNumber : NumberString where
  text := "99999999999999999999999999999999999999"
  valid := by decide +kernel
  length := by decide +kernel

/-- A difference of 38 digits is refused. -/
theorem difference_refused :
    ¬∀ (a b : NumberString) (isAdd : Bool), ExactOrRefused a.text b.text isAdd := by
  intro h
  have hspelling : spelling largeNumber.text = ⟨false, ['1'], ['7', '5'], 38⟩ := by decide +kernel
  have hspelling' : spelling ninesNumber.text = ⟨false, replicate 38 '9', [], 0⟩ := by
    decide +kernel
  have hnines : digitsValue ((replicate 38 '9').map digitValue) = 10 ^ 38 - 1 := by decide
  have hresult : exactResult largeNumber.text ninesNumber.text false =
      (75 * 10 ^ 36 + 1 : ℤ) * (10 : ℚ) ^ (0 : ℤ) := by
    have hlarge : digitsValue (['1', '7', '5'].map digitValue) = 175 := by decide
    rw [exactResult, operandValue, numberValue, numberValue, hspelling, hspelling', Spelling.value,
      Spelling.value, Spelling.digits, Spelling.digits, append_nil, hnines]
    dsimp only [cons_append, nil_append]
    rw [hlarge]
    norm_num [signValue]
  have hrefused : preciseArithmetic largeNumber.text ninesNumber.text false =
      .err (.typeMismatch "number too large for arithmetic") := by decide +kernel
  have hrepresentable : Representable (exactResult largeNumber.text ninesNumber.text false) := by
    rw [hresult]
    refine .inr ⟨⟨_, _, rfl, by norm_num⟩, ?_, ?_⟩
    · norm_num
    · norm_num
  obtain ⟨s, hs, -⟩ := (h largeNumber ninesNumber false).exact hrepresentable
  rw [hrefused] at hs
  cases hs

end Rustack.DynamoDB
