import Rustack.DynamoDB.NumberSum

/-!
# The one notation of a number

What a sum leaves and what a request brings is written out in one of five layouts.  The text
denotes the same rational, passes the check of a request and is read back to the digits it comes
from; equal rationals have the same text.
-/

namespace Rustack.DynamoDB

open List

/-- A number string after `parse_number_components` and `format_parsed_number`. -/
def reformat (s : String) : Except ExpressionError String :=
  (parseNumberComponents s).map formatParsedNumber

/-! ## Digits without zeros at the ends are determined by the value -/

theorem digitValue_injective {c d : Char} (hc : isAsciiDigit c = true)
    (hd : isAsciiDigit d = true) (h : digitValue c = digitValue d) : c = d := by
  simp only [isAsciiDigit, Bool.and_eq_true, decide_eq_true_eq] at hc hd
  have hlow : '0'.toNat ≤ c.toNat := hc.1
  have hlow' : '0'.toNat ≤ d.toNat := hd.1
  unfold digitValue at h
  apply Char.toNat_inj.mp
  omega

theorem map_digitValue_injective {cs ds : List Char} (hcs : ∀ c ∈ cs, isAsciiDigit c = true)
    (hds : ∀ d ∈ ds, isAsciiDigit d = true) (h : cs.map digitValue = ds.map digitValue) :
    cs = ds := by
  induction cs generalizing ds with
  | nil => exact (map_eq_nil_iff.mp h.symm).symm
  | cons c cs ih =>
      cases ds with
      | nil => cases h
      | cons d ds =>
          rw [forall_mem_cons] at hcs hds
          rw [map_cons, map_cons, cons.injEq] at h
          rw [digitValue_injective hcs.1 hds.1 h.1, ih hcs.2 hds.2 h.2]

namespace ParsedNumber.Trimmed

variable {p q : ParsedNumber}

theorem length_le (hp : p.Trimmed) (hq : q.Trimmed)
    (h : digitsValue (p.digits.map digitValue) = digitsValue (q.digits.map digitValue)) :
    p.digits.length ≤ q.digits.length := by
  have hpos := length_pos_iff.mpr hp.ne_nil
  have hlt := hp.pow_le.trans_lt (h ▸ hq.lt_pow)
  have hlength := (Nat.pow_lt_pow_iff_right (by decide)).mp hlt
  omega

theorem exponent_le (hp : p.Trimmed) (h : p.value = q.value) : q.exponent ≤ p.exponent := by
  rw [p.value_eq, q.value_eq] at h
  exact (Positional.le_of_not_dvd (b := 10) (by decide) hp.not_dvd_signed h).1

theorem negative_eq (hp : p.Trimmed) (hq : q.Trimmed) (h : p.value = q.value) :
    p.negative = q.negative := by
  have hsign : ∀ {r : ParsedNumber}, r.Trimmed → (r.negative = true ↔ r.value < 0) := by
    intro r hr
    have hpow : (0 : ℚ) < (10 : ℚ) ^ r.exponent := zpow_pos (by norm_num) _
    have hdigits : 0 < digitsValue (r.digits.map digitValue) :=
      (Nat.pow_pos (by decide)).trans_le hr.pow_le
    have hcast : (0 : ℚ) < digitsValue (r.digits.map digitValue) := by exact_mod_cast hdigits
    have habs := mul_pos hcast hpow
    rw [value]
    cases r.negative with
    | true => simpa [signValue] using habs
    | false => simpa [signValue] using habs.le
  exact Bool.eq_iff_iff.mpr (by rw [hsign hp, hsign hq, h])

theorem eq_of_value (hp : p.Trimmed) (hq : q.Trimmed) (h : p.value = q.value) : p = q := by
  have hexponent : p.exponent = q.exponent := le_antisymm (hq.exponent_le h.symm) (hp.exponent_le h)
  have hpow : (10 : ℚ) ^ q.exponent ≠ 0 := zpow_ne_zero _ (by norm_num)
  have hvalue : digitsValue (p.digits.map digitValue) = digitsValue (q.digits.map digitValue) := by
    have habs := congrArg abs h
    rw [p.abs_value, q.abs_value, hexponent] at habs
    exact_mod_cast mul_right_cancel₀ hpow habs
  have hlength := le_antisymm (hp.length_le hq hvalue) (hq.length_le hp hvalue.symm)
  have hdigits : p.digits = q.digits := by
    apply map_digitValue_injective hp.digits hq.digits
    refine Positional.value_injective (by decide) ?_ (map_digitValue_lt hp.digits)
      (map_digitValue_lt hq.digits) hvalue
    rw [length_map, length_map, hlength]
  have hnegative := hp.negative_eq hq h
  cases p
  cases q
  simp only at hexponent hdigits hnegative
  rw [hexponent, hdigits, hnegative]

end ParsedNumber.Trimmed

/-! ## The checks of a text -/

theorem isWhitespace_of_digit {c : Char} (hc : isAsciiDigit c = true) : isWhitespace c = false := by
  have hle : c.toNat ≤ '9'.toNat := (of_decide_eq_true (Bool.and_eq_true_iff.mp hc).2 : c ≤ '9')
  have hge : '0'.toNat ≤ c.toNat := (of_decide_eq_true (Bool.and_eq_true_iff.mp hc).1 : '0' ≤ c)
  have hnine : '9'.toNat = 57 := rfl
  have hzero : '0'.toNat = 48 := rfl
  simp only [isWhitespace, Bool.or_eq_false_iff, Bool.and_eq_false_iff, decide_eq_false_iff_not]
  omega

theorem isWhitespace_toString (e : ℤ) : ∀ c ∈ (toString e).toList, isWhitespace c = false := by
  have hdigits : ∀ n : ℕ, ∀ c ∈ Nat.toDigits 10 n, isWhitespace c = false := fun n c hc =>
    isWhitespace_of_digit (isAsciiDigit_of_mem_toDigits hc)
  cases e with
  | ofNat n =>
      have htext : (toString (Int.ofNat n)).toList = Nat.toDigits 10 n := Nat.toList_repr
      rw [htext]
      exact hdigits n
  | negSucc n =>
      have hneg : toString (Int.negSucc n) = "-" ++ (n + 1).repr := rfl
      rw [hneg, String.toList_append, Nat.toList_repr]
      have hsign : ∀ c ∈ "-".toList, isWhitespace c = false :=
        forall_mem_singleton.mpr (by decide)
      exact forall_mem_append.mpr ⟨hsign, hdigits (n + 1)⟩

theorem checkMantissa_digits {cs : List Char} (hcs : ∀ c ∈ cs, isAsciiDigit c = true)
    (hasDot : Bool) (behind : List Char) :
    checkMantissa hasDot (cs ++ behind) = checkMantissa hasDot behind := by
  induction cs with
  | nil => rfl
  | cons c cs ih =>
      rw [forall_mem_cons] at hcs
      have hdot : c ≠ '.' := isAsciiDigit_ne hcs.1 (by decide)
      rw [cons_append, checkMantissa, if_neg hdot, if_pos hcs.1, ih hcs.2]

theorem checkMantissa_ok {integer : List Char} {fraction : Option (List Char)}
    (hinteger : ∀ c ∈ integer, isAsciiDigit c = true)
    (hfraction : ∀ c ∈ fraction.getD [], isAsciiDigit c = true) :
    checkMantissa false (integer ++ (fraction.map fun cs => '.' :: cs).getD []) = .ok () := by
  rw [checkMantissa_digits hinteger]
  cases fraction with
  | none => rfl
  | some cs =>
      have hdigits := checkMantissa_digits hfraction true []
      rw [append_nil] at hdigits
      exact hdigits

theorem filter_mantissa {integer : List Char} {fraction : Option (List Char)}
    (hinteger : ∀ c ∈ integer, isAsciiDigit c = true)
    (hfraction : ∀ c ∈ fraction.getD [], isAsciiDigit c = true) :
    (integer ++ (fraction.map fun cs => '.' :: cs).getD []).filter isAsciiDigit =
      integer ++ fraction.getD [] := by
  rw [filter_append, filter_eq_self.mpr hinteger]
  cases fraction with
  | none => rfl
  | some cs =>
      rw [Option.getD_some] at hfraction
      rw [Option.map_some, Option.getD_some, filter_cons_of_neg (by decide),
        filter_eq_self.mpr hfraction, Option.getD_some]

theorem parseI64_toString {e : ℤ} (hlow : -200 ≤ e) (hhigh : e ≤ 200) :
    parseI64 (toString e).toList = some e :=
  parseSigned_toString (by omega) (by omega)

theorem trim_eq_self {cs : List Char} (h : ∀ c ∈ cs, isWhitespace c = false) : trim cs = cs := by
  have hdrop : ∀ {ds : List Char}, (∀ c ∈ ds, isWhitespace c = false) →
      ds.dropWhile isWhitespace = ds := by
    intro ds hds
    cases ds with
    | nil => rfl
    | cons c ds =>
        have hc := hds c (.head _)
        exact dropWhile_cons_of_neg (by simp [hc])
  rw [trim, hdrop h, rdropWhile, hdrop fun c hc => h c (mem_reverse.mp hc),
    reverse_reverse]

theorem guard_of_not {ε α : Type} {c : Prop} [Decidable c] {e : ε} {f : Unit → Except ε α}
    (h : ¬c) : (if c then (do let r ← Except.error e; f r) else (do let r ← Except.ok (); f r)) =
      f () := if_neg h

/-- Pieces that are digits, few and in the range make a valid number string. -/
theorem valid_of_spelled {s : String} (h : Spelled s)
    (hmantissa : checkMantissa false (mantissaText s) = .ok ()) (hdigits : (spelling s).digits ≠ [])
    (hlength : (spelling s).significant.length ≤ 38)
    (hlow : -130 ≤ saturatedMagnitude (spelling s))
    (hhigh : saturatedMagnitude (spelling s) ≤ 125) : validateNumberString s = .ok () := by
  have hfilter := h.filter
  have hfilled : mantissaText s ≠ [] := fun hnil => hdigits (by rw [← hfilter, hnil]; rfl)
  have hrest : (stripSign s.toList).2 ≠ [] := fun hnil => hfilled (by rw [mantissaText, hnil]; rfl)
  have hcs : s.toList ≠ [] := fun hnil => hrest (by rw [hnil]; rfl)
  have hany : (mantissaText s).any isAsciiDigit = true := by
    obtain ⟨c, hc⟩ := exists_mem_of_ne_nil _ hdigits
    rw [← hfilter] at hc
    exact any_eq_true.mpr ⟨c, mem_of_mem_filter hc, of_mem_filter hc⟩
  have hsplit : splitAtFirst isExponentMark (stripSign s.toList).2 =
      (mantissaText s, exponentText s) := rfl
  unfold validateNumberString
  extract_lets cs rest afterRest
  rw [if_neg (not_not.mpr h.trim.symm), if_neg (by simpa [cs] using hcs),
    guard_of_not (by simpa [rest, cs] using hrest)]
  dsimp -zeta only [afterRest]
  rw [hsplit]
  dsimp -zeta only
  extract_lets allDigits trimmedLeading significant fracDigits leadingZeros afterExponent
  have hexponent : ∀ e, (spelling s).exponent = e → afterExponent e = .ok () := by
    intro e he
    dsimp -zeta only [afterExponent]
    extract_lets magnitude afterDigits afterMantissa
    rw [guard_of_not (by simpa using hfilled)]
    dsimp -zeta only [afterMantissa]
    rw [hmantissa]
    change (if _ then _ else _) = _
    rw [guard_of_not (by simp [hany])]
    dsimp -zeta only [afterDigits]
    have hsignificant : significant = (spelling s).significant := by
      rw [Spelling.significant, Spelling.leading, ← hfilter]
    have hmagnitude : magnitude = saturatedMagnitude (spelling s) := by
      rw [saturatedMagnitude, Spelling.leading, ← hfilter, he]
      rfl
    have hmax : ¬maxSignificantDigits < (spelling s).significant.length := not_lt.mpr hlength
    rw [hsignificant, hmagnitude, if_neg hmax, if_neg (not_lt.mpr hhigh), if_neg (not_lt.mpr hlow),
      ite_self]
  have htext := h.exponent
  cases hpart : exponentText s with
  | none =>
      apply hexponent
      rw [spelling, hpart]
      rfl
  | some text =>
      have hparse := htext text hpart
      dsimp -zeta only
      rw [hparse]
      apply hexponent
      rw [spelling, hpart]
      rfl

/-! ## A layout passes the check, and is read back -/

namespace Layout

variable {p : ParsedNumber} {s : String} (l : Layout p s)

include l

theorem spelling_eq : spelling s =
    ⟨p.negative, l.integer, l.fraction.getD [], l.exponent.getD 0⟩ :=
  spelling_numberText l.text l.integer_digits l.integer_ne_nil l.fraction_digits

theorem mantissaText_eq :
    mantissaText s = l.integer ++ (l.fraction.map fun cs => '.' :: cs).getD [] := by
  rw [mantissaText, l.text, stripSign_numberText l.integer_digits l.integer_ne_nil,
    splitAtFirst_numberText l.integer_digits l.fraction_digits]

theorem exponentText_eq : exponentText s = l.exponent.map fun e => (toString e).toList := by
  rw [exponentText, l.text, stripSign_numberText l.integer_digits l.integer_ne_nil,
    splitAtFirst_numberText l.integer_digits l.fraction_digits]

theorem trim_eq : trim s.toList = s.toList := by
  apply trim_eq_self
  rw [l.text, numberText]
  have hdigits : ∀ {cs : List Char}, (∀ c ∈ cs, isAsciiDigit c = true) →
      ∀ c ∈ cs, isWhitespace c = false := fun h c hc => isWhitespace_of_digit (h c hc)
  refine forall_mem_append.mpr ⟨forall_mem_append.mpr ⟨?_, forall_mem_append.mpr
    ⟨hdigits l.integer_digits, ?_⟩⟩, ?_⟩
  · cases p.negative with
    | false => exact fun c hc => absurd hc not_mem_nil
    | true => exact forall_mem_singleton.mpr (by decide)
  · have hfraction := l.fraction_digits
    cases hcs : l.fraction with
    | none => exact fun c hc => absurd hc not_mem_nil
    | some cs =>
        rw [hcs] at hfraction
        exact forall_mem_cons.mpr ⟨by decide, hdigits hfraction⟩
  · cases l.exponent with
    | none => exact fun c hc => absurd hc not_mem_nil
    | some e => exact forall_mem_cons.mpr ⟨by decide, isWhitespace_toString e⟩

theorem spelled : Spelled s where
  trim := l.trim_eq
  exponent text htext := by
    rw [l.exponentText_eq] at htext
    obtain ⟨e, he, rfl⟩ := Option.map_eq_some_iff.mp htext
    have hlow := l.exponent_low
    have hhigh := l.exponent_high
    rw [he, Option.getD_some] at hlow hhigh
    rw [integerValue_toString, parseI64_toString hlow hhigh]
  digits := by
    rw [l.spelling_eq]
    exact forall_mem_append.mpr ⟨l.integer_digits, l.fraction_digits⟩
  filter := by
    rw [l.mantissaText_eq, filter_mantissa l.integer_digits l.fraction_digits, l.spelling_eq]
    rfl

/-- The significant digits of the text and their place are those of the number. -/
theorem significant_eq (hp : p.Trimmed) : (spelling s).significant = p.digits ∧
    (spelling s).exponent - (spelling s).fraction.length +
      ((spelling s).leading.length - (spelling s).significant.length : ℕ) = p.exponent := by
  have hvalue := l.numberValue
  have hne : (spelling s).significant ≠ [] := fun hnil =>
    hp.value_ne_zero (hvalue.symm.trans (Spelling.value_eq_zero l.spelled.digits hnil))
  have htrimmed := Spelling.trimmed l.spelled.digits hne ((spelling s).exponent -
    (spelling s).fraction.length +
      ((spelling s).leading.length - (spelling s).significant.length : ℕ))
  have heq := htrimmed.eq_of_value hp
    ((Spelling.value_eq l.spelled.digits).symm.trans hvalue)
  exact ⟨congrArg ParsedNumber.digits heq, congrArg ParsedNumber.exponent heq⟩

theorem parse_eq (hp : p.Normal) : parseNumberComponents s = .ok p := by
  obtain ⟨hdigits, hexponent⟩ := l.significant_eq hp.toTrimmed
  have hleading : (spelling s).leading ≠ [] := fun hnil =>
    hp.ne_nil (hdigits.symm.trans (Spelling.leading_eq_nil_iff.mp hnil))
  have hlength := l.length
  have hlow := l.exponent_low
  have hhigh := l.exponent_high
  have hle := hp.length
  have hplow := hp.low
  have hphigh := hp.high
  have hspelling := l.spelling_eq
  rw [parseNumberComponents_eq l.spelled, if_neg hleading]
  have hfraction : ((spelling s).fraction.length : ℤ) ≤ 64 := by
    rw [hspelling]
    dsimp only
    omega
  have hexp : -200 ≤ (spelling s).exponent ∧ (spelling s).exponent ≤ 200 := by
    rw [hspelling]
    exact ⟨hlow, hhigh⟩
  rw [wrapI64_eq (x := (spelling s).exponent - _) (by omega) (by omega), hexponent,
    wrapI64_eq (by omega) (by omega), hdigits]
  have hnegative : (spelling s).negative = p.negative := congrArg Spelling.negative hspelling
  rw [hnegative]

theorem valid (hp : p.Normal) : validateNumberString s = .ok () := by
  obtain ⟨hdigits, hexponent⟩ := l.significant_eq hp.toTrimmed
  have hspelling := l.spelling_eq
  have hlength := l.length
  have hlow := l.exponent_low
  have hhigh := l.exponent_high
  have hplow := hp.low
  have hphigh := hp.high
  have hle := (spelling s).length_leading_le
  have hsignificant := (spelling s).length_significant_le
  have hall : (spelling s).digits = l.integer ++ l.fraction.getD [] := by rw [hspelling]; rfl
  have hfraction : (spelling s).fraction = l.fraction.getD [] := by rw [hspelling]
  have hexp : (spelling s).exponent = l.exponent.getD 0 := by rw [hspelling]
  have hcount := congrArg List.length hall
  rw [length_append] at hcount
  rw [hfraction, hexp] at hexponent
  have hmagnitude : saturatedMagnitude (spelling s) = p.exponent + p.digits.length - 1 := by
    rw [← hdigits, saturatedMagnitude, hfraction, hexp]
    unfold saturate
    omega
  refine valid_of_spelled l.spelled ?_ ?_ (hdigits ▸ hp.length) ?_ ?_
  · rw [l.mantissaText_eq]
    exact checkMantissa_ok l.integer_digits l.fraction_digits
  · rw [hall]
    simp [l.integer_ne_nil]
  · rw [hmagnitude]
    exact hplow
  · rw [hmagnitude]
    exact hphigh

end Layout

/-! ## Canonical texts -/

theorem reformat_of_parse {s : String} {p : ParsedNumber}
    (h : parseNumberComponents s = .ok p) : reformat s = .ok (formatParsedNumber p) := by
  rw [reformat, h]
  rfl

/-- What a number is written as: zero as one digit, and others by a layout. -/
theorem NumberString.exists_text (x : NumberString) : ∃ p,
    parseNumberComponents x.text = .ok p ∧ parseNumberComponents (formatParsedNumber p) = .ok p ∧
      numberValue (formatParsedNumber p) = numberValue x.text ∧
      validateNumberString (formatParsedNumber p) = .ok () ∧
      (numberValue x.text = 0 ∧ p = ⟨false, ['0'], 0⟩ ∨
        p.Trimmed ∧ p.value = numberValue x.text) := by
  obtain ⟨p, hparse, ⟨rfl, hzero⟩ | ⟨hp, hvalue⟩⟩ := x.exists_parsed
  · have htext : formatParsedNumber ⟨false, ['0'], 0⟩ = "0" := rfl
    refine ⟨_, hparse, ?_, ?_, ?_, .inl ⟨hzero, rfl⟩⟩
    · rw [htext]
      decide
    · rw [htext, numberValue_zero, hzero]
    · rw [htext]
      decide
  · obtain ⟨l⟩ := exists_layout hp
    exact ⟨p, hparse, l.parse_eq hp, l.numberValue.trans hvalue, l.valid hp,
      .inr ⟨hp.toTrimmed, hvalue⟩⟩

/-- A number string is brought to a text that denotes the same rational, is valid and stays as it
is; two number strings have the same text just if they denote the same rational. -/
theorem reformat_canonical :
    (∀ x : NumberString, ∃ t, reformat x.text = .ok t ∧ numberValue t = numberValue x.text ∧
      validateNumberString t = .ok () ∧ reformat t = .ok t) ∧
    ∀ x y : NumberString,
      reformat x.text = reformat y.text ↔ numberValue x.text = numberValue y.text := by
  refine ⟨fun x => ?_, fun x y => ?_⟩
  · obtain ⟨p, hparse, hagain, hvalue, hvalid, -⟩ := x.exists_text
    exact ⟨_, reformat_of_parse hparse, hvalue, hvalid, reformat_of_parse hagain⟩
  · obtain ⟨p, hparse, -, hvalue, -, hp⟩ := x.exists_text
    obtain ⟨q, hparse', -, hvalue', -, hq⟩ := y.exists_text
    rw [reformat_of_parse hparse, reformat_of_parse hparse']
    constructor
    · intro h
      rw [← hvalue, ← hvalue', Except.ok.inj h]
    · intro h
      have heq : p = q := by
        rcases hp with ⟨hzero, rfl⟩ | ⟨hp, hpvalue⟩
        · rcases hq with ⟨-, rfl⟩ | ⟨hq, hqvalue⟩
          · rfl
          · exact absurd (hqvalue.trans (h.symm.trans hzero)) hq.value_ne_zero
        · rcases hq with ⟨hzero, rfl⟩ | ⟨hq, hqvalue⟩
          · exact absurd (hpvalue.trans (h.trans hzero)) hp.value_ne_zero
          · exact hp.eq_of_value hq (hpvalue.trans (h.trans hqvalue.symm))
      rw [heq]

end Rustack.DynamoDB
