import Rustack.DynamoDB.NumberOrder
import Rustack.DynamoDB.NumberSum

/-!
# Numbers in conditions

Conditions compare numbers as binary floating point with a fixed tolerance, and the elements of
number sets as strings; keys compare as the decimals they are.  The three agree on the numbers
that are spelled alike, and on those that binary floating point tells apart by the tolerance at
least and in their own order.
-/

namespace Rustack.DynamoDB

open List F64

/-! ## Binary floating point -/

/-- What conditions rely on: parsing within a relative error, and subtraction that rounds without
crossing the tolerance. -/
structure F64.Lawful (F : Type) [F64 F] where
  Finite : F → Prop
  toRat : F → ℚ
  lt_iff : ∀ {x y : F}, Finite x → Finite y → (F64.lt x y = true ↔ toRat x < toRat y)
  le_iff : ∀ {x y : F}, Finite x → Finite y → (F64.le x y = true ↔ toRat x ≤ toRat y)
  finite_abs : ∀ {x : F}, Finite x → Finite (F64.abs x)
  toRat_abs : ∀ {x : F}, Finite x → toRat (F64.abs x) = |toRat x|
  finite_epsilon : Finite (F64.epsilon : F)
  toRat_epsilon : toRat (F64.epsilon : F) = 2⁻¹ ^ 52
  parse : ∀ x : NumberString, ∃ f : F, F64.parse x.text = some f ∧ Finite f ∧
    |toRat f - numberValue x.text| ≤ 2⁻¹ ^ 50 * |numberValue x.text|
  finite_sub : ∀ {x y : F}, Finite x → Finite y → |toRat x| < 10 ^ 127 → |toRat y| < 10 ^ 127 →
    Finite (F64.sub x y)
  sub_self : ∀ {x : F}, Finite x → toRat (F64.sub x x) = 0
  le_sub : ∀ {x y : F}, Finite x → Finite y → 2⁻¹ ^ 52 ≤ |toRat x - toRat y| →
    2⁻¹ ^ 52 ≤ |toRat (F64.sub x y)|

/-- The comparisons of conditions, inside documents, of sets and of their elements are those of
keys. -/
structure Agree (F : Type) [F64 F] (a b : NumberString) : Prop where
  compare : ∀ op, compareValues F (.n a.text) (.n b.text) op =
    .ok (compareOrd (compareNumberStrings a.text b.text) op)
  deep : deepEqualValues F (.n a.text) (.n b.text) = (compareNumberStrings a.text b.text == .eq)
  sets : setsEqual [a.text] [b.text] = (compareNumberStrings a.text b.text == .eq)
  member : EvalContext.containsValue (.ns [a.text]) (.n b.text) =
    .ok (compareNumberStrings a.text b.text == .eq)

/-- Binary floating point tells two numbers apart, in their order. -/
def Apart (F : Type) [F64 F] (a b : NumberString) : Prop :=
  ∃ fa fb : F, F64.parse a.text = some fa ∧ F64.parse b.text = some fb ∧
    F64.le F64.epsilon (F64.abs (F64.sub fa fb)) = true ∧
    (F64.lt fa fb = true ∧ numberValue a.text < numberValue b.text ∨
      F64.lt fb fa = true ∧ numberValue b.text < numberValue a.text)

/-- How far two numbers have to lie from each other for any parser within the relative error. -/
def FarApart (a b : NumberString) : Prop :=
  2⁻¹ ^ 52 + 2⁻¹ ^ 50 * (|numberValue a.text| + |numberValue b.text|) ≤
    |numberValue a.text - numberValue b.text|

namespace F64.Lawful

variable {F : Type} [F64 F] (laws : F64.Lawful F) {x y : F} {a b : NumberString}

theorem toRat_lt {f : F}
    (h : |laws.toRat f - numberValue a.text| ≤ 2⁻¹ ^ 50 * |numberValue a.text|) :
    |laws.toRat f| < 10 ^ 127 := by
  have hvalue := a.abs_numberValue_lt
  have htriangle := abs_sub_abs_le_abs_sub (laws.toRat f) (numberValue a.text)
  linarith

/-- Two numbers as they are parsed. -/
structure Parsed (a b : NumberString) (fa fb : F) : Prop where
  parse_left : F64.parse a.text = some fa
  parse_right : F64.parse b.text = some fb
  finite_left : laws.Finite fa
  finite_right : laws.Finite fb
  near_left : |laws.toRat fa - numberValue a.text| ≤ 2⁻¹ ^ 50 * |numberValue a.text|
  near_right : |laws.toRat fb - numberValue b.text| ≤ 2⁻¹ ^ 50 * |numberValue b.text|

theorem exists_parsed (a b : NumberString) : ∃ fa fb, laws.Parsed a b fa fb := by
  obtain ⟨fa, hfa, hfinite, hnear⟩ := laws.parse a
  obtain ⟨fb, hfb, hfinite', hnear'⟩ := laws.parse b
  exact ⟨fa, fb, hfa, hfb, hfinite, hfinite', hnear, hnear'⟩

namespace Parsed

variable {laws} {fa fb : F} (h : laws.Parsed a b fa fb)

include h

theorem finite_gap : laws.Finite (abs (sub fa fb)) :=
  laws.finite_abs (laws.finite_sub h.finite_left h.finite_right (laws.toRat_lt h.near_left)
    (laws.toRat_lt h.near_right))

theorem toRat_gap : laws.toRat (abs (sub fa fb)) = |laws.toRat (sub fa fb)| :=
  laws.toRat_abs (laws.finite_sub h.finite_left h.finite_right (laws.toRat_lt h.near_left)
    (laws.toRat_lt h.near_right))

/-- Either the gap is below the tolerance or it is not. -/
theorem lt_epsilon : lt (abs (sub fa fb)) epsilon =
    !le epsilon (abs (sub fa fb)) := by
  rw [Bool.eq_not_iff, ne_eq, Bool.eq_iff_iff, laws.lt_iff h.finite_gap laws.finite_epsilon,
    laws.le_iff laws.finite_epsilon h.finite_gap]
  rw [not_iff]
  exact not_lt

/-- The comparison of conditions, by the order of the parsed numbers and their gap. -/
theorem compareValues_eq (op : CompareOp) :
    compareValues F (.n a.text) (.n b.text) op = .ok (compareF64 F fa fb op) := by
  rw [compareValues, parseNumber, parseNumber, h.parse_left, h.parse_right]
  rfl

theorem deepEqualValues_eq :
    deepEqualValues F (.n a.text) (.n b.text) =
      lt (abs (sub fa fb)) epsilon := by
  rw [deepEqualValues, h.parse_left, h.parse_right]

theorem apart_iff : Apart F a b ↔
    le epsilon (abs (sub fa fb)) = true ∧
      (lt fa fb = true ∧ numberValue a.text < numberValue b.text ∨
        lt fb fa = true ∧ numberValue b.text < numberValue a.text) := by
  constructor
  · rintro ⟨ga, gb, hga, hgb, hapart⟩
    obtain rfl := Option.some.inj (h.parse_left.symm.trans hga)
    obtain rfl := Option.some.inj (h.parse_right.symm.trans hgb)
    exact hapart
  · exact fun hapart => ⟨fa, fb, h.parse_left, h.parse_right, hapart⟩

end Parsed

end F64.Lawful

/-! ## When the comparisons agree -/

theorem setsEqual_singleton (x y : String) : setsEqual [x] [y] = (x == y) := by
  rw [Bool.eq_iff_iff]
  simp [setsEqual]

theorem containsValue_singleton (x y : String) :
    EvalContext.containsValue (.ns [x]) (.n y) = .ok (x == y) := by
  have hmem : [x].contains y = (x == y) := by
    rw [Bool.eq_iff_iff, contains_iff_mem, mem_singleton, beq_iff_eq, eq_comm]
  rw [EvalContext.containsValue, hmem]

section Agree

variable {F : Type} [F64 F] {laws : F64.Lawful F} {a b : NumberString} {fa fb : F}

/-- What the comparisons of a pair come down to. -/
theorem agree_iff_matches (h : laws.Parsed a b fa fb) : Agree F a b ↔
    (a.text == b.text) = (compareNumberStrings a.text b.text == .eq) ∧
    lt (abs (sub fa fb)) epsilon = (compareNumberStrings a.text b.text == .eq) ∧
    lt fa fb = (compareNumberStrings a.text b.text == .lt) ∧
    lt fb fa = (compareNumberStrings a.text b.text == .gt) ∧
    le fa fb = (compareNumberStrings a.text b.text != .gt) ∧
    le fb fa = (compareNumberStrings a.text b.text != .lt) := by
  have hvalues : ∀ op, compareValues F (.n a.text) (.n b.text) op =
      .ok (compareOrd (compareNumberStrings a.text b.text) op) ↔
        compareF64 F fa fb op = compareOrd (compareNumberStrings a.text b.text) op := by
    intro op
    rw [h.compareValues_eq, Except.ok.injEq]
  constructor
  · intro hagree
    have hcompare := fun op => (hvalues op).mp (hagree.compare op)
    have hsets := hagree.sets
    rw [setsEqual_singleton] at hsets
    exact ⟨hsets, hcompare .eq, hcompare .lt, hcompare .gt, hcompare .le, hcompare .ge⟩
  · rintro ⟨htext, heq, hlt, hgt, hle, hge⟩
    refine ⟨fun op => (hvalues op).mpr ?_, ?_, ?_, ?_⟩
    · cases op with
      | eq => exact heq
      | ne =>
          have hne : le epsilon (abs (sub fa fb)) =
              !(compareNumberStrings a.text b.text == .eq) := by
            rw [← heq, h.lt_epsilon, Bool.not_not]
          exact hne
      | lt => exact hlt
      | le => exact hle
      | gt => exact hgt
      | ge => exact hge
    · rw [h.deepEqualValues_eq, heq]
    · rw [setsEqual_singleton, htext]
    · rw [containsValue_singleton, htext]

theorem agree_of_text_eq (laws : F64.Lawful F) (htext : a.text = b.text) : Agree F a b := by
  obtain ⟨fa, fb, h⟩ := laws.exists_parsed a b
  have hparse := h.parse_right
  rw [← htext, h.parse_left] at hparse
  cases hparse
  have hord : compareNumberStrings a.text b.text = .eq := by
    rw [htext]
    exact Std.ReflCmp.compare_self
  have hgap : lt (abs (sub fa fa)) epsilon = true := by
    rw [laws.lt_iff h.finite_gap laws.finite_epsilon, h.toRat_gap, laws.sub_self h.finite_left,
      laws.toRat_epsilon]
    norm_num
  have hlt : lt fa fa = false := by
    rw [Bool.eq_false_iff, ne_eq, laws.lt_iff h.finite_left h.finite_left]
    exact lt_irrefl _
  have hle : le fa fa = true := (laws.le_iff h.finite_left h.finite_left).mpr (le_refl _)
  rw [agree_iff_matches h, hord, hgap, hlt, hle, htext]
  simp

theorem agree_of_apart (laws : F64.Lawful F) (hapart : Apart F a b) : Agree F a b := by
  obtain ⟨fa, fb, h⟩ := laws.exists_parsed a b
  obtain ⟨hgap, horder⟩ := h.apart_iff.mp hapart
  have hlt_iff := laws.lt_iff h.finite_left h.finite_right
  have hgt_iff := laws.lt_iff h.finite_right h.finite_left
  have hle_iff := laws.le_iff h.finite_left h.finite_right
  have hge_iff := laws.le_iff h.finite_right h.finite_left
  have htext : numberValue a.text ≠ numberValue b.text → (a.text == b.text) = false := by
    intro hne
    rw [beq_eq_false_iff_ne]
    exact fun heq => hne (congrArg numberValue heq)
  rw [agree_iff_matches h, h.lt_epsilon, hgap, a.compareNumberStrings_eq b]
  rcases horder with ⟨hlt, hvalue⟩ | ⟨hgt, hvalue⟩
  · have hrat := hlt_iff.mp hlt
    rw [compare_lt_iff_lt.mpr hvalue, htext hvalue.ne, hlt, hle_iff.mpr hrat.le,
      Bool.eq_false_iff.mpr fun h => not_lt.mpr hrat.le (hgt_iff.mp h),
      Bool.eq_false_iff.mpr fun h => not_le.mpr hrat (hge_iff.mp h)]
    decide
  · have hrat := hgt_iff.mp hgt
    rw [compare_gt_iff_gt.mpr hvalue, htext hvalue.ne', hgt, hge_iff.mpr hrat.le,
      Bool.eq_false_iff.mpr fun h => not_lt.mpr hrat.le (hlt_iff.mp h),
      Bool.eq_false_iff.mpr fun h => not_le.mpr hrat (hle_iff.mp h)]
    decide

/-- The comparisons agree on numbers spelled alike and on numbers that are told apart. -/
theorem agree_iff_apart (laws : F64.Lawful F) : Agree F a b ↔ a.text = b.text ∨ Apart F a b := by
  constructor
  · intro hagree
    obtain ⟨fa, fb, h⟩ := laws.exists_parsed a b
    obtain ⟨htext, heq, hlt, hgt, -⟩ := (agree_iff_matches h).mp hagree
    rw [h.apart_iff]
    rw [a.compareNumberStrings_eq b] at htext heq hlt hgt
    rw [h.lt_epsilon] at heq
    rcases lt_trichotomy (numberValue a.text) (numberValue b.text) with hvalue | hvalue | hvalue
    · rw [compare_lt_iff_lt.mpr hvalue] at heq hlt
      exact .inr ⟨by simpa using heq, .inl ⟨hlt, hvalue⟩⟩
    · rw [compare_eq_iff_eq.mpr hvalue] at htext
      exact .inl (beq_iff_eq.mp htext)
    · rw [compare_gt_iff_gt.mpr hvalue] at heq hgt
      exact .inr ⟨by simpa using heq, .inr ⟨hgt, hvalue⟩⟩
  · rintro (h | h)
    · exact agree_of_text_eq laws h
    · exact agree_of_apart laws h

/-- Numbers far apart are told apart by every parser. -/
theorem apart_of_farApart (laws : F64.Lawful F) (hfar : FarApart a b) : Apart F a b := by
  obtain ⟨fa, fb, h⟩ := laws.exists_parsed a b
  have hleft := abs_le.mp h.near_left
  have hright := abs_le.mp h.near_right
  have hgap : 2⁻¹ ^ 52 ≤ |laws.toRat fa - laws.toRat fb| →
      le epsilon (abs (sub fa fb)) = true := by
    intro hle
    rw [laws.le_iff laws.finite_epsilon h.finite_gap, laws.toRat_epsilon, h.toRat_gap]
    exact laws.le_sub h.finite_left h.finite_right hle
  rw [h.apart_iff]
  unfold FarApart at hfar
  rw [mul_add] at hfar
  rcases le_total (numberValue a.text) (numberValue b.text) with hle | hle
  · rw [abs_sub_comm, abs_of_nonneg (sub_nonneg.mpr hle)] at hfar
    have hrat : 2⁻¹ ^ 52 ≤ laws.toRat fb - laws.toRat fa := by linarith
    refine ⟨hgap ?_, .inl ⟨?_, ?_⟩⟩
    · rw [abs_sub_comm]
      exact hrat.trans (le_abs_self _)
    · rw [laws.lt_iff h.finite_left h.finite_right]
      linarith
    · have hleft : (0 : ℚ) ≤ 2⁻¹ ^ 50 * |numberValue a.text| := by positivity
      linarith
  · rw [abs_of_nonneg (sub_nonneg.mpr hle)] at hfar
    have hrat : 2⁻¹ ^ 52 ≤ laws.toRat fa - laws.toRat fb := by linarith
    refine ⟨hgap (hrat.trans (le_abs_self _)), .inr ⟨?_, ?_⟩⟩
    · rw [laws.lt_iff h.finite_right h.finite_left]
      linarith
    · have hleft : (0 : ℚ) ≤ 2⁻¹ ^ 50 * |numberValue a.text| := by positivity
      have hright : (0 : ℚ) ≤ 2⁻¹ ^ 50 * |numberValue b.text| := by positivity
      linarith

end Agree

/-- Exact arithmetic over some parser. -/
@[reducible]
def exactF64 (parse : String → ℚ) : F64 ℚ where
  parse s := some (parse s)
  sub x y := x - y
  abs x := |x|
  lt x y := decide (x < y)
  le x y := decide (x ≤ y)
  epsilon := 2⁻¹ ^ 52

def exactLawful {parse : String → ℚ} (h : ∀ x : NumberString,
    |parse x.text - numberValue x.text| ≤ 2⁻¹ ^ 50 * |numberValue x.text|) :
    @F64.Lawful ℚ (exactF64 parse) :=
  @F64.Lawful.mk ℚ (exactF64 parse) (fun _ => True) id (fun _ _ => decide_eq_true_iff)
    (fun _ _ => decide_eq_true_iff) (fun _ => trivial) (fun _ => rfl) trivial rfl
    (fun x => ⟨parse x.text, rfl, trivial, h x⟩) (fun _ _ _ _ => trivial) (fun _ => sub_self _)
    (fun _ _ h => h)

/-- A parser that reads two numbers as `fa` and `fb`. -/
def readAs (a b : NumberString) (fa fb : ℚ) (s : String) : ℚ :=
  if s = a.text then fa else if s = b.text then fb else numberValue s

theorem near_readAs {a b : NumberString} {fa fb : ℚ}
    (ha : |fa - numberValue a.text| ≤ 2⁻¹ ^ 50 * |numberValue a.text|)
    (hb : |fb - numberValue b.text| ≤ 2⁻¹ ^ 50 * |numberValue b.text|) (x : NumberString) :
    |readAs a b fa fb x.text - numberValue x.text| ≤ 2⁻¹ ^ 50 * |numberValue x.text| := by
  unfold readAs
  split_ifs with h h'
  · rw [h]
    exact ha
  · rw [h']
    exact hb
  · rw [sub_self, abs_zero]
    positivity

theorem apart_readAs {a b : NumberString} {fa fb : ℚ} (hne : a.text ≠ b.text)
    (h : @Apart ℚ (exactF64 (readAs a b fa fb)) a b) :
    2⁻¹ ^ 52 ≤ |fa - fb| ∧ (fa < fb ∧ numberValue a.text < numberValue b.text ∨
      fb < fa ∧ numberValue b.text < numberValue a.text) := by
  obtain ⟨ga, gb, hga, hgb, hgap, horder⟩ := h
  have hleft : readAs a b fa fb a.text = fa := if_pos rfl
  have hright : readAs a b fa fb b.text = fb := by
    rw [readAs, if_neg hne.symm, if_pos rfl]
  obtain rfl : fa = ga := hleft.symm.trans (Option.some.inj hga)
  obtain rfl : fb = gb := hright.symm.trans (Option.some.inj hgb)
  exact ⟨of_decide_eq_true hgap, horder.imp (fun h => ⟨of_decide_eq_true h.1, h.2⟩)
    fun h => ⟨of_decide_eq_true h.1, h.2⟩⟩

/-- Closer numbers are confused by some parser within the relative error. -/
theorem farApart_of_agree {a b : NumberString} (hne : a.text ≠ b.text)
    (h : ∀ (F : Type) [F64 F], F64.Lawful F → Agree F a b) : FarApart a b := by
  have happly : ∀ fa fb, |fa - numberValue a.text| ≤ 2⁻¹ ^ 50 * |numberValue a.text| →
      |fb - numberValue b.text| ≤ 2⁻¹ ^ 50 * |numberValue b.text| →
      2⁻¹ ^ 52 ≤ |fa - fb| ∧ (fa < fb ∧ numberValue a.text < numberValue b.text ∨
        fb < fa ∧ numberValue b.text < numberValue a.text) := by
    intro fa fb ha hb
    have hagree := @h ℚ (exactF64 (readAs a b fa fb)) (exactLawful (near_readAs ha hb))
    rcases (@agree_iff_apart ℚ (exactF64 (readAs a b fa fb)) a b
      (exactLawful (near_readAs ha hb))).mp hagree with htext | hapart
    · exact absurd htext hne
    · exact apart_readAs hne hapart
  have hnear : ∀ v : ℚ, |v + 2⁻¹ ^ 50 * |v| - v| ≤ 2⁻¹ ^ 50 * |v| ∧
      |v - 2⁻¹ ^ 50 * |v| - v| ≤ 2⁻¹ ^ 50 * |v| := by
    intro v
    have hnonneg : (0 : ℚ) ≤ 2⁻¹ ^ 50 * |v| := by positivity
    constructor
    · rw [add_sub_cancel_left, abs_of_nonneg hnonneg]
    · rw [sub_sub_cancel_left, abs_neg, abs_of_nonneg hnonneg]
  unfold FarApart
  rw [mul_add]
  rcases lt_trichotomy (numberValue a.text) (numberValue b.text) with hvalue | hvalue | hvalue
  · obtain ⟨hgap, horder⟩ := happly _ _ (hnear _).1 (hnear _).2
    rcases horder with ⟨hlt, -⟩ | ⟨-, hgt⟩
    · rw [abs_of_neg (sub_neg.mpr hlt)] at hgap
      rw [abs_of_neg (sub_neg.mpr hvalue)]
      linarith
    · exact absurd hgt hvalue.asymm
  · have hzero := happly (numberValue a.text) (numberValue b.text) (by
      rw [sub_self, abs_zero]
      positivity) (by
      rw [sub_self, abs_zero]
      positivity)
    rcases hzero.2 with ⟨hlt, -⟩ | ⟨hgt, -⟩
    · exact absurd hvalue hlt.ne
    · exact absurd hvalue hgt.ne'
  · obtain ⟨hgap, horder⟩ := happly _ _ (hnear _).2 (hnear _).1
    rcases horder with ⟨-, hlt⟩ | ⟨hgt, -⟩
    · exact absurd hlt hvalue.asymm
    · rw [abs_of_pos (sub_pos.mpr hgt)] at hgap
      rw [abs_of_pos (sub_pos.mpr hvalue)]
      linarith

/-- Where the elements of two number sets agree, so do the sets. -/
theorem setsEqual_iff {F : Type} [F64 F] {xs ys : List NumberString}
    (h : ∀ x ∈ xs, ∀ y ∈ ys, Agree F x y) :
    setsEqual (xs.map NumberString.text) (ys.map NumberString.text) = true ↔
      xs.length = ys.length ∧
        ∀ x ∈ xs, ∃ y ∈ ys, numberValue x.text = numberValue y.text := by
  have hsame : ∀ x ∈ xs, ∀ y ∈ ys,
      (x.text = y.text ↔ numberValue x.text = numberValue y.text) := by
    intro x hx y hy
    have hsets := (h x hx y hy).sets
    rw [setsEqual_singleton, x.compareNumberStrings_eq y] at hsets
    rw [← beq_iff_eq, hsets, beq_iff_eq, compare_eq_iff_eq]
  rw [setsEqual, Bool.and_eq_true, beq_iff_eq, length_map, length_map, all_eq_true]
  refine and_congr_right fun _ => ?_
  constructor
  · intro hall x hx
    obtain ⟨y, hy, heq⟩ := mem_map.mp
      (contains_iff_mem.mp (hall x.text (mem_map_of_mem hx)))
    exact ⟨y, hy, (hsame x hx y hy).mp heq.symm⟩
  · intro hall text htext
    obtain ⟨x, hx, rfl⟩ := mem_map.mp htext
    obtain ⟨y, hy, heq⟩ := hall x hx
    rw [contains_iff_mem, (hsame x hx y hy).mpr heq]
    exact mem_map_of_mem hy

/-- Conditions compare two numbers as keys do if the numbers are spelled alike or told apart, and
for every parser within the relative error if they are spelled alike or far apart. -/
theorem agree_iff (a b : NumberString) :
    (∀ (F : Type) [F64 F], F64.Lawful F →
      (Agree F a b ↔ a.text = b.text ∨ Apart F a b)) ∧
    ((∀ (F : Type) [F64 F], F64.Lawful F → Agree F a b) ↔
      a.text = b.text ∨ FarApart a b) ∧
    ∀ (F : Type) [F64 F] (xs ys : List NumberString),
      (∀ x ∈ xs, ∀ y ∈ ys, Agree F x y) →
      (setsEqual (xs.map NumberString.text) (ys.map NumberString.text) = true ↔
        xs.length = ys.length ∧
          ∀ x ∈ xs, ∃ y ∈ ys, numberValue x.text = numberValue y.text) := by
  refine ⟨fun F _ laws => agree_iff_apart laws, ⟨?_, ?_⟩, fun F _ xs ys => setsEqual_iff⟩
  · intro h
    by_cases htext : a.text = b.text
    · exact .inl htext
    · exact .inr (farApart_of_agree htext h)
  · rintro (htext | hfar) F _ laws
    · exact agree_of_text_eq laws htext
    · exact agree_of_apart laws (apart_of_farApart laws hfar)

/-- Two small numbers. -/
def smallNumber : NumberString where
  text := "1e-20"
  valid := by decide +kernel
  length := by decide +kernel

def smallerNumber : NumberString where
  text := "2e-20"
  valid := by decide +kernel
  length := by decide +kernel

/-- Different numbers below the tolerance are equal to a condition. -/
theorem small_numbers_confused :
    ¬∀ (F : Type) [F64 F], F64.Lawful F → ∀ a b : NumberString, Agree F a b := by
  intro h
  have hnear : ∀ x : NumberString,
      |numberValue x.text - numberValue x.text| ≤ 2⁻¹ ^ 50 * |numberValue x.text| := by
    intro x
    rw [sub_self, abs_zero]
    positivity
  have hagree := @h ℚ (exactF64 numberValue) (exactLawful hnear) smallNumber smallerNumber
  have hspelling : spelling smallNumber.text = ⟨false, ['1'], [], -20⟩ := by decide +kernel
  have hspelling' : spelling smallerNumber.text = ⟨false, ['2'], [], -20⟩ := by decide +kernel
  have hone : digitsValue (['1'].map digitValue) = 1 := by decide
  have htwo : digitsValue (['2'].map digitValue) = 2 := by decide
  have hvalue : numberValue smallNumber.text = (10 : ℚ) ^ (-20 : ℤ) := by
    rw [numberValue, hspelling, Spelling.value, Spelling.digits, append_nil, hone]
    simp [signValue]
  have hvalue' : numberValue smallerNumber.text = 2 * (10 : ℚ) ^ (-20 : ℤ) := by
    rw [numberValue, hspelling', Spelling.value, Spelling.digits, append_nil, htwo]
    simp [signValue]
  rcases (@agree_iff_apart ℚ (exactF64 numberValue) _ _ (exactLawful hnear)).mp hagree with
    htext | ⟨fa, fb, hfa, hfb, hgap, -⟩
  · exact absurd htext (by decide)
  · cases hfa
    cases hfb
    have hle : (2⁻¹ ^ 52 : ℚ) ≤ |numberValue smallNumber.text - numberValue smallerNumber.text| :=
      of_decide_eq_true hgap
    rw [hvalue, hvalue'] at hle
    norm_num at hle

end Rustack.DynamoDB
