import Rustack.Events.Pattern.Meaning
import Rustack.Lib.Wildcard

/-!
# Operators taken at their word

A wildcard pattern accepts the texts that its stars can be filled to, and an anything-but
condition holds where none of the conditions it is made of does.  The comparisons of a numeric
condition are kept in three places, one for each direction: a comparison that is not the last of
its direction is lost, and the comparison with one number also holds very near to it.
-/

namespace Rustack.Events

open Lib (Binary64 Finite64)
open Lib.Binary64 (grid)
open Wildcard (Token Accepts)
open List NumericCondition
open Except (bind_eq_ok)

variable {Net : Type} {host : Host Net}

/-! ## Wildcards -/

/-- A star is any text, a backslash and a character are that character, and every other
character is itself. -/
def wildcardTokens : List Char → List (Token Char)
  | [] => []
  | '\\' :: next :: chars => .literal next :: wildcardTokens chars
  | '\\' :: [] => [.literal '\\']
  | '*' :: chars => .star :: wildcardTokens chars
  | ch :: chars => .literal ch :: wildcardTokens chars

namespace WildcardSegment

def tokens : WildcardSegment → List (Token Char)
  | .literal text => text.map .literal
  | .star => [.star]

theorem flush_tokens (currentLiteral : List Char) :
    (flush currentLiteral).flatMap tokens = currentLiteral.map .literal := by
  unfold flush
  split_ifs with hempty
  · rw [isEmpty_iff.mp hempty]
    rfl
  · exact append_nil _

/-- Splitting keeps the tokens. -/
theorem split_tokens (currentLiteral pattern : List Char) :
    (split currentLiteral pattern).flatMap tokens =
      currentLiteral.map .literal ++ wildcardTokens pattern := by
  fun_induction split currentLiteral pattern with
  | case1 currentLiteral =>
      rw [flush_tokens, wildcardTokens, append_nil]
  | case2 currentLiteral next chars ih =>
      rw [ih, wildcardTokens, map_append, append_assoc]
      rfl
  | case3 currentLiteral =>
      rw [flush_tokens, map_append, wildcardTokens]
      rfl
  | case4 currentLiteral chars ih =>
      rw [flatMap_append, flush_tokens, flatMap_cons, ih, wildcardTokens]
      rfl
  | case5 currentLiteral ch chars hpair hlone hstar ih =>
      rw [ih, map_append, append_assoc, wildcardTokens]
      · rfl
      · exact hpair
      · exact hlone
      · exact hstar

/-- Trying every end of the text for the first star tries every way to fill the stars. -/
theorem matchSegments_iff (segments : List WildcardSegment) (text : List Char) :
    matchSegments segments text = true ↔ Accepts (segments.flatMap tokens) text := by
  fun_induction matchSegments segments text with
  | case1 text =>
      rw [flatMap_nil, Wildcard.accepts_nil]
      exact isEmpty_iff
  | case2 lit segments text ih =>
      rw [Bool.and_eq_true, ih, flatMap_cons, tokens, Wildcard.accepts_word]
      constructor
      · rintro ⟨hstart, hrest⟩
        obtain ⟨rest, rfl⟩ := isPrefixOf_iff_prefix.mp hstart
        rw [drop_left] at hrest
        exact ⟨rest, rfl, hrest⟩
      · rintro ⟨rest, rfl, hrest⟩
        refine ⟨ isPrefixOf_iff_prefix.mpr (prefix_append _ _), ?_⟩
        rwa [drop_left]
  | case3 text =>
      exact iff_of_true rfl Wildcard.accepts_only_star
  | case4 segments text hmore ih =>
      rw [any_eq_true, flatMap_cons]
      change _ ↔ Accepts (Token.star :: segments.flatMap tokens) text
      rw [Wildcard.accepts_star]
      constructor
      · rintro ⟨rest, hrest, hmatch⟩
        obtain ⟨run, rfl⟩ := (mem_tails _ _).mp hrest
        exact ⟨run, rest, rfl, (ih rest).mp hmatch⟩
      · rintro ⟨run, rest, rfl, haccepts⟩
        exact ⟨rest, (mem_tails _ _).mpr (suffix_append _ _), (ih rest).mpr haccepts⟩

end WildcardSegment

theorem wildcardMatch_iff (pattern text : String) :
    wildcardMatch pattern text = true ↔ Accepts (wildcardTokens pattern.toList) text.toList := by
  rw [wildcardMatch, WildcardSegment.matchSegments_iff, splitWildcardPattern,
    WildcardSegment.split_tokens]
  rfl

/-! ## The complement of conditions -/

/-- The conditions that an operand of anything-but is made of. -/
def butParts : Value → List Value
  | .array items => items
  | .object [("equals-ignore-case", .array items)] =>
    items.map fun item => .object [("equals-ignore-case", item)]
  | operand => [operand]

theorem stringOr_eq_ok {operator reason : String} {value : Value} {s : String} :
    stringOr operator reason value = .ok s ↔ value = .string s := by
  cases value <;> simp [stringOr, Value.asStr]

theorem except_mapM_eq_ok {ε α β : Type} {f : α → Except ε β} {xs : List α} {ys : List β} :
    xs.mapM f = .ok ys ↔ List.Forall₂ (fun x y => f x = .ok y) xs ys := by
  induction xs generalizing ys with
  | nil =>
      rw [mapM_nil, forall₂_nil_left_iff]
      exact ⟨fun h => (Except.ok.inj h).symm, fun h => congrArg _ h.symm⟩
  | cons x xs ih =>
      rw [mapM_cons, bind_eq_ok]
      constructor
      · rintro ⟨y, hy, hrest⟩
        obtain ⟨zs, hzs, hdone⟩ := bind_eq_ok.mp hrest
        cases hdone
        exact .cons hy (ih.mp hzs)
      · intro h
        cases h with
        | cons hy hrest =>
            exact ⟨_, hy, bind_eq_ok.mpr ⟨_, ih.mpr hrest, rfl⟩⟩

/-- A value of another type meets no condition, and the complement of all. -/
theorem all_not_any {α β : Type} (item : Option β) (candidates : List α) (p : β → α → Bool) :
    (item.all fun b => !candidates.any (p b)) =
      !candidates.any fun a => item.any fun b => p b a := by
  cases item with
  | none =>
      change true = !candidates.any fun _ => false
      rw [any_eq_false.mpr fun _ _ => Bool.false_ne_true, Bool.not_false]
  | some b => rfl

theorem all_not {β : Type} (item : Option β) (p : β → Bool) :
    (item.all fun b => !p b) = !item.any p := by
  cases item <;> rfl

/-- The conditions of which none may hold. -/
def AnythingButCondition.positives : AnythingButCondition → List (MatchCondition Net)
  | .strings texts => texts.map .exactString
  | .numbers ns => ns.map .exactNumeric
  | .hasPrefix text => [.hasPrefix text]
  | .hasSuffix text => [.hasSuffix text]
  | .equalsIgnoreCase text => [.equalsIgnoreCase text]
  | .equalsIgnoreCaseList texts => texts.map .equalsIgnoreCase
  | .wildcard text => [.wildcard text]

theorem nearlyEqual_comm (a b : Binary64) : nearlyEqual a b = nearlyEqual b a := by
  rw [nearlyEqual, Binary64.abs_sub_comm, nearlyEqual]

theorem matchAnythingBut_eq (ab : AnythingButCondition) (value : Value) :
    matchAnythingBut ab value =
      !(ab.positives : List (MatchCondition Net)).any (matchSingleValue host · value) := by
  have hsingle (c : MatchCondition Net) :
      ([c].any fun c => matchSingleValue host c value) = matchSingleValue host c value := by
    rw [any_cons, any_nil, Bool.or_false]
  cases ab with
  | strings texts =>
      refine (all_not_any value.asStr texts fun s candidate => candidate == s).trans ?_
      rw [AnythingButCondition.positives, any_map]
      refine congrArg _ (any_congr fun candidate _ => ?_)
      change _ = value.asStr.any (· == candidate)
      exact congrArg (value.asStr.any ·) (funext fun s => Bool.beq_comm)
  | numbers ns =>
      refine (all_not_any value.asF64 ns fun n candidate => nearlyEqual candidate n).trans ?_
      rw [AnythingButCondition.positives, any_map]
      refine congrArg _ (any_congr fun candidate _ => ?_)
      change _ = value.asF64.any (nearlyEqual · candidate)
      exact congrArg (value.asF64.any ·) (funext fun n => nearlyEqual_comm candidate n)
  | hasPrefix text => exact (all_not _ _).trans (congrArg _ (hsingle (.hasPrefix text)).symm)
  | hasSuffix text => exact (all_not _ _).trans (congrArg _ (hsingle (.hasSuffix text)).symm)
  | equalsIgnoreCase text =>
      exact (all_not _ _).trans (congrArg _ (hsingle (.equalsIgnoreCase text)).symm)
  | equalsIgnoreCaseList texts =>
      refine (all_not_any value.asStr texts eqIgnoreAsciiCase).trans ?_
      rw [AnythingButCondition.positives, any_map]
      rfl
  | wildcard text => exact (all_not _ _).trans (congrArg _ (hsingle (.wildcard text)).symm)

theorem parseAnythingButArray_parts {items : List Value} {c : MatchCondition Net}
    (h : parseAnythingButArray items = .ok c) : ∃ ab : AnythingButCondition, c = .anythingBut ab ∧
      items.mapM (parseSingleCondition host) = .ok ab.positives := by
  cases items with
  | nil => cases h
  | cons first rest =>
      simp only [parseAnythingButArray] at h
      split_ifs at h with hstring hnumber
      · obtain ⟨texts, htexts, hdone⟩ := bind_eq_ok.mp h
        cases hdone
        refine ⟨_, rfl, except_mapM_eq_ok.mpr (forall₂_map_right_iff.mpr ?_)⟩
        refine (except_mapM_eq_ok.mp htexts).imp fun item s hitem => ?_
        rw [stringOr_eq_ok.mp hitem]
        rfl
      · obtain ⟨ns, hns, hdone⟩ := bind_eq_ok.mp h
        cases hdone
        refine ⟨_, rfl, except_mapM_eq_ok.mpr (forall₂_map_right_iff.mpr ?_)⟩
        refine (except_mapM_eq_ok.mp hns).imp fun item n hitem => ?_
        cases item with
        | number m =>
            cases hitem
            rfl
        | _ => cases hitem

theorem parseAnythingButObject_parts {fields : List (String × Value)} {c : MatchCondition Net}
    (h : parseAnythingButObject fields = .ok c) :
    ∃ ab : AnythingButCondition, c = .anythingBut ab ∧
      (butParts (.object fields)).mapM (parseSingleCondition host) = .ok ab.positives := by
  unfold parseAnythingButObject at h
  split at h
  · next value =>
      obtain ⟨s, hs, hdone⟩ := bind_eq_ok.mp h
      cases hdone
      rw [stringOr_eq_ok.mp hs]
      exact ⟨_, rfl, rfl⟩
  · next value =>
      obtain ⟨s, hs, hdone⟩ := bind_eq_ok.mp h
      cases hdone
      rw [stringOr_eq_ok.mp hs]
      exact ⟨_, rfl, rfl⟩
  · next value =>
      cases value with
      | string s =>
          cases h
          exact ⟨_, rfl, rfl⟩
      | array items =>
          obtain ⟨texts, htexts, hdone⟩ := bind_eq_ok.mp h
          cases hdone
          refine ⟨_, rfl, except_mapM_eq_ok.mpr ?_⟩
          refine forall₂_map_left_iff.mpr (forall₂_map_right_iff.mpr ?_)
          refine (except_mapM_eq_ok.mp htexts).imp fun item s hitem => ?_
          rw [stringOr_eq_ok.mp hitem]
          rfl
      | _ => cases h
  · next value =>
      obtain ⟨s, hs, hrest⟩ := bind_eq_ok.mp h
      obtain ⟨_, hvalid, hdone⟩ := bind_eq_ok.mp hrest
      cases hdone
      rw [stringOr_eq_ok.mp hs]
      refine ⟨_, rfl, except_mapM_eq_ok.mpr (.cons ?_ .nil)⟩
      exact bind_eq_ok.mpr ⟨s, rfl,
        bind_eq_ok.mpr ⟨(), hvalid, rfl⟩⟩
  · cases h
  · cases h

/-- An operand is made of parts that are conditions themselves. -/
theorem parseAnythingBut_parts {operand : Value} {c : MatchCondition Net}
    (h : parseAnythingBut operand = .ok c) : ∃ ab : AnythingButCondition, c = .anythingBut ab ∧
      (butParts operand).mapM (parseSingleCondition host) = .ok ab.positives := by
  cases operand with
  | null => cases h
  | bool b => cases h
  | number | string =>
      cases h
      exact ⟨_, rfl, rfl⟩
  | array items => exact parseAnythingButArray_parts h
  | object fields => exact parseAnythingButObject_parts h

/-! ## Comparisons -/

inductive NumericOp where
  | gt
  | ge
  | lt
  | le
  | eq
  deriving DecidableEq

namespace NumericOp

def text : NumericOp → String
  | gt => ">"
  | ge => ">="
  | lt => "<"
  | le => "<="
  | eq => "="

inductive Direction where
  | lower
  | upper
  | equal
  deriving DecidableEq

def direction : NumericOp → Direction
  | gt => .lower
  | ge => .lower
  | lt => .upper
  | le => .upper
  | eq => .equal

/-- The number is in the relation to the operand. -/
def Relates : NumericOp → ℚ → ℚ → Prop
  | gt, x, operand => operand < x
  | ge, x, operand => operand ≤ x
  | lt, x, operand => x < operand
  | le, x, operand => x ≤ operand
  | eq, x, operand => x = operand

end NumericOp

structure Comparison where
  op : NumericOp
  operand : Number

/-- The comparisons that an array lists. -/
inductive Lists : List Value → List Comparison → Prop
  | nil : Lists [] []
  | cons {arr : List Value} {cs : List Comparison} (c : Comparison) (h : Lists arr cs) :
      Lists (.string c.op.text :: .number c.operand :: arr) (c :: cs)

namespace Comparison

def Holds (c : Comparison) (v : ℤ) : Prop := c.op.Relates v c.operand.exact

/-- What the code asks: a number very near to the operand is taken for it. -/
def Reads (c : Comparison) (v : ℤ) : Prop :=
  match c.op with
  | .eq => nearlyEqual c.operand.asF64 (.finite v) = true
  | _ => c.Holds v

/-- The condition with the comparison in the place of its direction. -/
def record (condition : NumericCondition) (c : Comparison) : NumericCondition :=
  match c.op with
  | .gt => { condition with lower := some ⟨c.operand.asF64, false⟩ }
  | .ge => { condition with lower := some ⟨c.operand.asF64, true⟩ }
  | .lt => { condition with upper := some ⟨c.operand.asF64, false⟩ }
  | .le => { condition with upper := some ⟨c.operand.asF64, true⟩ }
  | .eq => { condition with equals := some c.operand.asF64 }

end Comparison

/-- An integer that numbers of 64 bits tell from its neighbours. -/
def InRange (v : ℤ) : Prop := |v| < 2 ^ 53

theorem add_eq_ok {condition condition' : NumericCondition} {op : String} {num : Binary64}
    (h : condition.add op num = .ok condition') : ∃ o : NumericOp, o.text = op := by
  unfold add at h
  split at h
  · exact ⟨.gt, rfl⟩
  · exact ⟨.ge, rfl⟩
  · exact ⟨.lt, rfl⟩
  · exact ⟨.le, rfl⟩
  · exact ⟨.eq, rfl⟩
  · cases h

theorem add_text (condition : NumericCondition) (c : Comparison) :
    condition.add c.op.text c.operand.asF64 = .ok (c.record condition) := by
  obtain ⟨op, operand⟩ := c
  cases op <;> rfl

theorem parsePairs_lists {arr : List Value} {condition condition' : NumericCondition}
    (heven : arr.length % 2 = 0) (h : parsePairs condition arr = .ok condition') :
    ∃ cs, Lists arr cs ∧ condition' = cs.foldl Comparison.record condition := by
  induction condition, arr using parsePairs.induct generalizing condition' with
  | case1 condition operator operand arr hoperator =>
      simp only [parsePairs, hoperator] at h
      cases h
  | case2 condition operator operand arr op hoperator hoperand =>
      simp only [parsePairs, hoperator, hoperand] at h
      cases h
  | case3 condition operator operand arr op hoperator num hoperand ih =>
      simp only [parsePairs, hoperator, hoperand] at h
      obtain ⟨added, hadded, hrest⟩ := bind_eq_ok.mp h
      have heven' : arr.length % 2 = 0 := by
        rw [length_cons, length_cons] at heven
        omega
      obtain ⟨cs, hlists, hdone⟩ := ih added heven' hrest
      obtain ⟨o, rfl⟩ := add_eq_ok hadded
      cases operator with
      | string text =>
          cases hoperator
          cases operand with
          | number n =>
              cases hoperand
              have hrecord := hadded.symm.trans (add_text condition ⟨o, n⟩)
              cases hrecord
              exact ⟨_, .cons ⟨o, n⟩ hlists, hdone⟩
          | _ => cases hoperand
      | _ => cases hoperator
  | case4 arr condition hpair =>
      cases arr with
      | nil =>
          cases h
          exact ⟨[], .nil, rfl⟩
      | cons operator arr =>
          cases arr with
          | nil => cases heven
          | cons operand arr => exact absurd rfl (hpair operator operand arr)

theorem Lists.length_eq {arr : List Value} {cs : List Comparison} (h : Lists arr cs) :
    arr.length = 2 * cs.length := by
  induction h with
  | nil => rfl
  | cons c _ ih =>
      rw [length_cons, length_cons, length_cons, ih]
      omega

theorem text_injective : Function.Injective NumericOp.text := by
  intro o o' h
  cases o <;> cases o' <;> first | rfl | exact absurd h (by decide)

/-- There is one way to read an array. -/
theorem Lists.unique {arr : List Value} {cs cs' : List Comparison} (h : Lists arr cs)
    (h' : Lists arr cs') : cs = cs' := by
  induction h generalizing cs' with
  | nil =>
      cases h'
      rfl
  | @cons arr cs c _ ih =>
      generalize hlisted : Value.string c.op.text :: Value.number c.operand :: arr = listed at h'
      cases h' with
      | nil => cases hlisted
      | @cons arr' cs' c' hrest =>
          simp only [cons.injEq, Value.string.injEq, Value.number.injEq] at hlisted
          obtain ⟨hop, hoperand, rfl⟩ := hlisted
          have hc : c = c' := by
            obtain ⟨op, operand⟩ := c
            obtain ⟨op', operand'⟩ := c'
            obtain rfl := text_injective hop
            obtain rfl := hoperand
            rfl
          rw [hc, ih hrest]

/-- An accepted array lists one or two comparisons. -/
theorem parseNumeric_lists {operand : Value} {c : MatchCondition Net}
    (h : parseNumeric operand = .ok c) : ∃ arr cs, operand = .array arr ∧ Lists arr cs ∧
      (cs.length = 1 ∨ cs.length = 2) ∧
        c = .numeric (cs.foldl Comparison.record ⟨none, none, none⟩) := by
  obtain ⟨arr, rfl⟩ : ∃ arr, operand = .array arr := by
    cases operand with
    | array arr => exact ⟨arr, rfl⟩
    | _ => cases h
  simp only [parseNumeric, Value.asArray] at h
  split_ifs at h with hlength
  push Not at hlength
  obtain ⟨condition, hcondition, hdone⟩ := bind_eq_ok.mp h
  cases hdone
  obtain ⟨cs, hlists, rfl⟩ := parsePairs_lists hlength.2.1 hcondition
  refine ⟨arr, cs, rfl, hlists, ?_, rfl⟩
  have hlen := hlists.length_eq
  have hpos : arr.length ≠ 0 := fun hzero => hlength.1 (by
    rw [eq_nil_of_length_eq_zero hzero]
    rfl)
  omega

/-! ## Numbers of 64 bits -/

/-- The rounded operand is on the same side of every integer of the range. -/
theorem asF64_order (n : Number) : ∃ r, n.asF64 = .finite r ∧
    ∀ v : ℤ, InRange v → (r < v ↔ n.exact < v) ∧ ((v : ℚ) < r ↔ v < n.exact) := by
  cases n with
  | posInt m =>
      have hbound : |(m.toNat : ℤ)| ≤ 2 ^ 64 := by
        rw [Nat.abs_cast]
        exact_mod_cast m.toNat_lt.le
      obtain ⟨r, hr, horder⟩ := Binary64.round_intCast_order (by omega) hbound
      refine ⟨r, hr, fun v hv => ?_⟩
      obtain ⟨hlow, hhigh⟩ := horder v hv
      exact ⟨hlow.trans Int.cast_lt.symm, hhigh.trans Int.cast_lt.symm⟩
  | negInt m =>
      have hbound : |m.toInt| ≤ 2 ^ 63 :=
        abs_le.mpr ⟨m.le_toInt, m.toInt_lt.le⟩
      obtain ⟨r, hr, horder⟩ := Binary64.round_intCast_order (by omega) hbound
      refine ⟨r, hr, fun v hv => ?_⟩
      obtain ⟨hlow, hhigh⟩ := horder v hv
      exact ⟨hlow.trans Int.cast_lt.symm, hhigh.trans Int.cast_lt.symm⟩
  | float f => exact ⟨f.value, rfl, fun v _ => ⟨Iff.rfl, Iff.rfl⟩⟩

theorem asF64_integer {n : Number} {v : ℤ} (hv : InRange v) (hexact : n.exact = v) :
    n.asF64 = .finite v := by
  obtain ⟨r, hr, horder⟩ := asF64_order n
  obtain ⟨hlow, hhigh⟩ := horder v hv
  rw [hexact] at hlow hhigh
  rw [hr, le_antisymm (not_lt.mp fun h => lt_irrefl _ (hhigh.mp h))
    (not_lt.mp fun h => lt_irrefl _ (hlow.mp h))]

/-- Every integer of the range is a number of an event. -/
theorem exists_number {v : ℤ} (hv : InRange v) : ∃ n : Number, n.exact = v := by
  obtain ⟨hlow, hhigh⟩ := abs_lt.mp hv
  rcases le_or_gt 0 v with hpos | hneg
  · refine ⟨.posInt (.ofNat v.toNat), ?_⟩
    have hnat : (UInt64.ofNat v.toNat).toNat = v.toNat := by
      refine UInt64.toNat_ofNat_of_lt' ?_
      change v.toNat < 2 ^ 64
      omega
    rw [Number.exact, hnat]
    exact_mod_cast Int.toNat_of_nonneg hpos
  · refine ⟨.negInt (.ofInt v), ?_⟩
    rw [Number.exact, Int64.toInt_ofInt_of_le (by omega) (by omega)]

theorem not_epsilon_le (x y : ℚ) :
    (!epsilon.le ((Binary64.finite x).sub (.finite y)).abs) =
      nearlyEqual (.finite x) (.finite y) := by
  change (!epsilon.le (Binary64.round (x + -y)).abs) = (Binary64.round (x + -y)).abs.lt epsilon
  unfold Binary64.round
  split_ifs
  · rfl
  · exact (decide_not.symm.trans (decide_eq_decide.mpr not_le))

namespace NumericCondition

def clear (condition : NumericCondition) : NumericOp.Direction → NumericCondition
  | .lower => { condition with lower := none }
  | .upper => { condition with upper := none }
  | .equal => { condition with equals := none }

end NumericCondition

namespace Comparison

/-- The last comparison of a direction is asked, and what the other directions ask. -/
theorem matchNumeric_record (c : Comparison) (condition : NumericCondition) {v : ℤ}
    (hv : InRange v) : matchNumeric (c.record condition) (.finite v) = true ↔
      c.Reads v ∧ matchNumeric (condition.clear c.op.direction) (.finite v) = true := by
  obtain ⟨op, operand⟩ := c
  obtain ⟨r, hr, horder⟩ := asF64_order operand
  obtain ⟨hlow, hhigh⟩ := horder v hv
  cases op with
  | gt =>
      have hread : (!(Binary64.finite v).le (.finite r)) = decide (r < v) :=
        decide_not.symm.trans (decide_eq_decide.mpr not_le)
      simp only [record, hr, Reads, Holds, NumericOp.Relates, NumericOp.direction,
        clear, matchNumeric, Option.all_some, Option.all_none, Bool.false_eq_true,
        if_false, hread, Bool.and_eq_true, decide_eq_true_iff, hlow]
      tauto
  | ge =>
      have hread : (!(Binary64.finite v).lt (.finite r)) = decide (r ≤ v) :=
        decide_not.symm.trans (decide_eq_decide.mpr not_lt)
      simp only [record, hr, Reads, Holds, NumericOp.Relates, NumericOp.direction,
        clear, matchNumeric, Option.all_some, Option.all_none, if_true, hread,
        Bool.and_eq_true, decide_eq_true_iff, ← not_lt, hhigh]
      tauto
  | lt =>
      have hread : (!(Binary64.finite r).le (.finite v)) = decide ((v : ℚ) < r) :=
        decide_not.symm.trans (decide_eq_decide.mpr not_le)
      simp only [record, hr, Reads, Holds, NumericOp.Relates, NumericOp.direction,
        clear, matchNumeric, Option.all_some, Option.all_none, Bool.false_eq_true,
        if_false, hread, Bool.and_eq_true, decide_eq_true_iff, hhigh]
      tauto
  | le =>
      have hread : (!(Binary64.finite r).lt (.finite v)) = decide ((v : ℚ) ≤ r) :=
        decide_not.symm.trans (decide_eq_decide.mpr not_lt)
      simp only [record, hr, Reads, Holds, NumericOp.Relates, NumericOp.direction,
        clear, matchNumeric, Option.all_some, Option.all_none, if_true, hread,
        Bool.and_eq_true, decide_eq_true_iff, ← not_lt, hlow]
      tauto
  | eq =>
      simp only [record, hr, Reads, NumericOp.direction, clear, matchNumeric,
        Option.all_some, Option.all_none, Bool.true_and, Bool.and_eq_true, not_epsilon_le]
      exact and_assoc

theorem reads_of_holds {c : Comparison} {v : ℤ} (hv : InRange v) (h : c.Holds v) : c.Reads v := by
  obtain ⟨op, operand⟩ := c
  cases op with
  | eq =>
      have hexact : (v : ℚ) = operand.exact := h
      change nearlyEqual operand.asF64 (.finite v) = true
      rw [asF64_integer hv hexact.symm]
      change (Binary64.round ((v : ℚ) + -v)).abs.lt epsilon = true
      have hzero : (v : ℚ) + -v = ((0 : ℤ) : ℚ) := by simp
      rw [hzero, Binary64.round_intCast (by norm_num)]
      change decide (|((0 : ℤ) : ℚ)| < 1 / 2 ^ 52) = true
      norm_num
  | _ => exact h

theorem holds_of_reads {c : Comparison} {v : ℤ} (hop : c.op ≠ .eq) (h : c.Reads v) :
    c.Holds v := by
  obtain ⟨op, operand⟩ := c
  cases op with
  | eq => exact absurd rfl hop
  | _ => exact h

/-- One comparison is asked as the code reads it. -/
theorem matchNumeric_one (c : Comparison) {v : ℤ} (hv : InRange v) :
    matchNumeric ([c].foldl record ⟨none, none, none⟩) (.finite v) = true ↔ c.Reads v := by
  change matchNumeric (c.record ⟨none, none, none⟩) (.finite v) = true ↔ _
  rw [matchNumeric_record c _ hv]
  refine and_iff_left ?_
  cases c.op <;> rfl

/-- Of two comparisons in one direction only the second is asked. -/
theorem matchNumeric_two (c c' : Comparison) {v : ℤ} (hv : InRange v) :
    matchNumeric ([c, c'].foldl record ⟨none, none, none⟩) (.finite v) = true ↔
      c'.Reads v ∧ (c.op.direction ≠ c'.op.direction → c.Reads v) := by
  change matchNumeric (c'.record (c.record ⟨none, none, none⟩)) (.finite v) = true ↔ _
  rw [matchNumeric_record c' _ hv]
  refine and_congr_right fun _ => ?_
  by_cases hdirection : c.op.direction = c'.op.direction
  · refine iff_of_true ?_ fun h => absurd hdirection h
    rw [← hdirection]
    obtain ⟨op, operand⟩ := c
    cases op <;> rfl
  · have hclear : (c.record ⟨none, none, none⟩).clear c'.op.direction =
        c.record ⟨none, none, none⟩ := by
      obtain ⟨op, operand⟩ := c
      obtain ⟨op', operand'⟩ := c'
      cases op <;> cases op' <;> first | rfl | exact absurd rfl hdirection
    rw [hclear]
    exact (matchNumeric_one c hv).trans ⟨fun h _ => h, fun h => h hdirection⟩

/-- The least integer of a lower bound, or the greatest one of an upper bound. -/
def bound (c : Comparison) : ℤ :=
  match c.op with
  | .gt => ⌊c.operand.exact⌋ + 1
  | .ge => ⌈c.operand.exact⌉
  | .lt => ⌈c.operand.exact⌉ - 1
  | .le => ⌊c.operand.exact⌋
  | .eq => ⌊c.operand.exact⌋

theorem holds_lower {c : Comparison} (h : c.op.direction = .lower) (v : ℤ) :
    c.Holds v ↔ c.bound ≤ v := by
  obtain ⟨op, operand⟩ := c
  cases op with
  | gt => exact Int.floor_lt.symm
  | ge => exact Int.ceil_le.symm
  | _ => cases h

theorem holds_upper {c : Comparison} (h : c.op.direction = .upper) (v : ℤ) :
    c.Holds v ↔ v ≤ c.bound := by
  obtain ⟨op, operand⟩ := c
  cases op with
  | lt => exact Int.lt_ceil.symm.trans Int.le_sub_one_iff.symm
  | le => exact Int.le_floor.symm
  | _ => cases h

/-- The integer is less than an epsilon from the operand, when this and the difference have been
rounded. -/
def Near (c : Comparison) (v : ℤ) : Prop := |grid (grid c.operand.exact - v)| < 1 / 2 ^ 52

/-- Of the integers with the property only the operand is near to the operand. -/
def Sharp (c : Comparison) (p : ℤ → Prop) : Prop :=
  c.op = .eq → ∀ v, InRange v → p v → c.Near v → (v : ℚ) = c.operand.exact

/-- The second of two comparisons in one direction leaves nothing to the first. -/
def Covers (c' c : Comparison) : Prop :=
  match c'.op.direction with
  | .lower => c.bound ≤ c'.bound ∨ c.bound ≤ 1 - 2 ^ 53 ∨ 2 ^ 53 ≤ c'.bound
  | .upper => c'.bound ≤ c.bound ∨ 2 ^ 53 - 1 ≤ c.bound ∨ c'.bound ≤ -2 ^ 53
  | .equal => ∀ v, InRange v → c'.Near v → (v : ℚ) = c.operand.exact ∧ (v : ℚ) = c'.operand.exact

/-- No comparison is lost that says more than the one in its place, and no integer that meets the
others is taken for an operand it is not. -/
def Faithful : List Comparison → Prop
  | [c] => c.Sharp fun _ => True
  | [c, c'] =>
    if c.op.direction = c'.op.direction then c'.Covers c
    else c.Sharp c'.Holds ∧ c'.Sharp c.Holds
  | _ => True

theorem asF64_eq (n : Number) : n.asF64 = .finite (grid n.exact) := by
  obtain ⟨r, hr, -⟩ := asF64_order n
  have hround : Binary64.round n.exact = .finite r := by
    cases n with
    | posInt m | negInt m => exact hr
    | float f => exact f.representable.trans hr
  unfold Binary64.round at hround
  split_ifs at hround
  rw [hr, hround]

/-- A number is taken for the operand where it is near to it. -/
theorem near_iff (c : Comparison) (v : ℤ) :
    nearlyEqual c.operand.asF64 (.finite v) = true ↔ c.Near v := by
  rw [asF64_eq, Near, sub_eq_add_neg]
  change (Binary64.round _).abs.lt epsilon = true ↔ _
  unfold Binary64.round
  split_ifs with hlarge
  · have hone : (1 : ℚ) / 2 ^ 52 ≤ 1 := by norm_num
    exact iff_of_false Bool.false_ne_true
      (not_lt.mpr (hone.trans ((one_le_pow₀ one_le_two).trans hlarge)))
  · exact decide_eq_true_iff

theorem covers_iff {c c' : Comparison} (h : c.op.direction = c'.op.direction) :
    c'.Covers c ↔ ∀ v, InRange v → c'.Reads v → c.Holds v ∧ c'.Holds v := by
  unfold Covers
  cases hdirection : c'.op.direction with
  | lower =>
      have hop : c'.op ≠ .eq := fun heq => by
        rw [heq] at hdirection
        cases hdirection
      constructor
      · intro hbound v hv hreads
        have hholds := holds_of_reads hop hreads
        refine ⟨(holds_lower (h.trans hdirection) v).mpr ?_, hholds⟩
        have hle := (holds_lower hdirection v).mp hholds
        obtain ⟨hlow, hhigh⟩ := abs_lt.mp hv
        omega
      · intro hall
        by_contra hnot
        push Not at hnot
        -- the least integer of the range above the second bound
        have hv : InRange (max c'.bound (1 - 2 ^ 53)) := abs_lt.mpr ⟨by omega, by omega⟩
        have hholds := (holds_lower hdirection _).mpr (le_max_left c'.bound (1 - 2 ^ 53))
        have hle := (holds_lower (h.trans hdirection) _).mp
          (hall _ hv (reads_of_holds hv hholds)).1
        omega
  | upper =>
      have hop : c'.op ≠ .eq := fun heq => by
        rw [heq] at hdirection
        cases hdirection
      constructor
      · intro hbound v hv hreads
        have hholds := holds_of_reads hop hreads
        refine ⟨(holds_upper (h.trans hdirection) v).mpr ?_, hholds⟩
        have hle := (holds_upper hdirection v).mp hholds
        obtain ⟨hlow, hhigh⟩ := abs_lt.mp hv
        omega
      · intro hall
        by_contra hnot
        push Not at hnot
        -- the greatest integer of the range below the second bound
        have hv : InRange (min c'.bound (2 ^ 53 - 1)) := abs_lt.mpr ⟨by omega, by omega⟩
        have hholds := (holds_upper hdirection _).mpr (min_le_left c'.bound (2 ^ 53 - 1))
        have hle := (holds_upper (h.trans hdirection) _).mp
          (hall _ hv (reads_of_holds hv hholds)).1
        omega
  | equal =>
      obtain ⟨op, operand⟩ := c
      obtain ⟨op', operand'⟩ := c'
      cases op' with
      | eq =>
          cases op with
          | eq => exact forall₂_congr fun v _ => imp_congr_left (near_iff _ v).symm
          | _ => cases h
      | _ => cases hdirection

theorem sharp_iff (c : Comparison) (p : ℤ → Prop) :
    c.Sharp p ↔ ∀ v, InRange v → p v → c.Reads v → c.Holds v := by
  obtain ⟨op, operand⟩ := c
  cases op with
  | eq =>
      exact (forall_prop_of_true rfl).trans
        (forall₃_congr fun v _ _ => imp_congr_left (near_iff _ v).symm)
  | _ => exact iff_of_true (fun h => by cases h) fun _ _ _ h => h

/-- The condition asks what the array lists, for every integer of the range, exactly if the array
is faithful. -/
theorem faithful_iff_bounds {cs : List Comparison} (hlength : cs.length = 1 ∨ cs.length = 2) :
    (∀ v, InRange v → (matchNumeric (cs.foldl record ⟨none, none, none⟩) (.finite v) = true ↔
      ∀ c ∈ cs, c.Holds v)) ↔ Faithful cs := by
  rcases hlength with hone | htwo
  · obtain ⟨c, rfl⟩ := length_eq_one_iff.mp hone
    refine Iff.trans ?_ (sharp_iff c fun _ => True).symm
    refine forall₂_congr fun v hv => ?_
    rw [matchNumeric_one c hv, forall_mem_singleton]
    exact ⟨fun h _ => h.mp, fun h => ⟨h trivial, reads_of_holds hv⟩⟩
  · obtain ⟨c, c', rfl⟩ := length_eq_two.mp htwo
    by_cases hdirection : c.op.direction = c'.op.direction
    · refine Iff.trans ?_ ((if_pos hdirection).to_iff.trans (covers_iff hdirection)).symm
      refine forall₂_congr fun v hv => ?_
      rw [matchNumeric_two c c' hv, forall_mem_cons, forall_mem_singleton]
      constructor
      · exact fun h hreads => h.mp ⟨hreads, fun hne => absurd hdirection hne⟩
      · exact fun h => ⟨fun hreads => h hreads.1, fun hholds =>
          ⟨reads_of_holds hv hholds.2, fun hne => absurd hdirection hne⟩⟩
    · refine Iff.trans ?_ (if_neg hdirection).to_iff.symm
      rw [sharp_iff, sharp_iff]
      constructor
      · intro h
        have hone (v : ℤ) (hv : InRange v) (hreads : c.Reads v) (hreads' : c'.Reads v) :=
          (h v hv).mp ((matchNumeric_two c c' hv).mpr ⟨hreads', fun _ => hreads⟩)
        refine ⟨fun v hv hholds hreads => ?_, fun v hv hholds hreads => ?_⟩
        · exact hone v hv hreads (reads_of_holds hv hholds) c (.head _)
        · exact hone v hv (reads_of_holds hv hholds) hreads c'
            (.tail _ (.head _))
      · rintro ⟨hsharp, hsharp'⟩ v hv
        rw [matchNumeric_two c c' hv, forall_mem_cons, forall_mem_singleton]
        constructor
        · rintro ⟨hreads', hreads⟩
          -- one of the two is a bound, which is read as it is
          by_cases hop : c.op = .eq
          · have hholds' := holds_of_reads (fun heq => hdirection (by rw [hop, heq])) hreads'
            exact ⟨hsharp v hv hholds' (hreads hdirection), hholds'⟩
          · have hholds := holds_of_reads hop (hreads hdirection)
            exact ⟨hholds, hsharp' v hv hholds hreads'⟩
        · exact fun hholds => ⟨reads_of_holds hv hholds.2, fun _ => reads_of_holds hv hholds.1⟩

end Comparison

/-- Wildcards accept what their stars can be filled to, and anything-but is the complement of the
conditions of its parts.  A numeric condition holds of the integers of the range of which all its
comparisons hold exactly if none of them covers what another one leaves out and no operand is met
by an integer that is merely near. -/
theorem operators_exact_iff (host : Host Net) :
    (∀ pattern text : String, validateWildcardPattern pattern = .ok () →
      (wildcardMatch pattern text = true ↔
        Accepts (wildcardTokens pattern.toList) text.toList)) ∧
    (∀ (operand : Value) (c : MatchCondition Net), parseAnythingBut operand = .ok c →
      ∃ cs, (butParts operand).mapM (parseSingleCondition host) = .ok cs ∧
        ∀ value, matchSingleValue host c value = !cs.any (matchSingleValue host · value)) ∧
    ∀ (operand : Value) (c : MatchCondition Net), parseNumeric operand = .ok c →
      ∃ arr cs, operand = .array arr ∧ Lists arr cs ∧
        ((∀ (n : Number) (v : ℤ), n.exact = v → InRange v →
          (matchSingleValue host c (.number n) = true ↔ ∀ c ∈ cs, c.Holds v)) ↔
            Comparison.Faithful cs) := by
  refine ⟨fun pattern text _ => wildcardMatch_iff pattern text, fun operand c h => ?_,
    fun operand c h => ?_⟩
  · obtain ⟨ab, rfl, hparts⟩ := @parseAnythingBut_parts Net host operand c h
    exact ⟨_, hparts, fun value => matchAnythingBut_eq ab value⟩
  · obtain ⟨arr, cs, harr, hlists, hlength, rfl⟩ := parseNumeric_lists h
    refine ⟨arr, cs, harr, hlists, Iff.trans ?_ (Comparison.faithful_iff_bounds hlength)⟩
    constructor
    · intro hall v hv
      obtain ⟨n, hexact⟩ := exists_number hv
      have hread := hall n v hexact hv
      rwa [← asF64_integer hv hexact]
    · intro hall n v hexact hv
      have hread := hall v hv
      rwa [← asF64_integer hv hexact] at hread

/-- The two bounds of a range. -/
def rangeOperand : Value :=
  .array [.string ">=", .number (.posInt 0), .string "<", .number (.posInt 100)]

/-- Two lower bounds, of which the first says more. -/
def replacedOperand : Value :=
  .array [.string ">", .number (.posInt 10), .string ">", .number (.posInt 0)]

/-- The first bound is lost, and the condition holds of a number below it. -/
theorem replaced_bound_holds : ∃ c : MatchCondition Unit, parseNumeric replacedOperand = .ok c ∧
    matchSingleValue plainHost c (.number (.posInt 5)) = true ∧
      ∃ arr cs, replacedOperand = .array arr ∧ Lists arr cs ∧ ¬∀ c ∈ cs, c.Holds 5 := by
  have hv : InRange 5 := by norm_num [InRange]
  have hholds : Comparison.Holds ⟨.gt, .posInt 0⟩ 5 := by
    change ((0 : UInt64).toNat : ℚ) < ((5 : ℤ) : ℚ)
    norm_num
  have hmatch := (Comparison.matchNumeric_two ⟨.gt, .posInt 10⟩ ⟨.gt, .posInt 0⟩ hv).mpr
    ⟨hholds, fun hne => absurd rfl hne⟩
  have hfive : (Number.posInt 5).asF64 = .finite (5 : ℤ) := asF64_integer hv rfl
  rw [← hfive] at hmatch
  refine ⟨_, rfl, hmatch, _, _, rfl, .cons ⟨.gt, .posInt 10⟩ (.cons ⟨.gt, .posInt 0⟩ .nil),
    fun hall => ?_⟩
  have hten : ((10 : UInt64).toNat : ℚ) < ((5 : ℤ) : ℚ) := hall _ (.head _)
  have hnat : (10 : UInt64).toNat < 5 := by exact_mod_cast hten
  exact absurd hnat (by decide)

/-- A range holds of an integer exactly if both bounds do. -/
theorem operators_exact_range : ∃ c : MatchCondition Unit, parseNumeric rangeOperand = .ok c ∧
    ∃ arr cs, rangeOperand = .array arr ∧ Lists arr cs ∧ Comparison.Faithful cs ∧
      ∀ (n : Number) (v : ℤ), n.exact = v → InRange v →
        (matchSingleValue plainHost c (.number n) = true ↔ ∀ c ∈ cs, c.Holds v) := by
  obtain ⟨arr, cs, harr, hlists, hiff⟩ :=
    (operators_exact_iff plainHost).2.2 rangeOperand _ rfl
  obtain rfl := Value.array.inj harr
  obtain rfl := hlists.unique
    (.cons ⟨.ge, .posInt 0⟩ (.cons ⟨.lt, .posInt 100⟩ .nil))
  have hfaithful : Comparison.Faithful [⟨.ge, .posInt 0⟩, ⟨.lt, .posInt 100⟩] :=
    ⟨fun h => (by cases h), fun h => (by cases h)⟩
  exact ⟨_, rfl, _, _, rfl, hlists, hfaithful, hiff.mpr hfaithful⟩

end Rustack.Events
