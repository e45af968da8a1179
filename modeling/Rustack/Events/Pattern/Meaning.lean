import Rustack.Events.Pattern.Engine
import Rustack.Events.Pattern.Parser

/-!
# What patterns mean

The meaning of a pattern is read off its JSON: the keys of an object are joined by and, the
branches of `$or` and the conditions of an array by or, and a nested pattern looks into an empty
object where its key is absent.  The parsed pattern answers wrongly for an empty `$or`, and for
a nested pattern with an absent key when the empty object meets it although it asks for more
than the absence of fields.  An answer has the meaning exactly when no such error shows in it.
-/

namespace Rustack.Events

open List

variable {Net : Type} (host : Host Net)

/-! ## The meaning -/

/-- The values of which one has to match. -/
def Value.elements : Value → List Value
  | .array values => values
  | value => [value]

/-- A condition of a field that may be absent. -/
def conditionMeans (condition : Value) (field : Option Value) : Bool :=
  match condition with
  | .object [("exists", .bool expected)] => expected == field.isSome
  | _ =>
    match parseSingleCondition host condition with
    | .ok c => field.any fun value => value.elements.any (matchSingleValue host c)
    | .error _ => false

mutual

def means : List (String × Value) → Value → Bool
  | [], _ => true
  | (key, value) :: p, event =>
    (if key = "$or" then orMeans value event else fieldMeans value (event.get key)) &&
      means p event

def orMeans : Value → Value → Bool
  | .array branches, event => anyMeans branches event
  | _, _ => false

def anyMeans : List Value → Value → Bool
  | [], _ => false
  | .object branch :: branches, event => means branch event || anyMeans branches event
  | _ :: branches, event => anyMeans branches event

def fieldMeans : Value → Option Value → Bool
  | .array conditions, field => conditions.any fun c => conditionMeans host c field
  | .object p, field => means p (field.getD (.object []))
  | _, _ => false

end

def existsFalse : Value := .object [("exists", .bool false)]

/-- A member of a pattern asks for nothing but the absence of single fields. -/
inductive AsksAbsence : String → Value → Prop
  | leaf {key : String} (hkey : key ≠ "$or") : AsksAbsence key (.array [existsFalse])
  | nested {key : String} {p : List (String × Value)} (hkey : key ≠ "$or")
      (h : ∀ field ∈ p, AsksAbsence field.1 field.2) : AsksAbsence key (.object p)
  | noBranch : AsksAbsence "$or" (.array [])

/-- When two answers joined by and are right, for two meanings and whether each is answered
right: both are where both meanings are true; else one answer is false, which is right for a
meaning that is false and wrong for one that is true. -/
def BothRight (met met' : Bool) (right right' : Prop) : Prop :=
  if met && met' then right ∧ right' else (right ↔ met = false) ∨ (right' ↔ met' = false)

/-- The same for two answers joined by or. -/
def EitherRight (met met' : Bool) (right right' : Prop) : Prop :=
  if met || met' then (right ↔ met = true) ∨ (right' ↔ met' = true) else right ∧ right'

mutual

/-- No error shows in the answer for an event.  The errors are two: `$or` without a branch, and
a nested pattern with an absent key where the empty object meets it although it asks for more
than absence, or does not although it asks for no more. -/
def Straight : List (String × Value) → Value → Prop
  | [], _ => True
  | (key, value) :: p, event =>
    BothRight (means host [(key, value)] event) (means host p event)
      (if key = "$or" then orStraight value event else fieldStraight value (event.get key))
      (Straight p event)

def orStraight : Value → Value → Prop
  | .array branches, event => branches ≠ [] ∧ anyStraight branches event
  | _, _ => True

def anyStraight : List Value → Value → Prop
  | [], _ => True
  | .object branch :: branches, event =>
    EitherRight (means host branch event) (anyMeans host branches event) (Straight branch event)
      (anyStraight branches event)
  | _ :: branches, event => anyStraight branches event

def fieldStraight : Value → Option Value → Prop
  | .object p, some value => Straight p value
  | .object p, none =>
    (∀ field ∈ p, AsksAbsence field.1 field.2) ↔ means host p (.object []) = true
  | _, _ => True

end

variable {host}

/-! ## Conditions -/

theorem matchValueOrArray_eq (c : MatchCondition Net) (value : Value) :
    matchValueOrArray host c value = value.elements.any (matchSingleValue host c) := by
  cases value with
  | array values => rfl
  | _ => exact (Bool.or_false _).symm

/-- What a leaf asks of a field that may be absent, condition by condition. -/
def conditionMatches (host : Host Net) (c : MatchCondition Net) (field : Option Value) : Bool :=
  match c with
  | .exists expected => expected == field.isSome
  | other => field.any (matchValueOrArray host other)

theorem conditionMatches_plain {c : MatchCondition Net} (hplain : c.isExists = false)
    (field : Option Value) :
    conditionMatches host c field = field.any (matchValueOrArray host c) := by
  cases c with
  | «exists» expected => cases hplain
  | _ => rfl

theorem any_congr {α : Type} {p q : α → Bool} {xs : List α} (h : ∀ x ∈ xs, p x = q x) :
    xs.any p = xs.any q := by
  rw [Bool.eq_iff_iff, any_eq_true, any_eq_true]
  exact exists_congr fun x => and_congr_right fun hx => by rw [h x hx]

theorem matchLeaf_eq (conditions : List (MatchCondition Net)) (field : Option Value) :
    matchLeaf host conditions field = conditions.any fun c => conditionMatches host c field := by
  unfold matchLeaf
  split
  · rfl
  · next hexists =>
      have hplain : ∀ c ∈ conditions, c.isExists = false := fun c hc =>
        Bool.eq_false_iff.mpr fun hc' => hexists (any_eq_true.mpr ⟨c, hc, hc'⟩)
      rw [any_congr fun c hc => conditionMatches_plain (hplain c hc) field]
      cases field with
      | none => exact (any_eq_false.mpr fun _ _ => Bool.false_ne_true).symm
      | some value => rfl

theorem conditionMeans_eq {value : Value} {c : MatchCondition Net}
    (h : parseSingleCondition host value = .ok c) (field : Option Value) :
    conditionMeans host value field = conditionMatches host c field := by
  unfold conditionMeans
  split
  · next expected =>
      cases h
      rfl
  · next hother =>
      have hplain : c.isExists = false := by
        cases c with
        | «exists» expected => exact absurd (parseSingleCondition_exists.mp h) (hother expected)
        | _ => rfl
      rw [h, conditionMatches_plain hplain, funext (matchValueOrArray_eq c)]

theorem leaf_means {arr : List Value} {conditions : List (MatchCondition Net)}
    (h : parseConditions host arr = .ok conditions) (field : Option Value) :
    matchLeaf host conditions field = fieldMeans host (.array arr) field := by
  rw [matchLeaf_eq, fieldMeans]
  induction arr generalizing conditions with
  | nil =>
      cases h
      rfl
  | cons value arr ih =>
      unfold parseConditions at h
      rw [mapM_cons] at h
      obtain ⟨c, hc, h⟩ := Except.bind_eq_ok.mp h
      obtain ⟨rest, hrest, h⟩ := Except.bind_eq_ok.mp h
      cases h
      rw [any_cons, any_cons, ih hrest, conditionMeans_eq hc]

/-! ## Members -/

theorem matchAll_append (fields fields' : List (FieldMatcher Net)) (event : Value) :
    matchAll host (fields ++ fields') event =
      (matchAll host fields event && matchAll host fields' event) := by
  induction fields with
  | nil => rfl
  | cons matcher fields ih => rw [cons_append, matchAll, matchAll, ih, Bool.and_assoc]

theorem matchAny_append (groups groups' : List (List (FieldMatcher Net))) (event : Value) :
    matchAny host (groups ++ groups') event =
      (matchAny host groups event || matchAny host groups' event) := by
  induction groups with
  | nil => rfl
  | cons group groups ih => rw [cons_append, matchAny, matchAny, ih, Bool.or_assoc]

theorem matchAny_map_append (fields : List (FieldMatcher Net))
    (groups : List (List (FieldMatcher Net))) (event : Value) :
    matchAny host (groups.map fun group => fields ++ group) event =
      (matchAll host fields event && matchAny host groups event) := by
  induction groups with
  | nil => exact (Bool.and_false _).symm
  | cons group groups ih =>
      rw [map_cons, matchAny, matchAny, ih, matchAll_append, Bool.and_or_distrib_left]

/-- The branches of a pattern stand for the pattern. -/
theorem matchAny_branches (pattern : EventPattern Net) (event : Value) :
    matchAny host pattern.branches event = pattern.matches host event := by
  unfold EventPattern.branches EventPattern.matches matchPatternFields
  cases pattern.orConditions with
  | nil =>
      change (matchAll host pattern.fields event || false) = _
      rw [Bool.or_false]
      exact (Bool.and_true _).symm
  | cons group groups => exact matchAny_map_append _ _ _

theorem Value.Distinct.tail {field : String × Value} {p : List (String × Value)}
    (h : (Value.object (field :: p)).Distinct) : (Value.object p).Distinct := by
  cases h with
  | object hkeys hvalues =>
      exact .object (nodup_cons.mp hkeys).2 fun f hf => hvalues f (.tail _ hf)

/-- The answer to a pattern is the answer to its first member and to the others. -/
theorem matches_cons {key : String} {value : Value} {p : List (String × Value)}
    {pattern : EventPattern Net} (h : parseObject host ((key, value) :: p) = .ok pattern)
    (hdistinct : (Value.object ((key, value) :: p)).Distinct) :
    ∃ first rest, parseObject host [(key, value)] = .ok first ∧ parseObject host p = .ok rest ∧
      ∀ event, pattern.matches host event =
        (first.matches host event && rest.matches host event) := by
  cases hdistinct with
  | object hkeys hvalues =>
  obtain ⟨hkey, -⟩ := nodup_cons.mp hkeys
  obtain ⟨first, rest, hfirst, hrest, hfields, hors⟩ := parseObject_cons h
  refine ⟨first, rest, hfirst, hrest, fun event => ?_⟩
  unfold EventPattern.matches matchPatternFields
  rw [hfields, hors, matchAll_append]
  by_cases hor : key = "$or"
  · subst hor
    obtain ⟨items, -, -, hnone⟩ := parseObject_or hfirst
    rw [orConditions_nil hrest hkey, append_nil, hnone]
    simp only [matchAll, isEmpty_nil, Bool.true_or, Bool.and_true, Bool.true_and]
    exact Bool.and_comm _ _
  · obtain ⟨node, -, rfl⟩ := parseObject_field hor hfirst
    simp only [nil_append, isEmpty_nil, Bool.true_or, Bool.and_true, Bool.and_assoc]

/-! ## Absence -/

/-- What the engine checks when the object of a nested pattern is absent. -/
def EventPattern.isExistsFalse (pattern : EventPattern Net) : Bool :=
  allFieldsAreExistsFalse pattern.fields && pattern.orConditions.isEmpty

theorem allFieldsAreExistsFalse_append (fields fields' : List (FieldMatcher Net)) :
    allFieldsAreExistsFalse (fields ++ fields') =
      (allFieldsAreExistsFalse fields && allFieldsAreExistsFalse fields') := by
  induction fields with
  | nil => rfl
  | cons matcher fields ih =>
      rw [cons_append, allFieldsAreExistsFalse, allFieldsAreExistsFalse, ih, Bool.and_assoc]

theorem isExistsFalse_cons {key : String} {value : Value} {p : List (String × Value)}
    {pattern : EventPattern Net} (h : parseObject host ((key, value) :: p) = .ok pattern) :
    ∃ first rest, parseObject host [(key, value)] = .ok first ∧ parseObject host p = .ok rest ∧
      pattern.isExistsFalse = (first.isExistsFalse && rest.isExistsFalse) := by
  obtain ⟨first, rest, hfirst, hrest, hfields, hors⟩ := parseObject_cons h
  have hempty : (first.orConditions ++ rest.orConditions).isEmpty =
      (first.orConditions.isEmpty && rest.orConditions.isEmpty) := by
    cases first.orConditions <;> rfl
  refine ⟨first, rest, hfirst, hrest, ?_⟩
  unfold EventPattern.isExistsFalse
  rw [hfields, hors, allFieldsAreExistsFalse_append, hempty]
  ac_rfl

theorem leaf_isExistsFalse {arr : List Value} {conditions : List (MatchCondition Net)}
    (h : parseConditions host arr = .ok conditions) :
    nodeIsExistsFalse (.leaf conditions) = true ↔ arr = [existsFalse] := by
  constructor
  · intro hleaf
    have hconditions : conditions = [.exists false] := by
      unfold nodeIsExistsFalse at hleaf
      split at hleaf
      · next heq =>
          cases heq
          rfl
      · cases hleaf
      · next heq => cases heq
    subst hconditions
    cases arr with
    | nil => cases h
    | cons value arr =>
        unfold parseConditions at h
        rw [mapM_cons] at h
        obtain ⟨c, hc, h⟩ := Except.bind_eq_ok.mp h
        obtain ⟨rest, hrest, h⟩ := Except.bind_eq_ok.mp h
        cases h
        obtain rfl := parseSingleCondition_exists.mp hc
        cases arr with
        | nil => rfl
        | cons value' arr =>
            rw [mapM_cons] at hrest
            obtain ⟨c, -, hrest⟩ := Except.bind_eq_ok.mp hrest
            obtain ⟨rest, -, hrest⟩ := Except.bind_eq_ok.mp hrest
            cases hrest
  · rintro rfl
    cases h
    rfl

mutual

/-- The check on the parsed pattern is the one on its JSON. -/
theorem isExistsFalse_iff : ∀ (p : List (String × Value)) {pattern : EventPattern Net},
    parseObject host p = .ok pattern →
      (pattern.isExistsFalse = true ↔ ∀ field ∈ p, AsksAbsence field.1 field.2)
  | [], pattern, h => by
      cases h
      exact iff_of_true rfl fun _ hfield => by cases hfield
  | (key, value) :: p, pattern, h => by
      obtain ⟨first, rest, hfirst, hrest, heq⟩ := isExistsFalse_cons h
      rw [heq, Bool.and_eq_true, forall_mem_cons, isExistsFalse_iff p hrest,
        member_isExistsFalse_iff key value hfirst]

theorem member_isExistsFalse_iff (key : String) : ∀ (value : Value) {first : EventPattern Net},
    parseObject host [(key, value)] = .ok first →
      (first.isExistsFalse = true ↔ AsksAbsence key value)
  | value, first, h => by
      by_cases hor : key = "$or"
      · subst hor
        obtain ⟨items, rfl, hitems, hnone⟩ := parseObject_or h
        unfold EventPattern.isExistsFalse
        rw [hnone, orConditions_isEmpty hitems]
        cases items with
        | nil => exact iff_of_true rfl .noBranch
        | cons item items =>
            refine iff_of_false Bool.false_ne_true fun hasks => ?_
            cases hasks with
            | leaf hkey => exact hkey rfl
      · obtain ⟨node, hnode, rfl⟩ := parseObject_field hor h
        have hsingle : EventPattern.isExistsFalse ⟨[.mk [key] node], []⟩ =
            nodeIsExistsFalse node := by
          unfold EventPattern.isExistsFalse
          simp only [allFieldsAreExistsFalse, fieldIsExistsFalse, isEmpty_nil, Bool.and_true]
        rw [hsingle]
        match value, hnode with
        | .array arr, hnode =>
            obtain ⟨conditions, hconditions, rfl⟩ := parseNode_array hnode
            rw [leaf_isExistsFalse hconditions]
            constructor
            · rintro rfl
              exact .leaf hor
            · intro hasks
              cases hasks with
              | leaf _ => rfl
              | noBranch => exact absurd rfl hor
        | .object p, hnode =>
            obtain ⟨sub, hsub, rfl⟩ := parseNode_object hnode
            refine (isExistsFalse_iff p hsub).trans ⟨.nested hor, fun hasks => ?_⟩
            cases hasks with
            | nested _ h => exact h

end

/-! ## Parsed patterns and their meaning -/

theorem bothRight_iff {a a' m m' : Bool} {right right' : Prop} (h : a = m ↔ right)
    (h' : a' = m' ↔ right') : (a && a') = (m && m') ↔ BothRight m m' right right' := by
  unfold BothRight
  rw [← h, ← h']
  cases a <;> cases a' <;> cases m <;> cases m' <;> decide

theorem eitherRight_iff {a a' m m' : Bool} {right right' : Prop} (h : a = m ↔ right)
    (h' : a' = m' ↔ right') : (a || a') = (m || m') ↔ EitherRight m m' right right' := by
  unfold EitherRight
  rw [← h, ← h']
  cases a <;> cases a' <;> cases m <;> cases m' <;> decide

theorem field_matches {key : String} {node : PatternNode Net} (event : Value) :
    EventPattern.matches host ⟨[.mk [key] node], []⟩ event =
      matchNode host node (event.get key) := by
  unfold EventPattern.matches matchPatternFields
  simp only [matchAll, matchField, navigatePath, isEmpty_nil, Bool.true_or, Bool.and_true]
  cases event.get key <;> rfl

theorem means_cons (key : String) (value : Value) (p : List (String × Value)) (event : Value) :
    means host ((key, value) :: p) event =
      (means host [(key, value)] event && means host p event) := by
  simp only [means, Bool.and_true]

mutual

theorem object_straight : ∀ (p : List (String × Value)) {pattern : EventPattern Net},
    (Value.object p).Distinct → parseObject host p = .ok pattern → ∀ event,
      (pattern.matches host event = means host p event ↔ Straight host p event)
  | [], pattern, _, h, event => by
      cases h
      exact iff_of_true rfl trivial
  | (key, value) :: p, pattern, hdistinct, h, event => by
      obtain ⟨first, rest, hfirst, hrest, heq⟩ := matches_cons h hdistinct
      have hvalue : value.Distinct := by
        cases hdistinct with
        | object _ hvalues => exact hvalues _ (.head _)
      rw [heq, means_cons, Straight]
      exact bothRight_iff (member_straight key value hvalue hfirst event)
        (object_straight p hdistinct.tail hrest event)

theorem member_straight (key : String) : ∀ (value : Value) {first : EventPattern Net},
    value.Distinct → parseObject host [(key, value)] = .ok first → ∀ event,
      (first.matches host event = means host [(key, value)] event ↔
        if key = "$or" then orStraight host value event
        else fieldStraight host value (event.get key))
  | .array arr, first, hdistinct, h, event => by
      rw [means, means, Bool.and_true]
      by_cases hor : key = "$or"
      · subst hor
        obtain ⟨items, heq, hitems, hnone⟩ := parseObject_or h
        obtain rfl : arr = items := Value.array.inj heq
        rw [if_pos rfl, if_pos rfl]
        unfold EventPattern.matches matchPatternFields
        rw [hnone, orConditions_isEmpty hitems]
        have hall : ∀ branch ∈ arr, branch.Distinct := by
          cases hdistinct with
          | array hall => exact hall
        have hbranches := branches_straight arr hall hitems event
        cases arr with
        | nil => exact iff_of_false (fun h => by cases h) fun h => h.1 rfl
        | cons item items => exact hbranches.trans (and_iff_right (cons_ne_nil _ _)).symm
      · obtain ⟨node, hnode, rfl⟩ := parseObject_field hor h
        obtain ⟨conditions, hconditions, rfl⟩ := parseNode_array hnode
        rw [if_neg hor, if_neg hor, field_matches]
        exact iff_of_true (leaf_means hconditions _) trivial
  | .object p, first, hdistinct, h, event => by
      have hor : key ≠ "$or" := by
        rintro rfl
        obtain ⟨items, heq, -⟩ := parseObject_or h
        cases heq
      obtain ⟨node, hnode, rfl⟩ := parseObject_field hor h
      obtain ⟨sub, hsub, rfl⟩ := parseNode_object hnode
      rw [means, means, Bool.and_true, if_neg hor, if_neg hor, field_matches]
      cases hget : event.get key with
      | none =>
          change sub.isExistsFalse = means host p (.object []) ↔ _
          rw [Bool.eq_iff_iff, isExistsFalse_iff p hsub]
          rfl
      | some nested => exact object_straight p hdistinct hsub nested
  | .null, _, _, h, _ | .bool _, _, _, h, _ | .number _, _, _, h, _ | .string _, _, _, h, _ => by
      rw [parseObject] at h
      split at h
      · cases h
      · cases h

theorem branches_straight : ∀ (items : List Value) {orConditions : List (List (FieldMatcher Net))},
    (∀ item ∈ items, item.Distinct) → parseOrItems host items = .ok orConditions → ∀ event,
      (matchAny host orConditions event = anyMeans host items event ↔
        anyStraight host items event)
  | [], _, _, h, event => by
      cases h
      exact iff_of_true rfl trivial
  | .object obj :: items, _, hdistinct, h, event => by
      obtain ⟨obj', subPattern, rest, heq, hsub, hrest, rfl⟩ := parseOrItems_cons h
      obtain rfl : obj = obj' := Value.object.inj heq
      obtain ⟨hobj, hitems⟩ := forall_mem_cons.mp hdistinct
      rw [matchAny_append, matchAny_branches, anyMeans, anyStraight]
      exact eitherRight_iff (object_straight obj hobj hsub event)
        (branches_straight items hitems hrest event)
  | .null :: _, _, _, h, _ | .bool _ :: _, _, _, h, _ | .number _ :: _, _, _, h, _
  | .string _ :: _, _, _, h, _ | .array _ :: _, _, _, h, _ => by cases h

end

/-- A parsed pattern answers for an event what its JSON means exactly where no error shows. -/
theorem matches_means_iff (host : Host Net) (fromStr : String → Except String Json)
    (patternJson : String) {json : Json} {p : List (String × Value)} {pattern : EventPattern Net}
    (hjson : fromStr patternJson = .ok json) (hobject : json.value = .object p)
    (hparse : parseEventPattern host fromStr patternJson = .ok pattern) (event : Value) :
    pattern.matches host event = means host p event ↔ Straight host p event := by
  have haccepted : parseObject host p = .ok pattern := by
    unfold parseEventPattern at hparse
    rw [hjson] at hparse
    dsimp only at hparse
    rw [hobject] at hparse
    exact hparse
  exact object_straight p (hobject ▸ json.distinct) haccepted event

/-! ## Patterns with and without their meaning -/

/-- A host without address blocks. -/
def plainHost : Host Unit where
  parseNet := fun _ => .error "invalid IP address syntax"
  contains := fun _ _ => false
  toLowercase := String.toLower

def myApp : Value := .object [("source", .string "my.app")]

/-- The detail of an event has no field `sub`, or its field `sub` is `x`. -/
def textOrAbsent : String × Value :=
  ("detail", .object [("sub", .array [.string "x", existsFalse])])

theorem Value.Distinct.single {key : String} {value : Value} (h : value.Distinct) :
    (Value.object [(key, value)]).Distinct := by
  refine .object (pairwise_singleton _ _) fun field hfield => ?_
  obtain rfl := mem_singleton.mp hfield
  exact h

theorem textOrAbsent_distinct : textOrAbsent.2.Distinct := by
  refine .single (.array fun condition hcondition => ?_)
  rcases mem_cons.mp hcondition with rfl | hcondition
  · exact .string "x"
  · obtain rfl := mem_singleton.mp hcondition
    exact .single (.bool false)

def textOrAbsentSub : Json where
  value := .object [textOrAbsent]
  distinct := .single textOrAbsent_distinct

def emptyOr : Json where
  value := .object [("$or", .array [])]
  distinct := .single (.array fun _ hvalue => by cases hvalue)

/-- The answer of a pattern whose text is parsed to a JSON value. -/
def answer (json : Json) (event : Value) : Except PatternParseError Bool :=
  (parseEventPattern plainHost (fun _ => .ok json) "").map fun pattern =>
    pattern.matches plainHost event

/-- An event without the detail meets a pattern whose field may be absent, but the parsed pattern
does not match; an event meets no empty `$or`, but the parsed pattern matches. -/
theorem textOrAbsentSub_differs :
    (answer textOrAbsentSub myApp = .ok false ∧ means plainHost [textOrAbsent] myApp = true) ∧
    answer emptyOr myApp = .ok true ∧ means plainHost [("$or", .array [])] myApp = false :=
  ⟨⟨rfl, rfl⟩, rfl, rfl⟩

/-- A pattern for an account, and for the detail. -/
def accountToo : Json where
  value := .object [("account", .array [.string "1"]), textOrAbsent]
  distinct := by
    refine .object (by decide) fun field hfield => ?_
    rcases List.mem_cons.mp hfield with rfl | hfield
    · refine .array fun condition hcondition => ?_
      obtain rfl := List.mem_singleton.mp hcondition
      exact .string "1"
    · obtain rfl := List.mem_singleton.mp hfield
      exact textOrAbsent_distinct

/-- The wrong answer for the detail does not show for an event of no account. -/
theorem matches_means_iff_accountToo : ∃ pattern p, accountToo.value = .object p ∧
    parseEventPattern plainHost (fun _ => .ok accountToo) "" = .ok pattern ∧
      pattern.matches plainHost myApp = means plainHost p myApp :=
  ⟨_, _, rfl, rfl, (matches_means_iff plainHost (fun _ => .ok accountToo) "" rfl rfl rfl myApp).mpr
    (Or.inl (iff_of_true trivial rfl))⟩

end Rustack.Events
