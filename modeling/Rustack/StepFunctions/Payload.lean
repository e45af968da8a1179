import Mathlib.Algebra.Order.Ring.Int
import Mathlib.Data.List.Nodup
import Mathlib.Data.List.Perm.Basic
import Mathlib.Data.String.Basic
import Rustack.Lib.Outcome
import Rustack.StepFunctions.Json

/-!
# The two validators of payloads

A value that the engine has built is checked on a stack of what is left to visit.  The bytes of a
payload are checked before a value is built of them: first the lengths of the strings in them, then
their syntax by a visitor.  The library that builds the value takes an object whose first key is a
certain token for a text to be read in its place, which no validator has seen.
-/

namespace Rustack.StepFunctions

open List Payload
open Except (bind_eq_ok)

namespace Value

/-! ## What is counted -/

mutual

/-- The levels of containers. -/
def levels : Value → ℕ
  | array values => levelsValues values + 1
  | object fields => levelsFields fields + 1
  | _ => 0
termination_by structural value => value

def levelsValues : List Value → ℕ
  | [] => 0
  | value :: values => max value.levels (levelsValues values)
termination_by structural values => values

def levelsFields : List (String × Value) → ℕ
  | [] => 0
  | field :: fields => max (levelsField field) (levelsFields fields)
termination_by structural fields => fields

def levelsField : String × Value → ℕ
  | (_, value) => value.levels
termination_by structural field => field

end

mutual

/-- The elements of all arrays and the members of all objects. -/
def members : Value → ℕ
  | array values => values.length + membersValues values
  | object fields => fields.length + membersFields fields
  | _ => 0
termination_by structural value => value

def membersValues : List Value → ℕ
  | [] => 0
  | value :: values => value.members + membersValues values
termination_by structural values => values

def membersFields : List (String × Value) → ℕ
  | [] => 0
  | field :: fields => membersField field + membersFields fields
termination_by structural fields => fields

def membersField : String × Value → ℕ
  | (_, value) => value.members
termination_by structural field => field

end

mutual

/-- No string and no key is too long. -/
def Short : Value → Prop
  | array values => ShortValues values
  | object fields => ShortFields fields
  | string text => text.utf8ByteSize ≤ MAX_PAYLOAD_BYTES
  | _ => True
termination_by structural value => value

def ShortValues : List Value → Prop
  | [] => True
  | value :: values => value.Short ∧ ShortValues values
termination_by structural values => values

def ShortFields : List (String × Value) → Prop
  | [] => True
  | field :: fields => ShortField field ∧ ShortFields fields
termination_by structural fields => fields

def ShortField : String × Value → Prop
  | (key, value) => key.utf8ByteSize ≤ MAX_PAYLOAD_BYTES ∧ value.Short
termination_by structural field => field

end

/-- `Map::values`. -/
def valuesOf (fields : List (String × Value)) : List Value := fields.map Prod.snd

theorem levelsFields_eq (fields : List (String × Value)) :
    levelsFields fields = levelsValues (valuesOf fields) := by
  induction fields with
  | nil => rfl
  | cons field fields ih =>
      obtain ⟨key, value⟩ := field
      exact congrArg (max value.levels) ih

theorem membersFields_eq (fields : List (String × Value)) :
    membersFields fields = membersValues (valuesOf fields) := by
  induction fields with
  | nil => rfl
  | cons field fields ih =>
      obtain ⟨key, value⟩ := field
      exact congrArg (value.members + ·) ih

theorem shortFields_iff (fields : List (String × Value)) : ShortFields fields ↔
    (∀ field ∈ fields, field.1.utf8ByteSize ≤ MAX_PAYLOAD_BYTES) ∧
      ShortValues (valuesOf fields) := by
  induction fields with
  | nil => exact iff_of_true trivial ⟨fun _ h => (by cases h), trivial⟩
  | cons field fields ih =>
      obtain ⟨key, value⟩ := field
      rw [forall_mem_cons]
      change (_ ∧ value.Short) ∧ ShortFields fields ↔ _ ∧ value.Short ∧ ShortValues _
      rw [ih]
      tauto

/-- An induction over the values of containers. -/
theorem induct {p : Value → Prop} (hnull : p null) (hbool : ∀ b, p (bool b))
    (hnumber : ∀ n, p (number n)) (hstring : ∀ text, p (string text))
    (harray : ∀ values, (∀ value ∈ values, p value) → p (array values))
    (hobject : ∀ fields, (∀ value ∈ valuesOf fields, p value) → p (object fields)) :
    ∀ value, p value
  | null => hnull
  | bool b => hbool b
  | number n => hnumber n
  | string text => hstring text
  | array values => harray values fun value _hvalue =>
      induct hnull hbool hnumber hstring harray hobject value
  | object fields => hobject fields fun value _hvalue =>
      induct hnull hbool hnumber hstring harray hobject value
termination_by value => sizeOf value
decreasing_by
  · have hlt := sizeOf_lt_of_mem _hvalue
    simp only [array.sizeOf_spec]
    omega
  · obtain ⟨field, hfield, rfl⟩ := mem_map.mp _hvalue
    have hlt := sizeOf_lt_of_mem hfield
    obtain ⟨key, value⟩ := field
    simp only [object.sizeOf_spec, Prod.mk.sizeOf_spec] at hlt ⊢
    omega

/-- A value that stands at some depth is within limits. -/
structure Fits (value : Value) (maxDepth depth members : ℕ) : Prop where
  levels : depth + value.levels ≤ maxDepth
  members : value.members ≤ members
  short : value.Short

/-- Values that stand side by side are within limits. -/
structure FitAll (values : List Value) (maxDepth depth members : ℕ) : Prop where
  levels : depth + levelsValues values ≤ maxDepth
  members : membersValues values ≤ members
  short : ShortValues values

/-! ## The check of a built value -/

theorem checkString_eq_ok {text : String} :
    checkString text = .ok () ↔ text.utf8ByteSize ≤ MAX_PAYLOAD_BYTES := by
  unfold checkString
  split_ifs with hlong
  · exact iff_of_false (by rintro ⟨⟩) (by omega)
  · exact iff_of_true rfl (by omega)

theorem checkContainer_eq_ok {depth length remaining maxDepth r : ℕ} :
    checkContainer depth length remaining maxDepth = .ok r ↔
      depth < maxDepth ∧ length ≤ remaining ∧ r = remaining - length := by
  unfold checkContainer
  split_ifs with hdepth hmembers
  · exact iff_of_false (by rintro ⟨⟩) (by omega)
  · exact iff_of_false (by rintro ⟨⟩) (by omega)
  · rw [Except.ok.injEq]
    omega

/-- What a stack of values costs, each at its depth. -/
def checkStack (maxDepth : ℕ) (stack : List (Value × ℕ)) (remaining : ℕ) : Except AslError ℕ :=
  stack.foldlM (fun remaining entry => entry.1.check maxDepth entry.2 remaining) remaining

theorem checkStack_append (maxDepth : ℕ) (stack stack' : List (Value × ℕ)) (remaining : ℕ) :
    checkStack maxDepth (stack ++ stack') remaining =
      (checkStack maxDepth stack remaining).bind (checkStack maxDepth stack') :=
  foldlM_append

theorem checkStack_cons (maxDepth depth : ℕ) (value : Value) (stack : List (Value × ℕ))
    (remaining : ℕ) : checkStack maxDepth ((value, depth) :: stack) remaining =
      (value.check maxDepth depth remaining).bind (checkStack maxDepth stack) :=
  rfl

/-- Values as they lie on the stack, the last one on top. -/
def pushed (depth : ℕ) (values : List Value) : List (Value × ℕ) :=
  values.reverse.map fun value => (value, depth)

theorem pushed_cons (depth : ℕ) (value : Value) (values : List Value) :
    pushed depth (value :: values) = pushed depth values ++ [(value, depth)] := by
  rw [pushed, reverse_cons, map_append]
  rfl

theorem checkValues_eq (maxDepth depth : ℕ) (values : List Value) (remaining : ℕ) :
    checkValues maxDepth depth values remaining =
      checkStack maxDepth (pushed depth values) remaining := by
  induction values generalizing remaining with
  | nil => rfl
  | cons value values ih =>
      rw [pushed_cons, checkStack_append, ← ih]
      exact congrArg _ (funext fun r => (bind_pure (value.check maxDepth depth r)).symm)

theorem checkFields_eq (maxDepth depth : ℕ) (fields : List (String × Value)) (remaining : ℕ) :
    checkFields maxDepth depth fields remaining =
      checkStack maxDepth (pushed depth (valuesOf fields)) remaining := by
  induction fields generalizing remaining with
  | nil => rfl
  | cons field fields ih =>
      obtain ⟨key, value⟩ := field
      rw [valuesOf, map_cons, pushed_cons, checkStack_append, ← valuesOf, ← ih]
      exact congrArg _ (funext fun r => (bind_pure (value.check maxDepth depth r)).symm)

/-- What a stack has left to visit. -/
def weight (stack : List (Value × ℕ)) : ℕ := (stack.map fun entry => entry.1.members + 1).sum

theorem weight_cons (value : Value) (depth : ℕ) (stack : List (Value × ℕ)) :
    weight ((value, depth) :: stack) = value.members + 1 + weight stack :=
  rfl

theorem weight_append (stack stack' : List (Value × ℕ)) :
    weight (stack ++ stack') = weight stack + weight stack' := by
  rw [weight, map_append, sum_append]
  rfl

theorem weight_pushed (depth : ℕ) (values : List Value) :
    weight (pushed depth values) = values.length + membersValues values := by
  induction values with
  | nil => rfl
  | cons value values ih =>
      rw [pushed_cons, weight_append, weight_cons, ih, membersValues, length_cons]
      change _ + (value.members + 1 + 0) = _
      omega

/-- The loop of the check.  What was pushed last is visited first. -/
def validateStack (maxDepth : ℕ) : List (Value × ℕ) → ℕ → Except AslError Unit
  | [], _ => .ok ()
  | (array values, depth) :: stack, remaining => do
    let remaining ← checkContainer depth values.length remaining maxDepth
    validateStack maxDepth (pushed (depth + 1) values ++ stack) remaining
  | (object fields, depth) :: stack, remaining => do
    let remaining ← checkContainer depth fields.length remaining maxDepth
    fields.forM fun field => checkString field.1
    validateStack maxDepth (pushed (depth + 1) (valuesOf fields) ++ stack) remaining
  | (string text, _) :: stack, remaining => do
    checkString text
    validateStack maxDepth stack remaining
  | (null, _) :: stack, remaining => validateStack maxDepth stack remaining
  | (bool _, _) :: stack, remaining => validateStack maxDepth stack remaining
  | (number _, _) :: stack, remaining => validateStack maxDepth stack remaining
termination_by stack => weight stack
decreasing_by
  · rw [weight_append, weight_pushed, weight_cons, members]
    omega
  · rw [weight_append, weight_pushed, ← membersFields_eq, valuesOf, List.length_map, weight_cons,
      members]
    omega
  all_goals
    rw [weight_cons]
    omega

/-- The loop does what the recursion over the value does. -/
theorem validateStack_eq (maxDepth : ℕ) (stack : List (Value × ℕ)) (remaining : ℕ) :
    validateStack maxDepth stack remaining =
      (checkStack maxDepth stack remaining).map fun _ => () := by
  fun_induction validateStack maxDepth stack remaining with
  | case1 => rfl
  | case2 values depth stack remaining ih =>
      rw [checkStack_cons, check]
      cases checkContainer depth values.length remaining maxDepth with
      | error e => rfl
      | ok r =>
          refine (ih r).trans ?_
          rw [checkStack_append, ← checkValues_eq]
          rfl
  | case3 fields depth stack remaining ih =>
      rw [checkStack_cons, check]
      cases checkContainer depth fields.length remaining maxDepth with
      | error e => rfl
      | ok r =>
          change ((fields.forM fun field => checkString field.1).bind fun _ =>
            validateStack maxDepth (pushed (depth + 1) (valuesOf fields) ++ stack) r) =
              (((fields.forM fun field => checkString field.1).bind fun _ =>
                checkFields maxDepth (depth + 1) fields r).bind (checkStack maxDepth stack)).map _
          cases fields.forM fun field => checkString field.1 with
          | error e => rfl
          | ok u =>
              refine (ih r).trans ?_
              rw [checkStack_append, ← checkFields_eq]
              rfl
  | case4 text depth stack remaining ih =>
      rw [checkStack_cons, check]
      cases checkString text with
      | error e => rfl
      | ok u => exact ih
  | case5 depth stack remaining ih => exact ih
  | case6 b depth stack remaining ih => exact ih
  | case7 n depth stack remaining ih => exact ih

/-- The check of a built value. -/
def validateValue (value : Value) (limits : TreeLimits) : Except AslError Unit :=
  validateStack limits.depth [(value, 0)] limits.members

theorem validateValue_eq (value : Value) (limits : TreeLimits) :
    value.validateValue limits = value.validate limits := by
  rw [validateValue, validateStack_eq, checkStack_cons, validate]
  cases value.check limits.depth 0 limits.members <;> rfl

theorem forM_checkString (fields : List (String × Value)) :
    (fields.forM fun field => checkString field.1) = .ok () ↔
      ∀ field ∈ fields, field.1.utf8ByteSize ≤ MAX_PAYLOAD_BYTES := by
  induction fields with
  | nil => exact iff_of_true rfl fun _ h => (by cases h)
  | cons field fields ih =>
      change (checkString field.1 >>= fun _ => fields.forM fun field => checkString field.1) =
        .ok () ↔ _
      rw [bind_eq_ok, forall_mem_cons, ← checkString_eq_ok]
      exact ⟨fun ⟨_, hfirst, hrest⟩ => ⟨hfirst, ih.mp hrest⟩,
        fun ⟨hfirst, hrest⟩ => ⟨(), hfirst, ih.mpr hrest⟩⟩

/-- The check of a value goes through exactly within the limits. -/
def Checks (value : Value) : Prop :=
  ∀ maxDepth depth, depth ≤ maxDepth → ∀ remaining r,
    value.check maxDepth depth remaining = .ok r ↔
      value.Fits maxDepth depth remaining ∧ r = remaining - value.members

theorem checkStack_pushed {values : List Value} (h : ∀ value ∈ values, value.Checks)
    {maxDepth depth : ℕ} (hdepth : depth ≤ maxDepth) (remaining r : ℕ) :
    checkStack maxDepth (pushed depth values) remaining = .ok r ↔
      FitAll values maxDepth depth remaining ∧ r = remaining - membersValues values := by
  induction values generalizing r with
  | nil =>
      refine Iff.trans (b := remaining = r) ⟨Except.ok.inj, congrArg _⟩ ?_
      exact ⟨fun h => ⟨⟨hdepth, Nat.zero_le _, trivial⟩, h.symm⟩, fun h => h.2.symm⟩
  | cons value values ih =>
      obtain ⟨hvalue, hvalues⟩ := forall_mem_cons.mp h
      rw [pushed_cons, checkStack_append]
      refine bind_eq_ok.trans ?_
      constructor
      · rintro ⟨s, hs, hr⟩
        obtain ⟨hfit, rfl⟩ := (ih hvalues s).mp hs
        obtain ⟨t, ht, hdone⟩ := bind_eq_ok.mp hr
        cases hdone
        obtain ⟨hone, rfl⟩ := (hvalue maxDepth depth hdepth _ _).mp ht
        have hleft := hone.members
        have hright := hfit.members
        refine ⟨⟨?_, ?_, hone.short, hfit.short⟩, ?_⟩
        · have hlevels := hone.levels
          have hlevels' := hfit.levels
          rw [levelsValues]
          omega
        · rw [membersValues]
          omega
        · rw [membersValues]
          omega
      · rintro ⟨hfit, rfl⟩
        obtain ⟨hlevels, hmembers, hshort⟩ := hfit
        rw [levelsValues] at hlevels
        rw [membersValues] at hmembers ⊢
        refine ⟨_, (ih hvalues _).mpr ⟨⟨by omega, by omega, hshort.2⟩, rfl⟩, ?_⟩
        refine bind_eq_ok.mpr
          ⟨_, (hvalue maxDepth depth hdepth _ _).mpr ⟨⟨by omega, by omega, hshort.1⟩, rfl⟩, ?_⟩
        rw [Nat.sub_sub, Nat.add_comm]
        rfl

theorem checks (value : Value) : value.Checks := by
  have hscalar : ∀ value : Value, value.levels = 0 → value.members = 0 → value.Short →
      (∀ maxDepth depth remaining, value.check maxDepth depth remaining = .ok remaining) →
        value.Checks := by
    intro value hlevels hmembers hshort hcheck maxDepth depth hdepth remaining r
    rw [hcheck, hmembers]
    exact ⟨fun h => ⟨⟨by omega, by omega, hshort⟩, (Except.ok.inj h).symm⟩,
      fun h => congrArg _ h.2.symm⟩
  induction value using induct with
  | hnull | hbool | hnumber => exact hscalar _ rfl rfl trivial fun _ _ _ => rfl
  | hstring text =>
      intro maxDepth depth hdepth remaining r
      rw [check, bind_eq_ok]
      constructor
      · rintro ⟨_, hshort, hdone⟩
        exact ⟨⟨hdepth, Nat.zero_le _, checkString_eq_ok.mp hshort⟩, (Except.ok.inj hdone).symm⟩
      · rintro ⟨hfits, rfl⟩
        exact ⟨(), checkString_eq_ok.mpr hfits.short, rfl⟩
  | harray values ih =>
      intro maxDepth depth hdepth remaining r
      rw [check, bind_eq_ok]
      constructor
      · rintro ⟨s, hs, hr⟩
        obtain ⟨hlt, hlength, rfl⟩ := checkContainer_eq_ok.mp hs
        rw [checkValues_eq, checkStack_pushed ih hlt] at hr
        obtain ⟨⟨hlevels, hmembers, hshort⟩, rfl⟩ := hr
        exact ⟨⟨by rw [levels]; omega, by rw [members]; omega, hshort⟩, by rw [members]; omega⟩
      · rintro ⟨⟨hlevels, hmembers, hshort⟩, rfl⟩
        rw [levels] at hlevels
        rw [members] at hmembers ⊢
        refine ⟨_, checkContainer_eq_ok.mpr ⟨by omega, by omega, rfl⟩, ?_⟩
        rw [checkValues_eq, checkStack_pushed ih (by omega)]
        exact ⟨⟨by omega, by omega, hshort⟩, by omega⟩
  | hobject fields ih =>
      intro maxDepth depth hdepth remaining r
      have hlevelsEq := levelsFields_eq fields
      have hmembersEq := membersFields_eq fields
      rw [check, bind_eq_ok]
      constructor
      · rintro ⟨s, hs, hr⟩
        obtain ⟨hlt, hlength, rfl⟩ := checkContainer_eq_ok.mp hs
        obtain ⟨_, hkeys, hr⟩ := bind_eq_ok.mp hr
        rw [checkFields_eq, checkStack_pushed ih hlt] at hr
        obtain ⟨⟨hlevels, hmembers, hshort⟩, rfl⟩ := hr
        exact ⟨⟨by rw [levels]; omega, by rw [members]; omega,
          (shortFields_iff fields).mpr ⟨(forM_checkString fields).mp hkeys, hshort⟩⟩,
          by rw [members]; omega⟩
      · rintro ⟨⟨hlevels, hmembers, hshort⟩, rfl⟩
        rw [levels] at hlevels
        rw [members] at hmembers ⊢
        obtain ⟨hkeys, hvalues⟩ := (shortFields_iff fields).mp hshort
        refine ⟨_, checkContainer_eq_ok.mpr ⟨by omega, by omega, rfl⟩,
          bind_eq_ok.mpr ⟨(), (forM_checkString fields).mpr hkeys, ?_⟩⟩
        rw [checkFields_eq, checkStack_pushed ih (by omega)]
        exact ⟨⟨by omega, by omega, hvalues⟩, by omega⟩

/-- The loop and the recursion stop at the same fault, and what they let through is all that is
within the limits. -/
theorem validateValue_spec (value : Value) (limits : TreeLimits) :
    value.validateValue limits = value.validate limits ∧
      (value.validateValue limits = .ok () ↔ value.Fits limits.depth 0 limits.members) := by
  have hchecks := value.checks limits.depth 0 (Nat.zero_le _) limits.members
  refine ⟨value.validateValue_eq limits, ?_⟩
  rw [validateValue_eq, validate]
  cases hcheck : value.check limits.depth 0 limits.members with
  | error e =>
      rw [hcheck] at hchecks
      refine iff_of_false (by rintro ⟨⟩) fun hfits => ?_
      cases (hchecks _).mpr ⟨hfits, rfl⟩
  | ok r => exact iff_of_true rfl ((hchecks r).mp hcheck).1

end Value

structure JsonLimits where
  bytes : ℕ
  depth : ℕ
  members : ℕ
  stringBytes : ℕ
  keyBytes : ℕ

/-- The limits that a payload's bytes are read with. -/
def BYTE_LIMITS : JsonLimits :=
  ⟨MAX_PAYLOAD_BYTES, 64, 65536, MAX_PAYLOAD_BYTES, MAX_PAYLOAD_BYTES⟩

namespace Value

mutual

/-- The visitor.  The members of an object come as the text has them, with the keys seen so far. -/
def visit (limits : JsonLimits) (depth : ℕ) : Value → ℕ → Except JsonError ℕ
  | array values, remaining =>
    if limits.depth ≤ depth then .error .depth
    else visitElements limits (depth + 1) values remaining
  | object fields, remaining =>
    if limits.depth ≤ depth then .error .depth
    else visitMembers limits (depth + 1) fields [] remaining
  | string text, remaining =>
    if limits.stringBytes < text.utf8ByteSize then .error .string else .ok remaining
  | _, remaining => .ok remaining
termination_by structural value => value

def visitElements (limits : JsonLimits) (depth : ℕ) : List Value → ℕ → Except JsonError ℕ
  | [], remaining => .ok remaining
  | value :: values, remaining =>
    if remaining = 0 then .error .members
    else do
      let remaining ← visit limits depth value (remaining - 1)
      visitElements limits depth values remaining
termination_by structural values => values

def visitMembers (limits : JsonLimits) (depth : ℕ) :
    List (String × Value) → List String → ℕ → Except JsonError ℕ
  | [], _, remaining => .ok remaining
  | field :: fields, keys, remaining =>
    if remaining = 0 then .error .members
    else if limits.keyBytes < field.1.utf8ByteSize then .error .key
    else if field.1 ∈ keys then .error .duplicate
    else do
      let remaining ← visitMember limits depth field (remaining - 1)
      visitMembers limits depth fields (field.1 :: keys) remaining
termination_by structural fields => fields

def visitMember (limits : JsonLimits) (depth : ℕ) :
    String × Value → ℕ → Except JsonError ℕ
  | (_, value), remaining => visit limits depth value remaining
termination_by structural field => field

end

/-- No object has a key twice. -/
inductive Unique : Value → Prop
  | null : Unique null
  | bool (b : Bool) : Unique (bool b)
  | number (n : Number) : Unique (number n)
  | string (text : String) : Unique (string text)
  | array {values : List Value} (h : ∀ value ∈ values, Unique value) : Unique (array values)
  | object {fields : List (String × Value)} (hkeys : (fields.map Prod.fst).Nodup)
      (h : ∀ value ∈ valuesOf fields, Unique value) : Unique (object fields)

/-- The visitor goes through exactly within the limits, where no object has a key twice. -/
def Visits (value : Value) : Prop :=
  ∀ depth, depth ≤ 64 → ∀ remaining r,
    value.visit BYTE_LIMITS depth remaining = .ok r ↔
      value.Fits 64 depth remaining ∧ value.Unique ∧ r = remaining - value.members

theorem visitElements_eq_ok {values : List Value} (h : ∀ value ∈ values, value.Visits)
    {depth : ℕ} (hdepth : depth ≤ 64) (remaining r : ℕ) :
    visitElements BYTE_LIMITS depth values remaining = .ok r ↔
      values.length ≤ remaining ∧ FitAll values 64 depth (remaining - values.length) ∧
        (∀ value ∈ values, value.Unique) ∧
          r = remaining - values.length - membersValues values := by
  induction values generalizing remaining with
  | nil =>
      refine Iff.trans (b := remaining = r) ⟨Except.ok.inj, congrArg _⟩ ?_
      exact ⟨fun h => ⟨Nat.zero_le _, ⟨hdepth, Nat.zero_le _, trivial⟩, fun _ h => (by cases h),
        h.symm⟩, fun h => h.2.2.2.symm⟩
  | cons value values ih =>
      obtain ⟨hvalue, hvalues⟩ := forall_mem_cons.mp h
      rw [visitElements, forall_mem_cons, length_cons]
      split_ifs with hzero
      · exact iff_of_false (by rintro ⟨⟩) fun h => absurd h.1 (by omega)
      · rw [bind_eq_ok]
        constructor
        · rintro ⟨s, hs, hr⟩
          obtain ⟨hone, hunique, rfl⟩ := (hvalue depth hdepth _ _).mp hs
          obtain ⟨hlength, hfit, huniques, rfl⟩ := (ih hvalues _).mp hr
          obtain ⟨hlevels, hmembers, hshort⟩ := hone
          obtain ⟨hlevels', hmembers', hshort'⟩ := hfit
          refine ⟨by omega, ⟨?_, ?_, hshort, hshort'⟩, ⟨hunique, huniques⟩, ?_⟩
          · rw [levelsValues]
            omega
          · rw [membersValues]
            omega
          · rw [membersValues]
            omega
        · rintro ⟨hlength, ⟨hlevels, hmembers, hshort⟩, ⟨hunique, huniques⟩, hr⟩
          rw [levelsValues] at hlevels
          rw [membersValues] at hmembers hr
          refine ⟨_, (hvalue depth hdepth _ _).mpr ⟨⟨by omega, by omega, hshort.1⟩, hunique, rfl⟩,
            (ih hvalues _).mpr ⟨by omega, ⟨by omega, by omega, hshort.2⟩, huniques, by omega⟩⟩

/-- Members are visited as elements are, and their keys are compared. -/
theorem visitMembers_eq_ok (fields : List (String × Value)) (depth : ℕ) (keys : List String)
    (hkeys : keys.Nodup) (remaining r : ℕ) :
    visitMembers BYTE_LIMITS depth fields keys remaining = .ok r ↔
      (fields.map Prod.fst ++ keys).Nodup ∧
        (∀ field ∈ fields, field.1.utf8ByteSize ≤ MAX_PAYLOAD_BYTES) ∧
          visitElements BYTE_LIMITS depth (valuesOf fields) remaining = .ok r := by
  induction fields generalizing keys remaining with
  | nil => exact ⟨fun h => ⟨hkeys, fun _ h => (by cases h), h⟩, fun h => h.2.2⟩
  | cons field fields ih =>
      obtain ⟨key, value⟩ := field
      rw [visitMembers, map_cons, cons_append, ← nodup_middle, forall_mem_cons]
      change _ ↔ _ ∧ (key.utf8ByteSize ≤ MAX_PAYLOAD_BYTES ∧ _) ∧
        visitElements BYTE_LIMITS depth (value :: valuesOf fields) remaining = .ok r
      rw [visitElements]
      split_ifs with hzero hlong hseen
      · exact iff_of_false (by rintro ⟨⟩) fun h => (by cases h.2.2)
      · exact iff_of_false (by rintro ⟨⟩) fun h => absurd h.2.1.1 (not_le.mpr hlong)
      · refine iff_of_false (by rintro ⟨⟩) fun h => ?_
        exact (nodup_cons.mp (nodup_append.mp h.1).2.1).1 hseen
      · have hkey : key.utf8ByteSize ≤ MAX_PAYLOAD_BYTES := not_lt.mp hlong
        rw [bind_eq_ok, bind_eq_ok]
        constructor
        · rintro ⟨s, hs, hr⟩
          obtain ⟨hnodup, hshort, hvisit⟩ := (ih (key :: keys) (nodup_cons.mpr
            ⟨hseen, hkeys⟩) s).mp hr
          exact ⟨hnodup, ⟨hkey, hshort⟩, s, hs, hvisit⟩
        · rintro ⟨hnodup, ⟨-, hshort⟩, s, hs, hvisit⟩
          exact ⟨s, hs, (ih (key :: keys) (nodup_cons.mpr ⟨hseen, hkeys⟩) s).mpr
            ⟨hnodup, hshort, hvisit⟩⟩

theorem visits (value : Value) : value.Visits := by
  have hscalar : ∀ value : Value, value.levels = 0 → value.members = 0 → value.Short →
      value.Unique → (∀ depth remaining, value.visit BYTE_LIMITS depth remaining =
        .ok remaining) → value.Visits := by
    intro value hlevels hmembers hshort hunique hvisit depth hdepth remaining r
    rw [hvisit, hmembers]
    exact ⟨fun h => ⟨⟨by omega, by omega, hshort⟩, hunique, (Except.ok.inj h).symm⟩,
      fun h => congrArg _ h.2.2.symm⟩
  induction value using induct with
  | hnull => exact hscalar _ rfl rfl trivial .null fun _ _ => rfl
  | hbool b => exact hscalar _ rfl rfl trivial (.bool b) fun _ _ => rfl
  | hnumber n => exact hscalar _ rfl rfl trivial (.number n) fun _ _ => rfl
  | hstring text =>
      intro depth hdepth remaining r
      rw [visit]
      change (if MAX_PAYLOAD_BYTES < text.utf8ByteSize then _ else _) = _ ↔ _
      split_ifs with hlong
      · exact iff_of_false (by rintro ⟨⟩) fun h => absurd h.1.short (not_le.mpr hlong)
      · exact ⟨fun h => ⟨⟨hdepth, Nat.zero_le _, not_lt.mp hlong⟩, .string text,
          (Except.ok.inj h).symm⟩, fun h => congrArg _ h.2.2.symm⟩
  | harray values ih =>
      intro depth hdepth remaining r
      rw [visit]
      change (if 64 ≤ depth then _ else _) = _ ↔ _
      split_ifs with hdeep
      · exact iff_of_false (by rintro ⟨⟩) fun h => absurd h.1.levels (by rw [levels]; omega)
      · rw [visitElements_eq_ok ih (by omega)]
        constructor
        · rintro ⟨hlength, ⟨hlevels, hmembers, hshort⟩, hunique, rfl⟩
          exact ⟨⟨by rw [levels]; omega, by rw [members]; omega, hshort⟩, .array hunique,
            by rw [members]; omega⟩
        · rintro ⟨⟨hlevels, hmembers, hshort⟩, hunique, hr⟩
          rw [levels] at hlevels
          rw [members] at hmembers hr
          cases hunique with
          | array hunique =>
              exact ⟨by omega, ⟨by omega, by omega, hshort⟩, hunique, by omega⟩
  | hobject fields ih =>
      intro depth hdepth remaining r
      have hlevelsEq := levelsFields_eq fields
      have hmembersEq := membersFields_eq fields
      have hlengthEq : (valuesOf fields).length = fields.length := length_map _
      rw [visit]
      change (if 64 ≤ depth then _ else _) = _ ↔ _
      split_ifs with hdeep
      · exact iff_of_false (by rintro ⟨⟩) fun h => absurd h.1.levels (by rw [levels]; omega)
      · rw [visitMembers_eq_ok fields _ [] nodup_nil, append_nil,
          visitElements_eq_ok ih (by omega)]
        constructor
        · rintro ⟨hkeys, hlong, hlength, ⟨hlevels, hmembers, hshort⟩, hunique, rfl⟩
          exact ⟨⟨by rw [levels]; omega, by rw [members]; omega,
            (shortFields_iff fields).mpr ⟨hlong, hshort⟩⟩, .object hkeys hunique,
            by rw [members]; omega⟩
        · rintro ⟨⟨hlevels, hmembers, hshort⟩, hunique, hr⟩
          rw [levels] at hlevels
          rw [members] at hmembers hr
          obtain ⟨hlong, hvalues⟩ := (shortFields_iff fields).mp hshort
          cases hunique with
          | object hkeys hunique =>
              exact ⟨hkeys, hlong, by omega, ⟨by omega, by omega, hvalues⟩, hunique, by omega⟩

/-! ## The value that is built -/

mutual

/-- The members of an object are ordered by their keys. -/
def build : Value → Value
  | array values => array (buildValues values)
  | object fields => object (buildFields fields [])
  | value => value
termination_by structural value => value

def buildValues : List Value → List Value
  | [] => []
  | value :: values => value.build :: buildValues values
termination_by structural values => values

def buildFields : List (String × Value) → List (String × Value) → List (String × Value)
  | [], built => built
  | field :: fields, built => buildFields fields (insertField field.1 (buildField field) built)
termination_by structural fields => fields

def buildField : String × Value → Value
  | (_, value) => value.build
termination_by structural field => field

end

/-- The members of every object are in the order of their keys, and no key is there twice. -/
inductive Ordered : Value → Prop
  | null : Ordered null
  | bool (b : Bool) : Ordered (bool b)
  | number (n : Number) : Ordered (number n)
  | string (text : String) : Ordered (string text)
  | array {values : List Value} (h : ∀ value ∈ values, Ordered value) : Ordered (array values)
  | object {fields : List (String × Value)} (hkeys : (fields.map Prod.fst).Pairwise (· < ·))
      (h : ∀ value ∈ valuesOf fields, Ordered value) : Ordered (object fields)

theorem Ordered.unique {value : Value} (h : value.Ordered) : value.Unique := by
  induction h with
  | null => exact .null
  | bool b => exact .bool b
  | number n => exact .number n
  | string text => exact .string text
  | array _ ih => exact .array ih
  | object hkeys _ ih => exact .object (hkeys.imp fun h => ne_of_lt h) ih

theorem insertField_last {key : String} {value : Value} {fields : List (String × Value)}
    (h : ∀ field ∈ fields, field.1 < key) :
    insertField key value fields = fields ++ [(key, value)] := by
  induction fields with
  | nil => rfl
  | cons field fields ih =>
      obtain ⟨hfield, hfields⟩ := forall_mem_cons.mp h
      rw [insertField, if_neg (lt_asymm hfield), if_neg (ne_of_gt hfield), ih hfields]
      rfl

theorem buildFields_ordered {fields : List (String × Value)}
    (hfields : ∀ value ∈ valuesOf fields, value.build = value) (built : List (String × Value))
    (hkeys : ((built ++ fields).map Prod.fst).Pairwise (· < ·)) :
    buildFields fields built = built ++ fields := by
  induction fields generalizing built with
  | nil => exact (append_nil _).symm
  | cons field fields ih =>
      obtain ⟨key, value⟩ := field
      obtain ⟨hvalue, hvalues⟩ := forall_mem_cons.mp hfields
      have hlast : ∀ other ∈ built, other.1 < key := fun other hother => by
        rw [map_append, pairwise_append] at hkeys
        exact hkeys.2.2 _ (mem_map_of_mem hother) _ (.head _)
      have hsplit : built ++ (key, value) :: fields = (built ++ [(key, value)]) ++ fields := by simp
      rw [hsplit] at hkeys
      rw [buildFields, insertField_last hlast, buildField, hvalue, hsplit]
      exact ih hvalues _ hkeys

theorem buildValues_eq (values : List Value) : buildValues values = values.map build := by
  induction values with
  | nil => rfl
  | cons value values ih => exact congrArg (value.build :: ·) ih

/-- A value that has been built is built again as it is. -/
theorem Ordered.build_eq {value : Value} (h : value.Ordered) : value.build = value := by
  induction h with
  | array _ ih =>
      rw [build, buildValues_eq]
      exact congrArg Value.array ((map_congr_left ih).trans (map_id _))
  | object hkeys _ ih => exact congrArg Value.object (buildFields_ordered ih [] hkeys)
  | _ => rfl

theorem insertField_perm {key : String} {value : Value} {fields : List (String × Value)}
    (h : key ∉ fields.map Prod.fst) :
    (insertField key value fields).Perm ((key, value) :: fields) := by
  induction fields with
  | nil => exact .refl _
  | cons field fields ih =>
      rw [map_cons, mem_cons, not_or] at h
      rw [insertField]
      split_ifs with hlt heq
      · exact .refl _
      · exact absurd heq h.1
      · exact ((ih h.2).cons _).trans (.swap _ _ _)

/-- The members that are inserted, in some order. -/
theorem buildFields_perm {fields : List (String × Value)} (built : List (String × Value))
    (hkeys : (fields.map Prod.fst ++ built.map Prod.fst).Nodup) :
    (valuesOf (buildFields fields built)).Perm ((valuesOf fields).map build ++ valuesOf built) := by
  induction fields generalizing built with
  | nil => exact .refl _
  | cons field fields ih =>
      obtain ⟨key, value⟩ := field
      rw [map_cons, cons_append, ← nodup_middle] at hkeys
      have hfresh : key ∉ built.map Prod.fst :=
        (nodup_cons.mp (nodup_append.mp hkeys).2.1).1
      have hinsert : (insertField key value.build built).Perm ((key, value.build) :: built) :=
        insertField_perm hfresh
      refine (ih _ ?_).trans ?_
      · exact ((hinsert.map Prod.fst).append_left _).nodup_iff.mpr hkeys
      · refine ((hinsert.map Prod.snd).append_left _).trans ?_
        exact perm_middle

theorem levelsValues_perm {values values' : List Value} (h : values.Perm values') :
    levelsValues values = levelsValues values' := by
  induction h with
  | nil => rfl
  | cons value _ ih => rw [levelsValues, ih, levelsValues]
  | swap value value' values => exact max_left_comm _ _ _
  | trans _ _ ih ih' => exact ih.trans ih'

theorem membersValues_perm {values values' : List Value} (h : values.Perm values') :
    membersValues values = membersValues values' := by
  induction h with
  | nil => rfl
  | cons value _ ih => rw [membersValues, ih, membersValues]
  | swap value value' values => exact Nat.add_left_comm _ _ _
  | trans _ _ ih ih' => exact ih.trans ih'

theorem levelsValues_build {values : List Value}
    (h : ∀ value ∈ values,
      value.build.levels = value.levels ∧ value.build.members = value.members) :
    levelsValues (values.map build) = levelsValues values ∧
      membersValues (values.map build) = membersValues values := by
  induction values with
  | nil => exact ⟨rfl, rfl⟩
  | cons value values ih =>
      obtain ⟨⟨hlevels, hmembers⟩, hvalues⟩ := forall_mem_cons.mp h
      obtain ⟨hall, hall'⟩ := ih hvalues
      rw [map_cons, levelsValues, levelsValues, membersValues, membersValues, hlevels,
        hmembers, hall, hall']
      exact ⟨rfl, rfl⟩

/-- Building keeps the levels and the members. -/
theorem Unique.build {value : Value} (h : value.Unique) :
    value.build.levels = value.levels ∧ value.build.members = value.members := by
  induction h with
  | array _ ih =>
      obtain ⟨hlevels, hmembers⟩ := levelsValues_build ih
      rw [Value.build, buildValues_eq, levels, levels, members, members, hlevels, hmembers,
        length_map]
      exact ⟨rfl, rfl⟩
  | @object fields hkeys _ ih =>
      obtain ⟨hlevels, hmembers⟩ := levelsValues_build ih
      have hperm := @buildFields_perm fields [] (by rwa [map_nil, append_nil])
      rw [valuesOf.eq_1 [], map_nil, append_nil] at hperm
      have hlength := hperm.length_eq
      rw [valuesOf, length_map, length_map, valuesOf, length_map] at hlength
      rw [Value.build, levels, levels, members, members, levelsFields_eq, levelsFields_eq,
        membersFields_eq, membersFields_eq, levelsValues_perm hperm, membersValues_perm hperm,
        hlevels, hmembers, hlength]
      exact ⟨rfl, rfl⟩
  | _ => exact ⟨rfl, rfl⟩

/-- The library reads the text of this key's value in the place of the object. -/
def RAW_TOKEN : String := "$serde_json::private::RawValue"

/-- No object begins with the token. -/
inductive Ordinary : Value → Prop
  | null : Ordinary null
  | bool (b : Bool) : Ordinary (bool b)
  | number (n : Number) : Ordinary (number n)
  | string (text : String) : Ordinary (string text)
  | array {values : List Value} (h : ∀ value ∈ values, Ordinary value) : Ordinary (array values)
  | object {fields : List (String × Value)} (hfirst : (fields.map Prod.fst).head? ≠ some RAW_TOKEN)
      (h : ∀ value ∈ valuesOf fields, Ordinary value) : Ordinary (object fields)

theorem Ordinary.first {fields : List (String × Value)} (h : (Value.object fields).Ordinary) :
    (fields.map Prod.fst).head? ≠ some RAW_TOKEN := by
  cases h with
  | object hfirst _ => exact hfirst

end Value

/-! ## Payloads read from bytes -/

/-- What the library makes of a text: the syntax that a visitor is led through, with the members in
the order of the text, and the value that is built. -/
structure Reader where
  spelled : String → Option Value
  built : String → Option Value

/-- The lengths of the encoded strings. -/
def encodedStrings (maximum : ℕ) : List UInt8 → Bool → Bool → ℕ → Except JsonError Unit
  | [], _, _, _ => .ok ()
  | byte :: input, false, escaped, length =>
    if byte = 34 then encodedStrings maximum input true escaped 0
    else encodedStrings maximum input false escaped length
  | byte :: input, true, escaped, length =>
    if escaped = false ∧ byte = 34 then encodedStrings maximum input false escaped length
    else if maximum < length + 1 then .error .string
    else encodedStrings maximum input true (!escaped && byte == 92) (length + 1)

namespace Reader

variable (reader : Reader)

def validate (input : String) (limits : JsonLimits) : Except JsonError Unit :=
  if limits.bytes < input.utf8ByteSize then .error .bytes
  else do
    encodedStrings (limits.stringBytes * 6) input.toByteArray.data.toList false false 0
    match reader.spelled input with
    | none => .error .malformed
    | some raw => do
      let _ ← raw.visit limits 0 limits.members
      .ok ()

def fromSlice (input : String) (limits : JsonLimits) : Except JsonError Value := do
  reader.validate input limits
  match reader.built input with
  | some value => .ok value
  | none => .error .schema

end Reader

namespace Payload

variable (reader : Reader)

def fromBytes (bytes : String) : Except AslError Payload := do
  let value ← (reader.fromSlice bytes BYTE_LIMITS).mapError .json
  .ok ⟨value, bytes⟩

def parse (input : String) : Except AslError Payload :=
  if MAX_PAYLOAD_BYTES < input.utf8ByteSize then .error (.json .bytes)
  else fromBytes reader input

end Payload

/-- An encoded string is not longer than its text. -/
theorem encodedStrings_eq_ok {maximum : ℕ} (input : List UInt8) (inside escaped : Bool)
    (length : ℕ) (h : input.length ≤ maximum)
    (hinside : inside = true → length + input.length ≤ maximum) :
    encodedStrings maximum input inside escaped length = .ok () := by
  induction input generalizing inside escaped length with
  | nil => cases inside <;> rfl
  | cons byte input ih =>
      rw [length_cons] at h hinside
      cases inside with
      | false =>
          rw [encodedStrings]
          split_ifs with hquote
          · exact ih true escaped 0 (by omega) fun _ => by omega
          · exact ih false escaped length (by omega) fun h => (by cases h)
      | true =>
          have hlength := hinside rfl
          rw [encodedStrings]
          split_ifs with hquote hlong
          · exact ih false escaped length (by omega) fun h => (by cases h)
          · omega
          · exact ih true _ (length + 1) (by omega) fun _ => by omega

/-- The library builds a value from its syntax, unless an object begins with the token. -/
structure Reader.Builds (reader : Reader) (text : String) : Prop where
  ordinary : ∀ raw, reader.spelled text = some raw → raw.Ordinary →
    reader.built text = some raw.build
  replaced : ∀ raw, reader.spelled text = some raw → ¬raw.Ordinary →
    reader.built text ≠ some raw.build

/-- The text of a value is led through as the value, or refused for its depth. -/
def Reader.Spells (reader : Reader) (value : Value) : Prop :=
  reader.spelled value.encode = some value ∨
    (64 < value.levels ∧ reader.spelled value.encode = none)

structure Payload.Within (payload : Payload) : Prop where
  bytes : payload.bytes.utf8ByteSize ≤ 262144
  levels : payload.value.levels ≤ 64
  members : payload.value.members ≤ 65536

/-- A value is accepted exactly if its encoding is read and gives it back, and what is accepted is
within the limits. -/
structure Agrees (reader : Reader) (value : Value) : Prop where
  both : (∃ payload, Payload.fromValue value = .ok payload) ↔
    ∃ payload, Payload.parse reader value.encode = .ok payload ∧ payload.value = value
  within : ∀ payload, Payload.fromValue value = .ok payload ∨
    Payload.parse reader value.encode = .ok payload → payload.Within

/-- The value and its encoding are within the limits. -/
def Admitted (value : Value) : Prop :=
  value.Fits 64 0 65536 ∧ value.encode.utf8ByteSize ≤ MAX_PAYLOAD_BYTES

variable {reader : Reader} {value : Value}

theorem fromValue_eq_ok {payload : Payload} :
    fromValue value = .ok payload ↔
      Admitted value ∧ payload = ⟨value, value.encode⟩ := by
  have hchecks := value.checks 64 0 (Nat.zero_le _) 65536
  unfold fromValue
  rw [bind_eq_ok]
  constructor
  · rintro ⟨_, hvalidate, hrest⟩
    obtain ⟨r, hr, -⟩ := bind_eq_ok.mp hvalidate
    obtain ⟨bytes, hbytes, hdone⟩ := bind_eq_ok.mp hrest
    cases hdone
    unfold Value.encodeWithLimit at hbytes
    split_ifs at hbytes with hlong
    cases hbytes
    exact ⟨⟨((hchecks r).mp hr).1, not_lt.mp hlong⟩, rfl⟩
  · rintro ⟨⟨hfits, hbytes⟩, rfl⟩
    refine ⟨(), bind_eq_ok.mpr ⟨_, (hchecks _).mpr ⟨hfits, rfl⟩, rfl⟩, ?_⟩
    exact bind_eq_ok.mpr ⟨_, if_neg (not_lt.mpr hbytes), rfl⟩

theorem validate_eq_ok {text : String} (h : text.utf8ByteSize ≤ MAX_PAYLOAD_BYTES) :
    reader.validate text BYTE_LIMITS = .ok () ↔
      ∃ raw, reader.spelled text = some raw ∧ raw.Fits 64 0 65536 ∧ raw.Unique := by
  have hlength : text.toByteArray.data.toList.length = text.utf8ByteSize := Array.length_toList
  have hstrings : encodedStrings (BYTE_LIMITS.stringBytes * 6) text.toByteArray.data.toList
      false false 0 = .ok () :=
    encodedStrings_eq_ok _ false false 0
      (by rw [hlength]; exact h.trans (Nat.le_mul_of_pos_right _ (by omega))) fun h => (by cases h)
  unfold Reader.validate
  rw [if_neg (show ¬BYTE_LIMITS.bytes < text.utf8ByteSize from not_lt.mpr h), hstrings]
  cases hspelled : reader.spelled text with
  | none => exact iff_of_false (by rintro ⟨⟩) (by rintro ⟨raw, ⟨⟩, -⟩)
  | some raw =>
      have hvisits := raw.visits 0 (Nat.zero_le _) 65536
      change (raw.visit BYTE_LIMITS 0 65536 >>= fun _ => Except.ok ()) = .ok () ↔ _
      rw [bind_eq_ok]
      constructor
      · rintro ⟨r, hr, -⟩
        exact ⟨raw, rfl, ((hvisits r).mp hr).1, ((hvisits r).mp hr).2.1⟩
      · rintro ⟨raw', hraw, hfits, hunique⟩
        cases hraw
        exact ⟨_, (hvisits _).mpr ⟨hfits, hunique, rfl⟩, rfl⟩

theorem parse_eq_ok {text : String} {payload : Payload} :
    parse reader text = .ok payload ↔
      text.utf8ByteSize ≤ MAX_PAYLOAD_BYTES ∧
        (∃ raw, reader.spelled text = some raw ∧ raw.Fits 64 0 65536 ∧ raw.Unique) ∧
          reader.built text = some payload.value ∧ payload.bytes = text := by
  unfold parse
  split_ifs with hlong
  · exact iff_of_false (by rintro ⟨⟩) fun h => absurd h.1 (not_le.mpr hlong)
  · have hbytes := not_lt.mp hlong
    unfold fromBytes Reader.fromSlice
    rw [bind_eq_ok]
    constructor
    · rintro ⟨v, hv, hdone⟩
      obtain ⟨_, hvalid, hbuilt⟩ :=
        bind_eq_ok.mp (Outcome.except_mapError_eq_ok.mp hv)
      cases hdone
      cases hsome : reader.built text with
      | none =>
          rw [hsome] at hbuilt
          cases hbuilt
      | some w =>
          rw [hsome] at hbuilt
          cases hbuilt
          exact ⟨hbytes, (validate_eq_ok hbytes).mp hvalid, rfl, rfl⟩
    · rintro ⟨-, hvalid, hbuilt, htext⟩
      refine ⟨payload.value, Outcome.except_mapError_eq_ok.mpr (bind_eq_ok.mpr
        ⟨(), (validate_eq_ok hbytes).mpr hvalid, ?_⟩), ?_⟩
      · rw [hbuilt]
      · rw [← htext]

/-- A text without the token in front of an object is accepted within the limits only. -/
theorem within_of_parse {text : String} (hbuilds : reader.Builds text) {raw : Value}
    (hraw : reader.spelled text = some raw) (hordinary : raw.Ordinary) {payload : Payload}
    (h : parse reader text = .ok payload) : payload.Within := by
  obtain ⟨hbytes, ⟨raw', hraw', hfits, hunique⟩, hbuilt, htext⟩ := parse_eq_ok.mp h
  obtain rfl := Option.some.inj (hraw.symm.trans hraw')
  rw [hbuilds.ordinary raw hraw hordinary] at hbuilt
  obtain ⟨hlevels, hmembers⟩ := hunique.build
  rw [Option.some.inj hbuilt] at hlevels hmembers
  have hdepth := hfits.levels
  exact ⟨by rw [htext]; exact hbytes, by omega, by rw [hmembers]; exact hfits.members⟩

theorem within_of_admitted (h : Admitted value) : Payload.Within ⟨value, value.encode⟩ := by
  have hdepth := h.1.levels
  exact ⟨h.2, by change value.levels ≤ 64; omega, h.1.members⟩

/-- The validators agree on a value, and keep the limits, exactly if no object of it begins with
the token or the value is outside the limits.  Texts without the token in front of an object are
accepted within the limits only. -/
theorem validators_agree_iff (reader : Reader) (value : Value) (hvalue : value.Ordered)
    (hspells : reader.Spells value) (hbuilds : reader.Builds value.encode) :
    (Agrees reader value ↔ value.Ordinary ∨ ¬Admitted value) ∧
      ∀ text raw payload, reader.Builds text → reader.spelled text = some raw → raw.Ordinary →
        parse reader text = .ok payload → payload.Within := by
  refine ⟨⟨fun h => ?_, fun h => ?_⟩, fun text raw payload hbuilds hraw hordinary hparse =>
    within_of_parse hbuilds hraw hordinary hparse⟩
  · by_contra hnot
    push Not at hnot
    obtain ⟨htoken, hadmitted⟩ := hnot
    obtain ⟨payload, hparse, hvalueEq⟩ := h.both.mp ⟨_, fromValue_eq_ok.mpr ⟨hadmitted, rfl⟩⟩
    obtain ⟨-, -, hbuilt, -⟩ := parse_eq_ok.mp hparse
    have hdepth := hadmitted.1.levels
    rcases hspells with hspelled | ⟨hdeep, -⟩
    · refine hbuilds.replaced value hspelled htoken ?_
      rw [hbuilt, hvalueEq, hvalue.build_eq]
    · omega
  · -- what is read of the encoding is the value, and no reader accepts it outside the limits
    have hreads : ∀ payload, parse reader value.encode = .ok payload →
        Admitted value ∧ reader.spelled value.encode = some value := by
      intro payload hparse
      obtain ⟨hbytes, ⟨raw, hraw, hfits, -⟩, -⟩ := parse_eq_ok.mp hparse
      rcases hspells with hspelled | ⟨-, hnone⟩
      · obtain rfl := Option.some.inj (hspelled.symm.trans hraw)
        exact ⟨⟨hfits, hbytes⟩, hspelled⟩
      · rw [hnone] at hraw
        cases hraw
    constructor
    · constructor
      · rintro ⟨payload, haccepted⟩
        obtain ⟨hadmitted, -⟩ := fromValue_eq_ok.mp haccepted
        have hordinary := h.resolve_right (not_not.mpr hadmitted)
        have hdepth := hadmitted.1.levels
        obtain hspelled : reader.spelled value.encode = some value :=
          hspells.resolve_right fun hdeep => by omega
        refine ⟨⟨value, value.encode⟩, parse_eq_ok.mpr ⟨hadmitted.2,
          ⟨value, hspelled, hadmitted.1, hvalue.unique⟩, ?_, rfl⟩, rfl⟩
        rw [hbuilds.ordinary value hspelled hordinary, hvalue.build_eq]
      · rintro ⟨payload, hparse, -⟩
        exact ⟨_, fromValue_eq_ok.mpr ⟨(hreads payload hparse).1, rfl⟩⟩
    · rintro payload (haccepted | hparse)
      · obtain ⟨hadmitted, rfl⟩ := fromValue_eq_ok.mp haccepted
        exact within_of_admitted hadmitted
      · obtain ⟨hadmitted, hspelled⟩ := hreads payload hparse
        exact within_of_parse hbuilds hspelled (h.resolve_right (not_not.mpr hadmitted)) hparse

/-- A reader that knows one text. -/
def Reader.knowing (value built : Value) : Reader where
  spelled text := if text = value.encode then some value else none
  built text := if text = value.encode then some built else none

theorem Reader.knowing_spelled (value built : Value) :
    (knowing value built).spelled value.encode = some value :=
  if_pos rfl

theorem Reader.knowing_built (value built : Value) :
    (knowing value built).built value.encode = some built :=
  if_pos rfl

theorem validators_agree_flag :
    let value := Value.object [("ok", .bool true)]
    let reader := Reader.knowing value value
    (Agrees reader value ↔ value.Ordinary ∨ ¬Admitted value) ∧
      ∀ text raw payload, reader.Builds text → reader.spelled text = some raw → raw.Ordinary →
        parse reader text = .ok payload → payload.Within := by
  intro value reader
  have hvalues : ∀ v ∈ Value.valuesOf [("ok", Value.bool true)], v = .bool true := by
    rintro v (_ | ⟨_, ⟨⟩⟩)
    rfl
  have hordered : value.Ordered := by
    refine .object (pairwise_singleton _ _) fun v hv => ?_
    rw [hvalues v hv]
    exact .bool true
  have hordinary : value.Ordinary := by
    refine .object (by decide) fun v hv => ?_
    rw [hvalues v hv]
    exact .bool true
  refine validators_agree_iff reader value hordered (.inl (Reader.knowing_spelled _ _)) ⟨?_, ?_⟩
  · intro raw hraw _
    obtain rfl := Option.some.inj ((Reader.knowing_spelled _ _).symm.trans hraw)
    rw [hordered.build_eq]
    exact Reader.knowing_built _ _
  · intro raw hraw hreplaced
    obtain rfl := Option.some.inj ((Reader.knowing_spelled _ _).symm.trans hraw)
    exact absurd hordinary hreplaced

/-- The value is accepted, and its text is read as the number in it. -/
theorem not_agree_token :
    let value := Value.object [(Value.RAW_TOKEN, .string "1")]
    let reader := Reader.knowing value (.number (.natural 1))
    reader.Spells value ∧ reader.Builds value.encode ∧
      fromValue value = .ok ⟨value, value.encode⟩ ∧
        parse reader value.encode = .ok ⟨.number (.natural 1), value.encode⟩ ∧
          ¬Agrees reader value := by
  intro value reader
  have hspelled : reader.spelled value.encode = some value := Reader.knowing_spelled _ _
  have hbuilt : reader.built value.encode = some (.number (.natural 1)) :=
    Reader.knowing_built _ _
  have hvalues : ∀ v ∈ Value.valuesOf [(Value.RAW_TOKEN, Value.string "1")], v = .string "1" := by
    rintro v (_ | ⟨_, ⟨⟩⟩)
    rfl
  have hordered : value.Ordered := by
    refine .object (pairwise_singleton _ _) fun v hv => ?_
    rw [hvalues v hv]
    exact .string "1"
  have hreplaced : ¬value.Ordinary := fun h => h.first rfl
  have hother : Value.number (.natural 1) ≠ value := Value.noConfusion
  have hadmitted : Admitted value :=
    ⟨⟨by decide, by decide, ⟨by decide, show "1".utf8ByteSize ≤ MAX_PAYLOAD_BYTES by decide⟩,
      trivial⟩, by decide +kernel⟩
  have hparse : parse reader value.encode = .ok ⟨.number (.natural 1), value.encode⟩ :=
    parse_eq_ok.mpr ⟨hadmitted.2, ⟨value, hspelled, hadmitted.1, hordered.unique⟩, hbuilt, rfl⟩
  refine ⟨.inl hspelled, ⟨?_, ?_⟩, fromValue_eq_ok.mpr ⟨hadmitted, rfl⟩, hparse, fun h => ?_⟩
  · intro raw hraw hordinary
    obtain rfl := Option.some.inj (hspelled.symm.trans hraw)
    exact absurd hordinary hreplaced
  · intro raw hraw _
    obtain rfl := Option.some.inj (hspelled.symm.trans hraw)
    rw [hbuilt, hordered.build_eq]
    exact fun h => hother (Option.some.inj h)
  · obtain ⟨payload, hread, hsame⟩ := h.both.mp ⟨_, fromValue_eq_ok.mpr ⟨hadmitted, rfl⟩⟩
    obtain rfl := Except.ok.inj (hparse.symm.trans hread)
    exact hother hsame

end Rustack.StepFunctions
