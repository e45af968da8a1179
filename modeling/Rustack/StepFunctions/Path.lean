import Mathlib.Data.List.Infix
import Mathlib.Data.String.Basic
import Rustack.Lib.Outcome
import Rustack.StepFunctions.Json

/-!
# Reference paths and result paths

A reference path leads from a root to one value by members and indices.  A result path puts a
value at its end: objects that are missing on the way are made, arrays are not.
-/

namespace Rustack.StepFunctions

open List

inductive Root where
  | data | context
  deriving DecidableEq

inductive Segment where
  | member (key : String)
  | index (index : ℕ)
  | wildcard
  | slice (start : ℕ) (stop : Option ℕ)
  deriving DecidableEq

/-- The segments that select any number of values. -/
def Segment.selects : Segment → Bool
  | .wildcard | .slice _ _ => true
  | .member _ | .index _ => false

structure Path where
  root : Root
  segments : List Segment
  selection : Bool
  selection_eq : selection = segments.any Segment.selects

/-- A path without selections. -/
structure ReferencePath where
  path : Path
  singular : path.selection = false

/-- A reference path into the data. -/
structure ResultPath where
  path : ReferencePath
  data : path.path.root = .data

theorem ReferencePath.segments_singular (p : ReferencePath) :
    ∀ segment ∈ p.path.segments, segment.selects = false := by
  have h := p.path.selection_eq.symm.trans p.singular
  simpa using h

namespace Value

/-! ## Looking up -/

/-- What one segment leads to. -/
def child : Segment → Value → Option Value
  | .member key, value => value.asObject.bind (getField key)
  | .index index, value => value.asArray.bind (·[index]?)
  | _, _ => none

/-- What a list of segments leads to. -/
def lookup : List Segment → Value → Option Value
  | [], value => some value
  | segment :: rest, value => (child segment value).bind (lookup rest)

theorem getField_insertField (key probe : String) (value : Value)
    (fields : List (String × Value)) :
    getField probe (insertField key value fields) =
      if probe = key then some value else getField probe fields := by
  have hcons : ∀ (name : String) (v : Value) (fields : List (String × Value)),
      getField probe ((name, v) :: fields) =
        if probe = name then some v else getField probe fields := by
    intro name v fields
    by_cases h : probe = name
    · simp [getField, h]
    · simp [getField, lookup_cons, beq_eq_false_iff_ne.mpr h, h]
  induction fields with
  | nil => rw [insertField, hcons]
  | cons field fields ih =>
      obtain ⟨key', value'⟩ := field
      rw [insertField]
      by_cases hlt : key < key'
      · rw [if_pos hlt, hcons]
      · rw [if_neg hlt]
        by_cases heq : key = key'
        · subst heq
          rw [if_pos rfl, hcons, hcons]
          split_ifs <;> rfl
        · rw [if_neg heq, hcons, ih, hcons]
          by_cases hprobe : probe = key
          · subst hprobe
            rw [if_neg heq, if_pos rfl, if_pos rfl]
          · rw [if_neg hprobe, if_neg hprobe]

/-- A member that is set twice is set once. -/
theorem insertField_insertField (key : String) (value value' : Value)
    (fields : List (String × Value)) :
    insertField key value' (insertField key value fields) = insertField key value' fields := by
  have hlt : ¬key < key := lt_irrefl key
  induction fields with
  | nil => simp [insertField]
  | cons field fields ih =>
      obtain ⟨name, v⟩ := field
      rw [insertField, insertField]
      split_ifs with h heq
      · rw [insertField, if_neg hlt, if_pos rfl]
      · rw [insertField, if_neg hlt, if_pos rfl]
      · rw [insertField, if_neg h, if_neg heq, ih]

/-! ## Merging -/

/-- The walk of a merge.  A member that is missing is made when a member follows. -/
def mergeAt (result : Value) : List Segment → Value → Except AslError Value
  | [], destination => .ok destination
  | .member key :: rest, .object fields =>
    match rest, getField key fields with
    | [], _ => .ok (.object (insertField key result fields))
    | _ :: _, some child => do
      let child ← mergeAt result rest child
      .ok (.object (insertField key child fields))
    | .member _ :: _, none => do
      let child ← mergeAt result rest (.object [])
      .ok (.object (insertField key child fields))
    | _ :: _, none => .error .merge
  | .member _ :: _, _ => .error .merge
  | .index index :: rest, .array values =>
    match values[index]?, rest with
    | none, _ => .error .merge
    | some _, [] => .ok (.array (values.set index result))
    | some slot, _ :: _ => do
      let slot ← mergeAt result rest slot
      .ok (.array (values.set index slot))
  | .index _ :: _, _ => .error .merge
  | .wildcard :: _, _ => .error .invalidResultTarget
  | .slice _ _ :: _, _ => .error .invalidResultTarget

/-- The branches of the walk that go through: the end of the path, a member that is there or is
made, and a slot. -/
theorem mergeAt_cons_eq_ok {result value output : Value} {segment : Segment} {rest : List Segment}
    (h : mergeAt result (segment :: rest) value = .ok output) :
    (∃ key fields, segment = .member key ∧ value = .object fields ∧ ∃ child,
      output = .object (insertField key child fields) ∧
      ((rest = [] ∧ child = result) ∨
        rest ≠ [] ∧ mergeAt result rest ((getField key fields).getD (.object [])) = .ok child)) ∨
    ∃ i values slot, segment = .index i ∧ value = .array values ∧ values[i]? = some slot ∧
      ∃ child, output = .array (values.set i child) ∧
      ((rest = [] ∧ child = result) ∨ rest ≠ [] ∧ mergeAt result rest slot = .ok child) := by
  cases segment with
  | member key =>
      left
      cases value with
      | object fields =>
          refine ⟨key, fields, rfl, rfl, ?_⟩
          cases rest with
          | nil =>
              cases h
              exact ⟨result, rfl, .inl ⟨rfl, rfl⟩⟩
          | cons next rest =>
              cases hget : getField key fields with
              | some existing =>
                  simp only [mergeAt, hget] at h
                  obtain ⟨child, hchild, h⟩ := Except.bind_eq_ok.mp h
                  cases h
                  exact ⟨child, rfl, .inr ⟨cons_ne_nil _ _, hchild⟩⟩
              | none =>
                  cases next with
                  | member key' =>
                      simp only [mergeAt, hget] at h
                      obtain ⟨child, hchild, h⟩ := Except.bind_eq_ok.mp h
                      cases h
                      exact ⟨child, rfl, .inr ⟨cons_ne_nil _ _, hchild⟩⟩
                  | index | wildcard | slice => simp [mergeAt, hget] at h
      | null | bool | number | string | array => cases h
  | index i =>
      right
      cases value with
      | array values =>
          cases hget : values[i]? with
          | none => simp [mergeAt, hget] at h
          | some slot =>
              refine ⟨i, values, slot, rfl, rfl, hget, ?_⟩
              cases rest with
              | nil =>
                  simp only [mergeAt, hget] at h
                  cases h
                  exact ⟨result, rfl, .inl ⟨rfl, rfl⟩⟩
              | cons next rest =>
                  simp only [mergeAt, hget] at h
                  obtain ⟨child, hchild, h⟩ := Except.bind_eq_ok.mp h
                  cases h
                  exact ⟨child, rfl, .inr ⟨cons_ne_nil _ _, hchild⟩⟩
      | null | bool | number | string | object => cases h
  | wildcard => cases value <;> cases h
  | slice start stop => cases value <;> cases h

/-! ## Laws of a merge -/

section Laws

variable {result value output : Value} {segments q : List Segment}

@[simp] theorem child_member_object (key : String) (fields : List (String × Value)) :
    child (.member key) (.object fields) = getField key fields := rfl

@[simp] theorem child_index_array (i : ℕ) (values : List Value) :
    child (.index i) (.array values) = values[i]? := rfl

/-- Nothing lies in an empty object. -/
theorem lookup_empty (hne : q ≠ []) : lookup q (.object []) = none := by
  cases q with
  | nil => exact absurd rfl hne
  | cons segment q =>
      rw [lookup]
      cases segment <;> rfl

/-- What has been put is there. -/
theorem lookup_mergeAt (hne : segments ≠ []) (h : mergeAt result segments value = .ok output) :
    lookup segments output = some result := by
  induction segments generalizing value output with
  | nil => exact absurd rfl hne
  | cons segment rest ih =>
      rcases mergeAt_cons_eq_ok h with
        ⟨key, fields, rfl, rfl, child, rfl, hchild⟩ |
        ⟨i, values, slot, rfl, rfl, hslot, child, rfl, hchild⟩
      · rw [lookup, child_member_object, getField_insertField, if_pos rfl, Option.bind_some]
        rcases hchild with ⟨rfl, rfl⟩ | ⟨hrest, hchild⟩
        · rfl
        · exact ih hrest hchild
      · have hlt : i < values.length := (List.getElem?_eq_some_iff.mp hslot).1
        rw [lookup, child_index_array, getElem?_set_self hlt, Option.bind_some]
        rcases hchild with ⟨rfl, rfl⟩ | ⟨hrest, hchild⟩
        · rfl
        · exact ih hrest hchild

/-- Only the child the path goes through changes. -/
theorem child_mergeAt {segment other : Segment} {rest : List Segment}
    (h : mergeAt result (segment :: rest) value = .ok output) (hne : other ≠ segment) :
    child other output = child other value := by
  rcases mergeAt_cons_eq_ok h with
    ⟨key, fields, rfl, rfl, made, rfl, -⟩ | ⟨i, values, slot, rfl, rfl, -, made, rfl, -⟩
  · cases other with
    | member name =>
        have hname : name ≠ key := fun heq => hne (congrArg _ heq)
        rw [child_member_object, child_member_object, getField_insertField, if_neg hname]
    | index | wildcard | slice => rfl
  · cases other with
    | index j =>
        have hindex : i ≠ j := fun heq => hne (congrArg _ heq.symm)
        rw [child_index_array, child_index_array, getElem?_set_ne hindex]
    | member | wildcard | slice => rfl

/-- The child the path goes through is the old one with the rest of the path put into it, or a new
object with it. -/
theorem child_mergeAt_self {segment : Segment} {rest : List Segment} (hne : rest ≠ [])
    (h : mergeAt result (segment :: rest) value = .ok output) :
    ∃ made, child segment output = some made ∧
      mergeAt result rest ((child segment value).getD (.object [])) = .ok made := by
  rcases mergeAt_cons_eq_ok h with
    ⟨key, fields, rfl, rfl, made, rfl, hmade⟩ | ⟨i, values, slot, rfl, rfl, hslot, made, rfl, hmade⟩
  · refine ⟨made, ?_, (hmade.resolve_left fun hend => hne hend.1).2⟩
    rw [child_member_object, getField_insertField, if_pos rfl]
  · refine ⟨made, ?_, ?_⟩
    · rw [child_index_array, List.getElem?_set_self (List.getElem?_eq_some_iff.mp hslot).1]
    · rw [child_index_array, hslot]
      exact (hmade.resolve_left fun hend => hne hend.1).2

/-- A path that leads elsewhere leads to the same value. -/
theorem lookup_mergeAt_other (h : mergeAt result segments value = .ok output)
    (hlonger : ¬segments <+: q) (hshorter : ¬q <+: segments) :
    lookup q output = lookup q value := by
  induction segments generalizing value output q with
  | nil => exact absurd nil_prefix hlonger
  | cons segment rest ih =>
      cases q with
      | nil => exact absurd nil_prefix hshorter
      | cons other q =>
          rw [lookup, lookup]
          by_cases heq : other = segment
          · subst heq
            rw [cons_prefix_cons, not_and] at hlonger hshorter
            have hrest : rest ≠ [] := by
              rintro rfl
              exact hlonger rfl nil_prefix
            obtain ⟨made, hmade, hchild⟩ := child_mergeAt_self hrest h
            rw [hmade, Option.bind_some, ih hchild (hlonger rfl) (hshorter rfl)]
            cases child other value with
            | some existing => rfl
            | none =>
                refine lookup_empty ?_
                rintro rfl
                exact hshorter rfl nil_prefix
          · rw [child_mergeAt h heq]

/-- Arrays keep their lengths. -/
theorem length_mergeAt (h : mergeAt result segments value = .ok output)
    (hlonger : ¬segments <+: q) {values : List Value} (hq : lookup q value = some (.array values)) :
    ∃ values', lookup q output = some (.array values') ∧ values'.length = values.length := by
  induction segments generalizing value output q with
  | nil => exact absurd nil_prefix hlonger
  | cons segment rest ih =>
      cases q with
      | nil =>
          obtain rfl : value = .array values := Option.some.inj hq
          rcases mergeAt_cons_eq_ok h with
            ⟨key, fields, -, hvalue, -⟩ | ⟨i, values', slot, -, hvalue, -, made, rfl, -⟩
          · cases hvalue
          · cases hvalue
            exact ⟨_, rfl, length_set⟩
      | cons other q =>
          rw [lookup] at hq ⊢
          by_cases heq : other = segment
          · subst heq
            rw [cons_prefix_cons, not_and] at hlonger
            have hrest : rest ≠ [] := by
              rintro rfl
              exact hlonger rfl nil_prefix
            obtain ⟨made, hmade, hchild⟩ := child_mergeAt_self hrest h
            obtain ⟨existing, hexisting, hq⟩ := Option.bind_eq_some_iff.mp hq
            rw [hexisting] at hchild
            rw [hmade]
            exact ih hchild (hlonger rfl) hq
          · rw [child_mergeAt h heq]
            exact ⟨values, hq, rfl⟩

/-- A path goes through an empty object by members only. -/
theorem members_of_mergeAt_empty (h : mergeAt result segments (.object []) = .ok output) :
    ∀ segment ∈ segments, ∃ key, segment = .member key := by
  induction segments generalizing output with
  | nil =>
      intro segment hmem
      cases hmem
  | cons segment rest ih =>
      rcases mergeAt_cons_eq_ok h with
        ⟨key, fields, rfl, hvalue, child, rfl, hchild⟩ | ⟨i, values, slot, -, hvalue, -⟩
      · cases hvalue
        intro other hother
        rcases mem_cons.mp hother with rfl | hmem
        · exact ⟨key, rfl⟩
        · rcases hchild with ⟨rfl, -⟩ | ⟨-, hchild⟩
          · cases hmem
          · exact ih hchild other hmem
      · cases hvalue

/-- The walk through a member, where it is there or may be made. -/
theorem mergeAt_member {key : String} {fields : List (String × Value)} {rest : List Segment}
    (hrest : rest ≠ []) (hmade : getField key fields = none →
      ∀ segment ∈ rest, ∃ name, segment = .member name) :
    mergeAt result (.member key :: rest) (.object fields) =
      (mergeAt result rest ((getField key fields).getD (.object []))).map fun child =>
        .object (insertField key child fields) := by
  cases rest with
  | nil => exact absurd rfl hrest
  | cons next rest =>
      cases hget : getField key fields with
      | some existing =>
          simp only [mergeAt, hget, Option.getD_some]
          rfl
      | none =>
          obtain ⟨name, rfl⟩ := hmade hget next (.head _)
          simp only [mergeAt, hget, Option.getD_none]
          rfl

theorem mergeAt_index {i : ℕ} {values : List Value} {slot : Value} {rest : List Segment}
    (hrest : rest ≠ []) (hslot : values[i]? = some slot) :
    mergeAt result (.index i :: rest) (.array values) =
      (mergeAt result rest slot).map fun slot => .array (values.set i slot) := by
  cases rest with
  | nil => exact absurd rfl hrest
  | cons next rest =>
      simp only [mergeAt, hslot]
      rfl

/-- The second of two merges at one place is all that counts. -/
theorem mergeAt_mergeAt (h : mergeAt result segments value = .ok output) (hne : segments ≠ [])
    (result' : Value) : mergeAt result' segments output = mergeAt result' segments value := by
  induction segments generalizing value output with
  | nil => exact absurd rfl hne
  | cons segment rest ih =>
      rcases mergeAt_cons_eq_ok h with
        ⟨key, fields, rfl, rfl, made, rfl, hmade⟩ |
        ⟨i, values, slot, rfl, rfl, hslot, made, rfl, hmade⟩
      · rcases hmade with ⟨rfl, rfl⟩ | ⟨hrest, hmade⟩
        · simp only [mergeAt, insertField_insertField]
        · have hget : getField key (insertField key made fields) = some made := by
            rw [getField_insertField, if_pos rfl]
          rw [mergeAt_member hrest, mergeAt_member hrest, hget, Option.getD_some, ih hmade hrest]
          · simp only [insertField_insertField]
          · intro hnone
            rw [hnone] at hmade
            exact members_of_mergeAt_empty hmade
          · intro hnone
            rw [hget] at hnone
            cases hnone
      · have hlt : i < values.length := (List.getElem?_eq_some_iff.mp hslot).1
        have hset : (values.set i made)[i]? = some made := getElem?_set_self hlt
        rcases hmade with ⟨rfl, rfl⟩ | ⟨hrest, hmade⟩
        · simp only [mergeAt, hset, hslot, set_set]
        · rw [mergeAt_index hrest hset, mergeAt_index hrest hslot, ih hmade hrest]
          simp only [set_set]

/-! ## Paths that are in the way -/

/-- Why a path leads nowhere a value can be put: a container of the wrong kind, an index behind
the end of an array, or a missing member that an index goes through. -/
inductive Blocked (segments : List Segment) (value : Value) : Prop where
  | notObject (front : List Segment) {rest : List Segment} {key : String} {container : Value} :
      segments = front ++ .member key :: rest → lookup front value = some container →
        container.asObject = none → Blocked segments value
  | notArray (front : List Segment) {rest : List Segment} {i : ℕ} {container : Value} :
      segments = front ++ .index i :: rest → lookup front value = some container →
        container.asArray = none → Blocked segments value
  | outOfRange (front : List Segment) {rest : List Segment} {i : ℕ} {values : List Value} :
      segments = front ++ .index i :: rest → lookup front value = some (.array values) →
        values.length ≤ i → Blocked segments value
  | arrayToMake (front : List Segment) {middle rest : List Segment} {key : String} {i : ℕ}
      {fields : List (String × Value)} :
      segments = front ++ .member key :: (middle ++ .index i :: rest) →
        lookup front value = some (.object fields) → getField key fields = none →
        Blocked segments value

theorem Blocked.cons {segment : Segment} {rest : List Segment} {next : Value}
    (hchild : child segment value = some next) (h : Blocked rest next) :
    Blocked (segment :: rest) value := by
  have hlookup : ∀ front, lookup (segment :: front) value = lookup front next := by
    intro front
    rw [lookup, hchild, Option.bind_some]
  cases h with
  | notObject front hsplit hfront hkind =>
      exact .notObject (segment :: front) (congrArg _ hsplit) ((hlookup _).trans hfront) hkind
  | notArray front hsplit hfront hkind =>
      exact .notArray (segment :: front) (congrArg _ hsplit) ((hlookup _).trans hfront) hkind
  | outOfRange front hsplit hfront hlen =>
      exact .outOfRange (segment :: front) (congrArg _ hsplit) ((hlookup _).trans hfront) hlen
  | arrayToMake front hsplit hfront hmissing =>
      exact .arrayToMake (segment :: front) (congrArg _ hsplit) ((hlookup _).trans hfront) hmissing

/-- An empty object is in the way of indices only. -/
theorem Blocked.exists_index (h : Blocked segments (.object [])) : ∃ i, .index i ∈ segments := by
  cases h with
  | notObject front hsplit hfront hkind =>
      cases front with
      | nil =>
          cases hfront
          cases hkind
      | cons segment front =>
          rw [lookup_empty (cons_ne_nil _ _)] at hfront
          cases hfront
  | @notArray front rest i container hsplit hfront hkind => exact ⟨i, by simp [hsplit]⟩
  | @outOfRange front rest i values hsplit hfront hlen => exact ⟨i, by simp [hsplit]⟩
  | @arrayToMake front middle rest key i fields hsplit hfront hmissing =>
      exact ⟨i, by simp [hsplit]⟩

/-- Where nothing is in the way a value can be put. -/
theorem exists_mergeAt (result : Value)
    (hsingular : ∀ segment ∈ segments, segment.selects = false)
    (h : ¬Blocked segments value) : ∃ output, mergeAt result segments value = .ok output := by
  induction segments generalizing value with
  | nil => exact ⟨value, rfl⟩
  | cons segment rest ih =>
      have hrest : ∀ segment ∈ rest, segment.selects = false :=
        fun s hs => hsingular s (.tail _ hs)
      have hnext : ∀ next, child segment value = some next →
          ∃ output, mergeAt result rest next = .ok output :=
        fun next hchild => ih hrest fun hblocked => h (hblocked.cons hchild)
      cases segment with
      | wildcard => exact absurd (hsingular _ (.head _)) (by simp [Segment.selects])
      | slice start stop =>
          exact absurd (hsingular _ (.head _)) (by simp [Segment.selects])
      | member key =>
          cases value with
          | object fields =>
              by_cases hempty : rest = []
              · subst hempty
                exact ⟨_, rfl⟩
              · have hmembers : getField key fields = none →
                    ∀ segment ∈ rest, ∃ name, segment = .member name := by
                  intro hmissing segment hmem
                  have hsegment := hrest segment hmem
                  cases segment with
                  | member name => exact ⟨name, rfl⟩
                  | index i =>
                      obtain ⟨middle, others, rfl⟩ := append_of_mem hmem
                      exact absurd (.arrayToMake [] rfl rfl hmissing) h
                  | wildcard | slice => simp [Segment.selects] at hsegment
                have hmade : ∃ made,
                    mergeAt result rest ((getField key fields).getD (.object [])) = .ok made := by
                  cases hget : getField key fields with
                  | some next => exact hnext next hget
                  | none =>
                      refine ih hrest fun hblocked => ?_
                      obtain ⟨i, hi⟩ := hblocked.exists_index
                      obtain ⟨name, hname⟩ := hmembers hget _ hi
                      cases hname
                obtain ⟨made, hmade⟩ := hmade
                exact ⟨_, by rw [mergeAt_member hempty hmembers, hmade]; rfl⟩
          | null | bool | number | string | array =>
              exact absurd (.notObject [] rfl rfl rfl) h
      | index i =>
          cases value with
          | array values =>
              cases hslot : values[i]? with
              | none =>
                  exact absurd (.outOfRange [] rfl rfl (getElem?_eq_none_iff.mp hslot)) h
              | some slot =>
                  by_cases hempty : rest = []
                  · subst hempty
                    exact ⟨.array (values.set i result), by simp only [mergeAt, hslot]⟩
                  · obtain ⟨made, hmade⟩ := hnext slot hslot
                    exact ⟨_, by rw [mergeAt_index hempty hslot, hmade]; rfl⟩
          | null | bool | number | string | object =>
              exact absurd (.notArray [] rfl rfl rfl) h

/-- A blocked path is blocked where it starts, or behind its first segment. -/
theorem Blocked.inv {segment : Segment} {rest : List Segment} (h : Blocked (segment :: rest) value)
    {next : Value} (hchild : child segment value = some next) : Blocked rest next := by
  have hlookup : ∀ front, lookup (segment :: front) value = lookup front next := by
    intro front
    rw [lookup, hchild, Option.bind_some]
  cases h with
  | notObject front hsplit hfront hkind =>
      cases front with
      | nil =>
          cases hfront
          cases (cons.inj hsplit).1
          cases value with
          | object fields => cases hkind
          | null | bool | number | string | array => cases hchild
      | cons other front =>
          obtain ⟨rfl, htail⟩ := cons.inj hsplit
          exact .notObject front htail ((hlookup _).symm.trans hfront) hkind
  | notArray front hsplit hfront hkind =>
      cases front with
      | nil =>
          cases hfront
          cases (cons.inj hsplit).1
          cases value with
          | array values => cases hkind
          | null | bool | number | string | object => cases hchild
      | cons other front =>
          obtain ⟨rfl, htail⟩ := cons.inj hsplit
          exact .notArray front htail ((hlookup _).symm.trans hfront) hkind
  | outOfRange front hsplit hfront hlen =>
      cases front with
      | nil =>
          cases hfront
          cases (cons.inj hsplit).1
          rw [child_index_array, getElem?_eq_none_iff.mpr hlen] at hchild
          cases hchild
      | cons other front =>
          obtain ⟨rfl, htail⟩ := cons.inj hsplit
          exact .outOfRange front htail ((hlookup _).symm.trans hfront) hlen
  | arrayToMake front hsplit hfront hmissing =>
      cases front with
      | nil =>
          cases hfront
          cases (cons.inj hsplit).1
          rw [child_member_object, hmissing] at hchild
          cases hchild
      | cons other front =>
          obtain ⟨rfl, htail⟩ := cons.inj hsplit
          exact .arrayToMake front htail ((hlookup _).symm.trans hfront) hmissing

theorem not_blocked_nil (value : Value) : ¬Blocked [] value := by
  rintro (⟨front, hsplit, -, -⟩ | ⟨front, hsplit, -, -⟩ | ⟨front, hsplit, -, -⟩ |
    ⟨front, hsplit, -, -⟩) <;> simp at hsplit

theorem not_blocked_of_mergeAt (h : mergeAt result segments value = .ok output) :
    ¬Blocked segments value := by
  induction segments generalizing value output with
  | nil => exact not_blocked_nil value
  | cons segment rest ih =>
      intro hblocked
      cases hchild : child segment value with
      | some next =>
          have hnext := hblocked.inv hchild
          by_cases hempty : rest = []
          · rw [hempty] at hnext
            exact not_blocked_nil next hnext
          · obtain ⟨made, -, hmade⟩ := child_mergeAt_self hempty h
            rw [hchild, Option.getD_some] at hmade
            exact ih hmade hnext
      | none =>
          rcases mergeAt_cons_eq_ok h with
            ⟨key, fields, rfl, rfl, made, rfl, hmade⟩ | ⟨i, values, slot, rfl, rfl, hslot, -⟩
          · have hnothing : ∀ front, lookup (.member key :: front) (.object fields) = none := by
              intro front
              rw [lookup, hchild, Option.bind_none]
            cases hblocked with
            | notObject front hsplit hfront hkind =>
                cases front with
                | nil =>
                    cases hfront
                    cases hkind
                | cons other front =>
                    cases (cons.inj hsplit).1
                    rw [hnothing] at hfront
                    cases hfront
            | notArray front hsplit hfront hkind =>
                cases front with
                | nil => cases (cons.inj hsplit).1
                | cons other front =>
                    cases (cons.inj hsplit).1
                    rw [hnothing] at hfront
                    cases hfront
            | outOfRange front hsplit hfront hlen =>
                cases front with
                | nil => cases (cons.inj hsplit).1
                | cons other front =>
                    cases (cons.inj hsplit).1
                    rw [hnothing] at hfront
                    cases hfront
            | arrayToMake front hsplit hfront hmissing =>
                cases front with
                | nil =>
                    obtain ⟨-, rfl⟩ := cons.inj hsplit
                    rcases hmade with ⟨hend, -⟩ | ⟨-, hmade⟩
                    · simp at hend
                    · rw [child_member_object] at hchild
                      rw [hchild] at hmade
                      obtain ⟨name, hname⟩ := members_of_mergeAt_empty hmade _
                        (mem_append_right _ (.head _))
                      cases hname
                | cons other front =>
                    cases (cons.inj hsplit).1
                    rw [hnothing] at hfront
                    cases hfront
          · rw [child_index_array, hslot] at hchild
            cases hchild

theorem mergeAt_error_iff (result : Value)
    (hsingular : ∀ segment ∈ segments, segment.selects = false) :
    (∃ e, mergeAt result segments value = .error e) ↔ Blocked segments value := by
  constructor
  · rintro ⟨e, h⟩
    by_contra hnot
    obtain ⟨output, hok⟩ := exists_mergeAt result hsingular hnot
    rw [h] at hok
    cases hok
  · intro hblocked
    cases hresult : mergeAt result segments value with
    | error e => exact ⟨e, rfl⟩
    | ok output => exact absurd hblocked (not_blocked_of_mergeAt hresult)

end Laws

end Value

/-- What the reference selects in the data or in the context. -/
def ReferencePath.lookup (p : ReferencePath) (data : Payload) (context : EvaluationContext) :
    Option Value :=
  Value.lookup p.path.segments (match p.path.root with
    | .data => data.value
    | .context => context.value)

/-- Put a result into the input of a state.  At the root it takes the place of the input. -/
def ResultPath.merge (p : ResultPath) (original result : Payload) : Except AslError Payload :=
  if p.path.path.segments.isEmpty then .ok result
  else do
    let output ← Value.mergeAt result.value p.path.path.segments original.value
    Payload.fromValue output

/-! ## Merges of payloads -/

/-- What a merge has to leave: the result at the path, every selection elsewhere as it was, nothing
of itself after a later merge at the path, and arrays as long as they were. -/
structure ResultPath.Puts (p : ResultPath) (original result output : Payload) : Prop where
  selected : ∀ context, p.path.lookup output context = some result.value
  elsewhere : ∀ (q : ReferencePath) (context : EvaluationContext),
    (q.path.root = .data → ¬p.path.path.segments <+: q.path.segments ∧
      ¬q.path.segments <+: p.path.path.segments) →
    q.lookup output context = q.lookup original context
  again : ∀ later, p.merge output later = p.merge original later
  lengths : ∀ (q : ReferencePath) (context : EvaluationContext) (values : List Value),
    (q.path.root = .data → ¬p.path.path.segments <+: q.path.segments) →
    q.lookup original context = some (.array values) →
    ∃ values', q.lookup output context = some (.array values') ∧ values'.length = values.length

namespace ResultPath

variable {p : ResultPath} {original result output : Payload}

theorem merge_root (hroot : p.path.path.segments = []) (original result : Payload) :
    p.merge original result = .ok result := by
  rw [merge, hroot]
  rfl

theorem merge_below (hbelow : p.path.path.segments ≠ []) (original result : Payload) :
    p.merge original result =
      (do
        let output ← Value.mergeAt result.value p.path.path.segments original.value
        Payload.fromValue output) := by
  rw [merge, if_neg (by simpa using hbelow)]

theorem value_of_fromValue {value : Value} {payload : Payload}
    (h : Payload.fromValue value = .ok payload) : payload.value = value := by
  obtain ⟨_, -, h⟩ := Except.bind_eq_ok.mp h
  obtain ⟨bytes, -, h⟩ := Except.bind_eq_ok.mp h
  cases h
  rfl

theorem puts_root (hroot : p.path.path.segments = [])
    (h : p.merge original result = .ok output) : p.Puts original result output := by
  rw [merge_root hroot] at h
  cases h
  refine ⟨fun context => ?_, fun q context hq => ?_, fun later => ?_,
    fun q context values hq hlookup => ?_⟩
  · rw [ReferencePath.lookup, hroot, p.data]
    rfl
  · cases hdata : q.path.root with
    | context => simp only [ReferencePath.lookup, hdata]
    | data => exact absurd (hroot ▸ nil_prefix) (hq hdata).1
  · rw [merge_root hroot, merge_root hroot]
  · cases hdata : q.path.root with
    | context =>
        simp only [ReferencePath.lookup, hdata] at hlookup ⊢
        exact ⟨values, hlookup, rfl⟩
    | data => exact absurd (hroot ▸ nil_prefix) (hq hdata)

theorem puts_below (hbelow : p.path.path.segments ≠ [])
    (h : p.merge original result = .ok output) : p.Puts original result output := by
  rw [merge_below hbelow] at h
  obtain ⟨merged, hmerged, h⟩ := Except.bind_eq_ok.mp h
  obtain rfl := value_of_fromValue h
  refine ⟨fun context => ?_, fun q context hq => ?_, fun later => ?_,
    fun q context values hq hlookup => ?_⟩
  · rw [ReferencePath.lookup, p.data]
    exact Value.lookup_mergeAt hbelow hmerged
  · cases hdata : q.path.root with
    | context => simp only [ReferencePath.lookup, hdata]
    | data =>
        simp only [ReferencePath.lookup, hdata]
        exact Value.lookup_mergeAt_other hmerged (hq hdata).1 (hq hdata).2
  · rw [merge_below hbelow, merge_below hbelow, Value.mergeAt_mergeAt hmerged hbelow]
  · cases hdata : q.path.root with
    | context =>
        simp only [ReferencePath.lookup, hdata] at hlookup ⊢
        exact ⟨values, hlookup, rfl⟩
    | data =>
        simp only [ReferencePath.lookup, hdata] at hlookup ⊢
        exact Value.length_mergeAt hmerged (hq hdata) hlookup

/-- A merge is a lawful put, and it is refused just where something is in the way or the output is
past the limits of a payload. -/
theorem merge_lawful (p : ResultPath) (original result : Payload) :
    (∀ output, p.merge original result = .ok output → p.Puts original result output) ∧
    ((∃ e, p.merge original result = .error e) ↔
      Value.Blocked p.path.path.segments original.value ∨
      p.path.path.segments ≠ [] ∧ ∃ output,
        Value.mergeAt result.value p.path.path.segments original.value = .ok output ∧
        ∃ e, Payload.fromValue output = .error e) := by
  by_cases hroot : p.path.path.segments = []
  · refine ⟨fun output h => puts_root hroot h, ?_⟩
    rw [merge_root hroot, hroot]
    simp [Value.not_blocked_nil]
  · refine ⟨fun output h => puts_below hroot h, ?_⟩
    rw [merge_below hroot, ← Value.mergeAt_error_iff result.value p.path.segments_singular]
    cases hmerged : Value.mergeAt result.value p.path.path.segments original.value with
    | error e => exact ⟨fun _ => .inl ⟨e, rfl⟩, fun _ => ⟨e, rfl⟩⟩
    | ok merged =>
        constructor
        · exact fun herror => .inr ⟨hroot, merged, rfl, herror⟩
        · rintro (⟨e, he⟩ | ⟨-, output, houtput, herror⟩)
          · cases he
          · cases houtput
            exact herror

end ResultPath

end Rustack.StepFunctions
