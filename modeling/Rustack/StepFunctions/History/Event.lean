import Mathlib.Algebra.Ring.Nat
import Mathlib.Data.List.Forall2
import Rustack.Lib.Utf8

/-!
# History events and their encoding

An event as the history keeps it.  Of its members only the ones that the history
itself reads or leaves out are told apart, in the order of their declaration; the
others are kept as encoded members and stand behind them.  The encoding is the
compact JSON of the event: an object whose absent members are left out.  Only its
length is ever used, and that is the same wherever the others stand.
-/

namespace Rustack.StepFunctions

open List

/-- The encoded text of a JSON value. -/
abbrev JsonText := List UInt8

def ascii (text : String) : JsonText := Utf8.encode text.toList

/-- A member that may be absent. -/
structure Member where
  name : String
  value : Option JsonText

def Member.present (name : String) (value : JsonText) : Member where
  name
  value := some value

/-- The text of a member with its name, nothing if it is absent. -/
def Member.encode (m : Member) : Option JsonText :=
  m.value.map fun value => ascii "\"" ++ ascii m.name ++ ascii "\":" ++ value

/-- `{"name":value,...}` with the members that are there. -/
def encodeObject (members : List Member) : JsonText :=
  ascii "\x7b" ++ ((members.filterMap Member.encode).intersperse (ascii ",")).flatten ++
    ascii "\x7d"

/-- The details of an event that carry an input or an output. -/
structure DataDetails where
  members : List (String × JsonText)
  data : Option JsonText
  dataDetails : Option JsonText
  deriving DecidableEq

/-- The members before the others are called `input` and `inputDetails`, or `output` and
`outputDetails`. -/
def DataDetails.encode (name : String) (d : DataDetails) : JsonText :=
  encodeObject ({ name, value := d.data } ::
    { name := name ++ "Details", value := d.dataDetails } ::
    d.members.map fun m => .present m.1 m.2)

def DataDetails.omit (d : DataDetails) : DataDetails :=
  { d with
    data := none
    dataDetails := none }

structure HistoryEvent where
  id : ℕ
  previousEventId : Option ℕ
  executionStarted : Option DataDetails
  executionSucceeded : Option DataDetails
  stateEntered : Option DataDetails
  stateExited : Option DataDetails
  lambdaFunctionScheduled : Option DataDetails
  lambdaFunctionSucceeded : Option DataDetails
  taskSucceeded : Option DataDetails
  taskSubmitted : Option DataDetails
  taskScheduled : Option JsonText
  others : List (String × JsonText)
  deriving DecidableEq

namespace HistoryEvent

def members (event : HistoryEvent) : List Member :=
  [{ name := "executionStartedEventDetails"
     value := event.executionStarted.map (·.encode "input") },
    { name := "executionSucceededEventDetails"
      value := event.executionSucceeded.map (·.encode "output") },
    .present "id" (ascii (toString event.id)),
    { name := "lambdaFunctionScheduledEventDetails"
      value := event.lambdaFunctionScheduled.map (·.encode "input") },
    { name := "lambdaFunctionSucceededEventDetails"
      value := event.lambdaFunctionSucceeded.map (·.encode "output") },
    { name := "previousEventId"
      value := event.previousEventId.map fun id => ascii (toString id) },
    { name := "stateEnteredEventDetails", value := event.stateEntered.map (·.encode "input") },
    { name := "stateExitedEventDetails", value := event.stateExited.map (·.encode "output") },
    { name := "taskScheduledEventDetails", value := event.taskScheduled },
    { name := "taskSubmittedEventDetails", value := event.taskSubmitted.map (·.encode "output") },
    { name := "taskSucceededEventDetails",
      value := event.taskSucceeded.map (·.encode "output") }] ++
    event.others.map fun m => .present m.1 m.2

/-- `serde_json::to_writer`. -/
def encode (event : HistoryEvent) : JsonText := encodeObject event.members

/-- Data omission keeps identity, type and causality. -/
def omitData (event : HistoryEvent) : HistoryEvent :=
  { event with
    executionStarted := event.executionStarted.map DataDetails.omit
    executionSucceeded := event.executionSucceeded.map DataDetails.omit
    stateEntered := event.stateEntered.map DataDetails.omit
    stateExited := event.stateExited.map DataDetails.omit
    lambdaFunctionScheduled := event.lambdaFunctionScheduled.map DataDetails.omit
    lambdaFunctionSucceeded := event.lambdaFunctionSucceeded.map DataDetails.omit
    taskSucceeded := event.taskSucceeded.map DataDetails.omit
    taskSubmitted := event.taskSubmitted.map DataDetails.omit
    taskScheduled := none }

end HistoryEvent

/-! ## Leaving members out -/

/-- A member that keeps its name and gets shorter or goes. -/
structure Member.Shorter (m m' : Member) : Prop where
  name : m.name = m'.name
  value : ∀ value, m.value = some value → ∃ value', m'.value = some value' ∧
    value.length ≤ value'.length

theorem Member.Shorter.refl (m : Member) : m.Shorter m where
  name := rfl
  value := fun value hvalue => ⟨value, hvalue, Nat.le_refl _⟩

/-- The length of a list of texts with one character between them. -/
theorem length_flatten_intersperse (sep : UInt8) (texts : List JsonText) :
    (texts.intersperse [sep]).flatten.length =
      (texts.map length).sum + (texts.length - 1) := by
  induction texts with
  | nil => rfl
  | cons text texts ih =>
      cases texts with
      | nil => simp
      | cons text' texts =>
          rw [intersperse_cons_cons, flatten_cons, flatten_cons, length_append,
            length_append, ih]
          simp only [map_cons, sum_cons, length_cons, length_nil]
          omega

theorem Member.Shorter.encode {m m' : Member} (h : m.Shorter m') {text : JsonText}
    (htext : m.encode = some text) :
    ∃ text', m'.encode = some text' ∧ text.length ≤ text'.length := by
  obtain ⟨value, hvalue, rfl⟩ := Option.map_eq_some_iff.mp htext
  obtain ⟨value', hvalue', hle⟩ := h.value value hvalue
  refine ⟨_, Option.map_eq_some_iff.mpr ⟨value', hvalue', rfl⟩, ?_⟩
  simp only [h.name, length_append]
  exact Nat.add_le_add_left hle _

theorem length_encodeObject_le {members members' : List Member}
    (h : List.Forall₂ Member.Shorter members members') :
    (encodeObject members).length ≤ (encodeObject members').length := by
  have hsums : ((members.filterMap Member.encode).map length).sum ≤
        ((members'.filterMap Member.encode).map length).sum ∧
      (members.filterMap Member.encode).length ≤ (members'.filterMap Member.encode).length := by
    induction h with
    | nil => exact ⟨Nat.le_refl _, Nat.le_refl _⟩
    | @cons m m' ms ms' hm _ ih =>
        cases htext : m.encode with
        | none =>
            rw [filterMap_cons_none htext]
            cases htext' : m'.encode with
            | none =>
                rw [filterMap_cons_none htext']
                exact ih
            | some text' =>
                rw [filterMap_cons_some htext', map_cons, sum_cons,
                  length_cons]
                exact ⟨Nat.le_add_left_of_le ih.1, Nat.le_succ_of_le ih.2⟩
        | some text =>
            obtain ⟨text', htext', hle⟩ := hm.encode htext
            rw [filterMap_cons_some htext, filterMap_cons_some htext', map_cons,
              map_cons, sum_cons, sum_cons, length_cons, length_cons]
            exact ⟨Nat.add_le_add hle ih.1, Nat.succ_le_succ ih.2⟩
  unfold encodeObject
  rw [length_append, length_append, length_append, length_append,
    show ascii "," = [44] by decide, length_flatten_intersperse, length_flatten_intersperse]
  have hsub := Nat.sub_le_sub_right hsums.2 1
  exact Nat.add_le_add_right (Nat.add_le_add_left (Nat.add_le_add hsums.1 hsub) _) _

theorem length_encode_omit_le (name : String) (d : DataDetails) :
    (d.omit.encode name).length ≤ (d.encode name).length := by
  have hnone : ∀ (name : String) (value : Option JsonText),
      Member.Shorter { name, value := none } { name, value } := by
    intro name value
    exact ⟨rfl, fun value hvalue => absurd hvalue (Option.some_ne_none value).symm⟩
  apply length_encodeObject_le
  refine List.Forall₂.cons (hnone _ _) (List.Forall₂.cons (hnone _ _) ?_)
  exact forall₂_same.mpr fun m _ => Member.Shorter.refl m

theorem HistoryEvent.length_encode_omitData_le (event : HistoryEvent) :
    event.omitData.encode.length ≤ event.encode.length := by
  have hdetails : ∀ (name data : String) (details : Option DataDetails),
      Member.Shorter { name, value := (details.map DataDetails.omit).map (·.encode data) }
        { name, value := details.map (·.encode data) } := by
    intro name data details
    refine ⟨rfl, fun value hvalue => ?_⟩
    cases details with
    | none => cases hvalue
    | some d =>
        cases hvalue
        exact ⟨_, rfl, length_encode_omit_le data d⟩
  apply length_encodeObject_le
  refine rel_append ?_ (forall₂_same.mpr fun m _ => Member.Shorter.refl m)
  refine .cons (hdetails _ _ _) (.cons (hdetails _ _ _) (.cons (.refl _) ?_))
  refine .cons (hdetails _ _ _) (.cons (hdetails _ _ _) (.cons (.refl _) ?_))
  refine .cons (hdetails _ _ _) (.cons (hdetails _ _ _) (.cons ⟨rfl, ?_⟩ ?_))
  · intro value hvalue
    cases hvalue
  · exact .cons (hdetails _ _ _) (.cons (hdetails _ _ _) .nil)

end Rustack.StepFunctions
