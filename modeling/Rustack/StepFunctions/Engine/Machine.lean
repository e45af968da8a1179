import Rustack.StepFunctions.Json

/-!
# Compiled state machines

What an execution needs of a compiled machine: its states, their transitions and
their recovery policies.  The expressions of a state are taken as the functions that
they compute.  They can draw on a source of entropy, also when they fail.
-/

namespace Rustack.StepFunctions.Engine

/-- Instants and durations are in nanoseconds. -/
abbrev Instant := ℕ

abbrev Duration := ℕ

def fromSecs (seconds : ℕ) : Duration := seconds * 1000000000

/-- A wall clock time, as it is shown in the context of a state. -/
abbrev DateTime := String

abbrev Eval (σ : Type) := ExceptT AslError (StateM σ)

def Eval.ofExcept {σ α : Type} (result : Except AslError α) : Eval σ α :=
  fun source => (result, source)

/-- A value that has been computed in two steps. -/
theorem Eval.bind_eq_ok {σ α β : Type} {x : Eval σ α} {f : α → Eval σ β} {source source' : σ}
    {b : β} (h : (x >>= f) source = (.ok b, source')) :
    ∃ a source'', x source = (.ok a, source'') ∧ f a source'' = (.ok b, source') := by
  have hbind : (x >>= f) source =
      (fun p : Except AslError α × σ => (ExceptT.bindCont f p.1 : StateM σ _) p.2) (x source) := rfl
  rw [hbind] at h
  rcases hx : x source with ⟨result, source''⟩
  rw [hx] at h
  cases result with
  | error error => cases h
  | ok a => exact ⟨a, source'', rfl, h⟩

theorem Eval.ofExcept_eq_ok {σ α : Type} {result : Except AslError α} {source source' : σ} {a : α}
    (h : Eval.ofExcept result source = (.ok a, source')) : result = .ok a ∧ source = source' := by
  cases h
  exact ⟨rfl, rfl⟩

/-- The entropy that retries draw on. -/
class ExecutionSource (σ : Type) where
  randomU64 : σ → Except AslError ℕ × σ

structure DataFlow (σ : Type) where
  prepare : Payload → EvaluationContext → Eval σ Payload
  finish : Payload → Payload → EvaluationContext → Eval σ Payload

structure ReferencePath where
  lookup : Payload → EvaluationContext → Option Value

structure Predicate where
  evaluate : Payload → EvaluationContext → Except AslError Bool

structure WaitSource where
  resolve : Payload → EvaluationContext → DateTime → Except AslError Duration

structure Template (σ : Type) where
  evaluate : Payload → EvaluationContext → Eval σ Payload

abbrev StateId := ℕ

inductive Transition where
  | next (state : StateId)
  | done
  deriving DecidableEq

inductive TaskTimeout where
  | omitted
  | seconds (seconds : ℕ)
  | path (path : ReferencePath)

inductive MapConcurrency where
  | limit (limit : ℕ)
  | path (path : ReferencePath)

inductive FailureView (σ : Type) where
  | omitted
  | literal (text : String)
  | dynamic (evaluate : Payload → EvaluationContext → Eval σ Payload)

inductive Integration where
  | directLambda
  | lambdaInvoke
  | lambdaCallback (heartbeat : TaskTimeout)
  | startExecution

/-! ## Recovery -/

inductive Jitter where
  | none
  | full
  deriving DecidableEq

/-- The delays of a retrier.  `below prior cap` is the delay after so many retries, which is
computed in floating point, if it is below the cap. -/
structure RetryTiming where
  below : ℕ → Duration → Option Duration
  maxDelaySeconds : Option ℕ
  jitter : Jitter

structure Matcher where
  names : List String

def Matcher.matches (matcher : Matcher) (error : String) : Bool :=
  if 256 < error.utf8ByteSize ∨ error = "States.Runtime" then false
  else matcher.names.any fun name =>
    if name = error then true
    else if error = "States.DataLimitExceeded" then false
    else name = "States.ALL" || (name = "States.TaskFailed" && error ≠ "States.Timeout")

structure Retrier where
  matcher : Matcher
  attempts : ℕ
  timing : RetryTiming

inductive CatchResult where
  | replace
  | discard
  | path (merge : Payload → Payload → Except AslError Payload)

structure Catcher where
  matcher : Matcher
  next : StateId
  result : CatchResult

structure RecoveryPolicy where
  retries : List Retrier
  catches : List Catcher

/-! ## States -/

/-- A state; `M` are the machines of its branches. -/
inductive StateView (σ M : Type) where
  | pass (flow : DataFlow σ) (result : Option Value) (next : Transition)
  | task (flow : DataFlow σ) (resource : Integration) (timeout : TaskTimeout)
      (recovery : RecoveryPolicy) (next : Transition)
  | parallel (flow : DataFlow σ) (branches : List M) (recovery : RecoveryPolicy)
      (next : Transition)
  | map (flow : DataFlow σ) (items : ReferencePath) (selector : Option (Template σ))
      (processor : M) (concurrency : MapConcurrency) (recovery : RecoveryPolicy)
      (next : Transition)
  | choice (flow : DataFlow σ) (branches : List (Predicate × StateId)) (default : Option StateId)
  | wait (flow : DataFlow σ) (source : WaitSource) (next : Transition)
  | succeed (flow : DataFlow σ)
  | fail (error cause : FailureView σ)

namespace StateView

variable {σ M : Type}

/-- The policy of a state that can fail and be recovered. -/
def recovery : StateView σ M → Option RecoveryPolicy
  | task _ _ _ recovery _ | parallel _ _ recovery _ | map _ _ _ _ _ recovery _ => some recovery
  | _ => none

/-- How a state goes on with the result of its task or of its branches. -/
def joins : StateView σ M → Option (DataFlow σ × Transition)
  | task flow _ _ _ next | parallel flow _ _ next | map flow _ _ _ _ _ next => some (flow, next)
  | _ => none

end StateView

structure CompiledMachine (σ : Type) where
  rows : List (String × StateView σ (CompiledMachine σ))
  start : StateId
  timeout : Option ℕ

namespace CompiledMachine

variable {σ : Type}

def state (machine : CompiledMachine σ) (id : StateId) :
    Except AslError (StateView σ (CompiledMachine σ)) :=
  match machine.rows[id]? with
  | some row => .ok row.2
  | none => .error .invalidStateId

def stateName (machine : CompiledMachine σ) (id : StateId) : Except AslError String :=
  match machine.rows[id]? with
  | some row => .ok row.1
  | none => .error .invalidStateId

theorem mem_rows_of_state {machine : CompiledMachine σ} {id : StateId}
    {view : StateView σ (CompiledMachine σ)} (h : machine.state id = .ok view) :
    ∃ name, (name, view) ∈ machine.rows := by
  unfold state at h
  split at h
  · next row hrow =>
      cases h
      exact ⟨row.1, List.mem_of_getElem? hrow⟩
  · cases h

end CompiledMachine

end Rustack.StepFunctions.Engine
