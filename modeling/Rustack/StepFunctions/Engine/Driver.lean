import Mathlib.Algebra.Ring.Nat
import Rustack.StepFunctions.Engine.Machine

/-!
# The execution driver

A driver interprets one machine on one input.  It performs no effects itself: each
call gives the next step for its owner to take, and it may name an attempt that the
owner has to clean up.  Calls and rounds of branches are attempts, of which the driver
remembers the current one.
-/

namespace Rustack.StepFunctions.Engine

def TASK_SECONDS_LIMIT : ℕ := 99999999

def MAX_ITEMS : ℕ := 10000

def INLINE_LIMIT : ℕ := 40

structure ClockSample where
  monotonic : Instant
  wall : DateTime
  deriving DecidableEq

abbrev AttemptId := ℕ

inductive FailureOrigin where
  | business
  | evaluation (error : AslError)
  | safety
  deriving DecidableEq

structure ExecutionFailure where
  error : Option String
  cause : Option String
  origin : FailureOrigin
  deriving DecidableEq

namespace ExecutionFailure

def fields (error cause : Option String) : ExecutionFailure := ⟨error, cause, .business⟩

def safety (error cause : String) : ExecutionFailure := ⟨some error, some cause, .safety⟩

def named (error cause : String) : ExecutionFailure := ⟨some error, some cause, .business⟩

def evaluation (error : AslError) : ExecutionFailure :=
  let name := match error with
    | .dataLimit | .json .bytes | .json .string | .json .key => "States.DataLimitExceeded"
    | .entropy | .encoding | .allocation | .invalidStateId | .invalidFanoutResult
    | .invalidExecution => "Rustack.InternalError"
    | _ => "States.Runtime"
  { named name "State evaluation failed" with origin := .evaluation error }

end ExecutionFailure

structure TaskFailure where
  failure : ExecutionFailure
  deriving DecidableEq

inductive FanoutFailure where
  | branch (failure : ExecutionFailure)
  | evaluation (error : AslError)
  | propagated (failure : ExecutionFailure)
  | unrecoverable (failure : ExecutionFailure)

inductive ExecutionOutcome where
  | succeeded (output : Payload)
  | failed (failure : ExecutionFailure)
  | timedOut
  | aborted (reason : TaskFailure)

/-! ## Effects -/

structure TaskDispatch where
  attempt : AttemptId
  state : StateId
  parameters : Payload
  deadline : Instant

structure CallbackIdentity where
  attempt : AttemptId
  state : StateId
  deadline : Instant
  timeout : Option ℕ
  heartbeat : Option Duration

structure CallbackDispatch (σ : Type) where
  identity : CallbackIdentity
  machine : CompiledMachine σ
  input : Payload
  context : EvaluationContext

inductive Inputs where
  | parallel
  | map (items : Payload)

structure FanoutPlan (σ : Type) where
  machine : CompiledMachine σ
  state : StateId
  attempt : AttemptId
  effective : Payload
  context : EvaluationContext
  base : EvaluationContext
  inputs : Inputs
  count : ℕ
  concurrency : ℕ
  deadline : Instant

inductive DriverStep (σ : Type) where
  | continue
  | dispatch (dispatch : TaskDispatch)
  | callback (dispatch : CallbackDispatch σ)
  | fanOut (plan : FanoutPlan σ)
  | park (until' : Instant)
  | settled (outcome : ExecutionOutcome)

structure DriverUpdate (σ : Type) where
  step : DriverStep σ
  cancel : Option AttemptId

def update {σ : Type} (step : DriverStep σ) : DriverUpdate σ := ⟨step, none⟩

/-! ## The driver -/

inductive Continuation where
  | retry
  | wait (output : Payload) (next : Transition)

inductive Phase where
  | ready (entry : Bool)
  | calling (attempt : AttemptId) (deadline : Instant)
  | joining (attempt : AttemptId) (count : ℕ)
  | waiting (until' : Instant) (continuation : Continuation)
  | terminal (outcome : ExecutionOutcome)

structure Driver (σ : Type) where
  machine : CompiledMachine σ
  started : Bool
  input : Payload
  base : EvaluationContext
  context : EvaluationContext
  state : StateId
  phase : Phase
  deadline : Instant
  observed : Instant
  entered : DateTime
  generation : ℕ
  retries : List ℕ
  retryCount : ℕ
  remaining : ℕ
  diagnostic : Option AslError
  fanoutStarted : Option ℕ

namespace Driver

variable {σ : Type}

def frame (machine : CompiledMachine σ) (input : Payload) (base : EvaluationContext)
    (started : ClockSample) (deadline : Instant) (remaining : ℕ) : Except AslError (Driver σ) :=
  if !base.value.isObject || deadline ≤ started.monotonic then .error .invalidExecution
  else .ok {
    machine := machine
    started := false
    input := input
    base := base
    context := base
    state := machine.start
    phase := .ready true
    deadline := deadline
    observed := started.monotonic
    entered := started.wall
    generation := 0
    retries := []
    retryCount := 0
    remaining := remaining
    diagnostic := none
    fanoutStarted := none }

def outcome (d : Driver σ) : Option ExecutionOutcome :=
  match d.phase with
  | .terminal outcome => some outcome
  | _ => none

/-- The attempt that is outstanding. -/
def active (d : Driver σ) : Option AttemptId :=
  match d.phase with
  | .calling attempt _ | .joining attempt _ => some attempt
  | _ => none

def settle (d : Driver σ) (outcome : ExecutionOutcome) : DriverStep σ × Driver σ :=
  (.settled outcome, { d with phase := .terminal outcome })

def transfer (d : Driver σ) (output : Payload) (next : Transition) : DriverStep σ × Driver σ :=
  match next with
  | .done => d.settle (.succeeded output)
  | .next state => (.continue, { d with input := output, state := state, phase := .ready true })

def guard (d : Driver σ) (now : ClockSample) : Option (DriverUpdate σ) × Driver σ :=
  match d.phase with
  | .terminal outcome => (some (update (.settled outcome)), d)
  | _ =>
    if now.monotonic < d.observed then
      let cancel := d.active
      let failure := { ExecutionFailure.named "Rustack.InternalError" "Monotonic clock regressed"
        with origin := .evaluation .invalidExecution }
      let (step, d) := { d with diagnostic := some .invalidExecution }.settle (.failed failure)
      (some ⟨step, cancel⟩, d)
    else
      let d := { d with observed := now.monotonic }
      if d.deadline ≤ now.monotonic then
        let cancel := d.active
        let (step, d) := d.settle .timedOut
        (some ⟨step, cancel⟩, d)
      else (none, d)

def currentUpdate (d : Driver σ) : DriverUpdate σ :=
  update (match d.phase with
    | .calling _ deadline => .park deadline
    | .joining _ _ => .park d.deadline
    | .waiting until' _ => .park (min until' d.deadline)
    | .ready _ => .continue
    | .terminal outcome => .settled outcome)

def transitionLimit (d : Driver σ) : DriverStep σ × Driver σ :=
  d.settle (.failed (.safety "Rustack.TransitionLimitExceeded"
    "Execution transition limit exceeded"))

/-! ## Recovery -/

inductive Recovery where
  | retry (index : ℕ) (until' : Instant)
  | catch (output : Payload) (next : StateId)
  | fail
  | limit

/-- Draw until a word is below the greatest multiple of the width. -/
def draws [ExecutionSource σ] (width threshold : ℕ) : ℕ → Eval σ Duration
  | 0 => throw .workLimit
  | tries + 1 => do
    let draw ← (ExecutionSource.randomU64 : Eval σ ℕ)
    if threshold ≤ draw then pure (draw % width) else draws width threshold tries

def jitter [ExecutionSource σ] (cap : Duration) : Eval σ Duration := do
  if 2 ^ 64 ≤ cap + 1 then throw .invalidExecution
  let width := cap + 1
  draws width ((2 ^ 64 - width) % width) 128

def backoff [ExecutionSource σ] (timing : RetryTiming) (prior : ℕ) (remaining : Duration) :
    Eval σ Duration := do
  let cap := match timing.maxDelaySeconds with
    | none => remaining
    | some seconds => min remaining (fromSecs seconds)
  let delay := match timing.below prior cap with
    | none => cap
    | some delay => min delay cap
  match timing.jitter with
  | .none => pure delay
  | .full => jitter delay

def resize (retries : List ℕ) (length : ℕ) : List ℕ :=
  retries.take length ++ List.replicate (length - retries.length) 0

/-- What a catcher makes of a failure. -/
def caught (d : Driver σ) (failure : ExecutionFailure) (catcher : Catcher) :
    Except AslError Recovery := do
  let error ← Payload.fromValue (.object
    ((failure.cause.map fun cause => ("Cause", .string cause)).toList ++
      (failure.error.map fun error => ("Error", .string error)).toList))
  let output ← match catcher.result with
    | .replace => pure error
    | .discard => pure d.input
    | .path merge => merge d.input error
  pure (.catch output catcher.next)

def catches (d : Driver σ) (policy : RecoveryPolicy) (failure : ExecutionFailure) (name : String) :
    Except AslError Recovery :=
  match policy.catches.find? fun catcher => catcher.matcher.matches name with
  | none => .ok .fail
  | some catcher => d.caught failure catcher

def recoveryPlan [ExecutionSource σ] (d : Driver σ) (failure : ExecutionFailure)
    (now : ClockSample) (source : σ) : Except AslError Recovery × Driver σ × σ :=
  match d.machine.state d.state with
  | .error error => (.error error, d, source)
  | .ok view =>
    match view.recovery with
    | none => (.error .invalidStateId, d, source)
    | some policy =>
      let d := { d with retries := resize d.retries policy.retries.length }
      let name := failure.error.getD "States.TaskFailed"
      match policy.retries.zipIdx.find? fun retrier => retrier.1.matcher.matches name with
      | none => (d.catches policy failure name, d, source)
      | some (retrier, index) =>
        match d.retries[index]? with
        | none => (.error .invalidStateId, d, source)
        | some count =>
          if count < retrier.attempts then
            if d.remaining = 0 then (.ok .limit, d, source)
            else
              match backoff retrier.timing count (d.deadline - now.monotonic) source with
              | (.error error, source) => (.error error, d, source)
              | (.ok delay, source) =>
                (.ok (.retry index (now.monotonic + delay)), d, source)
          else (d.catches policy failure name, d, source)

/-- The end of an execution whose evaluation has failed. -/
def settleEvaluation (d : Driver σ) (error : AslError) : DriverStep σ × Driver σ :=
  { d with diagnostic := some error }.settle (.failed (.evaluation error))

def recover [ExecutionSource σ] (d : Driver σ) (failure : ExecutionFailure) (now : ClockSample)
    (source : σ) : DriverStep σ × Driver σ × σ :=
  match d.recoveryPlan failure now source with
  | (.ok (.retry index until'), d, source) =>
    match d.retries[index]? with
    | none =>
      let (step, d) := d.settleEvaluation .invalidStateId
      (step, d, source)
    | some count =>
      (.park until', { d with
        retries := d.retries.set index (min (count + 1) (2 ^ 32 - 1))
        retryCount := min (d.retryCount + 1) (2 ^ 32 - 1)
        phase := .waiting until' .retry }, source)
  | (.ok (.catch output next), d, source) =>
    let (step, d) := d.transfer output (.next next)
    (step, d, source)
  | (.ok .limit, d, source) =>
    let (step, d) := d.transitionLimit
    (step, d, source)
  | (.ok .fail, d, source) =>
    let (step, d) := d.settle (.failed failure)
    (step, d, source)
  | (.error error, d, source) =>
    match error with
    | .merge | .dataLimit | .json _ | .encoding =>
      -- not recovered a second time
      let (step, d) := d.settleEvaluation error
      (step, d, source)
    | _ =>
      let failure := { ExecutionFailure.named "Rustack.InternalError" "Task recovery failed"
        with origin := .evaluation error }
      let (step, d) := { d with diagnostic := some error }.settle (.failed failure)
      (step, d, source)

def propagateFailure [ExecutionSource σ] (d : Driver σ) (failure : ExecutionFailure)
    (now : ClockSample) (source : σ) : DriverStep σ × Driver σ × σ :=
  let d := match failure.origin with
    | .evaluation error => { d with diagnostic := some error }
    | _ => d
  if failure.error = some "States.DataLimitExceeded" then d.recover failure now source
  else
    let (step, d) := d.settle (.failed failure)
    (step, d, source)

def evaluationFailure [ExecutionSource σ] (d : Driver σ) (error : AslError) (now : ClockSample)
    (source : σ) (recover : Bool) : DriverStep σ × Driver σ × σ :=
  let failure := ExecutionFailure.evaluation error
  if recover && failure.error = some "States.DataLimitExceeded" then
    { d with diagnostic := some error }.recover failure now source
  else
    let (step, d) := d.settleEvaluation error
    (step, d, source)

/-! ## States -/

/-- Evaluate something and go on with its value; where that fails the driver is left alone. -/
def after {α : Type} (d : Driver σ) (value : Eval σ α) (source : σ)
    (next : α → DriverStep σ × Driver σ) : Except AslError (DriverStep σ) × Driver σ × σ :=
  match value source with
  | (.error error, source) => (.error error, d, source)
  | (.ok a, source) => (.ok (next a).1, (next a).2, source)

def finishResult (d : Driver σ) (result : Except AslError Payload) (source : σ) :
    Except AslError (DriverStep σ) × Driver σ × σ :=
  d.after (do
    let result ← Eval.ofExcept result
    let view ← Eval.ofExcept (d.machine.state d.state)
    let some (flow, next) := view.joins | throw .invalidStateId
    let output ← flow.finish d.input result d.context
    pure (output, next)) source fun (output, next) => d.transfer output next

def refreshContext (d : Driver σ) : Except AslError (Driver σ) := do
  let some fields := d.base.value.asObject | throw .invalidExecution
  let name ← d.machine.stateName d.state
  let context ← EvaluationContext.fromValue (.object (Value.insertField "State" (.object
    [("EnteredTime", .string d.entered), ("Name", .string name),
      ("RetryCount", .number (.natural d.retryCount))]) fields))
  pure { d with context := context }

def failureField (d : Driver σ) (field : FailureView σ) (max : ℕ) : Eval σ (Option String) :=
  match field with
  | .omitted => pure none
  | .literal text => pure (some text)
  | .dynamic evaluate => do
    let value ← evaluate d.input d.context
    let some text := value.value.asStr | throw .invalidFailure
    if max < text.utf8ByteSize then throw .invalidFailure
    pure (some text)

def taskSeconds (d : Driver σ) (timeout : TaskTimeout) : Except AslError (Option ℕ) :=
  match timeout with
  | .omitted => .ok none
  | .seconds seconds => .ok (some seconds)
  | .path path =>
    match (path.lookup d.input d.context).bind Value.asU64 with
    | some seconds =>
      if 1 ≤ seconds ∧ seconds ≤ TASK_SECONDS_LIMIT then .ok (some seconds) else .error .waitValue
    | none => .error .waitValue

/-- As no more than what remains is added, the sum is an instant. -/
def taskDeadline (d : Driver σ) (seconds : Option ℕ) (now : Instant) : Instant :=
  match seconds with
  | none => d.deadline
  | some seconds => now + min (fromSecs seconds) (d.deadline - now)

def callbackHeartbeat (d : Driver σ) (resource : Integration) (seconds : Option ℕ) :
    Except AslError (Option Duration) :=
  match resource with
  | .lambdaCallback timeout => do
    let heartbeat ← d.taskSeconds timeout
    if heartbeat.any fun h => seconds.getD TASK_SECONDS_LIMIT ≤ h then throw .waitValue
    pure (heartbeat.map fromSecs)
  | _ => .ok none

/-- What a task has to know before its attempt gets an id. -/
structure TaskPlan where
  seconds : Option ℕ
  heartbeat : Option Duration
  parameters : Option Payload

def taskPlan (d : Driver σ) (flow : DataFlow σ) (timeout : TaskTimeout) (resource : Integration) :
    Eval σ TaskPlan := do
  let seconds ← Eval.ofExcept (d.taskSeconds timeout)
  let heartbeat ← Eval.ofExcept (d.callbackHeartbeat resource seconds)
  let parameters ← match resource with
    | .lambdaCallback _ => pure none
    | _ => some <$> flow.prepare d.input d.context
  if 2 ^ 64 ≤ d.generation + 1 then throw .invalidExecution
  pure ⟨seconds, heartbeat, parameters⟩

def task (d : Driver σ) (flow : DataFlow σ) (timeout : TaskTimeout) (resource : Integration)
    (now : ClockSample) (source : σ) : Except AslError (DriverStep σ) × Driver σ × σ :=
  d.after (d.taskPlan flow timeout resource) source fun plan =>
    let attempt := d.generation + 1
    let deadline := d.taskDeadline plan.seconds now.monotonic
    (match plan.parameters with
      | some parameters => .dispatch ⟨attempt, d.state, parameters, deadline⟩
      | none => .callback ⟨⟨attempt, d.state, deadline, plan.seconds, plan.heartbeat⟩, d.machine,
          d.input, d.context⟩,
      { d with generation := attempt, phase := .calling attempt deadline })

/-! ## Branches -/

structure FanoutInputs where
  effective : Payload
  inputs : Inputs
  count : ℕ
  concurrency : ℕ

def mapConcurrency (d : Driver σ) (concurrency : MapConcurrency) (effective : Payload) :
    Except AslError ℕ :=
  match concurrency with
  | .limit limit => .ok limit
  | .path path =>
    match (path.lookup effective d.context).bind Value.asU64 with
    | some number =>
      if INLINE_LIMIT < number then .error .invalidMap
      else if number = 0 then .ok INLINE_LIMIT
      else .ok number
    | none => .error .invalidMap

def fanoutInputs (d : Driver σ) : Eval σ FanoutInputs := do
  let view ← Eval.ofExcept (d.machine.state d.state)
  match view with
  | .parallel flow branches _ _ =>
    let effective ← flow.prepare d.input d.context
    pure ⟨effective, .parallel, branches.length, branches.length⟩
  | .map flow items _ _ concurrency _ _ =>
    let effective ← flow.prepare d.input d.context
    let some selected := items.lookup effective d.context | throw .missing
    let some values := selected.asArray | throw .invalidMap
    if MAX_ITEMS < values.length then throw .invalidMap
    let items ← Eval.ofExcept (Payload.fromValue selected)
    let concurrency ← Eval.ofExcept (d.mapConcurrency concurrency effective)
    pure ⟨effective, .map items, values.length, concurrency⟩
  | _ => throw .invalidStateId

/-- Branches do not see the item of an enclosing map. -/
def branchBase (d : Driver σ) : Except AslError EvaluationContext :=
  match d.base.value.asObject with
  | none => .ok d.base
  | some fields =>
    if (Value.getField "Map" fields).isSome then
      EvaluationContext.fromValue (.object (Value.removeField "Map" fields))
    else .ok d.base

def fanoutRound (d : Driver σ) (inputs : FanoutInputs) (source : σ) :
    Except AslError (DriverStep σ) × Driver σ × σ :=
  match d.branchBase with
  | .error error => (.error error, d, source)
  | .ok base =>
    if 2 ^ 64 ≤ d.generation + 1 then (.error .invalidExecution, d, source)
    else
      let d := { d with generation := d.generation + 1 }
      if inputs.concurrency = 0 then (.error .invalidMap, d, source)
      else
        let plan := {
          machine := d.machine
          state := d.state
          attempt := d.generation
          effective := inputs.effective
          context := d.context
          base := base
          inputs := inputs.inputs
          count := inputs.count
          concurrency := inputs.concurrency
          deadline := d.deadline }
        (.ok (.fanOut plan), { d with phase := .joining d.generation inputs.count }, source)

def fanout (d : Driver σ) (source : σ) : Except AslError (DriverStep σ) × Driver σ × σ :=
  match d.fanoutInputs source with
  | (.error error, source) => (.error error, d, source)
  | (.ok inputs, source) =>
    let d := { d with fanoutStarted := some inputs.count }
    if inputs.count = 0 then d.finishResult (.ok ⟨.array [], "[]"⟩) source
    else d.fanoutRound inputs source

/-! ## Execution -/

def selectBranch (branches : List (Predicate × StateId)) (prepared : Payload)
    (context : EvaluationContext) : Except AslError (Option StateId) :=
  match branches with
  | [] => .ok none
  | (predicate, target) :: branches => do
    if ← predicate.evaluate prepared context then pure (some target)
    else selectBranch branches prepared context

def execute (d : Driver σ) (now : ClockSample) (source : σ) :
    Except AslError (DriverStep σ) × Driver σ × σ :=
  match d.machine.state d.state with
  | .error error => (.error error, d, source)
  | .ok (.parallel ..) | .ok (.map ..) => d.fanout source
  | .ok (.pass flow result next) =>
    d.after (do
      let prepared ← flow.prepare d.input d.context
      let result ← match result with
        | some value => Eval.ofExcept (Payload.fromValue value)
        | none => pure prepared
      flow.finish d.input result d.context) source fun output => d.transfer output next
  | .ok (.succeed flow) =>
    d.after (do
      let prepared ← flow.prepare d.input d.context
      flow.finish d.input prepared d.context) source fun output => d.settle (.succeeded output)
  | .ok (.fail error cause) =>
    d.after (do
      let error ← d.failureField error 256
      let cause ← d.failureField cause 32768
      pure (error, cause)) source fun (error, cause) => d.settle (.failed (.fields error cause))
  | .ok (.choice flow branches default) =>
    d.after (do
      let prepared ← flow.prepare d.input d.context
      let selected ← Eval.ofExcept (selectBranch branches prepared d.context)
      match selected.or default with
      | none => pure none
      | some target =>
        let output ← flow.finish d.input prepared d.context
        pure (some (output, target))) source fun
      | none => d.settle (.failed (.named "States.NoChoiceMatched"
          "No Choice rule or default matched"))
      | some (output, target) => d.transfer output (.next target)
  | .ok (.wait flow wait next) =>
    d.after (do
      let prepared ← flow.prepare d.input d.context
      let duration ← Eval.ofExcept (wait.resolve prepared d.context now.wall)
      let output ← flow.finish d.input prepared d.context
      pure (output, duration)) source fun (output, duration) =>
        if duration = 0 then d.transfer output next
        else
          let until' := now.monotonic + min duration (d.deadline - now.monotonic)
          (.park until', { d with phase := .waiting until' (.wait output next) })
  | .ok (.task flow resource timeout _ _) => d.task flow timeout resource now source

/-- Show the state in the context and execute it. -/
def execution (d : Driver σ) (now : ClockSample) (source : σ) :
    Except AslError (DriverStep σ) × Driver σ × σ :=
  match d.refreshContext with
  | .error error => (.error error, d, source)
  | .ok d => d.execute now source

/-- A state is entered, or tried again. -/
def enter (d : Driver σ) (entry : Bool) (now : ClockSample) : Driver σ :=
  let d := { d with remaining := d.remaining - 1 }
  if entry then { d with entered := now.wall, retryCount := 0, retries := [] } else d

def ready [ExecutionSource σ] (d : Driver σ) (entry : Bool) (now : ClockSample) (source : σ) :
    DriverUpdate σ × Driver σ × σ :=
  if d.remaining = 0 then
    let (step, d) := d.transitionLimit
    (update step, d, source)
  else
    match (d.enter entry now).execution now source with
    | (.ok step, d, source) => (update step, d, source)
    | (.error error, d, source) =>
      let task := match d.machine.state d.state with
        | .ok view => view.recovery.isSome
        | .error _ => false
      let (step, d, source) := d.evaluationFailure error now source task
      (update step, d, source)

/-! ## Calls -/

def advance [ExecutionSource σ] (d : Driver σ) (now : ClockSample) (source : σ) :
    DriverUpdate σ × Driver σ × σ :=
  match { d with started := true }.guard now with
  | (some update, d) => (update, d, source)
  | (none, d) =>
    let taken := { d with phase := .ready false }
    match d.phase with
    | .ready entry => taken.ready entry now source
    | .calling attempt deadline =>
      if deadline ≤ now.monotonic then
        let (step, d, source) := taken.recover (.fields (some "States.Timeout") none) now source
        (⟨step, some attempt⟩, d, source)
      else
        (update (.park deadline), { taken with phase := .calling attempt deadline }, source)
    | .joining attempt count =>
      (update (.park d.deadline), { taken with phase := .joining attempt count }, source)
    | .waiting until' continuation =>
      if now.monotonic < until' then
        (update (.park (min until' d.deadline)),
          { taken with phase := .waiting until' continuation }, source)
      else
        match continuation with
        | .retry => (update .continue, taken, source)
        | .wait output next =>
          let (step, d) := taken.transfer output next
          (update step, d, source)
    | .terminal outcome =>
      (update (.settled outcome), { taken with phase := .terminal outcome }, source)

def settleFailure [ExecutionSource σ] (d : Driver σ) (failure : ExecutionFailure)
    (now : ClockSample) (source : σ) : DriverStep σ × Driver σ × σ :=
  match failure.origin with
  | .business => d.recover failure now source
  | .evaluation _ => d.propagateFailure failure now source
  | .safety =>
    let (step, d) := d.settle (.failed failure)
    (step, d, source)

/-- Go on with the result of an attempt; what cannot be used is a failure of the state. -/
def joined [ExecutionSource σ] (d : Driver σ) (result : Except AslError Payload)
    (now : ClockSample) (source : σ) : DriverStep σ × Driver σ × σ :=
  match d.finishResult result source with
  | (.ok step, d, source) => (step, d, source)
  | (.error error, d, source) => d.evaluationFailure error now source true

def complete [ExecutionSource σ] (d : Driver σ) (attempt : AttemptId)
    (result : Except TaskFailure Payload) (now : ClockSample) (source : σ) :
    DriverUpdate σ × Driver σ × σ :=
  match { d with started := true }.guard now with
  | (some update, d) => (update, d, source)
  | (none, d) =>
    match d.phase with
    | .calling current deadline =>
      if current ≠ attempt then (d.currentUpdate, d, source)
      else if deadline ≤ now.monotonic then d.advance now source
      else
        let d := { d with phase := .ready false }
        let (step, d, source) := match result with
          | .error failure => d.settleFailure failure.failure now source
          | .ok result => d.joined (.ok result) now source
        (update step, d, source)
    | _ => (d.currentUpdate, d, source)

def completeFanout [ExecutionSource σ] (d : Driver σ) (attempt : AttemptId)
    (result : Except FanoutFailure Payload) (now : ClockSample) (source : σ) :
    DriverUpdate σ × Driver σ × σ :=
  match { d with started := true }.guard now with
  | (some update, d) => (update, d, source)
  | (none, d) =>
    match d.phase with
    | .joining current count =>
      if current ≠ attempt then (d.currentUpdate, d, source)
      else
        let d := { d with phase := .ready false }
        let (step, d, source) := match result with
          | .error (.branch failure) => d.settleFailure failure now source
          | .error (.propagated failure) => d.propagateFailure failure now source
          | .error (.evaluation error) => d.evaluationFailure error now source true
          | .error (.unrecoverable failure) =>
            let (step, d) := d.settle (.failed failure)
            (step, d, source)
          | .ok result =>
            let result := if result.value.asArray.any fun values => values.length = count
              then .ok result else .error .invalidFanoutResult
            d.joined result now source
        (update step, d, source)
    | _ => (d.currentUpdate, d, source)

def stop (d : Driver σ) (reason : TaskFailure) (now : ClockSample) : DriverUpdate σ × Driver σ :=
  match { d with started := true }.guard now with
  | (some update, d) => (update, d)
  | (none, d) =>
    let cancel := d.active
    let (step, d) := d.settle (.aborted reason)
    (⟨step, cancel⟩, d)

end Driver

end Rustack.StepFunctions.Engine
