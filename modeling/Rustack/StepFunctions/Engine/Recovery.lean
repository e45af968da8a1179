import Rustack.Lib.Outcome
import Rustack.StepFunctions.Engine.Attempts
import Rustack.StepFunctions.Engine.Backoff

/-!
# Retry and Catch

A visit to a state begins when the state is entered and goes on through its retries.
What a policy is to make of the failures of a visit depends only on the input of the
visit and on the retriers that it has used.  The driver counts these; that its counts
are right is kept by every call, whatever the failures are.
-/

namespace Rustack.StepFunctions.Engine

open List ExecutionFailure

/-- The name that policies match. -/
def ExecutionFailure.name (failure : ExecutionFailure) : String :=
  failure.error.getD "States.TaskFailed"

/-- The policy of the state is asked about a failure. -/
def ExecutionFailure.recoverable (failure : ExecutionFailure) : Bool :=
  match failure.origin with
  | .business => true
  | .evaluation _ => failure.error = some "States.DataLimitExceeded"
  | .safety => false

def ExecutionFailure.object (failure : ExecutionFailure) : Value :=
  .object ((failure.cause.map fun cause => ("Cause", .string cause)).toList ++
    (failure.error.map fun error => ("Error", .string error)).toList)

/-- What a state is left with when it has caught a failure. -/
def Catcher.output (catcher : Catcher) (input : Payload) (failure : ExecutionFailure) :
    Except AslError Payload := do
  let error ← Payload.fromValue failure.object
  match catcher.result with
  | .replace => pure error
  | .discard => pure input
  | .path merge => merge input error

/-- As the compiler makes the timing of a retrier. -/
def RetryTiming.Compiled (timing : RetryTiming) : Prop :=
  ∃ fields : TimingFields, timing = fields.timing

/-- Policies as they are compiled: attempts are counted in machine words. -/
def RecoveryPolicy.Compiled (policy : RecoveryPolicy) : Prop :=
  ∀ retrier ∈ policy.retries, retrier.attempts < 2 ^ 32 ∧ retrier.timing.Compiled

def CompiledMachine.Recovers {σ : Type} (machine : CompiledMachine σ) : Prop :=
  ∀ name view policy, (name, view) ∈ machine.rows → view.recovery = some policy → policy.Compiled

namespace RecoveryPolicy

variable {policy : RecoveryPolicy} {name : String} {index : ℕ} {retrier : Retrier}

/-- The first retrier of a failure. -/
structure First (policy : RecoveryPolicy) (name : String) (index : ℕ) (retrier : Retrier) :
    Prop where
  get : policy.retries[index]? = some retrier
  named : retrier.matcher.matches name = true
  before : ∀ i < index, ∀ other, policy.retries[i]? = some other →
    other.matcher.matches name = false

def first (policy : RecoveryPolicy) (name : String) : Option ℕ :=
  policy.retries.findIdx? fun retrier => retrier.matcher.matches name

theorem first_of_find
    (h : (policy.retries.zipIdx.find? fun retrier => retrier.1.matcher.matches name) =
      some (retrier, index)) :
    policy.First name index retrier ∧ policy.first name = some index := by
  have hfirst : policy.first name = some index := by
    rw [first, findIdx?_eq_fst_find?_zipIdx]
    exact congrArg (Option.map (·.2)) h
  have hget : policy.retries[index]? = some retrier :=
    mk_mem_zipIdx_iff_getElem?.mp (mem_of_find?_eq_some h)
  obtain ⟨hlt, -, hbefore⟩ := findIdx?_eq_some_iff_getElem.mp hfirst
  have hnamed := List.find?_some h
  refine ⟨⟨hget, hnamed, fun i hi other hother => ?_⟩, hfirst⟩
  obtain ⟨hi', rfl⟩ := List.getElem?_eq_some_iff.mp hother
  exact Bool.eq_false_iff.mpr (hbefore i hi)

theorem none_of_find
    (h : (policy.retries.zipIdx.find? fun retrier => retrier.1.matcher.matches name) = none) :
    policy.first name = none := by
  rw [first, findIdx?_eq_fst_find?_zipIdx]
  exact congrArg (Option.map (·.2)) h

theorem First.first (h : policy.First name index retrier) : policy.first name = some index := by
  obtain ⟨hlt, heq⟩ := List.getElem?_eq_some_iff.mp h.get
  refine List.findIdx?_eq_some_iff_getElem.mpr ⟨hlt, ?_, fun j hj => ?_⟩
  · rw [heq]
    exact h.named
  · have hother := h.before j hj _ (getElem?_eq_getElem (hj.trans hlt))
    exact Bool.eq_false_iff.mp hother

theorem First.find (h : policy.First name index retrier) :
    (policy.retries.zipIdx.find? fun retrier => retrier.1.matcher.matches name) =
      some (retrier, index) := by
  cases hfind : policy.retries.zipIdx.find? fun retrier => retrier.1.matcher.matches name with
  | none =>
      have hnone := none_of_find hfind
      rw [h.first] at hnone
      cases hnone
  | some found =>
      obtain ⟨hfirst, hindex⟩ := first_of_find hfind
      rw [h.first] at hindex
      cases hindex
      have hget := hfirst.get
      rw [h.get] at hget
      cases hget
      rfl

end RecoveryPolicy

/-- A visit to a state: the input it was entered with, and the retriers used in it. -/
structure Visit where
  input : Payload
  used : List ℕ

/-- A visit after a failure, if a retrier has been used for it. -/
def Visit.retried (v : Visit) (policy : RecoveryPolicy) (failure : ExecutionFailure)
    (phase : Phase) : Visit :=
  match phase with
  | .waiting _ .retry => { v with used := v.used ++ (policy.first failure.name).toList }
  | _ => v

/-- No retrier of a policy is left for a failure. -/
def RecoveryPolicy.Exhausted (policy : RecoveryPolicy) (v : Visit) (name : String) : Prop :=
  ∀ index retrier, policy.First name index retrier → retrier.attempts ≤ v.used.count index

/-- A delay that a retrier schedules after so many retries.  It has been computed from a number
of seconds that is not negative, and nothing has failed. -/
structure RetryTiming.Schedules (timing : RetryTiming) (prior : ℕ) (remaining delay : Duration) :
    Prop where
  computed : ∃ (fields : TimingFields) (bound : Duration), timing = fields.timing ∧
    (fields.seconds prior).Nonneg ∧ fields.delay prior (timing.cap remaining) = .ok bound ∧
      delay ≤ bound ∧ (timing.jitter = .none → delay = bound)
  remaining : delay ≤ remaining
  maxDelay : ∀ seconds, timing.maxDelaySeconds = some seconds → delay ≤ fromSecs seconds

/-- The phases within a visit. -/
def Phase.visiting : Phase → Bool
  | ready entry => !entry
  | calling _ _ | joining _ _ | waiting _ .retry => true
  | waiting _ (.wait _ _) | terminal _ => false

namespace Driver

variable {σ : Type}

def policy (d : Driver σ) : Option RecoveryPolicy :=
  match d.machine.state d.state with
  | .ok view => view.recovery
  | .error _ => none

variable {d d' d'' : Driver σ} {v : Visit} {policy : RecoveryPolicy}
  {failure : ExecutionFailure} {now : ClockSample}

/-- A failure ends an execution because of an error within it. -/
def FailsWith (error : AslError) (step : DriverStep σ) (d : Driver σ) : Prop :=
  ∃ failure, failure.origin = .evaluation error ∧ step = .settled (.failed failure) ∧
    d.phase = .terminal (.failed failure)

/-- What a policy makes of a failure in a visit. -/
inductive Handled (policy : RecoveryPolicy) (v : Visit) (d : Driver σ)
    (failure : ExecutionFailure) (now : ClockSample) : DriverStep σ → Driver σ → Prop
  | retried {index : ℕ} {retrier : Retrier} {delay : Duration} {d' : Driver σ}
      (hfirst : policy.First failure.name index retrier)
      (hleft : v.used.count index < retrier.attempts) (hremaining : 0 < d.remaining)
      (hdelay : retrier.timing.Schedules (v.used.count index) (d.deadline - now.monotonic) delay)
      (hphase : d'.phase = .waiting (now.monotonic + delay) .retry)
      (hstate : d'.state = d.state) (hinput : d'.input = v.input) :
      Handled policy v d failure now (.park (now.monotonic + delay)) d'
  | limited {index : ℕ} {retrier : Retrier} {d' : Driver σ}
      (hfirst : policy.First failure.name index retrier)
      (hleft : v.used.count index < retrier.attempts) (hremaining : d.remaining = 0)
      (hphase : d'.phase = .terminal (.failed (.safety "Rustack.TransitionLimitExceeded"
        "Execution transition limit exceeded"))) :
      Handled policy v d failure now (.settled (.failed (.safety
        "Rustack.TransitionLimitExceeded" "Execution transition limit exceeded"))) d'
  | unsampled {index : ℕ} {retrier : Retrier} {error : AslError} {step : DriverStep σ}
      {d' : Driver σ} (hfirst : policy.First failure.name index retrier)
      (hleft : v.used.count index < retrier.attempts) (hremaining : 0 < d.remaining)
      (hjitter : retrier.timing.jitter = .full) (hfails : FailsWith error step d') :
      Handled policy v d failure now step d'
  | caught {catcher : Catcher} {output : Payload} {d' : Driver σ}
      (hexhausted : policy.Exhausted v failure.name)
      (hcatch : (policy.catches.find? fun catcher => catcher.matcher.matches failure.name) =
        some catcher) (houtput : catcher.output v.input failure = .ok output)
      (hphase : d'.phase = .ready true) (hstate : d'.state = catcher.next)
      (hinput : d'.input = output) : Handled policy v d failure now .continue d'
  | broken {catcher : Catcher} {error : AslError} {step : DriverStep σ} {d' : Driver σ}
      (hexhausted : policy.Exhausted v failure.name)
      (hcatch : (policy.catches.find? fun catcher => catcher.matcher.matches failure.name) =
        some catcher) (herror : catcher.output v.input failure = .error error)
      (hfails : FailsWith error step d') : Handled policy v d failure now step d'
  | failed {d' : Driver σ} (hexhausted : policy.Exhausted v failure.name)
      (hnone : ∀ catcher ∈ policy.catches, catcher.matcher.matches failure.name = false)
      (hphase : d'.phase = .terminal (.failed failure)) :
      Handled policy v d failure now (.settled (.failed failure)) d'

/-- The retries that a driver has counted are those of the visit. -/
structure Counted (d : Driver σ) (v : Visit) (policy : RecoveryPolicy) : Prop where
  follows : d.policy = some policy
  input : d.input = v.input
  length : d.retries.length ≤ policy.retries.length
  counts : ∀ i, d.retries.getD i 0 = v.used.count i
  bounded : ∀ i retrier, policy.retries[i]? = some retrier → v.used.count i ≤ retrier.attempts

/-- Within a visit the driver has counted the retries. -/
def Visited (d : Driver σ) (v : Visit) : Prop :=
  d.phase.visiting = true → ∃ policy, d.Counted v policy

theorem visited_of_not (h : d.phase.visiting = false) : d.Visited v := fun hvisiting => by
  rw [h] at hvisiting
  cases hvisiting

/-! ## The counts -/

theorem getElem?_resize {retries : List ℕ} {length i : ℕ} (hle : retries.length ≤ length)
    (hi : i < length) : (resize retries length)[i]? = some (retries.getD i 0) := by
  unfold resize
  rw [take_of_length_le hle, getD_eq_getElem?_getD]
  by_cases hlt : i < retries.length
  · rw [getElem?_append_left hlt, getElem?_eq_getElem hlt]
    rfl
  · have hge := Nat.le_of_not_lt hlt
    rw [getElem?_append_right hge, getElem?_eq_none hge, getElem?_replicate,
      if_pos (by omega)]
    rfl

theorem length_resize {retries : List ℕ} {length : ℕ} (hle : retries.length ≤ length) :
    (resize retries length).length = length := by
  unfold resize
  rw [length_append, length_take, length_replicate]
  omega

theorem getD_resize {retries : List ℕ} {length : ℕ} (hle : retries.length ≤ length) (i : ℕ) :
    (resize retries length).getD i 0 = retries.getD i 0 := by
  by_cases hi : i < length
  · rw [getD_eq_getElem?_getD, getElem?_resize hle hi]
    rfl
  · have hge := Nat.le_of_not_lt hi
    rw [getD_eq_getElem?_getD, getD_eq_getElem?_getD,
      getElem?_eq_none ((length_resize hle).trans_le hge),
      getElem?_eq_none (hle.trans hge)]

theorem count_append_singleton (used : List ℕ) (index i : ℕ) :
    (used ++ [index]).count i = used.count i + if index = i then 1 else 0 := by
  rw [count_append, count_singleton]
  simp only [beq_iff_eq]

/-- What a driver asked about a failure remembers. -/
structure Steady (d d' : Driver σ) : Prop where
  machine : d'.machine = d.machine
  state : d'.state = d.state
  input : d'.input = d.input
  retries : d'.retries = d.retries
  deadline : d'.deadline = d.deadline
  remaining : d'.remaining = d.remaining

theorem Steady.refl (d : Driver σ) : d.Steady d := ⟨rfl, rfl, rfl, rfl, rfl, rfl⟩

theorem Steady.trans (h : d.Steady d') (h' : d'.Steady d'') : d.Steady d'' where
  machine := h'.machine.trans h.machine
  state := h'.state.trans h.state
  input := h'.input.trans h.input
  retries := h'.retries.trans h.retries
  deadline := h'.deadline.trans h.deadline
  remaining := h'.remaining.trans h.remaining

theorem Steady.policy_eq (h : d.Steady d') : d'.policy = d.policy := by
  unfold Driver.policy
  rw [h.machine, h.state]

theorem Counted.of_steady (hcounted : d.Counted v policy) (h : d.Steady d') :
    d'.Counted v policy where
  follows := h.policy_eq.trans hcounted.follows
  input := h.input.trans hcounted.input
  length := h.retries ▸ hcounted.length
  counts := h.retries ▸ hcounted.counts
  bounded := hcounted.bounded

theorem Counted.resized (h : d.Counted v policy) :
    { d with retries := resize d.retries policy.retries.length }.Counted v policy where
  follows := h.follows
  input := h.input
  length := (length_resize h.length).le
  counts := fun i => (getD_resize h.length i).trans (h.counts i)
  bounded := h.bounded

theorem Counted.get (h : d.Counted v policy) {index : ℕ} {retrier : Retrier}
    (hget : policy.retries[index]? = some retrier) :
    (resize d.retries policy.retries.length)[index]? = some (v.used.count index) := by
  obtain ⟨hlt, -⟩ := List.getElem?_eq_some_iff.mp hget
  rw [getElem?_resize h.length hlt, h.counts]

/-- A retrier that is left is used once more. -/
theorem Counted.used (h : d.Counted v policy) {index count : ℕ} {retrier : Retrier}
    (hget : policy.retries[index]? = some retrier) (hleft : v.used.count index < retrier.attempts)
    (hcount : d.retries[index]? = some count) (hstate : d.Steady { d' with retries := d.retries })
    (hretries : d'.retries = d.retries.set index (count + 1)) :
    d'.Counted { v with used := v.used ++ [index] } policy where
  follows := hstate.policy_eq.trans h.follows
  input := hstate.input.trans h.input
  length := by
    rw [hretries, length_set]
    exact h.length
  counts := fun i => by
    obtain ⟨hlt, heq⟩ := List.getElem?_eq_some_iff.mp hcount
    have hcounts := h.counts i
    rw [List.getD_eq_getElem?_getD] at hcounts
    rw [count_append_singleton, hretries, getD_eq_getElem?_getD, getElem?_set]
    by_cases hi : index = i
    · subst hi
      rw [hcount] at hcounts
      rw [if_pos rfl, if_pos hlt, if_pos rfl, ← hcounts]
      rfl
    · rw [if_neg hi, if_neg hi, hcounts, Nat.add_zero]
  bounded := fun i other hother => by
    rw [count_append_singleton]
    by_cases hi : index = i
    · subst hi
      rw [hget] at hother
      cases hother
      rw [if_pos rfl]
      exact hleft
    · rw [if_neg hi]
      exact h.bounded i other hother

/-! ## A failure -/

section

variable [ExecutionSource σ] {source : σ}

theorem schedules_of_backoff {timing : RetryTiming} (hcompiled : timing.Compiled) {prior : ℕ}
    {remaining delay : Duration} (hremaining : remaining ≤ fromSecs (2 ^ 62))
    (h : (backoff timing prior remaining source).1 = .ok delay) :
    timing.Schedules prior remaining delay := by
  obtain ⟨fields, rfl⟩ := hcompiled
  have hcap := fields.timing.cap_le remaining
  have hbound : delay ≤ fields.timing.delay prior (fields.timing.cap remaining) ∧
      (fields.timing.jitter = .none →
        delay = fields.timing.delay prior (fields.timing.cap remaining)) := by
    rcases backoff_cases fields.timing prior remaining source with ⟨hnone, heq⟩ | ⟨hfull, hle⟩
    · rw [heq] at h
      cases h
      exact ⟨le_refl _, fun _ => rfl⟩
    · refine ⟨hle delay h, fun hnone => ?_⟩
      rw [hfull] at hnone
      cases hnone
  have hle := hbound.1.trans (fields.timing.delay_le prior _)
  refine ⟨⟨fields, _, rfl, fields.nonneg_seconds prior, fields.delay_eq prior ?_, hbound⟩,
    hle.trans hcap, fun seconds hseconds => ?_⟩
  · exact hcap.trans hremaining
  · exact hle.trans (RetryTiming.cap_le_maxDelay hseconds remaining)

omit [ExecutionSource σ] in
theorem recovery_of_policy (h : d.policy = some policy) :
    ∃ view, d.machine.state d.state = .ok view ∧ view.recovery = some policy := by
  unfold Driver.policy at h
  cases hstate : d.machine.state d.state with
  | error error =>
      rw [hstate] at h
      cases h
  | ok view =>
      rw [hstate] at h
      exact ⟨view, rfl, h⟩

omit [ExecutionSource σ] in
theorem compiled_of_policy (hmachine : d.machine.Recovers) (h : d.policy = some policy) :
    policy.Compiled := by
  obtain ⟨view, hview, hrecovery⟩ := recovery_of_policy h
  obtain ⟨name, hmem⟩ := CompiledMachine.mem_rows_of_state hview
  exact hmachine name view policy hmem hrecovery

theorem recoveryPlan_of_first (hcounted : d.Counted v policy) {index : ℕ} {retrier : Retrier}
    (hfirst : policy.First failure.name index retrier)
    (hleft : v.used.count index < retrier.attempts) :
    d.recoveryPlan failure now source =
      if d.remaining = 0 then
        (.ok .limit, { d with retries := resize d.retries policy.retries.length }, source)
      else
        match backoff retrier.timing (v.used.count index) (d.deadline - now.monotonic) source with
        | (.error error, source) =>
          (.error error, { d with retries := resize d.retries policy.retries.length }, source)
        | (.ok delay, source) =>
          (.ok (.retry index (now.monotonic + delay)),
            { d with retries := resize d.retries policy.retries.length }, source) := by
  obtain ⟨view, hview, hrecovery⟩ := recovery_of_policy hcounted.follows
  have hfind := hfirst.find
  rw [name] at hfind
  unfold recoveryPlan
  rw [hview]
  dsimp only
  rw [hrecovery]
  dsimp only
  rw [hfind]
  dsimp only
  rw [hcounted.get hfirst.get]
  exact if_pos hleft

theorem recoveryPlan_of_exhausted (hcounted : d.Counted v policy)
    (h : policy.Exhausted v failure.name) :
    d.recoveryPlan failure now source =
      ({ d with retries := resize d.retries policy.retries.length }.catches policy failure
        failure.name, { d with retries := resize d.retries policy.retries.length }, source) := by
  obtain ⟨view, hview, hrecovery⟩ := recovery_of_policy hcounted.follows
  unfold recoveryPlan
  rw [hview]
  dsimp only
  rw [hrecovery]
  dsimp only
  cases hfind : policy.retries.zipIdx.find? fun retrier =>
      retrier.1.matcher.matches (failure.error.getD "States.TaskFailed") with
  | none => rfl
  | some found =>
      obtain ⟨hfirst, -⟩ := RecoveryPolicy.first_of_find hfind
      dsimp only
      rw [hcounted.get hfirst.get]
      exact if_neg (Nat.not_lt_of_le (h _ _ hfirst))

omit [ExecutionSource σ] in
theorem caught_eq (hinput : d.input = v.input) (catcher : Catcher) :
    d.caught failure catcher =
      (catcher.output v.input failure).map fun output => .catch output catcher.next := by
  unfold caught Catcher.output
  rw [hinput]
  change (Payload.fromValue failure.object >>= _) = _
  cases Payload.fromValue failure.object with
  | error error => rfl
  | ok error =>
      cases catcher.result with
      | replace => rfl
      | discard => rfl
      | path merge =>
          change ((merge v.input error) >>= _) = (merge v.input error).map _
          cases merge v.input error <;> rfl

/-- An error in the recovery itself ends the execution. -/
theorem failsWith_of_plan {error : AslError} {source' : σ}
    (h : d.recoveryPlan failure now source = (.error error, d', source')) :
    FailsWith error (d.recover failure now source).1 (d.recover failure now source).2.1 := by
  unfold recover
  rw [h]
  dsimp only
  split
  all_goals exact ⟨_, rfl, rfl, rfl⟩

omit [ExecutionSource σ] in
theorem FailsWith.terminal {error : AslError} {step : DriverStep σ} (h : FailsWith error step d) :
    ∃ outcome, d.phase = .terminal outcome := by
  obtain ⟨failure, -, -, hphase⟩ := h
  exact ⟨_, hphase⟩

omit [ExecutionSource σ] in
theorem visited_of_terminal (h : ∃ outcome, d.phase = .terminal outcome) : d.Visited v := by
  obtain ⟨outcome, hphase⟩ := h
  exact visited_of_not (by rw [hphase]; rfl)

/-- Catchers take over. -/
theorem handled_of_exhausted (hcounted : d.Counted v policy)
    (hexhausted : policy.Exhausted v failure.name) :
    Handled policy v d failure now (d.recover failure now source).1
        (d.recover failure now source).2.1 ∧
      (d.recover failure now source).2.1.phase.visiting = false := by
  have hplan : d.recoveryPlan failure now source = _ :=
    recoveryPlan_of_exhausted hcounted hexhausted
  unfold catches at hplan
  cases hcatch : policy.catches.find? fun catcher => catcher.matcher.matches failure.name with
  | none =>
      rw [hcatch] at hplan
      unfold recover
      rw [hplan]
      exact ⟨.failed hexhausted (fun catcher hmem =>
        Bool.eq_false_iff.mpr (find?_eq_none.mp hcatch catcher hmem)) rfl, rfl⟩
  | some catcher =>
      rw [hcatch] at hplan
      dsimp only at hplan
      rw [caught_eq hcounted.resized.input] at hplan
      cases houtput : catcher.output v.input failure with
      | error error =>
          rw [houtput] at hplan
          have hfails := failsWith_of_plan hplan
          obtain ⟨outcome, hphase⟩ := hfails.terminal
          exact ⟨.broken hexhausted hcatch houtput hfails, by rw [hphase]; rfl⟩
      | ok output =>
          rw [houtput] at hplan
          unfold recover
          rw [hplan]
          exact ⟨.caught hexhausted hcatch houtput rfl rfl rfl, rfl⟩

/-- A retrier that is left is used, if there is a transition for it. -/
theorem handled_of_left (hcounted : d.Counted v policy) (hcompiled : policy.Compiled)
    (htime : d.deadline - now.monotonic ≤ fromSecs (2 ^ 62)) {index : ℕ} {retrier : Retrier}
    (hfirst : policy.First failure.name index retrier)
    (hleft : v.used.count index < retrier.attempts) :
    Handled policy v d failure now (d.recover failure now source).1
        (d.recover failure now source).2.1 ∧
      (d.recover failure now source).2.1.Visited
        (v.retried policy failure (d.recover failure now source).2.1.phase) := by
  have hplan : d.recoveryPlan failure now source = _ :=
    recoveryPlan_of_first hcounted hfirst hleft
  obtain ⟨hattempts, htiming⟩ := hcompiled retrier (mem_of_getElem? hfirst.get)
  by_cases hzero : d.remaining = 0
  · rw [if_pos hzero] at hplan
    unfold recover
    rw [hplan]
    exact ⟨.limited hfirst hleft hzero rfl, visited_of_terminal ⟨_, rfl⟩⟩
  rw [if_neg hzero] at hplan
  have hpos := Nat.pos_of_ne_zero hzero
  cases hbackoff : backoff retrier.timing (v.used.count index) (d.deadline - now.monotonic)
      source with
  | mk result source' =>
  rw [hbackoff] at hplan
  cases result with
  | error error =>
      have hfails := failsWith_of_plan hplan
      have hjitter : retrier.timing.jitter = .full := by
        rcases backoff_cases retrier.timing (v.used.count index) (d.deadline - now.monotonic)
          source with ⟨-, heq⟩ | ⟨hfull, -⟩
        · rw [hbackoff] at heq
          cases heq
        · exact hfull
      exact ⟨.unsampled hfirst hleft hpos hjitter hfails, visited_of_terminal hfails.terminal⟩
  | ok delay =>
      have hdelay := schedules_of_backoff htiming htime (congrArg Prod.fst hbackoff)
      have hget := hcounted.get hfirst.get
      have hcount : min (v.used.count index + 1) (2 ^ 32 - 1) = v.used.count index + 1 := by
        omega
      unfold recover
      rw [hplan]
      dsimp only
      rw [hget]
      refine ⟨.retried hfirst hleft hpos hdelay rfl rfl hcounted.input, fun _ => ⟨policy, ?_⟩⟩
      unfold Visit.retried
      dsimp only
      rw [hfirst.first]
      refine hcounted.resized.used hfirst.get hleft hget ⟨rfl, rfl, rfl, rfl, rfl, rfl⟩ ?_
      exact congrArg (set _ index) hcount

/-- A failure is handled as the policy says, and counted. -/
theorem handled_recover (hcounted : d.Counted v policy) (hcompiled : policy.Compiled)
    (htime : d.deadline - now.monotonic ≤ fromSecs (2 ^ 62)) :
    Handled policy v d failure now (d.recover failure now source).1
        (d.recover failure now source).2.1 ∧
      (d.recover failure now source).2.1.Visited
        (v.retried policy failure (d.recover failure now source).2.1.phase) := by
  by_cases hexhausted : policy.Exhausted v failure.name
  · obtain ⟨hhandled, hphase⟩ := handled_of_exhausted hcounted hexhausted
    exact ⟨hhandled, visited_of_not hphase⟩
  · unfold RecoveryPolicy.Exhausted at hexhausted
    push Not at hexhausted
    obtain ⟨index, retrier, hfirst, hleft⟩ := hexhausted
    exact handled_of_left hcounted hcompiled htime hfirst hleft

end

/-! ## Execution -/

/-- An execution that stays in the visit stays with a state that has a policy. -/
def Opened (d : Driver σ) (r : Except AslError (DriverStep σ) × Driver σ × σ) : Prop :=
  match r.1 with
  | .ok _ => r.2.1.phase.visiting = true → d.Steady r.2.1 ∧ r.2.1.policy.isSome = true
  | .error _ => d.Steady r.2.1

theorem visiting_transfer (d : Driver σ) (output : Payload) (next : Transition) :
    (d.transfer output next).2.phase.visiting = false := by
  cases next <;> rfl

theorem opened_after {α : Type} (value : Eval σ α) (source : σ) {next : α → DriverStep σ × Driver σ}
    (h : ∀ a, (next a).2.phase.visiting = true →
      d.Steady (next a).2 ∧ (next a).2.policy.isSome = true) :
    d.Opened (d.after value source next) := by
  unfold Driver.after
  split
  · exact Steady.refl d
  · exact h _

theorem opened_after_of_left {α : Type} (value : Eval σ α) (source : σ)
    {next : α → DriverStep σ × Driver σ} (h : ∀ a, (next a).2.phase.visiting = false) :
    d.Opened (d.after value source next) := by
  refine opened_after value source fun a hvisiting => ?_
  rw [h a] at hvisiting
  cases hvisiting

theorem opened_finishResult (d : Driver σ) (result : Except AslError Payload) (source : σ) :
    d.Opened (d.finishResult result source) :=
  opened_after_of_left _ _ fun (output, next) => visiting_transfer d output next

theorem Opened.of_steady {r : Except AslError (DriverStep σ) × Driver σ × σ} (hsteady : d.Steady d')
    (h : d'.Opened r) : d.Opened r := by
  unfold Opened at h ⊢
  split
  · next step hstep =>
      rw [hstep] at h
      exact fun hvisiting => ⟨hsteady.trans (h hvisiting).1, (h hvisiting).2⟩
  · next error herror =>
      rw [herror] at h
      exact hsteady.trans h

theorem steady_refreshContext (h : d.refreshContext = .ok d') : d.Steady d' := by
  unfold refreshContext at h
  split at h
  · next fields _ =>
      obtain ⟨name, -, h⟩ := Except.bind_eq_ok.mp h
      obtain ⟨context, -, h⟩ := Except.bind_eq_ok.mp h
      cases h
      exact ⟨rfl, rfl, rfl, rfl, rfl, rfl⟩
  · cases h

theorem opened_fanoutRound (hpolicy : d.policy.isSome = true) (inputs : FanoutInputs) (source : σ) :
    d.Opened (d.fanoutRound inputs source) := by
  unfold fanoutRound
  split
  · exact Steady.refl d
  split
  · exact Steady.refl d
  dsimp only
  split
  · exact ⟨rfl, rfl, rfl, rfl, rfl, rfl⟩
  · exact fun _ => ⟨⟨rfl, rfl, rfl, rfl, rfl, rfl⟩, hpolicy⟩

theorem opened_fanout (hpolicy : d.policy.isSome = true) (source : σ) :
    d.Opened (d.fanout source) := by
  unfold fanout
  split
  · exact Steady.refl d
  next inputs source' hinputs =>
  dsimp only
  have hsteady : d.Steady { d with fanoutStarted := some inputs.count } :=
    ⟨rfl, rfl, rfl, rfl, rfl, rfl⟩
  have hpolicy : { d with fanoutStarted := some inputs.count }.policy.isSome = true := hpolicy
  split
  · exact .of_steady hsteady (opened_finishResult _ _ _)
  · exact .of_steady hsteady (opened_fanoutRound hpolicy _ _)

theorem policy_of_state {view : StateView σ (CompiledMachine σ)}
    (h : d.machine.state d.state = .ok view) : d.policy = view.recovery := by
  unfold Driver.policy
  rw [h]

theorem opened_execute (d : Driver σ) (now : ClockSample) (source : σ) :
    d.Opened (d.execute now source) := by
  unfold execute
  split
  · exact Steady.refl d
  · next hstate => exact opened_fanout (by rw [policy_of_state hstate]; rfl) source
  · next hstate => exact opened_fanout (by rw [policy_of_state hstate]; rfl) source
  · exact opened_after_of_left _ _ fun output => visiting_transfer d output _
  · exact opened_after_of_left _ _ fun output => rfl
  · exact opened_after_of_left _ _ fun (error, cause) => rfl
  · refine opened_after_of_left _ _ fun selected => ?_
    cases selected with
    | none => rfl
    | some target => exact visiting_transfer d _ _
  · refine opened_after_of_left _ _ fun (output, duration) => ?_
    dsimp only
    split
    · exact visiting_transfer d output _
    · rfl
  · next flow resource timeout recovery next hstate =>
      have hpolicy : d.policy.isSome = true := by
        rw [policy_of_state hstate]
        rfl
      exact opened_after _ _ fun plan _ => ⟨⟨rfl, rfl, rfl, rfl, rfl, rfl⟩, hpolicy⟩

theorem opened_execution (d : Driver σ) (now : ClockSample) (source : σ) :
    d.Opened (d.execution now source) := by
  unfold execution
  split
  · exact Steady.refl d
  · next hrefresh => exact .of_steady (steady_refreshContext hrefresh) (opened_execute _ _ _)

/-! ## The failure of a call -/

def unusable (d : Driver σ) (result : Except AslError Payload) (source : σ) :
    Option (ExecutionFailure × Bool) :=
  match (d.finishResult result source).1 with
  | .ok _ => none
  | .error error => some (.evaluation error, (ExecutionFailure.evaluation error).recoverable)

/-- The failure that a call meets, and whether the policy of the state is asked about it. -/
def failing (d : Driver σ) (e : Event σ) : Option (ExecutionFailure × Bool) :=
  if !d.inTime e.now then none
  else match e, d.phase with
  | .advance now source, .ready entry =>
    if d.remaining = 0 then none
    else match (((d.taken now).enter entry now).execution now source).1 with
      | .ok _ => none
      | .error error => some (.evaluation error,
          d.policy.isSome && (ExecutionFailure.evaluation error).recoverable)
  | .advance now _, .calling _ deadline =>
    if deadline ≤ now.monotonic then some (.fields (some "States.Timeout") none, true) else none
  | .complete attempt result now source, .calling current deadline =>
    if current ≠ attempt then none
    else if deadline ≤ now.monotonic then some (.fields (some "States.Timeout") none, true)
    else match result with
      | .error failure => some (failure.failure, failure.failure.recoverable)
      | .ok result => (d.taken now).unusable (.ok result) source
  | .completeFanout attempt result now source, .joining current count =>
    if current ≠ attempt then none
    else match result with
      | .error (.branch failure) => some (failure, failure.recoverable)
      | .error (.propagated failure) =>
        some (failure, failure.error = some "States.DataLimitExceeded")
      | .error (.evaluation error) =>
        some (.evaluation error, (ExecutionFailure.evaluation error).recoverable)
      | .error (.unrecoverable failure) => some (failure, false)
      | .ok result => (d.taken now).unusable
          (if result.value.asArray.any fun values => values.length = count
            then .ok result else .error .invalidFanoutResult) source
  | _, _ => none

/-- The driver as a call finds it within the visit. -/
def begun (d : Driver σ) (e : Event σ) : Driver σ :=
  match e, d.phase with
  | .advance now _, .ready entry => (d.taken now).enter entry now
  | _, _ => d.taken e.now

/-- What becomes of the failure of a call: the policy is asked, within a visit, or the execution
fails.  A call without a failure stays in the visit or leaves it. -/
def Answered [ExecutionSource σ] (d : Driver σ) (inside : Prop)
    (failing : Option (ExecutionFailure × Bool)) (now : ClockSample) (step : DriverStep σ)
    (d' : Driver σ) : Prop :=
  match failing with
  | none => d'.phase.visiting = true → d.Steady d' ∧ inside
  | some (failure, true) => inside ∧ ∃ d₁ source, d.Steady d₁ ∧
      step = (d₁.recover failure now source).1 ∧ d' = (d₁.recover failure now source).2.1
  | some (failure, false) => step = .settled (.failed failure) ∧
      d'.phase = .terminal (.failed failure)

section

variable [ExecutionSource σ] {source : σ} {inside : Prop}

theorem answered_evaluationFailure {d₁ : Driver σ} (hsteady : d.Steady d₁) (error : AslError)
    (recover : Bool) (hinside : recover = true → inside) :
    d.Answered inside (some (.evaluation error,
        recover && (evaluation error).recoverable)) now
      (d₁.evaluationFailure error now source recover).1
      (d₁.evaluationFailure error now source recover).2.1 := by
  have hrecoverable : (evaluation error).recoverable =
      decide ((evaluation error).error = some "States.DataLimitExceeded") := rfl
  unfold evaluationFailure
  dsimp only
  cases hasked : recover && (evaluation error).recoverable with
  | true =>
      have hrecover := hinside (Bool.and_eq_true_iff.mp hasked).1
      rw [hrecoverable] at hasked
      rw [if_pos hasked]
      exact ⟨hrecover, { d₁ with diagnostic := some error }, source,
        hsteady.trans ⟨rfl, rfl, rfl, rfl, rfl, rfl⟩, rfl, rfl⟩
  | false =>
      rw [hrecoverable] at hasked
      rw [if_neg (Bool.eq_false_iff.mp hasked)]
      exact ⟨rfl, rfl⟩

theorem answered_propagateFailure (hinside : inside) (failure : ExecutionFailure) :
    d.Answered inside (some (failure, failure.error = some "States.DataLimitExceeded")) now
      (d.propagateFailure failure now source).1 (d.propagateFailure failure now source).2.1 := by
  unfold propagateFailure
  dsimp only
  by_cases hlimit : failure.error = some "States.DataLimitExceeded"
  · rw [decide_eq_true hlimit, if_pos hlimit]
    refine ⟨hinside, _, source, ?_, rfl, rfl⟩
    split <;> exact ⟨rfl, rfl, rfl, rfl, rfl, rfl⟩
  · rw [decide_eq_false hlimit, if_neg hlimit]
    exact ⟨rfl, rfl⟩

theorem answered_settleFailure (hinside : inside) (failure : ExecutionFailure) :
    d.Answered inside (some (failure, failure.recoverable)) now
      (d.settleFailure failure now source).1 (d.settleFailure failure now source).2.1 := by
  unfold settleFailure recoverable
  cases failure.origin with
  | business => exact ⟨hinside, d, source, .refl d, rfl, rfl⟩
  | evaluation error => exact answered_propagateFailure hinside failure
  | safety => exact ⟨rfl, rfl⟩

theorem answered_joined (hinside : inside) (result : Except AslError Payload) :
    d.Answered inside (d.unusable result source) now (d.joined result now source).1
      (d.joined result now source).2.1 := by
  have hopened := d.opened_finishResult result source
  unfold unusable joined
  generalize d.finishResult result source = r at hopened ⊢
  obtain ⟨r, d', source'⟩ := r
  cases r with
  | ok step => exact fun hvisiting => ⟨(hopened hvisiting).1, hinside⟩
  | error error => exact answered_evaluationFailure hopened error true fun _ => hinside

/-- A state is executed. -/
theorem answered_ready (d : Driver σ) (entry : Bool) (hremaining : d.remaining ≠ 0)
    (hinside : d.policy.isSome = true → inside) :
    (d.enter entry now).Answered inside
      (match ((d.enter entry now).execution now source).1 with
        | .ok _ => none
        | .error error => some (.evaluation error,
            d.policy.isSome && (evaluation error).recoverable)) now
      (d.ready entry now source).1.step (d.ready entry now source).2.1 := by
  have hopened := (d.enter entry now).opened_execution now source
  have henter : (d.enter entry now).policy = d.policy := by
    unfold enter
    dsimp only
    split <;> rfl
  unfold ready
  rw [if_neg hremaining]
  generalize (d.enter entry now).execution now source = r at hopened ⊢
  obtain ⟨r, d', source'⟩ := r
  cases r with
  | ok step =>
      intro hvisiting
      obtain ⟨hsteady, hsome⟩ := hopened hvisiting
      rw [hsteady.policy_eq, henter] at hsome
      exact ⟨hsteady, hinside hsome⟩
  | error error =>
      have hsteady : (d.enter entry now).Steady d' := hopened
      have hsame : d'.policy.isSome = d.policy.isSome := by rw [hsteady.policy_eq, henter]
      have hanswered : ∀ task, task = d.policy.isSome →
          (d.enter entry now).Answered inside
            (some (.evaluation error,
              d.policy.isSome && (evaluation error).recoverable)) now
            (d'.evaluationFailure error now source' task).1
            (d'.evaluationFailure error now source' task).2.1 := by
        rintro task rfl
        exact answered_evaluationFailure hsteady error _ hinside
      refine hanswered _ ?_
      rw [← hsame]
      unfold Driver.policy
      cases d'.machine.state d'.state <;> rfl

/-! ## Calls -/

omit [ExecutionSource σ] in
/-- A visit begins with the execution of a state that has been entered. -/
def within (d : Driver σ) (v : Visit) (e : Event σ) : Visit :=
  match d.phase with
  | .ready true => if d.executes e then ⟨d.input, []⟩ else v
  | _ => v

/-- The visit after a call. -/
def visit (d : Driver σ) (v : Visit) (e : Event σ) : Visit :=
  match d.failing e, d.policy with
  | some (failure, true), some policy =>
    (d.within v e).retried policy failure (d.step e).2.phase
  | _, _ => d.within v e

omit [ExecutionSource σ] in
theorem counted_taken (hcounted : d.Counted v policy) (now : ClockSample) :
    (d.taken now).Counted v policy :=
  ⟨hcounted.follows, hcounted.input, hcounted.length, hcounted.counts, hcounted.bounded⟩

omit [ExecutionSource σ] in
theorem counted_enter (hvisited : d.Visited v) {entry : Bool} (hphase : d.phase = .ready entry)
    (hremaining : d.remaining ≠ 0) (htime : d.inTime now = true) {source : σ}
    (hsome : (d.taken now).policy.isSome = true) :
    ∃ policy, ((d.taken now).enter entry now).Counted (d.within v (.advance now source))
      policy := by
  cases entry with
  | true =>
      have hexecutes : d.executes (.advance now source) = true := by
        unfold executes
        rw [hphase]
        dsimp only
        rw [htime, decide_eq_true (Nat.pos_of_ne_zero hremaining)]
        rfl
      obtain ⟨policy, hpolicy⟩ := Option.isSome_iff_exists.mp hsome
      unfold within
      rw [hphase]
      dsimp only
      rw [if_pos hexecutes]
      exact ⟨policy, hpolicy, rfl, Nat.zero_le _, fun i => rfl, fun i retrier _ => Nat.zero_le _⟩
  | false =>
      obtain ⟨policy, hcounted⟩ := hvisited (by rw [hphase]; rfl)
      unfold within
      rw [hphase]
      exact ⟨policy, hcounted.follows, hcounted.input, hcounted.length, hcounted.counts,
        hcounted.bounded⟩

omit [ExecutionSource σ] in
theorem within_of_not_ready (h : ∀ entry, d.phase ≠ .ready entry) (e : Event σ) :
    d.within v e = v := by
  unfold within
  split
  · next hphase => exact absurd hphase (h true)
  · rfl

variable {e : Event σ}

omit [ExecutionSource σ] in
/-- A call that stays within a visit goes on with what has been counted. -/
theorem counted_within (hvisited : d.Visited v) (hvisiting : d.phase.visiting = true)
    (hready : ∀ entry, d.phase ≠ .ready entry) :
    ∃ policy, (d.begun e).Counted (d.within v e) policy := by
  obtain ⟨policy, hcounted⟩ := hvisited hvisiting
  rw [within_of_not_ready hready]
  have hbegun : d.begun e = d.taken e.now := by
    unfold begun
    split
    · next hphase => exact absurd hphase (hready _)
    · rfl
  rw [hbegun]
  exact ⟨policy, counted_taken hcounted e.now⟩

omit [ExecutionSource σ] in
theorem begun_of_not_ready (hready : ∀ entry, d.phase ≠ .ready entry) (e : Event σ) :
    d.begun e = d.taken e.now := by
  unfold begun
  split
  · next hphase => exact absurd hphase (hready _)
  · rfl

omit [ExecutionSource σ] in
theorem steady_begun (hready : ∀ entry, d.phase ≠ .ready entry) (e : Event σ)
    (h : (d.taken e.now).Steady d') : (d.begun e).Steady d' := by
  rw [begun_of_not_ready hready]
  exact h

omit [ExecutionSource σ] in
theorem ne_ready_of_phase {phase : Phase} (h : d.phase = phase)
    (hphase : ∀ entry, phase ≠ .ready entry) (entry : Bool) : d.phase ≠ .ready entry := by
  rw [h]
  exact hphase entry

theorem answered_advance {now : ClockSample} (hvisited : d.Visited v) (htime : d.inTime now = true)
    (source : σ) :
    (d.begun (.advance now source)).Answered
      (∃ policy, (d.begun (.advance now source)).Counted (d.within v (.advance now source)) policy)
      (d.failing (.advance now source)) now (d.advance now source).1.step
      (d.advance now source).2.1 := by
  have hfailing : d.failing (.advance now source) = _ :=
    if_neg fun hnot => by rw [Event.now, htime] at hnot; cases hnot
  rw [hfailing]
  unfold advance
  rw [guard_inTime htime]
  dsimp only
  cases hphase : (d.seen now).phase with
  | ready entry =>
      have hready : d.phase = .ready entry := hphase
      have hbegun : d.begun (.advance now source) = (d.taken now).enter entry now := by
        unfold begun
        rw [hready]
      rw [hready, hbegun]
      dsimp only
      by_cases hremaining : d.remaining = 0
      · have hstep : (d.taken now).ready entry now source =
            (update (d.taken now).transitionLimit.1, (d.taken now).transitionLimit.2, source) := by
          unfold ready
          exact if_pos hremaining
        change Answered _ _ _ _ ((d.taken now).ready entry now source).1.step
          ((d.taken now).ready entry now source).2.1
        rw [hstep, if_pos hremaining]
        exact fun hvisiting => by cases hvisiting
      · rw [if_neg hremaining]
        exact answered_ready (d.taken now) entry hremaining
          (counted_enter hvisited hready hremaining htime)
  | calling attempt deadline =>
      have hcalling : d.phase = .calling attempt deadline := hphase
      have hnot := ne_ready_of_phase hcalling fun entry heq => by cases heq
      have hinside := counted_within (e := .advance now source) hvisited
        (by rw [hcalling]; rfl) hnot
      rw [hcalling]
      dsimp only
      split
      · rw [begun_of_not_ready hnot] at hinside ⊢
        exact ⟨hinside, d.taken now, source, .refl _, rfl, rfl⟩
      · exact fun _ => ⟨steady_begun hnot _ ⟨rfl, rfl, rfl, rfl, rfl, rfl⟩, hinside⟩
  | joining attempt count =>
      have hjoining : d.phase = .joining attempt count := hphase
      have hnot := ne_ready_of_phase hjoining fun entry heq => by cases heq
      have hinside := counted_within (e := .advance now source) hvisited
        (by rw [hjoining]; rfl) hnot
      rw [hjoining]
      exact fun _ => ⟨steady_begun hnot _ ⟨rfl, rfl, rfl, rfl, rfl, rfl⟩, hinside⟩
  | waiting until' continuation =>
      have hwaiting : d.phase = .waiting until' continuation := hphase
      have hnot := ne_ready_of_phase hwaiting fun entry heq => by cases heq
      rw [hwaiting]
      cases continuation with
      | wait output next =>
          dsimp only
          split
          · exact fun hvisiting => by cases hvisiting
          · exact fun hvisiting => by
              rw [visiting_transfer] at hvisiting
              cases hvisiting
      | retry =>
          have hinside := counted_within (e := .advance now source) hvisited
            (by rw [hwaiting]; rfl) hnot
          dsimp only
          split
          · exact fun _ => ⟨steady_begun hnot _ ⟨rfl, rfl, rfl, rfl, rfl, rfl⟩, hinside⟩
          · exact fun _ => ⟨steady_begun hnot _ ⟨rfl, rfl, rfl, rfl, rfl, rfl⟩, hinside⟩
  | terminal outcome =>
      have hterminal : d.phase = .terminal outcome := hphase
      rw [hterminal]
      exact fun hvisiting => by cases hvisiting

omit [ExecutionSource σ] in
/-- A result that no phase waits for. -/
theorem answered_stale (hvisited : d.Visited v) {attempt : AttemptId}
    (hanswers : e.answers = some attempt) (hvisiting : (d.seen e.now).phase.visiting = true) :
    (d.begun e).Steady (d.seen e.now) ∧ ∃ policy, (d.begun e).Counted (d.within v e) policy := by
  obtain ⟨policy, hcounted⟩ := hvisited hvisiting
  have hbegun : d.begun e = d.taken e.now := by
    unfold begun
    split
    · cases hanswers
    · rfl
  have hwithin : d.within v e = v := by
    unfold within
    split
    · rw [executes_of_answers hanswers]
      exact if_neg Bool.false_ne_true
    · rfl
  rw [hbegun, hwithin]
  exact ⟨⟨rfl, rfl, rfl, rfl, rfl, rfl⟩, policy, counted_taken hcounted e.now⟩

theorem answered_complete {attempt : AttemptId} {result : Except TaskFailure Payload}
    {now : ClockSample} (hvisited : d.Visited v) (htime : d.inTime now = true) (source : σ) :
    (d.begun (.complete attempt result now source)).Answered
      (∃ policy, (d.begun (.complete attempt result now source)).Counted
        (d.within v (.complete attempt result now source)) policy)
      (d.failing (.complete attempt result now source)) now
      (d.complete attempt result now source).1.step (d.complete attempt result now source).2.1 := by
  have hfailing : d.failing (.complete attempt result now source) = _ :=
    if_neg fun hnot => by rw [Event.now, htime] at hnot; cases hnot
  have hstale := answered_stale (e := .complete attempt result now source) hvisited rfl
  rw [hfailing]
  unfold complete
  rw [guard_inTime htime]
  dsimp only
  cases hphase : (d.seen now).phase with
  | calling current deadline =>
      have hcalling : d.phase = .calling current deadline := hphase
      have hnot := ne_ready_of_phase hcalling fun entry heq => by cases heq
      have hinside := counted_within (e := .complete attempt result now source) hvisited
        (by rw [hcalling]; rfl) hnot
      rw [hcalling]
      dsimp only
      rw [begun_of_not_ready hnot] at hinside hstale ⊢
      split
      · exact hstale
      · split
        · next hdue =>
            have hseen : (d.seen now).inTime now = true := by
              obtain ⟨hnone, hobserved, hdeadline⟩ := inTime_iff.mp htime
              exact inTime_iff.mpr ⟨hnone, Nat.le_refl _, hdeadline⟩
            unfold advance
            rw [guard_inTime hseen]
            dsimp only
            rw [show ((d.seen now).seen now).phase = .calling current deadline from hphase]
            dsimp only
            rw [if_pos hdue]
            exact ⟨hinside, d.taken now, source, .refl _, rfl, rfl⟩
        · cases result with
          | error failure => exact answered_settleFailure (d := d.taken now) hinside failure.failure
          | ok result => exact answered_joined (d := d.taken now) hinside (.ok result)
  | ready | joining | waiting | terminal =>
      rw [show d.phase = _ from hphase]
      exact hstale

theorem answered_completeFanout {attempt : AttemptId} {result : Except FanoutFailure Payload}
    {now : ClockSample} (hvisited : d.Visited v) (htime : d.inTime now = true) (source : σ) :
    (d.begun (.completeFanout attempt result now source)).Answered
      (∃ policy, (d.begun (.completeFanout attempt result now source)).Counted
        (d.within v (.completeFanout attempt result now source)) policy)
      (d.failing (.completeFanout attempt result now source)) now
      (d.completeFanout attempt result now source).1.step
      (d.completeFanout attempt result now source).2.1 := by
  have hfailing : d.failing (.completeFanout attempt result now source) = _ :=
    if_neg fun hnot => by rw [Event.now, htime] at hnot; cases hnot
  have hstale := answered_stale (e := .completeFanout attempt result now source) hvisited rfl
  rw [hfailing]
  unfold completeFanout
  rw [guard_inTime htime]
  dsimp only
  cases hphase : (d.seen now).phase with
  | joining current count =>
      have hjoining : d.phase = .joining current count := hphase
      have hnot := ne_ready_of_phase hjoining fun entry heq => by cases heq
      have hinside := counted_within (e := .completeFanout attempt result now source) hvisited
        (by rw [hjoining]; rfl) hnot
      rw [hjoining]
      dsimp only
      rw [begun_of_not_ready hnot] at hinside hstale ⊢
      split
      · exact hstale
      · cases result with
        | error failure =>
            cases failure with
            | branch failure => exact answered_settleFailure (d := d.taken now) hinside failure
            | evaluation error =>
                exact answered_evaluationFailure (.refl (d.taken now)) error true fun _ => hinside
            | propagated failure =>
                exact answered_propagateFailure (d := d.taken now) hinside failure
            | unrecoverable failure => exact ⟨rfl, rfl⟩
        | ok result => exact answered_joined (d := d.taken now) hinside _
  | ready | calling | waiting | terminal =>
      rw [show d.phase = _ from hphase]
      exact hstale

theorem answered_step (hvisited : d.Visited v) (htime : d.inTime e.now = true) :
    (d.begun e).Answered (∃ policy, (d.begun e).Counted (d.within v e) policy) (d.failing e) e.now
      (d.step e).1.step (d.step e).2 := by
  cases e with
  | advance now source => exact answered_advance hvisited htime source
  | complete attempt result now source => exact answered_complete hvisited htime source
  | completeFanout attempt result now source => exact answered_completeFanout hvisited htime source
  | stop reason now =>
      have hfailing : d.failing (.stop reason now) = none := by
        unfold failing
        split <;> rfl
      have hguard : { d with started := true }.guard now = (none, d.seen now) := guard_inTime htime
      rw [hfailing]
      unfold step stop
      dsimp only
      rw [hguard]
      exact fun hvisiting => by cases hvisiting

/-! ## Runs -/

/-- What a policy makes of the failure of a call.  It is asked about the failures that it is meant
for, and an execution fails with all others. -/
structure Follows (d : Driver σ) (v : Visit) (e : Event σ) : Prop where
  handled : ∀ failure, d.failing e = some (failure, true) → ∃ policy, d.policy = some policy ∧
    Handled policy (d.within v e) (d.begun e) failure e.now (d.step e).1.step (d.step e).2
  fatal : ∀ failure, d.failing e = some (failure, false) →
    (d.step e).1.step = .settled (.failed failure) ∧
      (d.step e).2.phase = .terminal (.failed failure)
  bounded : d.phase.visiting = true → ∃ policy, d.policy = some policy ∧ d.input = v.input ∧
    ∀ i retrier, policy.retries[i]? = some retrier → v.used.count i ≤ retrier.attempts

/-- What a driver keeps until it has an outcome. -/
def Sound (d : Driver σ) (v : Visit) : Prop :=
  d.outcome = none → d.machine.Recovers ∧ d.deadline - d.observed ≤ fromSecs (2 ^ 62) ∧ d.Visited v

omit [ExecutionSource σ] in
theorem Handled.of_steady (hsteady : d.Steady d') {step : DriverStep σ}
    (h : Handled policy v d' failure now step d'') : Handled policy v d failure now step d'' := by
  cases h with
  | retried hfirst hleft hremaining hdelay hphase hstate hinput =>
      rw [hsteady.remaining] at hremaining
      rw [hsteady.deadline] at hdelay
      exact .retried hfirst hleft hremaining hdelay hphase (hstate.trans hsteady.state) hinput
  | limited hfirst hleft hremaining hphase =>
      rw [hsteady.remaining] at hremaining
      exact .limited hfirst hleft hremaining hphase
  | unsampled hfirst hleft hremaining hjitter hfails =>
      rw [hsteady.remaining] at hremaining
      exact .unsampled hfirst hleft hremaining hjitter hfails
  | caught hexhausted hcatch houtput hphase hstate hinput =>
      exact .caught hexhausted hcatch houtput hphase hstate hinput
  | broken hexhausted hcatch herror hfails => exact .broken hexhausted hcatch herror hfails
  | failed hexhausted hnone hphase => exact .failed hexhausted hnone hphase

/-- A call in time. -/
theorem kept_step (h : d.inTime e.now = true) : (d.step e).2.machine = d.machine ∧
    (d.step e).2.deadline = d.deadline ∧ (d.step e).2.observed = e.now.monotonic := by
  have hcall := call_step h
  generalize d.step e = r at hcall
  cases hcall with
  | idle => exact ⟨rfl, rfl, rfl⟩
  | stopped => exact ⟨rfl, rfl, rfl⟩
  | executed _ _ _ hturn => exact ⟨hturn.kept.machine, hturn.kept.deadline, hturn.kept.observed⟩
  | abandoned _ _ _ _ hturn => exact ⟨hturn.kept.machine, hturn.kept.deadline, hturn.kept.observed⟩
  | accepted _ _ _ _ hturn => exact ⟨hturn.kept.machine, hturn.kept.deadline, hturn.kept.observed⟩

omit [ExecutionSource σ] in
theorem begun_kept (d : Driver σ) (e : Event σ) : (d.begun e).machine = d.machine ∧
    (d.begun e).state = d.state ∧ (d.begun e).deadline = d.deadline := by
  unfold begun
  split
  · unfold enter
    dsimp only
    split <;> exact ⟨rfl, rfl, rfl⟩
  · exact ⟨rfl, rfl, rfl⟩

omit [ExecutionSource σ] in
theorem policy_begun (d : Driver σ) (e : Event σ) : (d.begun e).policy = d.policy := by
  obtain ⟨hmachine, hstate, -⟩ := d.begun_kept e
  unfold Driver.policy
  rw [hmachine, hstate]

omit [ExecutionSource σ] in
theorem failing_of_not_inTime (h : d.inTime e.now = false) : d.failing e = none := by
  unfold failing
  rw [h]
  rfl

omit [ExecutionSource σ] in
theorem Sound.bounded (h : d.Sound v) (hvisiting : d.phase.visiting = true) :
    ∃ policy, d.policy = some policy ∧ d.input = v.input ∧
      ∀ i retrier, policy.retries[i]? = some retrier → v.used.count i ≤ retrier.attempts := by
  have hnone : d.outcome = none := by
    unfold Driver.outcome
    split
    · next outcome hphase =>
        rw [hphase] at hvisiting
        cases hvisiting
    · rfl
  obtain ⟨-, -, hvisited⟩ := h hnone
  obtain ⟨policy, hcounted⟩ := hvisited hvisiting
  exact ⟨policy, hcounted.follows, hcounted.input, hcounted.bounded⟩

theorem outcome_of_not_inTime (h : d.inTime e.now = false) :
    (d.step e).2.outcome.isSome = true := by
  cases hnone : d.outcome with
  | some outcome =>
      rw [step_terminal hnone]
      change d.outcome.isSome = true
      rw [hnone]
      rfl
  | none =>
      obtain ⟨outcome, -, hphase, -⟩ := (step_over hnone h).outcome
      rw [Driver.outcome, hphase]
      rfl

/-- The policy is asked about a failure. -/
theorem follows_asked (hmachine : d.machine.Recovers) (hnear : d.deadline - d.observed ≤
    fromSecs (2 ^ 62)) (hvisited : d.Visited v) (htime : d.inTime e.now = true)
    (hfailing : d.failing e = some (failure, true)) :
    ∃ policy, d.policy = some policy ∧ Handled policy (d.within v e) (d.begun e) failure e.now
      (d.step e).1.step (d.step e).2 ∧ (d.step e).2.Visited (d.visit v e) := by
  obtain ⟨-, hobserved, -⟩ := inTime_iff.mp htime
  have hanswered := answered_step (e := e) hvisited htime
  rw [hfailing] at hanswered
  obtain ⟨⟨policy, hcounted⟩, d₁, source, hsteady, hstep, hdriver⟩ := hanswered
  have hpolicy : d.policy = some policy := (d.policy_begun e).symm.trans hcounted.follows
  have htime' : d₁.deadline - e.now.monotonic ≤ fromSecs (2 ^ 62) := by
    rw [hsteady.deadline, (d.begun_kept e).2.2]
    exact (Nat.sub_le_sub_left hobserved _).trans hnear
  have hhandled : Handled policy (d.within v e) d₁ failure e.now (d₁.recover failure e.now source).1
        (d₁.recover failure e.now source).2.1 ∧ _ :=
    handled_recover (hcounted.of_steady hsteady) (compiled_of_policy hmachine hpolicy) htime'
  rw [← hstep, ← hdriver] at hhandled
  refine ⟨policy, hpolicy, hhandled.1.of_steady hsteady, ?_⟩
  unfold visit
  rw [hfailing, hpolicy]
  exact hhandled.2

/-- One call. -/
theorem Sound.step (h : d.Sound v) (e : Event σ) :
    d.Follows v e ∧ (d.step e).2.Sound (d.visit v e) := by
  cases htime : d.inTime e.now with
  | false =>
      have hfailing := failing_of_not_inTime htime
      have hsome := outcome_of_not_inTime htime
      refine ⟨⟨fun failure hasked => ?_, fun failure hfatal => ?_, h.bounded⟩, fun hnone => ?_⟩
      · rw [hfailing] at hasked
        cases hasked
      · rw [hfailing] at hfatal
        cases hfatal
      · rw [hnone] at hsome
        cases hsome
  | true =>
      obtain ⟨hnone, hobserved, -⟩ := inTime_iff.mp htime
      obtain ⟨hmachine, hnear, hvisited⟩ := h hnone
      have hanswered := answered_step (e := e) hvisited htime
      obtain ⟨hmachine', hdeadline', hobserved'⟩ := kept_step htime
      have hfollows : d.Follows v e := by
        refine ⟨fun failure hasked => ?_, fun failure hfatal => ?_, h.bounded⟩
        · obtain ⟨policy, hpolicy, hhandled, -⟩ :=
            follows_asked hmachine hnear hvisited htime hasked
          exact ⟨policy, hpolicy, hhandled⟩
        · rw [hfatal] at hanswered
          exact hanswered
      refine ⟨hfollows, fun _ => ⟨hmachine' ▸ hmachine, ?_, ?_⟩⟩
      · rw [hdeadline', hobserved']
        exact (Nat.sub_le_sub_left hobserved _).trans hnear
      · match hfailing : d.failing e with
        | none =>
            rw [hfailing] at hanswered
            have hvisit : d.visit v e = d.within v e := by
              unfold visit
              rw [hfailing]
            intro hvisiting
            obtain ⟨hsteady, policy, hcounted⟩ := hanswered hvisiting
            rw [hvisit]
            exact ⟨policy, hcounted.of_steady hsteady⟩
        | some (failure, true) =>
            obtain ⟨-, -, -, hvisited'⟩ := follows_asked hmachine hnear hvisited htime hfailing
            exact hvisited'
        | some (failure, false) =>
            obtain ⟨-, hphase⟩ := hfollows.fatal failure hfailing
            exact visited_of_terminal ⟨_, hphase⟩

/-- The calls of a run, each with the driver and the visit that it finds. -/
def visits (d : Driver σ) (v : Visit) : List (Event σ) → List (Driver σ × Visit × Event σ)
  | [] => []
  | e :: es => (d, v, e) :: (d.step e).2.visits (d.visit v e) es

theorem Sound.visits (h : d.Sound v) (es : List (Event σ)) :
    ∀ x ∈ d.visits v es, x.1.Follows x.2.1 x.2.2 := by
  induction es generalizing d v with
  | nil => exact fun x hx => by cases hx
  | cons e es ih =>
      obtain ⟨hfollows, hsound⟩ := h.step e
      rintro x (_ | ⟨_, hx⟩)
      · exact hfollows
      · exact ih hsound x hx

end

end Driver

/-! ## A single transition -/

def doubling : TimingFields := ⟨1, 2, none, .none, one_pos, by decide +kernel⟩

/-- A task that is tried again whatever the failure is. -/
def retriedMachine : CompiledMachine Unit where
  rows := [("Work", .task passFlow .directLambda .omitted
    ⟨[⟨⟨["States.ALL"]⟩, 3, doubling.timing⟩], []⟩ .done)]
  start := 0
  timeout := none

namespace Driver

def single : Driver Unit := { idle with machine := retriedMachine, remaining := 1 }

def begin : Event Unit := .advance (sample 2) ()

end Driver

end Rustack.StepFunctions.Engine
