import Rustack.StepFunctions.Engine.Turns

/-!
# One attempt at a time

A run of a driver is any sequence of calls to it.  Each call either finds the driver
settled, settles it as its time is over, leaves it alone, or takes a turn; from what
each of them does to the outstanding attempt follows what holds of all attempts of a
run.
-/

namespace Rustack.StepFunctions.Engine

open List

/-- A call to a driver; each brings its own source of entropy. -/
inductive Event (σ : Type) where
  | advance (now : ClockSample) (source : σ)
  | complete (attempt : AttemptId) (result : Except TaskFailure Payload) (now : ClockSample)
      (source : σ)
  | completeFanout (attempt : AttemptId) (result : Except FanoutFailure Payload)
      (now : ClockSample) (source : σ)
  | stop (reason : TaskFailure) (now : ClockSample)

namespace Event

variable {σ : Type}

def now : Event σ → ClockSample
  | advance now _ | complete _ _ now _ | completeFanout _ _ now _ | stop _ now => now

/-- The attempt that a result is for. -/
def answers : Event σ → Option AttemptId
  | complete attempt _ _ _ | completeFanout attempt _ _ _ => some attempt
  | _ => none

end Event

namespace Driver

variable {σ : Type} {d d' : Driver σ} {e : Event σ}

/-- The driver has no outcome yet, and the clock has neither regressed nor reached its deadline. -/
def inTime (d : Driver σ) (now : ClockSample) : Bool :=
  d.outcome.isNone && d.observed ≤ now.monotonic && now.monotonic < d.deadline

/-- The outstanding attempt, if a call brings its result in time. -/
def accepts (d : Driver σ) (e : Event σ) : Option AttemptId :=
  if !d.inTime e.now then none
  else match e, d.phase with
    | .complete attempt _ now _, .calling current deadline =>
      if current = attempt ∧ now.monotonic < deadline then some current else none
    | .completeFanout attempt _ _ _, .joining current _ =>
      if current = attempt then some current else none
    | _, _ => none

/-- A call executes a state. -/
def executes (d : Driver σ) (e : Event σ) : Bool :=
  match e, d.phase with
  | .advance now _, .ready _ => d.inTime now && 0 < d.remaining
  | _, _ => false

/-! ## What a call does -/

/-- The driver as a call in time finds it. -/
def seen (d : Driver σ) (now : ClockSample) : Driver σ :=
  { d with started := true, observed := now.monotonic }

/-- The driver while its phase is taken out. -/
def taken (d : Driver σ) (now : ClockSample) : Driver σ :=
  { d with started := true, observed := now.monotonic, phase := .ready false }

/-- The time of the driver is over: it is settled, and the outstanding attempt abandoned. -/
structure Over (d : Driver σ) (now : ClockSample) (r : DriverUpdate σ × Driver σ) : Prop where
  outcome : ∃ outcome, r.1 = ⟨.settled outcome, d.active⟩ ∧ r.2.phase = .terminal outcome ∧
    (d.observed ≤ now.monotonic → outcome = .timedOut)
  deadline : r.2.deadline = d.deadline
  generation : r.2.generation = d.generation
  remaining : r.2.remaining = d.remaining

/-- What a call in time does. -/
inductive Call (d : Driver σ) (e : Event σ) : DriverUpdate σ × Driver σ → Prop
  | idle {step : DriverStep σ} (hattempt : step.attempt = none) (haccepts : d.accepts e = none)
      (hexecutes : d.executes e = false)
      (hpark : e.answers = none → ∃ until', step = .park until') :
      Call d e (update step, d.seen e.now)
  | stopped (reason : TaskFailure) (hstop : ∃ now, e = .stop reason now)
      (haccepts : d.accepts e = none) (hexecutes : d.executes e = false) :
      Call d e (⟨.settled (.aborted reason), d.active⟩,
        { d.seen e.now with phase := .terminal (.aborted reason) })
  | executed {step : DriverStep σ} {d' : Driver σ} {entry : Bool}
      (hphase : d.phase = .ready entry) (haccepts : d.accepts e = none)
      (hexecutes : d.executes e = true)
      (hturn : { d.taken e.now with remaining := d.remaining - 1 }.Turn step d') :
      Call d e (update step, d')
  | abandoned {step : DriverStep σ} {d' : Driver σ} (haccepts : d.accepts e = none)
      (hexecutes : d.executes e = false)
      (hphase : ∀ entry, d.phase = .ready entry → step ≠ .continue)
      (hattempt : step.attempt = none) (hturn : (d.taken e.now).Turn step d') :
      Call d e (⟨step, d.active⟩, d')
  | accepted {step : DriverStep σ} {d' : Driver σ} (haccepts : d.accepts e = d.active)
      (hexecutes : d.executes e = false) (hphase : ∀ entry, d.phase ≠ .ready entry)
      (hattempt : step.attempt = none) (hturn : (d.taken e.now).Turn step d') :
      Call d e (update step, d')

theorem inTime_iff {now : ClockSample} : d.inTime now = true ↔
    d.outcome = none ∧ d.observed ≤ now.monotonic ∧ now.monotonic < d.deadline := by
  unfold inTime
  rw [Bool.and_eq_true, Bool.and_eq_true, decide_eq_true_iff, decide_eq_true_iff,
    Option.isNone_iff_eq_none, and_assoc]

theorem phase_of_outcome {outcome : ExecutionOutcome} (h : d.outcome = some outcome) :
    d.phase = .terminal outcome := by
  unfold Driver.outcome at h
  split at h
  · next hphase => rw [hphase, Option.some.inj h]
  · cases h

theorem guard_terminal {outcome : ExecutionOutcome} (h : d.outcome = some outcome)
    (now : ClockSample) : { d with started := true }.guard now =
      (some (update (.settled outcome)), { d with started := true }) := by
  unfold guard
  dsimp only
  rw [phase_of_outcome h]

theorem guard_over {now : ClockSample} (hnone : d.outcome = none) (h : d.inTime now = false) :
    ∃ r, { d with started := true }.guard now = (some r.1, r.2) ∧ d.Over now r := by
  have hlate : now.monotonic < d.observed ∨ d.deadline ≤ now.monotonic := by
    by_contra hnot
    rw [not_or, Nat.not_lt, Nat.not_le] at hnot
    rw [inTime_iff.mpr ⟨hnone, hnot⟩] at h
    cases h
  unfold guard
  split
  · next outcome hphase =>
      rw [Driver.outcome, hphase] at hnone
      cases hnone
  split
  · next hregressed =>
      refine ⟨(_, _), rfl, ⟨_, rfl, rfl, fun hle => ?_⟩, rfl, rfl, rfl⟩
      exact absurd hregressed (Nat.not_lt_of_le hle)
  · next hregressed =>
      dsimp only at hregressed ⊢
      rw [if_pos (hlate.resolve_left hregressed)]
      exact ⟨(_, _), rfl, ⟨_, rfl, rfl, fun _ => rfl⟩, rfl, rfl, rfl⟩

theorem guard_inTime {now : ClockSample} (h : d.inTime now = true) :
    { d with started := true }.guard now = (none, d.seen now) := by
  obtain ⟨hnone, hobserved, hdeadline⟩ := inTime_iff.mp h
  unfold guard
  split
  · next outcome hphase =>
      rw [Driver.outcome, hphase] at hnone
      cases hnone
  · dsimp only
    rw [if_neg (Nat.not_lt_of_le hobserved), if_neg (Nat.not_le_of_lt hdeadline)]
    rfl

/-! ## Runs -/

variable [ExecutionSource σ]

def step (d : Driver σ) (e : Event σ) : DriverUpdate σ × Driver σ :=
  match e with
  | .advance now source => ((d.advance now source).1, (d.advance now source).2.1)
  | .complete attempt result now source =>
    ((d.complete attempt result now source).1, (d.complete attempt result now source).2.1)
  | .completeFanout attempt result now source =>
    ((d.completeFanout attempt result now source).1,
      (d.completeFanout attempt result now source).2.1)
  | .stop reason now => d.stop reason now

def run (d : Driver σ) (es : List (Event σ)) : Driver σ := es.foldl (fun d e => (d.step e).2) d

/-- The calls of a run, each with the driver it finds. -/
def trace (d : Driver σ) : List (Event σ) → List (Driver σ × Event σ)
  | [] => []
  | e :: es => (d, e) :: (d.step e).2.trace es

theorem step_terminal {outcome : ExecutionOutcome} (h : d.outcome = some outcome) (e : Event σ) :
    d.step e = (update (.settled outcome), { d with started := true }) := by
  have hguard := guard_terminal h e.now
  cases e with
  | advance now source =>
      unfold step advance
      dsimp only [Event.now] at hguard ⊢
      rw [hguard]
  | complete attempt result now source =>
      unfold step complete
      dsimp only [Event.now] at hguard ⊢
      rw [hguard]
  | completeFanout attempt result now source =>
      unfold step completeFanout
      dsimp only [Event.now] at hguard ⊢
      rw [hguard]
  | stop reason now =>
      unfold step stop
      dsimp only [Event.now] at hguard ⊢
      rw [hguard]

theorem step_over (hnone : d.outcome = none) (h : d.inTime e.now = false) :
    d.Over e.now (d.step e) := by
  obtain ⟨r, hguard, hover⟩ := guard_over hnone h
  cases e with
  | advance now source =>
      unfold step advance
      dsimp only [Event.now] at hguard ⊢
      rw [hguard]
      exact hover
  | complete attempt result now source =>
      unfold step complete
      dsimp only [Event.now] at hguard ⊢
      rw [hguard]
      exact hover
  | completeFanout attempt result now source =>
      unfold step completeFanout
      dsimp only [Event.now] at hguard ⊢
      rw [hguard]
      exact hover
  | stop reason now =>
      unfold step stop
      dsimp only [Event.now] at hguard ⊢
      rw [hguard]
      exact hover

omit [ExecutionSource σ] in
theorem attempt_currentUpdate (d : Driver σ) :
    ∃ step, d.currentUpdate = update step ∧ step.attempt = none := by
  refine ⟨_, rfl, ?_⟩
  split <;> rfl

omit [ExecutionSource σ] in
theorem active_of_ready {entry : Bool} (h : d.phase = .ready entry) : d.active = none := by
  rw [active, h]

omit [ExecutionSource σ] in
theorem accepts_advance (d : Driver σ) (now : ClockSample) (source : σ) :
    d.accepts (.advance now source) = none := by
  unfold accepts
  split <;> rfl

omit [ExecutionSource σ] in
theorem executes_of_answers {attempt : AttemptId} (h : e.answers = some attempt) :
    d.executes e = false := by
  cases e with
  | advance now source => cases h
  | complete => rfl
  | completeFanout => rfl
  | stop => cases h

omit [ExecutionSource σ] in
/-- A phase that is put back. -/
theorem withPhase_seen {now : ClockSample} {phase : Phase} (h : (d.seen now).phase = phase) :
    { d.seen now with phase := phase } = d.seen now := by
  rw [← h]

omit [ExecutionSource σ] in
theorem executes_of_not_ready (h : ∀ entry, d.phase ≠ .ready entry) : d.executes e = false := by
  unfold executes
  split
  · next heq => exact absurd heq (h _)
  · rfl

/-- An advance in time. -/
theorem call_advance {now : ClockSample} {source : σ} (h : d.inTime now = true) :
    d.Call (.advance now source)
      ((d.advance now source).1, (d.advance now source).2.1) := by
  have haccepts := d.accepts_advance now source
  unfold advance
  rw [guard_inTime h]
  dsimp only
  cases hphase : (d.seen now).phase with
  | ready entry =>
      have hready : d.phase = .ready entry := hphase
      obtain ⟨hcancel, hturn⟩ := (d.taken now).turn_ready entry now source
      dsimp only
      by_cases hleft : 0 < d.remaining
      · have hexec : d.executes (.advance now source) = true := by
          unfold executes
          rw [hready]
          dsimp only
          rw [h, decide_eq_true hleft]
          rfl
        have hcall := Call.executed hready haccepts hexec hturn
        rw [update, ← hcancel] at hcall
        exact hcall
      · have hzero : d.remaining = 0 := Nat.eq_zero_of_not_pos hleft
        have hexec : d.executes (.advance now source) = false := by
          unfold executes
          rw [hready]
          dsimp only
          rw [decide_eq_false hleft, Bool.and_false]
        have hstep : (d.taken now).ready entry now source =
            (update (d.taken now).transitionLimit.1, (d.taken now).transitionLimit.2, source) := by
          unfold ready
          exact if_pos hzero
        change d.Call _ (((d.taken now).ready entry now source).1,
          ((d.taken now).ready entry now source).2.1)
        rw [hstep]
        have hturn : (d.taken now).Turn (d.taken now).transitionLimit.1
            (d.taken now).transitionLimit.2 := turn_settle (d.taken now) rfl
        have hcall := Call.abandoned haccepts hexec (fun _ _ heq => by cases heq) rfl hturn
        rw [active_of_ready hready] at hcall
        exact hcall
  | calling attempt deadline =>
      have hcalling : d.phase = .calling attempt deadline := hphase
      have hnot : ∀ entry, d.phase ≠ .ready entry := fun entry heq => by
        rw [hcalling] at heq
        cases heq
      dsimp only
      split
      · have hactive : d.active = some attempt := by rw [active, hcalling]
        have hcall := Call.abandoned haccepts (executes_of_not_ready hnot)
          (fun entry heq => absurd heq (hnot entry)) (attempt_recover _ _ _ _)
          ((d.taken now).turn_recover (.fields (some "States.Timeout") none) now source)
        rw [hactive] at hcall
        exact hcall
      · have hcall : d.Call (.advance now source) (update (.park deadline), d.seen now) :=
          .idle rfl haccepts (executes_of_not_ready hnot) fun _ => ⟨_, rfl⟩
        rw [← withPhase_seen hphase] at hcall
        exact hcall
  | joining attempt count =>
      have hjoining : d.phase = .joining attempt count := hphase
      have hnot : ∀ entry, d.phase ≠ .ready entry := fun entry heq => by
        rw [hjoining] at heq
        cases heq
      have hcall : d.Call (.advance now source) (update (.park d.deadline), d.seen now) :=
        .idle rfl haccepts (executes_of_not_ready hnot) fun _ => ⟨_, rfl⟩
      rw [← withPhase_seen hphase] at hcall
      exact hcall
  | waiting until' continuation =>
      have hwaiting : d.phase = .waiting until' continuation := hphase
      have hnot : ∀ entry, d.phase ≠ .ready entry := fun entry heq => by
        rw [hwaiting] at heq
        cases heq
      have hactive : d.active = none := by rw [active, hwaiting]
      dsimp only
      split
      · have hcall : d.Call (.advance now source)
            (update (.park (min until' d.deadline)), d.seen now) :=
          .idle rfl haccepts (executes_of_not_ready hnot) fun _ => ⟨_, rfl⟩
        rw [← withPhase_seen hphase] at hcall
        exact hcall
      · cases continuation with
        | retry =>
            have hcall := Call.abandoned haccepts (executes_of_not_ready hnot)
              (fun entry heq => absurd heq (hnot entry)) rfl
              (⟨Kept.refl _, ⟨false, rfl⟩, fun _ h => by cases h⟩ :
                (d.taken now).Turn .continue (d.taken now))
            rw [hactive] at hcall
            exact hcall
        | wait output next =>
            have hcall := Call.abandoned haccepts (executes_of_not_ready hnot)
              (fun entry heq => absurd heq (hnot entry)) (attempt_transfer _ _ _)
              ((d.taken now).turn_transfer output next)
            rw [hactive] at hcall
            exact hcall
  | terminal outcome =>
      have hterminal : d.phase = .terminal outcome := hphase
      obtain ⟨hnone, -⟩ := inTime_iff.mp h
      rw [Driver.outcome, hterminal] at hnone
      cases hnone

omit [ExecutionSource σ] in
theorem call_stop {reason : TaskFailure} {now : ClockSample} (h : d.inTime now = true) :
    d.Call (.stop reason now) (d.stop reason now) := by
  have haccepts : d.accepts (.stop reason now) = none := by
    unfold accepts
    split <;> rfl
  unfold stop
  rw [guard_inTime h]
  exact .stopped reason ⟨now, rfl⟩ haccepts rfl

omit [ExecutionSource σ] in
/-- A result that no phase waits for. -/
theorem call_stale {attempt : AttemptId} (hanswers : e.answers = some attempt)
    (haccepts : d.accepts e = none) :
    d.Call e ((d.seen e.now).currentUpdate, d.seen e.now) := by
  obtain ⟨step, heq, hattempt⟩ := (d.seen e.now).attempt_currentUpdate
  rw [heq]
  refine .idle hattempt haccepts (executes_of_answers hanswers) fun hnone => ?_
  rw [hanswers] at hnone
  cases hnone

theorem call_complete {attempt : AttemptId} {result : Except TaskFailure Payload}
    {now : ClockSample} {source : σ} (h : d.inTime now = true) :
    d.Call (.complete attempt result now source)
      ((d.complete attempt result now source).1, (d.complete attempt result now source).2.1) := by
  have haccepts : d.accepts (.complete attempt result now source) = _ :=
    if_neg fun hnot => by rw [Event.now, h] at hnot; cases hnot
  have hexecutes : d.executes (.complete attempt result now source) = false := rfl
  unfold complete
  rw [guard_inTime h]
  dsimp only
  cases hphase : (d.seen now).phase with
  | calling current deadline =>
      have hcalling : d.phase = .calling current deadline := hphase
      have hnot : ∀ entry, d.phase ≠ .ready entry := fun entry heq => by
        rw [hcalling] at heq
        cases heq
      have hactive : d.active = some current := by rw [active, hcalling]
      rw [hcalling] at haccepts
      dsimp only at haccepts ⊢
      split
      · next hne =>
          rw [if_neg fun hand => hne hand.1] at haccepts
          exact call_stale rfl haccepts
      · next heq =>
          rw [not_not] at heq
          split
          · next hdue =>
              -- the time of the task is over: the driver advances instead
              rw [if_neg fun hand => Nat.not_lt_of_le hdue hand.2] at haccepts
              have hseen : (d.seen now).inTime now = true := by
                obtain ⟨hnone, hobserved, hdeadline⟩ := inTime_iff.mp h
                exact inTime_iff.mpr ⟨hnone, Nat.le_refl _, hdeadline⟩
              unfold advance
              rw [guard_inTime hseen]
              dsimp only
              rw [show ((d.seen now).seen now).phase = .calling current deadline from hphase]
              dsimp only
              rw [if_pos hdue]
              have hcall := Call.abandoned haccepts hexecutes
                (fun entry heq => absurd heq (hnot entry)) (attempt_recover _ _ _ _)
                ((d.taken now).turn_recover (.fields (some "States.Timeout") none) now source)
              rw [hactive] at hcall
              exact hcall
          · next hdue =>
              rw [if_pos ⟨heq, Nat.lt_of_not_le hdue⟩, ← hactive] at haccepts
              cases result with
              | error failure =>
                  exact .accepted haccepts hexecutes hnot (attempt_settleFailure _ _ _ _)
                    ((d.taken now).turn_settleFailure _ _ _)
              | ok result =>
                  exact .accepted haccepts hexecutes hnot (attempt_joined _ _ _ _)
                    ((d.taken now).turn_joined _ _ _)
  | ready | joining | waiting | terminal =>
      rw [show d.phase = _ from hphase] at haccepts
      exact call_stale rfl haccepts

theorem call_completeFanout {attempt : AttemptId} {result : Except FanoutFailure Payload}
    {now : ClockSample} {source : σ} (h : d.inTime now = true) :
    d.Call (.completeFanout attempt result now source)
      ((d.completeFanout attempt result now source).1,
        (d.completeFanout attempt result now source).2.1) := by
  have haccepts : d.accepts (.completeFanout attempt result now source) = _ :=
    if_neg fun hnot => by rw [Event.now, h] at hnot; cases hnot
  have hexecutes : d.executes (.completeFanout attempt result now source) = false := rfl
  unfold completeFanout
  rw [guard_inTime h]
  dsimp only
  cases hphase : (d.seen now).phase with
  | joining current count =>
      have hjoining : d.phase = .joining current count := hphase
      have hnot : ∀ entry, d.phase ≠ .ready entry := fun entry heq => by
        rw [hjoining] at heq
        cases heq
      have hactive : d.active = some current := by rw [active, hjoining]
      rw [hjoining] at haccepts
      dsimp only at haccepts ⊢
      split
      · next hne =>
          rw [if_neg hne] at haccepts
          exact call_stale rfl haccepts
      · next heq =>
          rw [not_not] at heq
          rw [if_pos heq, ← hactive] at haccepts
          cases result with
          | error failure =>
              cases failure with
              | branch failure =>
                  exact .accepted haccepts hexecutes hnot (attempt_settleFailure _ _ _ _)
                    ((d.taken now).turn_settleFailure _ _ _)
              | evaluation error =>
                  exact .accepted haccepts hexecutes hnot (attempt_evaluationFailure _ _ _ _ _)
                    ((d.taken now).turn_evaluationFailure _ _ _ _)
              | propagated failure =>
                  exact .accepted haccepts hexecutes hnot (attempt_propagateFailure _ _ _ _)
                    ((d.taken now).turn_propagateFailure _ _ _)
              | unrecoverable failure =>
                  exact .accepted haccepts hexecutes hnot rfl ((d.taken now).turn_settle rfl)
          | ok result =>
              exact .accepted haccepts hexecutes hnot (attempt_joined _ _ _ _)
                ((d.taken now).turn_joined _ _ _)
  | ready | calling | waiting | terminal =>
      rw [show d.phase = _ from hphase] at haccepts
      exact call_stale rfl haccepts

theorem call_step (h : d.inTime e.now = true) : d.Call e (d.step e) := by
  cases e with
  | advance now source => exact call_advance h
  | complete attempt result now source => exact call_complete h
  | completeFanout attempt result now source => exact call_completeFanout h
  | stop reason now => exact call_stop h

omit [ExecutionSource σ] in
theorem Fits.active {step : DriverStep σ} (h : Fits step d) : d.active = step.attempt := by
  cases step with
  | «continue» =>
      obtain ⟨entry, hphase⟩ := h
      rw [Driver.active, hphase]
      rfl
  | dispatch | callback =>
      obtain ⟨⟨deadline, hphase⟩, -⟩ := h
      rw [Driver.active, hphase]
      rfl
  | fanOut plan =>
      rw [Driver.active, h.1.1]
      rfl
  | park until' =>
      obtain ⟨continuation, hphase⟩ := h
      rw [Driver.active, hphase]
      rfl
  | settled outcome =>
      have hphase : d.phase = .terminal outcome := h.1
      rw [Driver.active, hphase]
      rfl

/-- The attempts whose results a run has used. -/
def accepted (d : Driver σ) (es : List (Event σ)) : List AttemptId :=
  (d.trace es).filterMap fun x => x.1.accepts x.2

/-- How often a driver can go on without waiting. -/
def rank (d : Driver σ) : ℕ :=
  d.remaining + match d.phase with
    | .ready _ => 0
    | _ => 1

end Driver

/-- A source that is out of entropy. -/
instance exhausted : ExecutionSource Unit := ⟨fun _ => (.error .entropy, ())⟩

def passFlow : DataFlow Unit := ⟨fun input _ => pure input, fun _ result _ => pure result⟩

/-- One task, not tried again. -/
def taskMachine : CompiledMachine Unit :=
  ⟨[("Work", .task passFlow .directLambda .omitted ⟨[], []⟩ .done)], 0, none⟩

def sample (monotonic : Instant) : ClockSample := ⟨monotonic, "1970-01-01T00:00:00Z"⟩

namespace Driver

/-- A driver of the task that was not called yet, on an empty object. -/
def idle : Driver Unit where
  machine := taskMachine
  started := false
  input := ⟨.object [], "\x7b\x7d"⟩
  base := ⟨.object []⟩
  context := ⟨.object []⟩
  state := 0
  phase := .ready true
  deadline := 5
  observed := 1
  entered := "1970-01-01T00:00:00Z"
  generation := 0
  retries := []
  retryCount := 0
  remaining := 3
  diagnostic := none
  fanoutStarted := none

end Driver

end Rustack.StepFunctions.Engine
