import Rustack.StepFunctions.Engine.Driver

/-!
# Turns of the driver

Whatever a driver does within one call, the step that it answers with says which phase
it is in, and a new attempt has a greater id than all before it.
-/

namespace Rustack.StepFunctions.Engine

/-- The attempt that a step hands out. -/
def DriverStep.attempt {σ : Type} : DriverStep σ → Option AttemptId
  | .dispatch call => some call.attempt
  | .callback call => some call.identity.attempt
  | .fanOut plan => some plan.attempt
  | _ => none

/-- Every Parallel state has as many branches as the compiler lets it have. -/
inductive Compiled {σ : Type} : CompiledMachine σ → Prop
  | intro {machine : CompiledMachine σ}
      (width : ∀ name flow branches recovery next,
        (name, StateView.parallel flow branches recovery next) ∈ machine.rows →
          branches.length ≤ 1000)
      (branch : ∀ name flow branches recovery next,
        (name, StateView.parallel flow branches recovery next) ∈ machine.rows →
          ∀ branch ∈ branches, Compiled branch)
      (processor : ∀ name flow items selector processor concurrency recovery next,
        (name, StateView.map flow items selector processor concurrency recovery next) ∈
          machine.rows → Compiled processor) : Compiled machine

/-- A machine has come to its end, rather than been ended. -/
def ExecutionOutcome.concludes : ExecutionOutcome → Bool
  | succeeded _ | failed _ => true
  | timedOut | aborted _ => false

namespace Driver

variable {σ : Type} {d d' d'' : Driver σ} {now : ClockSample} {source : σ}

/-- What no turn changes, apart from the transitions that are left. -/
structure Kept (d d' : Driver σ) : Prop where
  machine : d'.machine = d.machine
  deadline : d'.deadline = d.deadline
  observed : d'.observed = d.observed
  started : d'.started = d.started
  remaining : d'.remaining = d.remaining
  generation : d.generation ≤ d'.generation

theorem Kept.refl (d : Driver σ) : d.Kept d := ⟨rfl, rfl, rfl, rfl, rfl, Nat.le_refl _⟩

theorem Kept.trans (h : d.Kept d') (h' : d'.Kept d'') : d.Kept d'' where
  machine := h'.machine.trans h.machine
  deadline := h'.deadline.trans h.deadline
  observed := h'.observed.trans h.observed
  started := h'.started.trans h.started
  remaining := h'.remaining.trans h.remaining
  generation := Nat.le_trans h.generation h'.generation

/-- The step that is answered tells the phase. -/
def Fits (step : DriverStep σ) (d : Driver σ) : Prop :=
  match step with
  | .continue => ∃ entry, d.phase = .ready entry
  | .dispatch call => (∃ deadline, d.phase = .calling call.attempt deadline) ∧
      call.attempt = d.generation
  | .callback call => (∃ deadline, d.phase = .calling call.identity.attempt deadline) ∧
      call.identity.attempt = d.generation
  | .fanOut plan => (d.phase = .joining plan.attempt plan.count ∧ plan.deadline = d.deadline ∧
      0 < plan.concurrency ∧ plan.machine = d.machine ∧
        (Compiled d.machine → plan.count ≤ MAX_ITEMS)) ∧ plan.attempt = d.generation
  | .park until' => ∃ continuation, d.phase = .waiting until' continuation
  | .settled outcome => d.phase = .terminal outcome ∧ outcome.concludes = true

/-- A turn of a driver without an attempt. -/
structure Turn (d : Driver σ) (step : DriverStep σ) (d' : Driver σ) : Prop where
  kept : d.Kept d'
  fits : Fits step d'
  fresh : ∀ attempt ∈ step.attempt, d.generation < attempt

theorem Turn.after {step : DriverStep σ} (hkept : d.Kept d') (h : d'.Turn step d'') :
    d.Turn step d'' where
  kept := hkept.trans h.kept
  fits := h.fits
  fresh := fun attempt hattempt => Nat.lt_of_le_of_lt hkept.generation (h.fresh attempt hattempt)

/-- A turn that can fail. -/
def Turned (d : Driver σ) (r : Except AslError (DriverStep σ) × Driver σ × σ) : Prop :=
  match r.1 with
  | .ok step => d.Turn step r.2.1
  | .error _ => d.Kept r.2.1

theorem turn_settle (d : Driver σ) {outcome : ExecutionOutcome}
    (hconcludes : outcome.concludes = true) :
    d.Turn (d.settle outcome).1 (d.settle outcome).2 :=
  ⟨⟨rfl, rfl, rfl, rfl, rfl, Nat.le_refl _⟩, ⟨rfl, hconcludes⟩, fun _ h => by cases h⟩

theorem turn_transfer (d : Driver σ) (output : Payload) (next : Transition) :
    d.Turn (d.transfer output next).1 (d.transfer output next).2 := by
  cases next with
  | done => exact turn_settle d rfl
  | next state =>
    exact ⟨⟨rfl, rfl, rfl, rfl, rfl, Nat.le_refl _⟩, ⟨true, rfl⟩, fun _ h => by cases h⟩

theorem turn_settleEvaluation (d : Driver σ) (error : AslError) :
    d.Turn (d.settleEvaluation error).1 (d.settleEvaluation error).2 :=
  ⟨⟨rfl, rfl, rfl, rfl, rfl, Nat.le_refl _⟩, ⟨rfl, rfl⟩, fun _ h => by cases h⟩

/-! ## Recovery -/

section

variable [ExecutionSource σ]

theorem kept_recoveryPlan (d : Driver σ) (failure : ExecutionFailure) (now : ClockSample)
    (source : σ) : d.Kept (d.recoveryPlan failure now source).2.1 := by
  unfold recoveryPlan
  split
  · exact ⟨rfl, rfl, rfl, rfl, rfl, Nat.le_refl _⟩
  split
  · exact ⟨rfl, rfl, rfl, rfl, rfl, Nat.le_refl _⟩
  dsimp only
  split
  · exact ⟨rfl, rfl, rfl, rfl, rfl, Nat.le_refl _⟩
  split
  · exact ⟨rfl, rfl, rfl, rfl, rfl, Nat.le_refl _⟩
  split
  · split
    · exact ⟨rfl, rfl, rfl, rfl, rfl, Nat.le_refl _⟩
    · split <;> exact ⟨rfl, rfl, rfl, rfl, rfl, Nat.le_refl _⟩
  · exact ⟨rfl, rfl, rfl, rfl, rfl, Nat.le_refl _⟩

theorem turn_recover (d : Driver σ) (failure : ExecutionFailure) (now : ClockSample) (source : σ) :
    d.Turn (d.recover failure now source).1 (d.recover failure now source).2.1 := by
  have hkept := d.kept_recoveryPlan failure now source
  unfold recover
  split
  · next index until' d' source' heq =>
      rw [heq] at hkept
      split
      · exact .after hkept (turn_settleEvaluation d' _)
      · exact .after hkept ⟨⟨rfl, rfl, rfl, rfl, rfl, Nat.le_refl _⟩, ⟨.retry, rfl⟩,
          fun _ h => by cases h⟩
  · next output next d' source' heq =>
      rw [heq] at hkept
      exact .after hkept (turn_transfer d' _ _)
  · next d' source' heq =>
      rw [heq] at hkept
      exact .after hkept (turn_settle d' rfl)
  · next d' source' heq =>
      rw [heq] at hkept
      exact .after hkept (turn_settle d' rfl)
  · next error d' source' heq =>
      rw [heq] at hkept
      split
      · exact .after hkept (turn_settleEvaluation d' _)
      · exact .after hkept (turn_settleEvaluation d' _)
      · exact .after hkept (turn_settleEvaluation d' _)
      · exact .after hkept (turn_settleEvaluation d' _)
      · exact .after hkept ⟨⟨rfl, rfl, rfl, rfl, rfl, Nat.le_refl _⟩, ⟨rfl, rfl⟩,
          fun _ h => by cases h⟩

theorem turn_propagateFailure (d : Driver σ) (failure : ExecutionFailure) (now : ClockSample)
    (source : σ) : d.Turn (d.propagateFailure failure now source).1
      (d.propagateFailure failure now source).2.1 := by
  have hturn : ∀ d' : Driver σ, d.Kept d' →
      d.Turn (if failure.error = some "States.DataLimitExceeded" then d'.recover failure now source
        else ((d'.settle (.failed failure)).1, (d'.settle (.failed failure)).2, source)).1
      (if failure.error = some "States.DataLimitExceeded" then d'.recover failure now source
        else ((d'.settle (.failed failure)).1, (d'.settle (.failed failure)).2, source)).2.1 := by
    intro d' hkept
    split
    · exact .after hkept (turn_recover _ _ _ _)
    · exact .after hkept (turn_settle _ rfl)
  unfold propagateFailure
  refine hturn _ ?_
  split <;> exact ⟨rfl, rfl, rfl, rfl, rfl, Nat.le_refl _⟩

theorem turn_evaluationFailure (d : Driver σ) (error : AslError) (now : ClockSample) (source : σ)
    (recover : Bool) : d.Turn (d.evaluationFailure error now source recover).1
      (d.evaluationFailure error now source recover).2.1 := by
  unfold evaluationFailure
  dsimp only
  split
  · refine .after ?_ (turn_recover _ _ _ _)
    exact ⟨rfl, rfl, rfl, rfl, rfl, Nat.le_refl _⟩
  · exact turn_settleEvaluation d error

theorem turn_settleFailure (d : Driver σ) (failure : ExecutionFailure) (now : ClockSample)
    (source : σ) : d.Turn (d.settleFailure failure now source).1
      (d.settleFailure failure now source).2.1 := by
  unfold settleFailure
  split
  · exact turn_recover d _ _ _
  · exact turn_propagateFailure d _ _ _
  · exact turn_settle d rfl

end

/-! ## States -/

theorem turned_after {α : Type} (value : Eval σ α) {next : α → DriverStep σ × Driver σ}
    (h : ∀ a, d.Turn (next a).1 (next a).2) : d.Turned (d.after value source next) := by
  unfold Driver.after
  split
  · exact ⟨rfl, rfl, rfl, rfl, rfl, Nat.le_refl _⟩
  · exact h _

theorem turned_finishResult (d : Driver σ) (result : Except AslError Payload) (source : σ) :
    d.Turned (d.finishResult result source) :=
  turned_after _ fun (output, next) => turn_transfer d output next

theorem kept_refreshContext (h : d.refreshContext = .ok d') : d.Kept d' := by
  unfold refreshContext at h
  split at h
  · next fields _ =>
      cases hname : d.machine.stateName d.state with
      | error error =>
          rw [hname] at h
          cases h
      | ok name =>
          rw [hname] at h
          simp only [bind, Except.bind, pure, Except.pure] at h
          split at h
          · cases h
          · cases h
            exact ⟨rfl, rfl, rfl, rfl, rfl, Nat.le_refl _⟩
  · cases h

theorem turned_task (d : Driver σ) (flow : DataFlow σ) (timeout : TaskTimeout)
    (resource : Integration) (now : ClockSample) (source : σ) :
    d.Turned (d.task flow timeout resource now source) := by
  refine turned_after _ fun plan => ?_
  have hkept : d.Kept { d with
      generation := d.generation + 1
      phase := .calling (d.generation + 1) (d.taskDeadline plan.seconds now.monotonic) } :=
    ⟨rfl, rfl, rfl, rfl, rfl, Nat.le_succ _⟩
  cases plan.parameters with
  | none | some =>
      refine ⟨hkept, ⟨⟨_, rfl⟩, rfl⟩, fun attempt hattempt => ?_⟩
      cases hattempt
      exact Nat.lt_succ_self _

/-- The compiler bounds the branches of a Parallel state, and the evaluation the items of a Map. -/
theorem count_fanoutInputs {inputs : FanoutInputs} {source source' : σ}
    (h : d.fanoutInputs source = (.ok inputs, source')) (hcompiled : Compiled d.machine) :
    inputs.count ≤ MAX_ITEMS := by
  obtain ⟨width, -, -⟩ := hcompiled
  obtain ⟨view, s₁, hview, h⟩ := Eval.bind_eq_ok h
  obtain ⟨name, hmem⟩ := CompiledMachine.mem_rows_of_state (Eval.ofExcept_eq_ok hview).1
  cases view with
  | parallel flow branches recovery next =>
      obtain ⟨effective, s₂, -, h⟩ := Eval.bind_eq_ok h
      cases h
      exact Nat.le_trans (width _ _ _ _ _ hmem) (by decide)
  | map flow items selector processor concurrency recovery next =>
      obtain ⟨effective, s₂, -, h⟩ := Eval.bind_eq_ok h
      revert h
      cases items.lookup effective d.context with
      | none => exact fun h => by cases h
      | some selected =>
      dsimp only
      cases selected.asArray with
      | none => exact fun h => by cases h
      | some values =>
      dsimp only
      split
      · exact fun h => by cases h
      · next hlength =>
          intro h
          obtain ⟨payload, s₃, -, h⟩ := Eval.bind_eq_ok h
          obtain ⟨limit, s₄, -, h⟩ := Eval.bind_eq_ok h
          cases h
          exact Nat.le_of_not_lt hlength
  | _ => cases h

theorem turned_fanoutRound (d : Driver σ) (inputs : FanoutInputs) (source : σ)
    (hcount : Compiled d.machine → inputs.count ≤ MAX_ITEMS) :
    d.Turned (d.fanoutRound inputs source) := by
  unfold fanoutRound
  split
  · exact ⟨rfl, rfl, rfl, rfl, rfl, Nat.le_refl _⟩
  split
  · exact ⟨rfl, rfl, rfl, rfl, rfl, Nat.le_refl _⟩
  dsimp only
  split
  · exact ⟨rfl, rfl, rfl, rfl, rfl, Nat.le_succ _⟩
  · next hconcurrency =>
      refine ⟨⟨rfl, rfl, rfl, rfl, rfl, Nat.le_succ _⟩,
        ⟨⟨rfl, rfl, Nat.pos_of_ne_zero hconcurrency, rfl, hcount⟩, rfl⟩,
        fun attempt hattempt => ?_⟩
      cases hattempt
      exact Nat.lt_succ_self _

theorem Turned.after {r : Except AslError (DriverStep σ) × Driver σ × σ} (hkept : d.Kept d')
    (h : d'.Turned r) : d.Turned r := by
  unfold Turned at h ⊢
  split
  · next step hstep =>
      rw [hstep] at h
      exact Turn.after hkept h
  · next error herror =>
      rw [herror] at h
      exact hkept.trans h

theorem turned_fanout (d : Driver σ) (source : σ) : d.Turned (d.fanout source) := by
  unfold fanout
  split
  · exact ⟨rfl, rfl, rfl, rfl, rfl, Nat.le_refl _⟩
  next inputs source' hinputs =>
  dsimp only
  split
  · refine .after ?_ (turned_finishResult _ _ _)
    exact ⟨rfl, rfl, rfl, rfl, rfl, Nat.le_refl _⟩
  · refine .after ?_ (turned_fanoutRound _ _ _ (count_fanoutInputs hinputs))
    exact ⟨rfl, rfl, rfl, rfl, rfl, Nat.le_refl _⟩

theorem turned_execute (d : Driver σ) (now : ClockSample) (source : σ) :
    d.Turned (d.execute now source) := by
  unfold execute
  split
  · exact ⟨rfl, rfl, rfl, rfl, rfl, Nat.le_refl _⟩
  · exact turned_fanout d source
  · exact turned_fanout d source
  · exact turned_after _ fun output => turn_transfer d output _
  · exact turned_after _ fun output => turn_settle d rfl
  · exact turned_after _ fun (error, cause) => turn_settle d rfl
  · refine turned_after _ fun selected => ?_
    cases selected with
    | none => exact turn_settle d rfl
    | some target => exact turn_transfer d _ _
  · refine turned_after _ fun (output, duration) => ?_
    dsimp only
    split
    · exact turn_transfer d output _
    · exact ⟨⟨rfl, rfl, rfl, rfl, rfl, Nat.le_refl _⟩, ⟨_, rfl⟩, fun _ h => by cases h⟩
  · exact turned_task d _ _ _ _ _

theorem turned_execution (d : Driver σ) (now : ClockSample) (source : σ) :
    d.Turned (d.execution now source) := by
  unfold execution
  split
  · exact ⟨rfl, rfl, rfl, rfl, rfl, Nat.le_refl _⟩
  · next hrefresh => exact .after (kept_refreshContext hrefresh) (turned_execute _ _ _)

section

variable [ExecutionSource σ]

theorem turn_joined (d : Driver σ) (result : Except AslError Payload) (now : ClockSample)
    (source : σ) : d.Turn (d.joined result now source).1 (d.joined result now source).2.1 := by
  have hturned := d.turned_finishResult result source
  unfold joined
  split
  · next heq =>
      rw [heq] at hturned
      exact hturned
  · next heq =>
      rw [heq] at hturned
      exact .after hturned (turn_evaluationFailure _ _ _ _ _)

/-! ## Turns that hand nothing out -/

omit [ExecutionSource σ] in
theorem attempt_transfer (d : Driver σ) (output : Payload) (next : Transition) :
    (d.transfer output next).1.attempt = none := by
  cases next <;> rfl

theorem attempt_recover (d : Driver σ) (failure : ExecutionFailure) (now : ClockSample)
    (source : σ) : (d.recover failure now source).1.attempt = none := by
  unfold recover
  split
  · split <;> rfl
  · exact attempt_transfer _ _ _
  · rfl
  · rfl
  · split <;> rfl

theorem attempt_propagateFailure (d : Driver σ) (failure : ExecutionFailure) (now : ClockSample)
    (source : σ) : (d.propagateFailure failure now source).1.attempt = none := by
  unfold propagateFailure
  dsimp only
  split
  · exact attempt_recover _ _ _ _
  · rfl

theorem attempt_evaluationFailure (d : Driver σ) (error : AslError) (now : ClockSample)
    (source : σ) (recover : Bool) :
    (d.evaluationFailure error now source recover).1.attempt = none := by
  unfold evaluationFailure
  dsimp only
  split
  · exact attempt_recover _ _ _ _
  · rfl

theorem attempt_settleFailure (d : Driver σ) (failure : ExecutionFailure) (now : ClockSample)
    (source : σ) : (d.settleFailure failure now source).1.attempt = none := by
  unfold settleFailure
  split
  · exact attempt_recover _ _ _ _
  · exact attempt_propagateFailure _ _ _ _
  · rfl

theorem attempt_joined (d : Driver σ) (result : Except AslError Payload) (now : ClockSample)
    (source : σ) : (d.joined result now source).1.attempt = none := by
  unfold joined finishResult Driver.after
  split
  · next heq =>
      split at heq
      · cases heq
      · cases heq
        exact attempt_transfer _ _ _
  · exact attempt_evaluationFailure _ _ _ _ _

/-- A state is executed if transitions are left. -/
theorem turn_ready (d : Driver σ) (entry : Bool) (now : ClockSample) (source : σ) :
    (d.ready entry now source).1.cancel = none ∧
      { d with remaining := d.remaining - 1 }.Turn (d.ready entry now source).1.step
        (d.ready entry now source).2.1 := by
  have henter : { d with remaining := d.remaining - 1 }.Kept (d.enter entry now) := by
    unfold enter
    dsimp only
    split <;> exact ⟨rfl, rfl, rfl, rfl, rfl, Nat.le_refl _⟩
  have hturned := (d.enter entry now).turned_execution now source
  unfold ready
  split
  · next hzero =>
      have hsettle : d.Turn d.transitionLimit.1 d.transitionLimit.2 := turn_settle d rfl
      have hkept : { d with remaining := d.remaining - 1 }.Kept d :=
        ⟨rfl, rfl, rfl, rfl, by rw [hzero], Nat.le_refl _⟩
      exact ⟨rfl, .after hkept hsettle⟩
  split
  · next heq =>
      rw [heq] at hturned
      exact ⟨rfl, .after henter hturned⟩
  · next heq =>
      rw [heq] at hturned
      exact ⟨rfl, .after (henter.trans hturned) (turn_evaluationFailure _ _ _ _ _)⟩

end

end Driver

end Rustack.StepFunctions.Engine
