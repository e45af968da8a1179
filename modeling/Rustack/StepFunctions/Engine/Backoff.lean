import Rustack.Lib.Binary64
import Rustack.StepFunctions.Engine.Driver

/-!
# Delays of retries

The delay of a retry is the interval of its retrier times a power of its rate, in
floating point, which may well be infinite.  It is cut at the cap before it is made a
duration, and so that can always be done.
-/

namespace Rustack.StepFunctions.Engine

open Rustack.Lib

/-- The time of a duration in seconds. -/
def Duration.asSecsF64 (d : Duration) : Binary64 :=
  (Binary64.round (d / 1000000000 : ℕ)).add (.round ((d % 1000000000 : ℕ) / 1000000000))

/-- The duration of so many seconds, if there is one. -/
def Duration.tryFromSecsF64 : Binary64 → Option Duration
  | .finite seconds =>
    if seconds < 0 then none
    else
      let nanos := nearest (seconds * 1000000000)
      if 2 ^ 64 * 1000000000 ≤ nanos then none else some nanos.toNat
  | _ => none

/-- The timing of a retrier, as it is written in a definition. -/
structure TimingFields where
  interval : ℕ
  rate : ℚ
  maxDelay : Option ℕ
  jitter : Jitter
  interval_pos : 0 < interval
  one_le_rate : 1 ≤ rate

namespace TimingFields

/-- The rate to the power of the retries before, which may be out of range. -/
def powf (rate : ℚ) (prior : ℕ) : Binary64 := Binary64.round (rate ^ prior)

def seconds (fields : TimingFields) (prior : ℕ) : Binary64 :=
  (Binary64.finite fields.interval).mul (powf fields.rate prior)

/-- The delay before jitter. -/
def delay (fields : TimingFields) (prior : ℕ) (cap : Duration) : Except AslError Duration :=
  let seconds := fields.seconds prior
  if !seconds.isFinite || (Duration.asSecsF64 cap).le seconds then .ok cap
  else
    match Duration.tryFromSecsF64 seconds with
    | some delay => .ok (min delay cap)
    | none => .error .invalidExecution

/-- The timing that a machine is compiled with. -/
def timing (fields : TimingFields) : RetryTiming where
  below := fun prior cap =>
    let seconds := fields.seconds prior
    if !seconds.isFinite || (Duration.asSecsF64 cap).le seconds then none
    else Duration.tryFromSecsF64 seconds
  maxDelaySeconds := fields.maxDelay
  jitter := fields.jitter

theorem nonneg_seconds (fields : TimingFields) (prior : ℕ) : (fields.seconds prior).Nonneg :=
  Binary64.nonneg_mul (Nat.cast_pos.mpr fields.interval_pos)
    (Binary64.nonneg_round (pow_nonneg (zero_le_one.trans fields.one_le_rate) prior))

end TimingFields

/-- What is less than a duration of a machine word of seconds is a duration. -/
theorem Duration.tryFromSecsF64_of_lt {seconds : Binary64} {cap : Duration}
    (hnonneg : seconds.Nonneg) (hfinite : seconds.isFinite = true)
    (hlt : (Duration.asSecsF64 cap).le seconds = false) (hcap : cap ≤ fromSecs (2 ^ 62)) :
    ∃ delay, Duration.tryFromSecsF64 seconds = some delay := by
  obtain ⟨whole, hwhole, hwhole0, hwhole1⟩ :
      ∃ value, Binary64.round ((cap / 1000000000 : ℕ) : ℚ) = .finite value ∧ 0 ≤ value ∧
        value ≤ 2 ^ 62 := by
    refine Binary64.round_of_le_two_pow (Nat.cast_nonneg _) ?_ (by decide)
    have hsecs : cap / 1000000000 ≤ 2 ^ 62 := Nat.div_le_of_le_mul (by
      rw [Nat.mul_comm]
      exact hcap)
    exact_mod_cast hsecs
  obtain ⟨part, hpart, hpart0, hpart1⟩ :
      ∃ value, Binary64.round (((cap % 1000000000 : ℕ) : ℚ) / 1000000000) = .finite value ∧
        0 ≤ value ∧ value ≤ 2 ^ 0 := by
    refine Binary64.round_of_le_two_pow (by positivity) ?_ (by decide)
    have hrest : cap % 1000000000 ≤ 1000000000 := (Nat.mod_lt _ (by decide)).le
    rw [pow_zero, div_le_one (by norm_num)]
    exact_mod_cast hrest
  obtain ⟨bound, hbound, -, hbound1⟩ :
      ∃ value, Binary64.round (whole + part) = .finite value ∧ 0 ≤ value ∧ value ≤ 2 ^ 63 :=
    Binary64.round_of_le_two_pow (add_nonneg hwhole0 hpart0) (by linarith) (by decide)
  have hcapped : Duration.asSecsF64 cap = .finite bound := by
    rw [Duration.asSecsF64, hwhole, hpart]
    exact hbound
  rw [hcapped] at hlt
  cases seconds with
  | finite x =>
      have hx : x < bound := not_le.mp (of_decide_eq_false hlt)
      have hnanos : nearest (x * 1000000000) ≤ 2 ^ 63 * 1000000000 := by
        refine nearest_le ?_
        push_cast
        linarith
      refine ⟨(nearest (x * 1000000000)).toNat, ?_⟩
      have hnot : ¬x < 0 := not_lt_of_ge hnonneg
      refine (if_neg hnot).trans (if_neg fun hge => ?_)
      omega
  | infinite negative => cases hfinite
  | nan => cases hfinite

namespace RetryTiming

/-- The longest delay that is let. -/
def cap (timing : RetryTiming) (remaining : Duration) : Duration :=
  match timing.maxDelaySeconds with
  | none => remaining
  | some seconds => min remaining (fromSecs seconds)

/-- The delay before jitter. -/
def delay (timing : RetryTiming) (prior : ℕ) (cap : Duration) : Duration :=
  match timing.below prior cap with
  | none => cap
  | some delay => min delay cap

theorem cap_le (timing : RetryTiming) (remaining : Duration) :
    timing.cap remaining ≤ remaining := by
  unfold cap
  split
  · exact le_refl _
  · exact Nat.min_le_left _ _

theorem cap_le_maxDelay {timing : RetryTiming} {seconds : ℕ}
    (h : timing.maxDelaySeconds = some seconds) (remaining : Duration) :
    timing.cap remaining ≤ fromSecs seconds := by
  rw [cap, h]
  exact Nat.min_le_right _ _

theorem delay_le (timing : RetryTiming) (prior : ℕ) (cap : Duration) :
    timing.delay prior cap ≤ cap := by
  unfold delay
  split
  · exact le_refl _
  · exact Nat.min_le_right _ _

end RetryTiming

/-- Compiled timing loses no failure. -/
theorem TimingFields.delay_eq (fields : TimingFields) (prior : ℕ) {cap : Duration}
    (hcap : cap ≤ fromSecs (2 ^ 62)) :
    fields.delay prior cap = .ok (fields.timing.delay prior cap) := by
  have hnonneg := fields.nonneg_seconds prior
  unfold TimingFields.delay RetryTiming.delay TimingFields.timing
  dsimp only
  split
  · rfl
  · next hbelow =>
      rw [Bool.or_eq_true, not_or, Bool.not_eq_true', Bool.not_eq_false,
        Bool.not_eq_true] at hbelow
      obtain ⟨delay, hdelay⟩ := Duration.tryFromSecsF64_of_lt hnonneg hbelow.1 hbelow.2 hcap
      rw [hdelay]

/-! ## Jitter -/

namespace Driver

variable {σ : Type} [ExecutionSource σ]

theorem lt_of_draws {width threshold tries : ℕ} (hwidth : 0 < width) {source source' : σ}
    {drawn : Duration} (h : draws width threshold tries source = (.ok drawn, source')) :
    drawn < width := by
  induction tries generalizing source with
  | zero => cases h
  | succ tries ih =>
      obtain ⟨draw, source'', -, h⟩ := Eval.bind_eq_ok h
      split at h
      · cases h
        exact Nat.mod_lt _ hwidth
      · exact ih h

theorem jitter_le {cap drawn : Duration} {source source' : σ}
    (h : jitter cap source = (.ok drawn, source')) : drawn ≤ cap := by
  unfold jitter at h
  split at h
  · cases h
  · exact Nat.le_of_lt_succ (lt_of_draws (Nat.succ_pos cap) h)

/-- A delay that is scheduled; without jitter there always is one. -/
theorem backoff_cases (timing : RetryTiming) (prior : ℕ) (remaining : Duration) (source : σ) :
    (timing.jitter = .none ∧ backoff timing prior remaining source =
      (.ok (timing.delay prior (timing.cap remaining)), source)) ∨
    timing.jitter = .full ∧ ∀ delay, (backoff timing prior remaining source).1 = .ok delay →
      delay ≤ timing.delay prior (timing.cap remaining) := by
  cases hjitter : timing.jitter with
  | none =>
      left
      refine ⟨rfl, ?_⟩
      unfold backoff
      rw [hjitter]
      rfl
  | full =>
      right
      refine ⟨rfl, fun delay hdelay => ?_⟩
      unfold backoff at hdelay
      rw [hjitter] at hdelay
      exact jitter_le (Prod.ext hdelay rfl)

end Driver

end Rustack.StepFunctions.Engine
