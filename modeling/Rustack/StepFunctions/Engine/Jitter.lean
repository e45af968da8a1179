import Rustack.Lib.Rejection
import Rustack.StepFunctions.Engine.Driver

/-!
# Jitter without bias

A delay is drawn from `0..=cap` by rejection: of the words of 64 bits as many as the remainder by
`cap + 1` are thrown away, and the others are reduced.  The threshold is computed in words.
-/

namespace Rustack.StepFunctions.Engine

open Rejection

namespace Driver

/-- The width of the range of delays, as a word. -/
def jitterWidth (cap : Duration) : UInt64 := .ofNat cap + 1

/-- `width.wrapping_neg() % width` -/
def jitterThreshold (cap : Duration) : UInt64 := -jitterWidth cap % jitterWidth cap

/-- One turn of the loop: the delay that a word is taken for. -/
def jitterTurn (cap : Duration) (draw : UInt64) : Option Duration :=
  if jitterThreshold cap ≤ draw then some (draw % jitterWidth cap).toNat else none

variable {cap : Duration}

theorem toNat_jitterWidth (h : cap + 1 < 2 ^ 64) : (jitterWidth cap).toNat = cap + 1 := by
  have hone : (1 : UInt64).toNat = 1 := rfl
  rw [jitterWidth, UInt64.toNat_add, UInt64.toNat_ofNat_of_lt' (Nat.lt_of_succ_lt h), hone,
    Nat.mod_eq_of_lt h]

theorem toNat_neg_jitterWidth (h : cap + 1 < 2 ^ 64) :
    (-jitterWidth cap).toNat = 2 ^ 64 - (cap + 1) := by
  rw [UInt64.toNat_neg, toNat_jitterWidth h, Nat.mod_eq_of_lt]
  · rfl
  · exact Nat.sub_lt (by decide) (Nat.succ_pos cap)

theorem toNat_jitterThreshold (h : cap + 1 < 2 ^ 64) :
    (jitterThreshold cap).toNat = threshold (2 ^ 64) (cap + 1) := by
  rw [jitterThreshold, UInt64.toNat_mod, toNat_neg_jitterWidth h, toNat_jitterWidth h,
    threshold]

/-- A word below the threshold is thrown away, and any other is reduced. -/
theorem jitterTurn_eq (h : cap + 1 < 2 ^ 64) (draw : UInt64) : jitterTurn cap draw =
    if threshold (2 ^ 64) (cap + 1) ≤ draw.toNat then some (draw.toNat % (cap + 1))
    else none := by
  have hmod : (draw % jitterWidth cap).toNat = draw.toNat % (cap + 1) := by
    rw [UInt64.toNat_mod, toNat_jitterWidth h]
  unfold jitterTurn
  simp only [UInt64.le_iff_toNat_le, toNat_jitterThreshold h, hmod]

/-- The loop stops at the first word that is not thrown away. -/
theorem draws_eq {σ : Type} [ExecutionSource σ] (h : cap + 1 < 2 ^ 64) {source : ℕ → σ}
    {word : ℕ → UInt64} (hwords : ∀ i, ExecutionSource.randomU64 (source i) =
      (.ok (word i).toNat, source (i + 1))) (tries i : ℕ) :
    (draws (cap + 1) (threshold (2 ^ 64) (cap + 1)) tries (source i)).1 =
      (((List.range' i tries).findSome? fun i => jitterTurn cap (word i)).elim
        (.error .workLimit) .ok) := by
  induction tries generalizing i with
  | zero => rfl
  | succ tries ih =>
      have hstep : draws (cap + 1) (threshold (2 ^ 64) (cap + 1)) (tries + 1) (source i) =
          (if threshold (2 ^ 64) (cap + 1) ≤ (word i).toNat then
            pure ((word i).toNat % (cap + 1))
          else draws (cap + 1) (threshold (2 ^ 64) (cap + 1)) tries :
            Eval σ Duration) (source (i + 1)) := by
        rw [draws]
        change (ExceptT.bindCont _ (ExecutionSource.randomU64 (source i)).1 : StateM σ _)
          (ExecutionSource.randomU64 (source i)).2 = _
        rw [hwords i]
        rfl
      rw [hstep, List.range'_succ, List.findSome?_cons, jitterTurn_eq h]
      split
      · rfl
      · exact ih (i + 1)

/-- The words with a property of what they are taken for. -/
theorem filter_jitterTurn (h : cap + 1 < 2 ^ 64) {p : Option Duration → Prop} [DecidablePred p]
    {q : ℕ → Prop} [DecidablePred q] (hq : ∀ n,
      p (if threshold (2 ^ 64) (cap + 1) ≤ n then some (n % (cap + 1)) else none) ↔ q n) :
    (Finset.range (2 ^ 64)).filter (fun n => p (jitterTurn cap (.ofNat n))) =
      (Finset.range (2 ^ 64)).filter q := by
  apply Finset.filter_congr
  intro n hn
  rw [jitterTurn_eq h, UInt64.toNat_ofNat_of_lt' (Finset.mem_range.mp hn)]
  exact hq n

/-- No word overflows, the loop takes the first of 128 words that is not thrown away, each delay up
to the cap comes from as many words, and at most half of all words are thrown away. -/
theorem jitter_unbiased (cap : Duration) (h : cap + 1 < 2 ^ 64) :
    ((jitterWidth cap).toNat = cap + 1 ∧
      (-jitterWidth cap).toNat = 2 ^ 64 - (cap + 1) ∧
      (jitterThreshold cap).toNat = (2 ^ 64 - (cap + 1)) % (cap + 1)) ∧
    (∀ (σ : Type) [ExecutionSource σ] (source : ℕ → σ) (word : ℕ → UInt64),
      (∀ i, ExecutionSource.randomU64 (source i) = (.ok (word i).toNat, source (i + 1))) →
      (jitter cap (source 0)).1 =
        ((List.range 128).findSome? fun i => jitterTurn cap (word i)).elim (.error .workLimit)
          .ok) ∧
    ((Finset.range (2 ^ 64)).filter fun n => (jitterTurn cap (.ofNat n)).isSome).card =
      (cap + 1) * (2 ^ 64 / (cap + 1)) ∧
    (∀ delay, ((Finset.range (2 ^ 64)).filter fun n =>
      jitterTurn cap (.ofNat n) = some delay).card =
      if delay ≤ cap then 2 ^ 64 / (cap + 1) else 0) ∧
    2 * ((Finset.range (2 ^ 64)).filter fun n => jitterTurn cap (.ofNat n) = none).card ≤
      2 ^ 64 := by
  have hle : cap + 1 ≤ 2 ^ 64 := h.le
  refine ⟨⟨toNat_jitterWidth h, toNat_neg_jitterWidth h, toNat_jitterThreshold h⟩, ?_, ?_, ?_, ?_⟩
  · intro σ _ source word hwords
    have hdraws := draws_eq h hwords 128 0
    rw [← List.range_eq_range'] at hdraws
    unfold jitter
    rw [if_neg (not_le.mpr h)]
    exact hdraws
  · rw [filter_jitterTurn (p := fun delay => delay.isSome = true) h
      (q := (threshold (2 ^ 64) (cap + 1) ≤ ·))]
    · exact card_accepted hle
    · intro n
      generalize threshold (2 ^ 64) (cap + 1) = t
      split_ifs with hn <;> simp [hn]
  · intro delay
    split_ifs with hdelay
    · rw [filter_jitterTurn (p := fun r => r = some delay) h (q := fun n =>
        threshold (2 ^ 64) (cap + 1) ≤ n ∧ n % (cap + 1) = delay)]
      · exact card_preimages hle (Nat.lt_succ_of_le hdelay)
      · intro n
        generalize threshold (2 ^ 64) (cap + 1) = t
        split_ifs with hn <;> simp [hn]
    · rw [filter_jitterTurn (p := fun r => r = some delay) h (q := fun _ => False),
        Finset.filter_false, Finset.card_empty]
      intro n
      rw [iff_false]
      split_ifs with hn
      · rw [Option.some.injEq]
        rintro rfl
        exact hdelay (Nat.le_of_lt_succ (Nat.mod_lt n (Nat.succ_pos cap)))
      · exact fun heq => nomatch heq
  · rw [filter_jitterTurn (p := fun r => r = none) h
      (q := (· < threshold (2 ^ 64) (cap + 1))), card_rejected hle]
    · exact two_mul_threshold_le (Nat.succ_pos cap) hle
    · intro n
      generalize threshold (2 ^ 64) (cap + 1) = t
      split_ifs with hn
      · simp [hn]
      · simpa using hn

/-- With a cap of two, one word of all is thrown away. -/
theorem jitter_unbiased_two :
    2 + 1 < 2 ^ 64 ∧ (∀ delay, ((Finset.range (2 ^ 64)).filter fun n =>
      jitterTurn 2 (.ofNat n) = some delay).card =
        if delay ≤ 2 then 6148914691236517205 else 0) := by
  have h : 2 + 1 < 2 ^ 64 := by decide
  exact ⟨h, (jitter_unbiased 2 h).2.2.2.1⟩

end Driver

end Rustack.StepFunctions.Engine
