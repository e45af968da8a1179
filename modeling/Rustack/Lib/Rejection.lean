import Mathlib.Data.Int.CardIntervalMod
import Mathlib.Data.Nat.Periodic

/-!
# Rejection sampling

A draw below `total` is reduced modulo `width`.  The draws below the remainder of `total` are
rejected; the others are a multiple of the width, every remainder comes from as many of them, and
at least half of all draws are accepted.
-/

namespace Rustack.Rejection

open Finset

/-- The draws that are rejected are those below this. -/
def threshold (total width : ℕ) : ℕ := (total - width) % width

variable {total width : ℕ}

theorem threshold_eq (h : width ≤ total) : threshold total width = total % width :=
  (Nat.mod_eq_sub_mod h).symm

theorem threshold_add (h : width ≤ total) :
    threshold total width + width * (total / width) = total := by
  rw [threshold_eq h]
  exact Nat.mod_add_div total width

theorem range_filter_threshold (h : width ≤ total) :
    (range total).filter (threshold total width ≤ ·) =
      Ico (threshold total width) (threshold total width + width * (total / width)) := by
  rw [threshold_add h]
  ext d
  rw [mem_filter, mem_range, mem_Ico]
  exact and_comm

theorem card_accepted (h : width ≤ total) :
    ((range total).filter (threshold total width ≤ ·)).card = width * (total / width) := by
  rw [range_filter_threshold h, Nat.card_Ico, Nat.add_sub_cancel_left]

/-- Every remainder comes from as many accepted draws. -/
theorem card_preimages (h : width ≤ total) {r : ℕ} (hr : r < width) :
    ((range total).filter fun d => threshold total width ≤ d ∧ d % width = r).card =
      total / width := by
  have hpos : 0 < width := Nat.zero_lt_of_lt hr
  have hperiodic : Function.Periodic (fun d => d % width = r) (width * (total / width)) := by
    intro d
    dsimp only
    rw [Nat.add_mul_mod_self_left]
  have hcount := Nat.count_modEq_card (width * (total / width)) hpos r
  have hmod : ∀ d, d ≡ r [MOD width] ↔ d % width = r := fun d => by
    rw [Nat.ModEq, Nat.mod_eq_of_lt hr]
  simp only [hmod] at hcount
  rw [← filter_filter, range_filter_threshold h,
    Nat.filter_Ico_card_eq_of_periodic _ _ _ hperiodic, hcount, Nat.mul_div_cancel_left _ hpos,
    Nat.mul_mod_right, if_neg (Nat.not_lt_zero _), Nat.add_zero]

theorem card_rejected (h : width ≤ total) :
    ((range total).filter (· < threshold total width)).card = threshold total width := by
  have hle : threshold total width ≤ total := Nat.le.intro (threshold_add h)
  have hrange : (range total).filter (· < threshold total width) =
      range (threshold total width) := by
    ext d
    rw [mem_filter, mem_range, mem_range, and_iff_right_iff_imp]
    exact fun hd => hd.trans_le hle
  rw [hrange, card_range]

theorem two_mul_threshold_le (hpos : 0 < width) (h : width ≤ total) :
    2 * threshold total width ≤ total := by
  have hlt : threshold total width < width := Nat.mod_lt _ hpos
  have hle : threshold total width ≤ total - width := Nat.mod_le _ _
  omega

end Rustack.Rejection
