import Mathlib.Data.Int.Log
import Mathlib.Data.Rat.Floor
import Mathlib.Tactic.Positivity

/-!
# Binary floating point numbers of 64 bits

The values of the format are rational numbers on a grid that grows coarser with them,
infinities and one value that is not a number; signs of zero are not told apart.  A
result is the exact one, rounded to the nearest value and to the even one of two.
-/

namespace Rustack.Lib

/-- The nearest integer, and the even one of two. -/
def nearest (y : ℚ) : ℤ :=
  let low := ⌊y⌋
  if y - low < 1 / 2 then low
  else if 1 / 2 < y - low then low + 1
  else if low % 2 = 0 then low
  else low + 1

theorem nearest_le {y : ℚ} {n : ℤ} (h : y ≤ n) : nearest y ≤ n := by
  have hfloor := Int.floor_le y
  have hlow : ⌊y⌋ ≤ n := Int.cast_le.mp (hfloor.trans h)
  unfold nearest
  dsimp only
  split
  · exact hlow
  · next hhalf =>
      -- an integer above the floor is needed only if there is one below `n`
      have hstrict : ⌊y⌋ + 1 ≤ n := by
        refine Int.add_one_le_iff.mpr (lt_of_le_of_ne hlow fun heq => hhalf ?_)
        rw [heq]
        linarith
      split
      · exact hstrict
      · split
        · exact hlow
        · exact hstrict

theorem le_nearest {y : ℚ} {n : ℤ} (h : (n : ℚ) ≤ y) : n ≤ nearest y := by
  have hlow : n ≤ ⌊y⌋ := Int.le_floor.mpr h
  unfold nearest
  dsimp only
  split
  · exact hlow
  · split
    · exact hlow.trans (Int.le_add_one (le_refl _))
    · split
      · exact hlow
      · exact hlow.trans (Int.le_add_one (le_refl _))

@[simp] theorem nearest_intCast (n : ℤ) : nearest (n : ℚ) = n :=
  le_antisymm (nearest_le le_rfl) (le_nearest le_rfl)

/-- The rule for ties has no preferred direction. -/
theorem nearest_neg (y : ℚ) : nearest (-y) = -nearest y := by
  by_cases hint : (⌊y⌋ : ℚ) = y
  · rw [← hint, ← Int.cast_neg, nearest_intCast, nearest_intCast]
  · have hfloor := lt_of_le_of_ne (Int.floor_le y) hint
    have hlt := Int.lt_floor_add_one y
    have hneg : ⌊-y⌋ = -⌊y⌋ - 1 := by
      refine Int.floor_eq_iff.mpr ⟨?_, ?_⟩
      · push_cast
        linarith
      · push_cast
        linarith
    have hpart : -y - ((-⌊y⌋ - 1 : ℤ) : ℚ) = 1 - (y - ⌊y⌋) := by
      push_cast
      ring
    unfold nearest
    dsimp only
    rw [hneg, hpart]
    rcases lt_trichotomy (y - ⌊y⌋) (1 / 2) with hlow | htie | hhigh
    · rw [if_neg (by linarith), if_pos (by linarith), if_pos hlow]
      ring
    · have hleft : ¬(1 - (y - ⌊y⌋) < 1 / 2) := by linarith
      have hright : ¬(1 / 2 < 1 - (y - ⌊y⌋)) := by linarith
      simp only [if_neg hleft, if_neg hright, if_neg htie.not_lt, if_neg htie.not_gt]
      split_ifs <;> omega
    · rw [if_pos (by linarith), if_neg (by linarith), if_pos hhigh]
      ring

inductive Binary64 where
  | finite (value : ℚ)
  | infinite (negative : Bool)
  | nan
  deriving DecidableEq

namespace Binary64

/-- The distance of the values near a number. -/
def quantum (x : ℚ) : ℚ := 2 ^ (max (Int.log 2 |x|) (-1022) - 52)

/-- The value near a number, if the exponent has no upper bound. -/
def grid (x : ℚ) : ℚ := nearest (x / quantum x) * quantum x

def round (x : ℚ) : Binary64 :=
  if 2 ^ 1024 ≤ |grid x| then infinite (x < 0) else finite (grid x)

theorem quantum_pos (x : ℚ) : 0 < quantum x := zpow_pos two_pos _

theorem grid_nonneg {x : ℚ} (h : 0 ≤ x) : 0 ≤ grid x := by
  have hnearest : 0 ≤ nearest (x / quantum x) :=
    le_nearest (by rw [Int.cast_zero]; exact div_nonneg h (quantum_pos x).le)
  exact mul_nonneg (Int.cast_nonneg hnearest) (quantum_pos x).le

/-- Rounding does not pass a power of two. -/
theorem grid_le_two_pow {x : ℚ} {k : ℕ} (hpos : 0 ≤ x) (h : x ≤ 2 ^ k) : grid x ≤ 2 ^ k := by
  rcases hpos.eq_or_lt with rfl | hpos
  · have hzero : grid 0 = 0 := by
      have hnearest : nearest 0 = 0 :=
        le_antisymm (nearest_le (Int.cast_zero (R := ℚ)).ge)
          (le_nearest (Int.cast_zero (R := ℚ)).le)
      rw [grid, zero_div, hnearest, Int.cast_zero, zero_mul]
    rw [hzero]
    positivity
  -- the power of two is on the grid of the smaller number
  have hlog : max (Int.log 2 |x|) (-1022) ≤ (k : ℤ) := by
    refine max_le ?_ (by omega)
    rw [abs_of_pos hpos]
    have hmono : Int.log 2 x ≤ Int.log 2 ((2 : ℚ) ^ (k : ℤ)) := by
      refine Int.log_mono_right hpos ?_
      rw [zpow_natCast]
      exact h
    have hpow : Int.log 2 ((2 : ℚ) ^ (k : ℤ)) = k := Int.log_zpow one_lt_two k
    rw [hpow] at hmono
    exact hmono
  have hquantum := quantum_pos x
  obtain ⟨n, hn⟩ : ∃ n : ℕ, (2 : ℚ) ^ k = ((2 ^ n : ℤ) : ℚ) * quantum x := by
    refine ⟨(k - (max (Int.log 2 |x|) (-1022) - 52)).toNat, ?_⟩
    rw [quantum, Int.cast_pow, Int.cast_ofNat, ← zpow_natCast, ← zpow_natCast,
      ← zpow_add₀ two_ne_zero]
    congr 1
    omega
  have hle : nearest (x / quantum x) ≤ 2 ^ n := by
    refine nearest_le ?_
    rw [div_le_iff₀ hquantum, ← hn]
    exact h
  rw [grid, hn]
  exact mul_le_mul_of_nonneg_right (Int.cast_le.mpr hle) hquantum.le

/-- Nor does it from above. -/
theorem two_pow_le_grid {x : ℚ} {k : ℕ} (h : 2 ^ k ≤ x) : 2 ^ k ≤ grid x := by
  have hpos : 0 < x := lt_of_lt_of_le (by positivity) h
  have hlog : (k : ℤ) ≤ Int.log 2 |x| := by
    refine (Int.zpow_le_iff_le_log one_lt_two (abs_pos.mpr hpos.ne')).mp ?_
    rw [abs_of_pos hpos, zpow_natCast]
    exact h
  have hmax : max (Int.log 2 |x|) (-1022) = Int.log 2 |x| := max_eq_left (by omega)
  -- the mantissa of the number has all its bits
  have hbelow : ((2 : ℚ) ^ Int.log 2 |x|) ≤ x := by
    have hself := Int.zpow_log_le_self one_lt_two (abs_pos.mpr hpos.ne')
    rwa [abs_of_pos hpos] at hself ⊢
  have hquantum := quantum_pos x
  have hsplit : (2 : ℚ) ^ Int.log 2 |x| = ((2 ^ 52 : ℤ) : ℚ) * quantum x := by
    rw [quantum, hmax, Int.cast_pow, Int.cast_ofNat, ← zpow_natCast, ← zpow_add₀ two_ne_zero]
    congr 1
    omega
  have hle : 2 ^ 52 ≤ nearest (x / quantum x) := by
    refine le_nearest ?_
    rw [le_div_iff₀ hquantum, ← hsplit]
    exact hbelow
  calc (2 : ℚ) ^ k = 2 ^ (k : ℤ) := (zpow_natCast _ _).symm
    _ ≤ 2 ^ Int.log 2 |x| := zpow_le_zpow_right₀ one_le_two hlog
    _ = ((2 ^ 52 : ℤ) : ℚ) * quantum x := hsplit
    _ ≤ grid x := mul_le_mul_of_nonneg_right (Int.cast_le.mpr hle) hquantum.le

theorem grid_neg (x : ℚ) : grid (-x) = -grid x := by
  have hquantum : quantum (-x) = quantum x := by rw [quantum, quantum, abs_neg]
  rw [grid, hquantum, neg_div, nearest_neg, Int.cast_neg, neg_mul, grid]

/-- Integers of 53 bits are on the grid. -/
theorem grid_intCast {z : ℤ} (h : |z| ≤ 2 ^ 53) : grid (z : ℚ) = z := by
  rcases h.lt_or_eq with hlt | heq
  · have hlog : max (Int.log 2 |(z : ℚ)|) (-1022) ≤ 52 := by
      refine max_le ?_ (by omega)
      rw [← Int.cast_abs]
      by_cases hzero : |z| = 0
      · rw [hzero, Int.cast_zero, Int.log_zero_right]
        omega
      · refine Int.lt_add_one_iff.mp ((Int.lt_zpow_iff_log_lt one_lt_two ?_).mp ?_)
        · exact_mod_cast lt_of_le_of_ne (abs_nonneg z) (Ne.symm hzero)
        · exact_mod_cast hlt
    -- the quantum is a negative power of two
    obtain ⟨n, hn⟩ : ∃ n : ℕ, quantum (z : ℚ) * (2 : ℚ) ^ n = 1 := by
      refine ⟨(52 - max (Int.log 2 |(z : ℚ)|) (-1022)).toNat, ?_⟩
      rw [quantum, ← zpow_natCast, ← zpow_add₀ two_ne_zero, ← zpow_zero (2 : ℚ)]
      congr 1
      omega
    have hquantum := quantum_pos (z : ℚ)
    have hdiv : (z : ℚ) / quantum z = ((z * 2 ^ n : ℤ) : ℚ) := by
      rw [div_eq_iff hquantum.ne']
      push_cast
      rw [mul_assoc, mul_comm ((2 : ℚ) ^ n), hn, mul_one]
    rw [grid, hdiv, nearest_intCast, ← hdiv, div_mul_cancel₀ _ hquantum.ne']
  · have hpow : grid ((2 : ℚ) ^ 53) = 2 ^ 53 :=
      le_antisymm (grid_le_two_pow (by positivity) le_rfl) (two_pow_le_grid le_rfl)
    rcases (abs_eq (by positivity)).mp heq with rfl | rfl
    · exact_mod_cast hpow
    · push_cast
      rw [grid_neg]
      exact congrArg _ hpow

theorem round_intCast {z : ℤ} (h : |z| ≤ 2 ^ 53) : round (z : ℚ) = finite z := by
  rw [round, grid_intCast h, if_neg]
  have hle : |(z : ℚ)| ≤ 2 ^ 53 := by exact_mod_cast h
  exact not_le.mpr (hle.trans_lt (pow_lt_pow_right₀ one_lt_two (by omega)))

/-- Rounding leaves an integer on its side of the integers of 53 bits. -/
theorem round_intCast_order {z : ℤ} {k : ℕ} (hk : k < 1024) (h : |z| ≤ 2 ^ k) :
    ∃ r, round (z : ℚ) = finite r ∧
      ∀ v : ℤ, |v| < 2 ^ 53 → (r < v ↔ z < v) ∧ ((v : ℚ) < r ↔ v < z) := by
  rcases le_or_gt |z| (2 ^ 53) with hsmall | hlarge
  · exact ⟨z, round_intCast hsmall, fun v _ => ⟨Int.cast_lt, Int.cast_lt⟩⟩
  · have hfinite : |grid (z : ℚ)| < 2 ^ 1024 := by
      have hle : |grid (z : ℚ)| ≤ 2 ^ k := by
        have habs : |grid (z : ℚ)| = grid |(z : ℚ)| := by
          rcases le_total 0 (z : ℚ) with hpos | hneg
          · rw [abs_of_nonneg hpos, abs_of_nonneg (grid_nonneg hpos)]
          · rw [abs_of_nonpos hneg, grid_neg, abs_of_nonpos]
            have hflip := grid_nonneg (neg_nonneg.mpr hneg)
            rw [grid_neg] at hflip
            exact neg_nonneg.mp hflip
        rw [habs]
        exact grid_le_two_pow (abs_nonneg _) (by exact_mod_cast h)
      exact hle.trans_lt (pow_lt_pow_right₀ one_lt_two hk)
    refine ⟨grid z, if_neg (not_le.mpr hfinite), fun v hv => ?_⟩
    obtain ⟨hlow, hhigh⟩ := abs_lt.mp hv
    have hlow' : -(2 : ℚ) ^ 53 < v := by exact_mod_cast hlow
    have hhigh' : (v : ℚ) < 2 ^ 53 := by exact_mod_cast hhigh
    rcases lt_abs.mp hlarge with hpos | hneg
    · have hgrid : (2 : ℚ) ^ 53 ≤ grid z := two_pow_le_grid (by exact_mod_cast hpos.le)
      exact ⟨iff_of_false (by linarith) (by omega), iff_of_true (by linarith) (by omega)⟩
    · have hgrid : (2 : ℚ) ^ 53 ≤ grid (-z) := two_pow_le_grid (by exact_mod_cast hneg.le)
      rw [grid_neg] at hgrid
      exact ⟨iff_of_true (by linarith) (by omega), iff_of_false (by linarith) (by omega)⟩

def isFinite : Binary64 → Bool
  | finite _ => true
  | _ => false

/-- Numbers, possibly infinite, that are not negative. -/
def Nonneg : Binary64 → Prop
  | finite value => 0 ≤ value
  | infinite negative => negative = false
  | nan => False

theorem nonneg_round {x : ℚ} (h : 0 ≤ x) : (round x).Nonneg := by
  unfold round
  split
  · exact decide_eq_false (not_lt_of_ge h)
  · exact grid_nonneg h

theorem round_of_le_two_pow {x : ℚ} {k : ℕ} (hpos : 0 ≤ x) (h : x ≤ 2 ^ k) (hk : k < 1024) :
    ∃ value, round x = finite value ∧ 0 ≤ value ∧ value ≤ 2 ^ k := by
  have hgrid := grid_le_two_pow hpos h
  have hnonneg := grid_nonneg hpos
  refine ⟨grid x, if_neg ?_, hnonneg, hgrid⟩
  rw [abs_of_nonneg hnonneg, not_le]
  exact hgrid.trans_lt (pow_lt_pow_right₀ one_lt_two hk)

/-! ## Operations -/

def add : Binary64 → Binary64 → Binary64
  | finite x, finite y => round (x + y)
  | infinite s, infinite t => if s = t then infinite s else nan
  | infinite s, finite _ | finite _, infinite s => infinite s
  | nan, _ | _, nan => nan

def neg : Binary64 → Binary64
  | finite x => finite (-x)
  | infinite s => infinite !s
  | nan => nan

def sub (x y : Binary64) : Binary64 := x.add y.neg

def abs : Binary64 → Binary64
  | finite x => finite |x|
  | infinite _ => infinite false
  | nan => nan

def mul : Binary64 → Binary64 → Binary64
  | finite x, finite y => round (x * y)
  | infinite s, infinite t => infinite (s != t)
  | infinite s, finite x | finite x, infinite s =>
    if x = 0 then nan else infinite (s != decide (x < 0))
  | nan, _ | _, nan => nan

def div : Binary64 → Binary64 → Binary64
  | finite x, finite y =>
    if y ≠ 0 then round (x / y) else if x = 0 then nan else infinite (x < 0)
  | infinite s, finite y => infinite (s != decide (y < 0))
  | finite _, infinite _ => finite 0
  | infinite _, infinite _ | nan, _ | _, nan => nan

/-- The comparison `x ≤ y`. -/
def le : Binary64 → Binary64 → Bool
  | finite x, finite y => x ≤ y
  | infinite true, infinite _ | infinite true, finite _ => true
  | infinite false, infinite false | finite _, infinite false => true
  | _, _ => false

/-- The comparison `x < y`. -/
def lt : Binary64 → Binary64 → Bool
  | finite x, finite y => x < y
  | infinite true, infinite false | infinite true, finite _ | finite _, infinite false => true
  | _, _ => false

theorem abs_round_neg (x : ℚ) : (round (-x)).abs = (round x).abs := by
  rw [round, round, grid_neg, abs_neg]
  split_ifs
  · rfl
  · exact congrArg finite (abs_neg _)

/-- A distance does not depend on the order. -/
theorem abs_sub_comm (x y : Binary64) : (x.sub y).abs = (y.sub x).abs := by
  cases x with
  | finite x =>
      cases y with
      | finite y =>
          change (round (x + -y)).abs = (round (y + -x)).abs
          rw [← abs_round_neg, neg_add, neg_neg, add_comm]
      | _ => rfl
  | infinite s =>
      cases y with
      | infinite t => cases s <;> cases t <;> rfl
      | _ => rfl
  | nan => cases y <;> rfl

theorem nonneg_mul {x : ℚ} {y : Binary64} (hx : 0 < x) (hy : y.Nonneg) :
    ((finite x).mul y).Nonneg := by
  cases y with
  | finite y => exact nonneg_round (mul_nonneg hx.le hy)
  | infinite negative =>
      have hfalse : negative = false := hy
      subst hfalse
      change (if x = 0 then nan else infinite (false != decide (x < 0))).Nonneg
      rw [if_neg hx.ne', decide_eq_false (not_lt_of_gt hx)]
      rfl
  | nan => exact hy.elim

end Binary64

/-- A finite number of the format. -/
structure Finite64 where
  value : ℚ
  representable : Binary64.round value = .finite value
  deriving DecidableEq

end Rustack.Lib
