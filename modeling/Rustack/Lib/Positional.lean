import Mathlib.Algebra.Order.Field.Power
import Mathlib.Data.List.DropRight
import Mathlib.Data.Nat.Digits.Lemmas
import Mathlib.Tactic.FieldSimp
import Mathlib.Tactic.Positivity

/-!
# Positional notation

Digits with the highest first, read as a natural number and as a fraction behind the point.  The
order of fractions is that of their first different digits, and a number times a power of the
base is compared by its power first.
-/

namespace Rustack.Positional

open List

variable {b : ℕ} {ds es : List ℕ}

/-! ## Natural numbers -/

def value (b : ℕ) (ds : List ℕ) : ℕ := ds.foldl (fun acc d => acc * b + d) 0

@[simp] theorem value_nil : value b [] = 0 := rfl

theorem foldl_digits (acc : ℕ) :
    ds.foldl (fun acc d => acc * b + d) acc = acc * b ^ ds.length + value b ds := by
  induction ds generalizing acc with
  | nil => simp
  | cons d ds ih =>
      rw [value, foldl_cons, foldl_cons, ih, ih (0 * b + d), length_cons, pow_succ]
      ring

theorem value_cons (d : ℕ) (ds : List ℕ) :
    value b (d :: ds) = d * b ^ ds.length + value b ds := by
  rw [value, foldl_cons, foldl_digits, Nat.zero_mul, Nat.zero_add]

theorem value_append (ds es : List ℕ) :
    value b (ds ++ es) = value b ds * b ^ es.length + value b es := by
  rw [value, foldl_append]
  exact foldl_digits _

theorem value_zeros (n : ℕ) : value b (replicate n 0) = 0 := by
  induction n with
  | zero => rfl
  | succ n ih => rw [replicate_succ, value_cons, ih, Nat.zero_mul]

theorem value_append_zeros (ds : List ℕ) (n : ℕ) :
    value b (ds ++ replicate n 0) = value b ds * b ^ n := by
  rw [value_append, value_zeros, length_replicate, Nat.add_zero]

theorem value_lt (h : ∀ d ∈ ds, d < b) : value b ds < b ^ ds.length := by
  induction ds with
  | nil => simp
  | cons d ds ih =>
      rw [forall_mem_cons] at h
      have hd : (d + 1) * b ^ ds.length ≤ b * b ^ ds.length := Nat.mul_le_mul_right _ h.1
      have htail := ih h.2
      rw [value_cons, length_cons, pow_succ']
      rw [Nat.add_mul, Nat.one_mul] at hd
      omega

theorem pow_le_value {d : ℕ} (hd : 0 < d) (ds : List ℕ) : b ^ ds.length ≤ value b (d :: ds) := by
  rw [value_cons]
  have h := Nat.mul_le_mul_right (b ^ ds.length) hd
  omega

theorem value_eq_ofDigits (ds : List ℕ) : value b ds = Nat.ofDigits b ds.reverse := by
  induction ds using reverseRecOn with
  | nil => rfl
  | append_singleton ds d ih =>
      rw [value_append, ih, reverse_append, reverse_singleton, singleton_append,
        Nat.ofDigits_cons, length_singleton, pow_one, value_cons]
      simp [value]
      ring

/-- As many digits with the same value are the same digits. -/
theorem value_injective {ds es : List ℕ} (hb : 1 < b) (hlength : ds.length = es.length)
    (hds : ∀ d ∈ ds, d < b) (hes : ∀ e ∈ es, e < b) (h : value b ds = value b es) : ds = es := by
  rw [value_eq_ofDigits, value_eq_ofDigits] at h
  apply reverse_injective
  refine Nat.ofDigits_inj_of_len_eq hb ?_ ?_ ?_ h
  · rw [length_reverse, length_reverse, hlength]
  · exact fun d hd => hds d (mem_reverse.mp hd)
  · exact fun e he => hes e (mem_reverse.mp he)

/-- Zeros in front do not count. -/
theorem value_dropWhile (ds : List ℕ) : value b (ds.dropWhile (· = 0)) = value b ds := by
  induction ds with
  | nil => rfl
  | cons d ds ih =>
      rw [dropWhile_cons]
      split
      · next h =>
          rw [decide_eq_true_eq] at h
          rw [ih, value_cons, h, Nat.zero_mul, Nat.zero_add]
      · rfl

theorem eq_rdropWhile_append (ds : List ℕ) : ∃ n, ds = ds.rdropWhile (· = 0) ++
    replicate n 0 := by
  refine ⟨(ds.rtakeWhile (· = 0)).length, ?_⟩
  have hzeros : ds.rtakeWhile (· = 0) = replicate (ds.rtakeWhile (· = 0)).length 0 := by
    rw [eq_replicate_iff]
    exact ⟨rfl, fun d hd => by simpa using mem_rtakeWhile_imp hd⟩
  rw [← hzeros, rdropWhile_append_rtakeWhile]

/-- Zeros at the end are a power of the base. -/
theorem value_rdropWhile (ds : List ℕ) :
    value b ds = value b (ds.rdropWhile (· = 0)) *
      b ^ (ds.length - (ds.rdropWhile (· = 0)).length) := by
  obtain ⟨n, hn⟩ := eq_rdropWhile_append ds
  have hlength := congrArg length hn
  rw [length_append, length_replicate] at hlength
  rw [show ds.length - (ds.rdropWhile (· = 0)).length = n by omega, ← value_append_zeros, ← hn]

theorem not_dvd_value {d : ℕ} (hd : 0 < d) (hlt : d < b) (ds : List ℕ) :
    ¬b ∣ value b (ds ++ [d]) := by
  rw [value_append, length_singleton, pow_one, value_cons, value_nil, length_nil, pow_zero,
    Nat.mul_one, Nat.add_zero, Nat.dvd_add_right (Nat.dvd_mul_left _ _)]
  exact Nat.not_dvd_of_pos_of_lt hd hlt

/-! ## Fractions -/

/-- The digits behind a point. -/
def fraction (b : ℕ) : List ℕ → ℚ
  | [] => 0
  | d :: ds => (d + fraction b ds) / b

theorem fraction_eq (hb : 0 < b) (ds : List ℕ) :
    fraction b ds = value b ds / (b : ℚ) ^ ds.length := by
  have hbase : (b : ℚ) ≠ 0 := by exact_mod_cast hb.ne'
  induction ds with
  | nil => simp [fraction]
  | cons d ds ih =>
      rw [fraction, ih, value_cons, length_cons, pow_succ]
      push_cast
      field_simp

theorem fraction_nonneg (ds : List ℕ) : 0 ≤ fraction b ds := by
  induction ds with
  | nil => exact le_refl _
  | cons d ds ih =>
      rw [fraction]
      positivity

theorem fraction_lt_one (h : ∀ d ∈ ds, d < b) : fraction b ds < 1 := by
  induction ds with
  | nil => exact zero_lt_one
  | cons d ds ih =>
      rw [forall_mem_cons] at h
      have hd : (d : ℚ) + 1 ≤ b := by exact_mod_cast h.1
      have htail := ih h.2
      have hb : (0 : ℚ) < b := by exact_mod_cast (Nat.zero_le d).trans_lt h.1
      rw [fraction, div_lt_one hb]
      linarith

theorem inv_le_fraction {d : ℕ} (hb : 0 < b) (hd : 0 < d) (ds : List ℕ) :
    (b : ℚ)⁻¹ ≤ fraction b (d :: ds) := by
  have hone : (1 : ℚ) ≤ d := by exact_mod_cast hd
  have htail := fraction_nonneg (b := b) ds
  have hbase : (0 : ℚ) < b := by exact_mod_cast hb
  rw [fraction, inv_eq_one_div, div_le_div_iff_of_pos_right hbase]
  linarith

/-- The first different digit decides. -/
theorem fraction_lt_of_lt {d e : ℕ} (hb : 0 < b) (hds : ∀ x ∈ ds, x < b) (h : d < e) :
    fraction b (d :: ds) < fraction b (e :: es) := by
  have hde : (d : ℚ) + 1 ≤ e := by exact_mod_cast h
  have hlow := fraction_lt_one hds
  have hhigh := fraction_nonneg (b := b) es
  have hbase : (0 : ℚ) < b := by exact_mod_cast hb
  rw [fraction, fraction, div_lt_div_iff_of_pos_right hbase]
  linarith

/-! ## Powers of the base -/

/-- Of two numbers between a place and the next one, the higher place decides. -/
theorem scaled_lt_of_lt {x y : ℚ} {j k : ℤ} (hb : 1 < b) (hx : x < 1) (hy : (b : ℚ)⁻¹ ≤ y)
    (h : j < k) : x * (b : ℚ) ^ j < y * (b : ℚ) ^ k := by
  have hbase : (0 : ℚ) < b := by exact_mod_cast (Nat.zero_lt_one.trans hb)
  have hone : (1 : ℚ) ≤ b := by exact_mod_cast hb.le
  calc x * (b : ℚ) ^ j < 1 * (b : ℚ) ^ j := by
        exact mul_lt_mul_of_pos_right hx (zpow_pos hbase j)
    _ ≤ (b : ℚ) ^ (k - 1) := by
        rw [one_mul]
        exact zpow_le_zpow_right₀ hone (by omega)
    _ = (b : ℚ)⁻¹ * (b : ℚ) ^ k := by
        rw [zpow_sub_one₀ hbase.ne', mul_comm]
    _ ≤ y * (b : ℚ) ^ k := mul_le_mul_of_nonneg_right hy (zpow_pos hbase k).le

/-- A number with a digit at its last place has no shorter form. -/
theorem le_of_not_dvd {t n j k : ℤ} (hb : 1 < b) (ht : ¬(b : ℤ) ∣ t)
    (h : (t : ℚ) * (b : ℚ) ^ j = n * (b : ℚ) ^ k) : k ≤ j ∧ |t| ≤ |n| := by
  have hbase : (b : ℚ) ≠ 0 := by exact_mod_cast (Nat.zero_lt_one.trans hb).ne'
  have hk : k ≤ j := by
    by_contra hlt
    obtain ⟨m, hm⟩ : ∃ m : ℕ, k = j + 1 + m := ⟨(k - j - 1).toNat, by omega⟩
    apply ht
    refine ⟨n * b ^ m, ?_⟩
    have heq : (t : ℚ) = n * (b * b ^ m) := by
      have hpow : (b : ℚ) ^ k = (b * b ^ m) * (b : ℚ) ^ j := by
        rw [hm, zpow_add₀ hbase, zpow_add₀ hbase, zpow_one, zpow_natCast]
        ring
      rw [hpow, ← mul_assoc] at h
      exact mul_right_cancel₀ (zpow_ne_zero j hbase) h
    have hint : t = n * (b * b ^ m) := by exact_mod_cast heq
    rw [hint]
    ring
  refine ⟨hk, ?_⟩
  obtain ⟨m, hm⟩ : ∃ m : ℕ, j = k + m := ⟨(j - k).toNat, by omega⟩
  have heq : (n : ℚ) = t * b ^ m := by
    have hpow : (b : ℚ) ^ j = b ^ m * (b : ℚ) ^ k := by
      rw [hm, zpow_add₀ hbase, zpow_natCast, mul_comm]
    rw [hpow, ← mul_assoc] at h
    exact (mul_right_cancel₀ (zpow_ne_zero k hbase) h).symm
  have hint : n = t * b ^ m := by exact_mod_cast heq
  have hpos : (1 : ℤ) ≤ |(b : ℤ) ^ m| := by
    have hne : (b : ℤ) ^ m ≠ 0 := pow_ne_zero _ (by omega)
    exact Int.one_le_abs hne
  calc |t| = |t| * 1 := (mul_one _).symm
    _ ≤ |t| * |(b : ℤ) ^ m| := mul_le_mul_of_nonneg_left hpos (abs_nonneg t)
    _ = |n| := by rw [hint, abs_mul]

end Rustack.Positional
