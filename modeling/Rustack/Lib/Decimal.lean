import Mathlib.Algebra.Order.Ring.Int
import Mathlib.Data.List.Basic

/-!
# Unsigned decimals

A number is shown in decimal, with zeros in front of it up to a given width.  What is read
is a text of digits with an optional plus sign, and the number has to lie below a bound.
Reading gives back what was shown.
-/

namespace Decimal

open List

/-- The decimal digits of a number, filled up with zeros on the left. -/
def padded (width n : ℕ) : String :=
  String.ofList (List.replicate (width - (Nat.toDigits 10 n).length) '0' ++ Nat.toDigits 10 n)

inductive ParseIntError where
  | empty
  | invalidDigit
  | posOverflow
deriving DecidableEq

/-- Read digits until one is not a digit or the value is out of bounds. -/
def scan (bound : ℕ) : List Char → ℕ → Except ParseIntError ℕ
  | [], value => .ok value
  | c :: cs, value =>
    if ¬c.isDigit then .error .invalidDigit
    else if bound ≤ 10 * value then .error .posOverflow
    else if bound ≤ 10 * value + (c.toNat - '0'.toNat) then .error .posOverflow
    else scan bound cs (10 * value + (c.toNat - '0'.toNat))

def parse (bound : ℕ) (text : String) : Except ParseIntError ℕ :=
  match text.toList with
  | [] => .error .empty
  | ['+'] => .error .invalidDigit
  | '+' :: digits => scan bound digits 0
  | digits => scan bound digits 0

variable {bound : ℕ}

theorem scan_lt {cs : List Char} {value result : ℕ} (hvalue : value < bound)
    (h : scan bound cs value = .ok result) : result < bound := by
  induction cs generalizing value with
  | nil =>
      cases h
      exact hvalue
  | cons c cs ih =>
      unfold scan at h
      split at h
      · cases h
      · split at h
        · cases h
        · split at h
          · cases h
          · next hlt => exact ih (Nat.lt_of_not_le hlt) h

theorem parse_lt {text : String} {value : ℕ} (hbound : 0 < bound)
    (h : parse bound text = .ok value) : value < bound := by
  unfold parse at h
  split at h
  · cases h
  · cases h
  · exact scan_lt hbound h
  · exact scan_lt hbound h

theorem le_ofDigitChars (cs : List Char) (value : ℕ) : value ≤ Nat.ofDigitChars 10 cs value := by
  rw [Nat.ofDigitChars_eq_ofDigitChars_zero]
  have hpos : 0 < 10 ^ cs.length := Nat.pow_pos (by decide)
  exact Nat.le_add_right_of_le (Nat.le_mul_of_pos_left value hpos)

theorem scan_eq {cs : List Char} {value : ℕ} (hdigits : ∀ c ∈ cs, c.isDigit = true)
    (hlt : Nat.ofDigitChars 10 cs value < bound) :
    scan bound cs value = .ok (Nat.ofDigitChars 10 cs value) := by
  induction cs generalizing value with
  | nil => rw [scan, Nat.ofDigitChars_nil]
  | cons c cs ih =>
      rw [Nat.ofDigitChars_cons] at hlt ⊢
      have hnext := Nat.lt_of_le_of_lt (le_ofDigitChars cs _) hlt
      unfold scan
      rw [if_neg (not_not_intro (hdigits c (.head _))),
        if_neg (Nat.not_le_of_lt (Nat.lt_of_le_of_lt (Nat.le_add_right _ _) hnext)),
        if_neg (Nat.not_le_of_lt hnext)]
      exact ih (fun d hd => hdigits d (.tail _ hd)) hlt

theorem isDigit_of_mem_padded {width n : ℕ} {c : Char} (h : c ∈ (padded width n).toList) :
    c.isDigit = true := by
  unfold padded at h
  rw [String.toList_ofList] at h
  rcases mem_append.mp h with hzero | hdigit
  · rw [eq_of_mem_replicate hzero]
    rfl
  · exact Nat.isDigit_of_mem_toDigits (by decide) (by decide) hdigit

theorem ofDigitChars_padded (width n : ℕ) :
    Nat.ofDigitChars 10 (padded width n).toList 0 = n := by
  unfold padded
  rw [String.toList_ofList, Nat.ofDigitChars_append, Nat.ofDigitChars_replicate_zero, Nat.mul_zero,
    Nat.ofDigitChars_ten_toDigits]

theorem parse_padded (width : ℕ) {n : ℕ} (h : n < bound) :
    parse bound (padded width n) = .ok n := by
  have hscan := scan_eq (fun _ hc => isDigit_of_mem_padded hc)
    (by rw [ofDigitChars_padded width n]; exact h)
  rw [ofDigitChars_padded] at hscan
  unfold parse
  split
  · next hnil =>
      have hne : (padded width n).toList ≠ [] := by
        unfold padded
        rw [String.toList_ofList]
        exact append_ne_nil_of_right_ne_nil _ Nat.toDigits_ne_nil
      exact absurd hnil hne
  · next hplus =>
      have hdigit := isDigit_of_mem_padded (c := '+')
        (by rw [hplus]; exact (.head _))
      cases hdigit
  · next digits hplus =>
      have hdigit := isDigit_of_mem_padded (c := '+')
        (by rw [hplus]; exact (.head _))
      cases hdigit
  · exact hscan

theorem padded_injective (width : ℕ) : Function.Injective (padded width) := fun n m h => by
  have hn := ofDigitChars_padded width n
  rw [h, ofDigitChars_padded] at hn
  exact hn.symm

theorem length_padded {width n : ℕ} (hwidth : 0 < width) (h : n < 10 ^ width) :
    (padded width n).toList.length = width := by
  unfold padded
  rw [String.toList_ofList, length_append, length_replicate]
  have hle : (Nat.toDigits 10 n).length ≤ width :=
    Nat.length_toDigits_le_iff (by decide) hwidth |>.mpr h
  omega

theorem ofDigitChars_lt {cs : List Char} (h : ∀ c ∈ cs, c.isDigit = true) (value : ℕ) :
    Nat.ofDigitChars 10 cs value < 10 ^ cs.length * (value + 1) := by
  induction cs generalizing value with
  | nil => simp
  | cons c cs ih =>
      have hc : c.toNat ≤ 57 := by
        have hdigit := h c (.head _)
        simp only [Char.isDigit, Bool.and_eq_true, decide_eq_true_eq] at hdigit
        exact hdigit.2
      have hnext := ih (fun d hd => h d (mem_cons_of_mem c hd)) (10 * value + (c.toNat - 48))
      have hstep : 10 * value + (c.toNat - 48) + 1 ≤ 10 * (value + 1) := by omega
      rw [Nat.ofDigitChars_cons, length_cons, Nat.pow_succ, Nat.mul_assoc]
      exact Nat.lt_of_lt_of_le hnext (Nat.mul_le_mul_left _ hstep)

/-- Texts of digits with one length stand in the order of their values. -/
theorem lt_of_ofDigitChars_lt {xs ys : List Char} {value : ℕ} (hx : ∀ c ∈ xs, c.isDigit = true)
    (hy : ∀ c ∈ ys, c.isDigit = true) (hlength : xs.length = ys.length)
    (h : Nat.ofDigitChars 10 xs value < Nat.ofDigitChars 10 ys value) : xs < ys := by
  induction xs generalizing ys value with
  | nil =>
      rw [length_nil] at hlength
      rw [length_eq_zero_iff.mp hlength.symm] at h
      exact absurd h (Nat.lt_irrefl _)
  | cons c xs ih =>
      cases ys with
      | nil => cases hlength
      | cons d ys =>
        have hlength' : xs.length = ys.length := Nat.succ.inj hlength
        have hy' : ∀ e ∈ ys, e.isDigit = true := fun e he => hy e (mem_cons_of_mem d he)
        rw [Nat.ofDigitChars_cons, Nat.ofDigitChars_cons] at h
        rw [cons_lt_cons_iff]
        rcases Nat.lt_trichotomy c.toNat d.toNat with hlt | heq | hgt
        · exact Or.inl hlt
        · have hcd : c = d := Char.toNat_inj.mp heq
          subst hcd
          exact Or.inr ⟨rfl, ih (fun e he => hx e (mem_cons_of_mem c he)) hy' hlength' h⟩
        · exfalso
          have hd : 48 ≤ d.toNat := by
            have hdigit := hy d (.head _)
            simp only [Char.isDigit, Bool.and_eq_true, decide_eq_true_eq] at hdigit
            exact hdigit.1
          have hbelow := ofDigitChars_lt hy' (10 * value + (d.toNat - 48))
          have habove : 10 ^ xs.length * (10 * value + (c.toNat - 48)) ≤
              Nat.ofDigitChars 10 xs (10 * value + (c.toNat - 48)) := by
            have hsplit : Nat.ofDigitChars 10 xs (10 * value + (c.toNat - 48)) =
                10 ^ xs.length * (10 * value + (c.toNat - 48)) + Nat.ofDigitChars 10 xs 0 :=
              Nat.ofDigitChars_eq_ofDigitChars_zero
            rw [hsplit]
            exact Nat.le_add_right _ _
          have hstep : 10 * value + (d.toNat - 48) + 1 ≤ 10 * value + (c.toNat - 48) := by omega
          have hmul := Nat.mul_le_mul_left (10 ^ xs.length) hstep
          rw [hlength'] at hmul habove
          exact absurd h (Nat.not_lt_of_le (Nat.le_of_lt
            (Nat.lt_of_lt_of_le hbelow (Nat.le_trans hmul habove))))

theorem padded_lt {width n m : ℕ} (hwidth : 0 < width) (hm : m < 10 ^ width) (h : n < m) :
    padded width n < padded width m := by
  have hlist : (padded width n).toList < (padded width m).toList := by
    apply lt_of_ofDigitChars_lt (fun _ => isDigit_of_mem_padded) (fun _ => isDigit_of_mem_padded)
    · rw [length_padded hwidth (Nat.lt_trans h hm), length_padded hwidth hm]
    · rwa [ofDigitChars_padded, ofDigitChars_padded]
  exact hlist

end Decimal
