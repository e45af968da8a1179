import Mathlib.Data.List.Dedup
import Rustack.Lib.SortedMap

/-!
# Keeping a collection within a limit

When a collection has outgrown its limit, members that nothing protects are dropped, the
oldest first, until it is within the limit or only protected members are left.  The order in
which equally old members are visited is arbitrary.
-/

namespace Evict

universe u v

variable {α : Type u} (age : α → ℤ) (kept : α → Bool)

/-- The first `n` unprotected members, the oldest first. -/
def victims (n : ℕ) (l : List α) : List α :=
  ((l.filter fun a => !kept a).mergeSort fun a b => decide (age a ≤ age b)).take n

theorem oldest_sorted (l : List α) :
    ((l.filter fun a => !kept a).mergeSort fun a b => decide (age a ≤ age b)).Pairwise
      fun a b => age a ≤ age b := by
  have hsorted : ((l.filter fun a => !kept a).mergeSort fun a b => decide (age a ≤ age b)).Pairwise
      fun a b => decide (age a ≤ age b) = true := by
    refine List.pairwise_mergeSort (fun a b c hab hbc => ?_) (fun a b => ?_) _
    · exact decide_eq_true ((of_decide_eq_true hab).trans (of_decide_eq_true hbc))
    · rcases Int.le_total (age a) (age b) with h | h
      · simp [h]
      · simp [h]
  exact hsorted.imp of_decide_eq_true

theorem mem_oldest {l : List α} {a : α} :
    a ∈ (l.filter fun a => !kept a).mergeSort (fun a b => decide (age a ≤ age b)) ↔
      a ∈ l ∧ kept a = false := by
  rw [List.mem_mergeSort, List.mem_filter, Bool.not_eq_true']

theorem nodup_victims (n : ℕ) {l : List α} (h : l.Nodup) : (victims age kept n l).Nodup :=
  ((List.mergeSort_perm _ _).nodup_iff.mpr (h.filter _)).sublist (List.take_sublist _ _)

theorem length_victims (n : ℕ) (l : List α) :
    (victims age kept n l).length = min n (l.countP fun a => !kept a) := by
  rw [victims, List.length_take, List.length_mergeSort, List.countP_eq_length_filter]

variable {age kept}

theorem of_mem_victims {n : ℕ} {l : List α} {a : α} (h : a ∈ victims age kept n l) :
    a ∈ l ∧ kept a = false :=
  (mem_oldest age kept).mp (List.mem_of_mem_take h)

/-- A victim is no younger than an unprotected member that stays. -/
theorem age_le_of_mem_victims {n : ℕ} {l : List α} {a b : α} (ha : a ∈ victims age kept n l)
    (hb : b ∈ l) (hkept : kept b = false) (hstays : b ∉ victims age kept n l) : age a ≤ age b := by
  have hsorted := oldest_sorted age kept l
  have hmem := (mem_oldest age kept).mpr ⟨hb, hkept⟩
  rw [← List.take_append_drop n (List.mergeSort _ _)] at hsorted hmem
  refine (List.pairwise_append.mp hsorted).2.2 a ha b ?_
  exact (List.mem_append.mp hmem).resolve_left hstays

theorem countP_not (kept : α → Bool) (l : List α) :
    l.countP kept + (l.countP fun a => !kept a) = l.length := by
  have hother : (l.countP fun a => !kept a) = l.countP fun a => ¬kept a := by
    refine List.countP_congr fun a _ => ?_
    simp
  rw [hother, ← l.length_eq_countP_add_countP kept]

/-- Without some of its members a list is that much shorter. -/
theorem length_filter_notMem [DecidableEq α] {l dropped : List α} (hl : l.Nodup)
    (hdropped : dropped.Nodup) (hsub : ∀ a ∈ dropped, a ∈ l) :
    (l.filter fun a => a ∉ dropped).length + dropped.length = l.length := by
  have hperm : (l.filter fun a => a ∈ dropped).Perm dropped := by
    refine (List.perm_ext_iff_of_nodup (hl.filter _) hdropped).mpr fun a => ?_
    rw [List.mem_filter, decide_eq_true_iff]
    exact ⟨fun h => h.2, fun h => ⟨hsub a h, h⟩⟩
  have hsplit := l.length_eq_countP_add_countP fun a => decide (a ∈ dropped)
  rw [List.countP_eq_length_filter, List.countP_eq_length_filter, hperm.length_eq] at hsplit
  have hrest : (l.filter fun a => ¬decide (a ∈ dropped) = true) =
      l.filter fun a => a ∉ dropped := by
    refine List.filter_congr fun a _ => ?_
    simp
  rw [hrest] at hsplit
  omega

/-- Dropping victims down to a limit leaves no more than the limit or the protected members. -/
theorem length_le_of_victims [DecidableEq α] (age : α → ℤ) (kept : α → Bool) (limit : ℕ)
    {l : List α} (hl : l.Nodup) :
    (l.filter fun a => a ∉ victims age kept (l.length - limit) l).length ≤
      max limit (l.countP kept) := by
  have hlength := length_filter_notMem hl (nodup_victims age kept (l.length - limit) hl)
    fun a ha => (of_mem_victims ha).1
  have hsplit := countP_not kept l
  rw [length_victims] at hlength
  omega

/-! ## Removing from a map -/

variable {β : Type v} {cmp : α → α → Ordering}

theorem entries_foldl_erase [Std.LawfulEqCmp cmp] [DecidableEq α]
    (keys : List α) (m : SortedMap α β cmp) :
    (keys.foldl SortedMap.erase m).entries = m.entries.filter fun e => e.1 ∉ keys := by
  induction keys generalizing m with
  | nil => simp
  | cons k keys ih =>
      rw [List.foldl_cons, ih]
      have herase : (m.erase k).entries = m.entries.filter fun e => e.1 ≠ k := by
        refine List.filter_congr fun e _ => ?_
        rw [bne, beq_eq_decide]
        simp [Std.LawfulEqCmp.compare_eq_iff_eq]
      rw [herase, List.filter_filter]
      refine List.filter_congr fun e _ => ?_
      simp [Bool.and_comm]

theorem get?_foldl_erase [Std.TransCmp cmp] [Std.LawfulEqCmp cmp] [DecidableEq α] (keys : List α)
    (m : SortedMap α β cmp) (key : α) :
    (keys.foldl SortedMap.erase m).get? key = if key ∈ keys then none else m.get? key := by
  induction keys generalizing m with
  | nil => rfl
  | cons k keys ih =>
      rw [List.foldl_cons, ih, SortedMap.get?_erase_eq]
      by_cases hkey : k = key
      · simp [hkey]
      · simp [hkey, Ne.symm hkey]

end Evict
