import Mathlib.Data.List.Basic
import Mathlib.Order.Lattice

/-!
# The first best of a list

A scan that keeps its first candidate until a strictly better one comes up.  It ends with a
candidate of least rank, and which one it is depends on the order only where two candidates
share the least rank.
-/

namespace FirstBest

universe u v

variable {α : Type u} {β : Type v} [LinearOrder β] (rank : α → β)

/-- The candidate in hand gives way to a strictly better one. -/
def keep (best : Option α) (a : α) : Option α :=
  match best with
  | none => some a
  | some current => if rank a < rank current then some a else some current

def firstBest (as : List α) : Option α := as.foldl (keep rank) none

/-- A candidate that no other one beats. -/
def Least (as : List α) (a : α) : Prop := a ∈ as ∧ ∀ b ∈ as, rank a ≤ rank b

theorem foldl_keep (as : List α) (a : α) :
    ∃ b, as.foldl (keep rank) (some a) = some b ∧ Least rank (a :: as) b := by
  induction as generalizing a with
  | nil => exact ⟨a, rfl, List.mem_cons_self, fun b hb => by rw [List.mem_singleton.mp hb]⟩
  | cons c as ih =>
      rw [List.foldl_cons, keep]
      by_cases hlt : rank c < rank a
      · rw [if_pos hlt]
        obtain ⟨b, hfold, hmem, hleast⟩ := ih c
        refine ⟨b, hfold, .tail _ hmem, List.forall_mem_cons.mpr ⟨?_, hleast⟩⟩
        exact (hleast c (.head _)).trans hlt.le
      · rw [if_neg hlt]
        obtain ⟨b, hfold, hmem, hleast⟩ := ih a
        have hba : rank b ≤ rank a := hleast a (.head _)
        refine ⟨b, hfold, ?_, List.forall_mem_cons.mpr ⟨hba, List.forall_mem_cons.mpr ⟨?_, ?_⟩⟩⟩
        · rcases List.mem_cons.mp hmem with rfl | hmem
          · exact .head _
          · exact .tail _ (.tail _ hmem)
        · exact hba.trans (not_lt.mp hlt)
        · exact fun d hd => hleast d (.tail _ hd)

variable {rank}

theorem firstBest_eq_none {as : List α} : firstBest rank as = none ↔ as = [] := by
  cases as with
  | nil => exact iff_of_true rfl rfl
  | cons a as =>
      obtain ⟨b, hfold, -⟩ := foldl_keep rank as a
      have hbest : firstBest rank (a :: as) = some b := hfold
      rw [hbest]
      exact iff_of_false (Option.some_ne_none b) (List.cons_ne_nil a as)

theorem least_of_firstBest {as : List α} {a : α} (h : firstBest rank as = some a) :
    Least rank as a := by
  cases as with
  | nil => cases h
  | cons c as =>
      obtain ⟨b, hfold, hleast⟩ := foldl_keep rank as c
      obtain rfl : b = a := Option.some.inj (hfold.symm.trans h)
      exact hleast

/-- A least candidate at the front stays. -/
theorem firstBest_cons {as : List α} {a : α} (h : ∀ b ∈ as, rank a ≤ rank b) :
    firstBest rank (a :: as) = some a := by
  change as.foldl (keep rank) (some a) = some a
  induction as with
  | nil => rfl
  | cons c as ih =>
      have hstays : keep rank (some a) c = some a := if_neg (not_lt.mpr (h c (.head _)))
      rw [List.foldl_cons, hstays]
      exact ih fun b hb => h b (.tail _ hb)

end FirstBest
