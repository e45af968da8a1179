import Mathlib.Data.List.Basic

/-!
# A line whose head may be out

Elements join a line in the order of their numbers and leave it from the head.  The
head can be out (with somebody who has not decided yet), come back, or be dropped;
while it is out it can be served, any number of times.  The history of the line (what
joined it and what was served) is part of the state, and the state carries the order
as its own facts: every operation below is total and keeps them by construction.
-/

universe u

/-- A line with its history; `next` is above every number that has joined. -/
structure Lane (α : Type u) (num : α → ℕ) where
  out : Option α
  waiting : List α
  joined : List α
  served : List α
  next : ℕ
  line_sorted : (out.toList ++ waiting).Pairwise fun a b => num a < num b
  joined_sorted : joined.Pairwise fun a b => num a < num b
  served_sorted : served.Pairwise fun a b => num a ≤ num b
  served_le : ∀ a ∈ served, ∀ b ∈ out.toList ++ waiting, num a ≤ num b
  line_joined : ∀ a ∈ out.toList ++ waiting, a ∈ joined
  served_joined : ∀ a ∈ served, a ∈ joined
  joined_lt : ∀ a ∈ joined, num a < next

namespace Lane

open List

variable {α : Type u} {num : α → ℕ}

def empty (next : ℕ) : Lane α num where
  out := none
  waiting := []
  joined := []
  served := []
  next
  line_sorted := List.Pairwise.nil
  joined_sorted := List.Pairwise.nil
  served_sorted := List.Pairwise.nil
  served_le := fun _ ha => absurd ha not_mem_nil
  line_joined := fun _ ha => absurd ha not_mem_nil
  served_joined := fun _ ha => absurd ha not_mem_nil
  joined_lt := fun _ ha => absurd ha not_mem_nil

variable (l : Lane α num)

/-- The head and those behind it. -/
def line : List α := l.out.toList ++ l.waiting

theorem line_lt {a : α} (h : a ∈ l.line) : num a < l.next := l.joined_lt a (l.line_joined a h)

/-- A number is used up by somebody else. -/
def skip : Lane α num where
  __ := l
  next := l.next + 1
  joined_lt := fun a ha => Nat.lt_succ_of_lt (l.joined_lt a ha)

/-- Join the end of the line under the next number. -/
def push (a : α) (ha : num a = l.next) : Lane α num where
  out := l.out
  waiting := l.waiting ++ [a]
  joined := l.joined ++ [a]
  served := l.served
  next := l.next + 1
  line_sorted := by
    rw [← append_assoc]
    refine pairwise_append.mpr ⟨l.line_sorted, pairwise_singleton _ _, ?_⟩
    intro b hb c hc
    rw [mem_singleton.mp hc, ha]
    exact l.line_lt hb
  joined_sorted := by
    refine pairwise_append.mpr ⟨l.joined_sorted, pairwise_singleton _ _, ?_⟩
    intro b hb c hc
    rw [mem_singleton.mp hc, ha]
    exact l.joined_lt b hb
  served_sorted := l.served_sorted
  served_le := by
    intro b hb c hc
    rw [← append_assoc, mem_append] at hc
    rcases hc with hc | hc
    · exact l.served_le b hb c hc
    · rw [mem_singleton.mp hc, ha]
      exact Nat.le_of_lt (l.joined_lt b (l.served_joined b hb))
  line_joined := by
    intro b hb
    rw [← append_assoc, mem_append] at hb
    rcases hb with hb | hb
    · exact mem_append_left _ (l.line_joined b hb)
    · exact mem_append_right _ hb
  served_joined := fun b hb => mem_append_left _ (l.served_joined b hb)
  joined_lt := by
    intro b hb
    rcases mem_append.mp hb with hb | hb
    · exact Nat.lt_succ_of_lt (l.joined_lt b hb)
    · rw [mem_singleton.mp hb, ha]
      exact Nat.lt_succ_self _

/-- The head goes out. -/
def take (a : α) (rest : List α) (hout : l.out = none) (hwaiting : l.waiting = a :: rest) :
    Lane α num where
  out := some a
  waiting := rest
  joined := l.joined
  served := l.served
  next := l.next
  line_sorted := by simpa [hout, hwaiting] using l.line_sorted
  joined_sorted := l.joined_sorted
  served_sorted := l.served_sorted
  served_le := by simpa [hout, hwaiting] using l.served_le
  line_joined := by simpa [hout, hwaiting] using l.line_joined
  served_joined := l.served_joined
  joined_lt := l.joined_lt

/-- The head that is out is served. -/
def serve (a : α) (hout : l.out = some a) : Lane α num where
  out := l.out
  waiting := l.waiting
  joined := l.joined
  served := l.served ++ [a]
  next := l.next
  line_sorted := l.line_sorted
  joined_sorted := l.joined_sorted
  served_sorted := by
    refine pairwise_append.mpr ⟨l.served_sorted, pairwise_singleton _ _, ?_⟩
    intro b hb c hc
    rw [mem_singleton.mp hc]
    exact l.served_le b hb a (mem_append_left _ (by rw [hout]; exact mem_cons_self))
  served_le := by
    intro b hb c hc
    rcases mem_append.mp hb with hb | hb
    · exact l.served_le b hb c hc
    · rw [mem_singleton.mp hb]
      have hsorted := l.line_sorted
      rw [hout] at hc hsorted
      rcases mem_cons.mp hc with rfl | hc
      · exact Nat.le_refl _
      · exact Nat.le_of_lt (rel_of_pairwise_cons hsorted hc)
  line_joined := l.line_joined
  served_joined := by
    intro b hb
    rcases mem_append.mp hb with hb | hb
    · exact l.served_joined b hb
    · rw [mem_singleton.mp hb]
      exact l.line_joined a (mem_append_left _ (by rw [hout]; exact mem_cons_self))
  joined_lt := l.joined_lt

/-- The head comes back. -/
def putBack : Lane α num where
  out := none
  waiting := l.line
  joined := l.joined
  served := l.served
  next := l.next
  line_sorted := l.line_sorted
  joined_sorted := l.joined_sorted
  served_sorted := l.served_sorted
  served_le := l.served_le
  line_joined := l.line_joined
  served_joined := l.served_joined
  joined_lt := l.joined_lt

/-- The head that is out does not come back. -/
def drop : Lane α num where
  out := none
  waiting := l.waiting
  joined := l.joined
  served := l.served
  next := l.next
  line_sorted := (pairwise_append.mp l.line_sorted).2.1
  joined_sorted := l.joined_sorted
  served_sorted := l.served_sorted
  served_le := fun a ha b hb => l.served_le a ha b (mem_append_right _ hb)
  line_joined := fun a ha => l.line_joined a (mem_append_right _ ha)
  served_joined := l.served_joined
  joined_lt := l.joined_lt

/-- The line is sent away. -/
def clear : Lane α num where
  out := none
  waiting := []
  joined := l.joined
  served := l.served
  next := l.next
  line_sorted := List.Pairwise.nil
  joined_sorted := l.joined_sorted
  served_sorted := l.served_sorted
  served_le := fun _ _ _ hb => absurd hb not_mem_nil
  line_joined := fun _ ha => absurd ha not_mem_nil
  served_joined := l.served_joined
  joined_lt := l.joined_lt

end Lane
