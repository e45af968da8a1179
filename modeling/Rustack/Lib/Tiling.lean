import Mathlib.Data.List.Basic
import Mathlib.Order.Cover

/-!
# Tilings of a linear order by closed intervals

A list of intervals tiles an order where none of them is empty, no two of them meet, and
every point lies in one.  A tiling stays one in any order of its intervals, when an interval
is cut in two, and when two neighbours are joined.
-/

universe u

structure Tiles {α : Type u} [LinearOrder α] (ranges : List (α × α)) : Prop where
  nonempty : ∀ r ∈ ranges, r.1 ≤ r.2
  disjoint : ranges.Pairwise fun r r' => r.2 < r'.1 ∨ r'.2 < r.1
  cover : ∀ x, ∃ r ∈ ranges, r.1 ≤ x ∧ x ≤ r.2

namespace Tiles

open List

variable {α : Type u} [LinearOrder α] {ranges ranges' : List (α × α)} {a b c d : α}

theorem perm (h : Tiles ranges) (hperm : ranges.Perm ranges') : Tiles ranges' where
  nonempty := fun r hr => h.nonempty r (hperm.mem_iff.mpr hr)
  disjoint := (hperm.pairwise_iff fun {r r'} hrr => hrr.symm).mp h.disjoint
  cover := fun x => by
    obtain ⟨r, hr, hx⟩ := h.cover x
    exact ⟨r, hperm.mem_iff.mp hr, hx⟩

theorem single (hbot : ∀ x : α, a ≤ x) (htop : ∀ x : α, x ≤ b) : Tiles [(a, b)] where
  nonempty := fun r hr => by
    obtain rfl := mem_singleton.mp hr
    exact hbot b
  disjoint := pairwise_singleton _ _
  cover := fun x => ⟨(a, b), mem_singleton_self _, hbot x, htop x⟩

/-- Two intervals of a tiling with a common point are one. -/
theorem eq_of_mem (h : Tiles ranges) {i j : ℕ} {r r' : α × α} (hi : ranges[i]? = some r)
    (hj : ranges[j]? = some r') {x : α} (hr : r.1 ≤ x ∧ x ≤ r.2) (hr' : r'.1 ≤ x ∧ x ≤ r'.2) :
    i = j := by
  have hapart : ∀ {i j : ℕ} {r r' : α × α}, ranges[i]? = some r → ranges[j]? = some r' →
      r.1 ≤ x ∧ x ≤ r.2 → r'.1 ≤ x ∧ x ≤ r'.2 → ¬i < j := by
    intro i j r r' hi hj hr hr' hlt
    obtain ⟨hilt, rfl⟩ := List.getElem?_eq_some_iff.mp hi
    obtain ⟨hjlt, rfl⟩ := List.getElem?_eq_some_iff.mp hj
    rcases pairwise_iff_getElem.mp h.disjoint i j hilt hjlt hlt with hbefore | hbefore
    · exact absurd (hr.2.trans_lt (hbefore.trans_le hr'.1)) (lt_irrefl x)
    · exact absurd (hr'.2.trans_lt (hbefore.trans_le hr.1)) (lt_irrefl x)
  exact Nat.le_antisymm (Nat.le_of_not_lt (hapart hj hi hr' hr))
    (Nat.le_of_not_lt (hapart hi hj hr hr'))

/-- Cut the first interval between two neighbouring points. -/
theorem cut (h : Tiles ((a, d) :: ranges)) (hbc : b ⋖ c) (hab : a ≤ b) (hcd : c ≤ d) :
    Tiles ((a, b) :: (c, d) :: ranges) where
  nonempty := fun r hr => by
    rcases mem_cons.mp hr with rfl | hr
    · exact hab
    · rcases mem_cons.mp hr with rfl | hr
      · exact hcd
      · exact h.nonempty r (.tail _ hr)
  disjoint := by
    have hfirst := (pairwise_cons.mp h.disjoint).1
    refine pairwise_cons.mpr ⟨fun r hr => ?_, pairwise_cons.mpr ⟨fun r hr => ?_,
      (pairwise_cons.mp h.disjoint).2⟩⟩
    · rcases mem_cons.mp hr with rfl | hr
      · exact .inl hbc.lt
      · rcases hfirst r hr with hafter | hbefore
        · exact .inl ((hbc.le.trans hcd).trans_lt hafter)
        · exact .inr hbefore
    · rcases hfirst r hr with hafter | hbefore
      · exact .inl hafter
      · exact .inr (hbefore.trans_le (hab.trans hbc.le))
  cover := fun x => by
    obtain ⟨r, hr, hx⟩ := h.cover x
    rcases mem_cons.mp hr with rfl | hr
    · rcases le_or_gt x b with hle | hlt
      · exact ⟨(a, b), mem_cons_self, hx.1, hle⟩
      · exact ⟨(c, d), .tail _ mem_cons_self, hbc.ge_of_gt hlt, hx.2⟩
    · exact ⟨r, .tail _ (.tail _ hr), hx⟩

/-- Join the first two intervals, which are neighbours. -/
theorem join (h : Tiles ((a, b) :: (c, d) :: ranges)) (hbc : b ⋖ c) :
    Tiles ((a, d) :: ranges) where
  nonempty := fun r hr => by
    have hab : a ≤ b := h.nonempty _ (.head _)
    have hcd : c ≤ d := h.nonempty _ (.tail _ (.head _))
    rcases mem_cons.mp hr with rfl | hr
    · exact hab.trans (hbc.le.trans hcd)
    · exact h.nonempty r (.tail _ (.tail _ hr))
  disjoint := by
    obtain ⟨hleft, hrest⟩ := pairwise_cons.mp h.disjoint
    obtain ⟨hright, hrest⟩ := pairwise_cons.mp hrest
    refine pairwise_cons.mpr ⟨fun r hr => ?_, hrest⟩
    rcases hright r hr with hafter | hbefore
    · exact .inl hafter
    · -- the interval lies before the right part, so not after the left one
      refine .inr ((hleft r (.tail _ hr)).resolve_left fun hafter => ?_)
      have hle := h.nonempty r (.tail _ (.tail _ hr))
      exact absurd (hle.trans_lt hbefore) (not_lt_of_ge (hbc.ge_of_gt hafter))
  cover := fun x => by
    obtain ⟨r, hr, hx⟩ := h.cover x
    have hab : a ≤ b := h.nonempty _ (.head _)
    have hcd : c ≤ d := h.nonempty _ (.tail _ (.head _))
    rcases mem_cons.mp hr with rfl | hr
    · exact ⟨(a, d), mem_cons_self, hx.1, hx.2.trans (hbc.le.trans hcd)⟩
    · rcases mem_cons.mp hr with rfl | hr
      · exact ⟨(a, d), mem_cons_self, (hab.trans hbc.le).trans hx.1, hx.2⟩
      · exact ⟨r, .tail _ hr, hx⟩

end Tiles
