import Mathlib.Algebra.BigOperators.Group.List.Basic
import Mathlib.Algebra.Order.Ring.Int

/-!
# Maps kept sorted by a comparison function

A `SortedMap` is what an ordered tree map shows to its users: the entries in
key order, no two of them with keys that compare equal.  Keys are told apart
by the comparison only, so two keys that compare equal need not be the same
value; replacing under such a key keeps the key that is already there.
-/

universe u v

open List

/-- Entries listed in strictly increasing key order. -/
structure SortedMap (α : Type u) (β : Type v) (cmp : α → α → Ordering) where
  entries : List (α × β)
  sorted : entries.Pairwise fun a b => cmp a.1 b.1 = .lt

/-- One end of a range of keys. -/
inductive Bound (α : Type u) where
  | unbounded
  | included (key : α)
  | excluded (key : α)
  deriving DecidableEq

namespace Bound

variable {α : Type u} (cmp : α → α → Ordering)

/-- `key` is not cut off by `b` taken as a lower end. -/
def admitsAbove (b : Bound α) (key : α) : Bool :=
  match b with
  | unbounded => true
  | included low => cmp low key != .gt
  | excluded low => cmp low key == .lt

/-- `key` is not cut off by `b` taken as an upper end. -/
def admitsBelow (b : Bound α) (key : α) : Bool :=
  match b with
  | unbounded => true
  | included high => cmp key high != .gt
  | excluded high => cmp key high == .lt

/-- The ends for which asking an ordered tree for the range is a program error:
the start lies above the end, or both are the same excluded key. -/
def inverted (low high : Bound α) : Bool :=
  match low, high with
  | excluded s, excluded e => cmp s e != .lt
  | included s, included e => cmp s e == .gt
  | included s, excluded e => cmp s e == .gt
  | excluded s, included e => cmp s e == .gt
  | _, _ => false

end Bound

namespace SortedMap

variable {α : Type u} {β : Type v} {cmp : α → α → Ordering}

def empty : SortedMap α β cmp := ⟨[], List.Pairwise.nil⟩

def get? (m : SortedMap α β cmp) (key : α) : Option β :=
  (m.entries.find? fun e => cmp e.1 key == .eq).map Prod.snd

/-- Insert into a sorted list; an equal key stays as it is spelled there. -/
def insertEntry (cmp : α → α → Ordering) (key : α) (value : β) : List (α × β) → List (α × β)
  | [] => [(key, value)]
  | e :: es =>
    match cmp key e.1 with
    | .lt => (key, value) :: e :: es
    | .eq => (e.1, value) :: es
    | .gt => e :: insertEntry cmp key value es

def eraseEntry (cmp : α → α → Ordering) (key : α) (es : List (α × β)) : List (α × β) :=
  es.filter fun e => cmp e.1 key != .eq

theorem mem_insertEntry_key {key : α} {value : β} {es : List (α × β)} {x : α × β}
    (hx : x ∈ insertEntry cmp key value es) : x.1 = key ∨ ∃ e ∈ es, e.1 = x.1 := by
  induction es with
  | nil =>
      simp only [insertEntry, mem_singleton] at hx
      exact Or.inl (congrArg Prod.fst hx)
  | cons e es ih =>
      unfold insertEntry at hx
      cases hcmp : cmp key e.1 with
      | lt =>
          simp only [hcmp, mem_cons] at hx
          rcases hx with rfl | rfl | hx
          · exact Or.inl rfl
          · exact Or.inr ⟨x, by simp, rfl⟩
          · exact Or.inr ⟨x, by simp [hx], rfl⟩
      | eq =>
          simp only [hcmp, mem_cons] at hx
          rcases hx with rfl | hx
          · exact Or.inr ⟨e, by simp, rfl⟩
          · exact Or.inr ⟨x, by simp [hx], rfl⟩
      | gt =>
          simp only [hcmp, mem_cons] at hx
          rcases hx with rfl | hx
          · exact Or.inr ⟨x, by simp, rfl⟩
          · rcases ih hx with hkey | ⟨y, hy, hyx⟩
            · exact Or.inl hkey
            · exact Or.inr ⟨y, mem_cons_of_mem e hy, hyx⟩

/-- An entry after an insertion is the inserted value, under a key that compares equal,
or was there before. -/
theorem mem_insertEntry {key : α} {value : β} {es : List (α × β)} {x : α × β}
    (hx : x ∈ insertEntry cmp key value es) :
    x.2 = value ∧ (x.1 = key ∨ cmp key x.1 = .eq) ∨ x ∈ es := by
  induction es with
  | nil =>
      obtain rfl := mem_singleton.mp hx
      exact Or.inl ⟨rfl, Or.inl rfl⟩
  | cons e es ih =>
      unfold insertEntry at hx
      cases hcmp : cmp key e.1 with
      | lt =>
          simp only [hcmp, mem_cons] at hx
          rcases hx with rfl | rfl | hx
          · exact Or.inl ⟨rfl, Or.inl rfl⟩
          · exact Or.inr (.head _)
          · exact Or.inr (mem_cons_of_mem e hx)
      | eq =>
          simp only [hcmp, mem_cons] at hx
          rcases hx with rfl | hx
          · exact Or.inl ⟨rfl, Or.inr hcmp⟩
          · exact Or.inr (mem_cons_of_mem e hx)
      | gt =>
          simp only [hcmp, mem_cons] at hx
          rcases hx with rfl | hx
          · exact Or.inr (.head _)
          · exact (ih hx).imp id (mem_cons_of_mem e)

section Keys

variable [Std.TransCmp cmp]

theorem pairwise_insertEntry (key : α) (value : β) {es : List (α × β)}
    (hs : es.Pairwise fun a b => cmp a.1 b.1 = .lt) :
    (insertEntry cmp key value es).Pairwise fun a b => cmp a.1 b.1 = .lt := by
  induction es with
  | nil => simp [insertEntry]
  | cons e es ih =>
      obtain ⟨hhead, htail⟩ := pairwise_cons.mp hs
      unfold insertEntry
      cases hcmp : cmp key e.1 with
      | lt =>
          refine pairwise_cons.mpr ⟨?_, hs⟩
          intro b hb
          rcases mem_cons.mp hb with rfl | hb
          · exact hcmp
          · exact Std.TransCmp.lt_trans hcmp (hhead b hb)
      | eq => exact pairwise_cons.mpr ⟨hhead, htail⟩
      | gt =>
          refine pairwise_cons.mpr ⟨?_, ih htail⟩
          intro b hb
          rcases mem_insertEntry_key hb with hkey | ⟨y, hy, hyb⟩
          · rw [hkey]
            exact Std.OrientedCmp.lt_of_gt hcmp
          · rw [← hyb]
            exact hhead y hy

def insert (m : SortedMap α β cmp) (key : α) (value : β) : SortedMap α β cmp :=
  ⟨insertEntry cmp key value m.entries, pairwise_insertEntry key value m.sorted⟩

end Keys

def erase (m : SortedMap α β cmp) (key : α) : SortedMap α β cmp :=
  ⟨eraseEntry cmp key m.entries, m.sorted.filter _⟩

/-- The entries between two ends, in key order, or the panic of an inverted range.
On a sorted list cutting at both ends is the same as filtering. -/
def range (m : SortedMap α β cmp) (low high : Bound α) : Option (List (α × β)) :=
  if Bound.inverted cmp low high then none
  else some (m.entries.filter fun e => low.admitsAbove cmp e.1 && high.admitsBelow cmp e.1)

/-- The entries that pass a test of key and value. -/
def retain (m : SortedMap α β cmp) (p : α → β → Bool) : SortedMap α β cmp :=
  ⟨m.entries.filter fun e => p e.1 e.2, m.sorted.filter _⟩

def mapValues {γ : Type v} (m : SortedMap α β cmp) (f : α → β → γ) : SortedMap α γ cmp :=
  ⟨m.entries.map fun e => (e.1, f e.1 e.2), List.pairwise_map.mpr m.sorted⟩

@[simp] theorem get?_empty (key : α) : (empty : SortedMap α β cmp).get? key = none := rfl

theorem exists_mem_of_get?_eq_some (m : SortedMap α β cmp) {key : α} {value : β}
    (h : m.get? key = some value) : ∃ e ∈ m.entries, cmp e.1 key = .eq ∧ e.2 = value := by
  simp only [get?, Option.map_eq_some_iff] at h
  obtain ⟨e, hfind, rfl⟩ := h
  have hkey := find?_some hfind
  exact ⟨e, mem_of_find?_eq_some hfind, by simpa using hkey, rfl⟩

section Laws

variable [Std.TransCmp cmp]

theorem find?_insertEntry_self (key probe : α) (value : β) {es : List (α × β)}
    (hkey : cmp key probe = .eq) (hs : es.Pairwise fun a b => cmp a.1 b.1 = .lt) :
    ((insertEntry cmp key value es).find? fun e => cmp e.1 probe == .eq).map Prod.snd =
      some value := by
  induction es with
  | nil => simp [insertEntry, hkey]
  | cons e es ih =>
      have htail := (pairwise_cons.mp hs).2
      unfold insertEntry
      cases hcmp : cmp key e.1 with
      | lt => simp [hkey]
      | eq =>
          have he : cmp e.1 probe = .eq :=
            Std.TransCmp.eq_trans (Std.OrientedCmp.eq_symm hcmp) hkey
          simp [he]
      | gt =>
          have he : cmp e.1 probe = .lt :=
            Std.TransCmp.lt_of_lt_of_eq (Std.OrientedCmp.lt_of_gt hcmp) hkey
          simpa [find?_cons, he] using ih htail

theorem find?_insertEntry_of_ne (key probe : α) (value : β) {es : List (α × β)}
    (hkey : cmp key probe ≠ .eq) :
    ((insertEntry cmp key value es).find? fun e => cmp e.1 probe == .eq).map Prod.snd =
      (es.find? fun e => cmp e.1 probe == .eq).map Prod.snd := by
  induction es with
  | nil => simp [insertEntry, hkey]
  | cons e es ih =>
      unfold insertEntry
      cases hcmp : cmp key e.1 with
      | lt => simp [hkey]
      | eq =>
          have he : cmp e.1 probe ≠ .eq := fun h =>
            hkey (Std.TransCmp.eq_trans hcmp h)
          simp [he]
      | gt =>
          cases he : cmp e.1 probe <;> simp [he, ih]

omit [Std.TransCmp cmp] in
theorem length_insertEntry_le (key : α) (value : β) (entries : List (α × β)) :
    (insertEntry cmp key value entries).length ≤ entries.length + 1 := by
  induction entries with
  | nil => exact Nat.le_refl _
  | cons e es ih =>
      unfold insertEntry
      split
      · exact Nat.le_refl _
      · exact Nat.le_succ _
      · exact Nat.succ_le_succ ih

theorem get?_insert (m : SortedMap α β cmp) (key probe : α) (value : β) :
    (m.insert key value).get? probe =
      if cmp key probe = .eq then some value else m.get? probe := by
  split
  · next h => exact find?_insertEntry_self key probe value h m.sorted
  · next h => exact find?_insertEntry_of_ne key probe value h

theorem get?_erase (m : SortedMap α β cmp) (key probe : α) :
    (m.erase key).get? probe = if cmp key probe = .eq then none else m.get? probe := by
  obtain ⟨es, hs⟩ := m
  simp only [get?, erase, eraseEntry]
  split
  · next h =>
      rw [find?_eq_none.mpr]
      · rfl
      intro e he
      have hne : cmp e.1 key ≠ .eq := by simpa using (mem_filter.mp he).2
      have : cmp e.1 probe ≠ .eq := fun heq =>
        hne (Std.TransCmp.eq_trans heq (Std.OrientedCmp.eq_symm h))
      simpa using this
  · next h =>
      rw [find?_filter]
      congr 2
      funext e
      by_cases heq : cmp e.1 probe = .eq
      · have : cmp e.1 key ≠ .eq := fun hk =>
          h (Std.TransCmp.eq_trans (Std.OrientedCmp.eq_symm hk) heq)
        simp [heq, this]
      · simp [heq]

theorem get?_insert_eq [Std.LawfulEqCmp cmp] [DecidableEq α] (m : SortedMap α β cmp)
    (key probe : α) (value : β) :
    (m.insert key value).get? probe = if key = probe then some value else m.get? probe := by
  rw [get?_insert]
  exact if_congr Std.LawfulEqCmp.compare_eq_iff_eq rfl rfl

theorem get?_erase_eq [Std.LawfulEqCmp cmp] [DecidableEq α] (m : SortedMap α β cmp)
    (key probe : α) :
    (m.erase key).get? probe = if key = probe then none else m.get? probe := by
  rw [get?_erase]
  exact if_congr Std.LawfulEqCmp.compare_eq_iff_eq rfl rfl

theorem get?_congr (m : SortedMap α β cmp) {key probe : α} (h : cmp key probe = .eq) :
    m.get? key = m.get? probe := by
  simp only [get?]
  congr 2
  funext e
  rw [Std.TransCmp.congr_right h]

theorem get?_of_mem (m : SortedMap α β cmp) {e : α × β} (he : e ∈ m.entries) :
    m.get? e.1 = some e.2 := by
  obtain ⟨es, hs⟩ := m
  simp only [get?] at he ⊢
  induction es with
  | nil => simp at he
  | cons a es ih =>
      obtain ⟨hhead, htail⟩ := pairwise_cons.mp hs
      rcases mem_cons.mp he with rfl | he
      · simp [Std.ReflCmp.compare_self]
      · have hlt : cmp a.1 e.1 = .lt := hhead e he
        simpa [find?_cons, hlt] using ih htail he

theorem nodup_keys (m : SortedMap α β cmp) : (m.entries.map Prod.fst).Nodup := by
  refine pairwise_map.mpr (m.sorted.imp fun {a b} hlt heq => ?_)
  have hself : cmp a.1 b.1 = .eq := heq ▸ Std.ReflCmp.compare_self
  rw [hself] at hlt
  cases hlt

theorem mem_entries_iff [Std.LawfulEqCmp cmp] (m : SortedMap α β cmp) {key : α} {value : β} :
    (key, value) ∈ m.entries ↔ m.get? key = some value := by
  constructor
  · intro h
    exact m.get?_of_mem h
  · intro h
    obtain ⟨e, he, hkey, rfl⟩ := m.exists_mem_of_get?_eq_some h
    rwa [← Std.LawfulEqCmp.eq_of_compare hkey]

theorem get?_retain [Std.LawfulEqCmp cmp] (m : SortedMap α β cmp) (p : α → β → Bool) (key : α) :
    (m.retain p).get? key = (m.get? key).filter (p key) := by
  refine Option.ext fun value => ?_
  rw [← mem_entries_iff, Option.filter_eq_some_iff, ← mem_entries_iff, retain, mem_filter]

theorem get?_mapValues [Std.LawfulEqCmp cmp] {γ : Type v} (m : SortedMap α β cmp)
    (f : α → β → γ) (key : α) : (m.mapValues f).get? key = (m.get? key).map (f key) := by
  refine Option.ext fun value => ?_
  rw [← mem_entries_iff, Option.map_eq_some_iff, mapValues, mem_map]
  constructor
  · rintro ⟨⟨key', value'⟩, hmem, heq⟩
    cases heq
    exact ⟨value', (mem_entries_iff m).mp hmem, rfl⟩
  · rintro ⟨value', hget, rfl⟩
    exact ⟨(key, value'), (mem_entries_iff m).mpr hget, rfl⟩

/-- Weigh the entries: an insertion adds the new weight and drops the replaced one. -/
theorem sum_insert (m : SortedMap α β cmp) (weight : β → ℕ) (key : α) (value : β) :
    ((m.insert key value).entries.map fun e => weight e.2).sum + ((m.get? key).map weight).getD 0 =
      (m.entries.map fun e => weight e.2).sum + weight value := by
  obtain ⟨es, hs⟩ := m
  simp only [get?, insert]
  induction es with
  | nil => simp [insertEntry]
  | cons e es ih =>
      have htail := (pairwise_cons.mp hs).2
      unfold insertEntry
      cases hcmp : cmp key e.1 with
      | lt =>
          have hnone : (es.find? fun x => cmp x.1 key == .eq) = none := by
            rw [find?_eq_none]
            intro x hx
            have hlt : cmp key x.1 = .lt :=
              Std.TransCmp.lt_trans hcmp ((pairwise_cons.mp hs).1 x hx)
            simp [Std.OrientedCmp.gt_of_lt hlt]
          have hgt : cmp e.1 key = .gt := Std.OrientedCmp.gt_of_lt hcmp
          simp [hgt, hnone, add_comm]
      | eq =>
          have heq : cmp e.1 key = .eq := Std.OrientedCmp.eq_symm hcmp
          simp [heq, add_comm, add_left_comm]
      | gt =>
          have hlt : cmp e.1 key = .lt := Std.OrientedCmp.lt_of_gt hcmp
          have := ih htail
          simp only [map_cons, sum_cons, find?_cons, hlt]
          simp only [show (Ordering.lt == Ordering.eq) = false from rfl]
          omega

theorem sum_erase (m : SortedMap α β cmp) (weight : β → ℕ) (key : α) :
    ((m.erase key).entries.map fun e => weight e.2).sum + ((m.get? key).map weight).getD 0 =
      (m.entries.map fun e => weight e.2).sum := by
  obtain ⟨es, hs⟩ := m
  simp only [get?, erase, eraseEntry]
  induction es with
  | nil => simp
  | cons e es ih =>
      obtain ⟨hhead, htail⟩ := pairwise_cons.mp hs
      by_cases heq : cmp e.1 key = .eq
      · have hkeep : es.filter (fun x => cmp x.1 key != .eq) = es := by
          rw [filter_eq_self]
          intro x hx
          have hlt : cmp key x.1 = .lt :=
            Std.TransCmp.lt_of_eq_of_lt (Std.OrientedCmp.eq_symm heq) (hhead x hx)
          simp [Std.OrientedCmp.gt_of_lt hlt]
        simp [heq, hkeep, add_comm]
      · have := ih htail
        have hne : (cmp e.1 key == .eq) = false := by simpa using heq
        simp only [filter_cons, bne, hne, Bool.not_false, if_true, map_cons,
          sum_cons, find?_cons]
        simp only [bne] at this
        omega

end Laws

theorem range_eq_some {m : SortedMap α β cmp} {low high : Bound α}
    (h : Bound.inverted cmp low high = false) :
    m.range low high =
      some (m.entries.filter fun e => low.admitsAbove cmp e.1 && high.admitsBelow cmp e.1) := by
  simp [range, h]

theorem range_eq_none {m : SortedMap α β cmp} {low high : Bound α} :
    m.range low high = none ↔ Bound.inverted cmp low high = true := by
  simp [range]

end SortedMap

/-- Lists in the same strict order with the same members are the same. -/
theorem eq_of_pairwise_of_mem_iff {α : Type u} {r : α → α → Prop} {l l' : List α}
    (hasymm : ∀ a b, r a b → ¬r b a) (hl : l.Pairwise r) (hl' : l'.Pairwise r)
    (hmem : ∀ a, a ∈ l ↔ a ∈ l') : l = l' := by
  have hne : ∀ {a b}, r a b → a ≠ b := by
    rintro a b hab rfl
    exact hasymm a a hab hab
  refine List.Perm.eq_of_pairwise ?_ hl hl' ?_
  · intro a b _ _ hab hba
    exact absurd hba (hasymm a b hab)
  · exact (perm_ext_iff_of_nodup (hl.imp hne) (hl'.imp hne)).mpr hmem

namespace SortedMap

variable {α : Type u} {β : Type v} {cmp : α → α → Ordering} [Std.TransCmp cmp]
  [Std.LawfulEqCmp cmp]

/-- Maps that answer every key alike are the same. -/
theorem ext_get? {m m' : SortedMap α β cmp} (h : ∀ key, m.get? key = m'.get? key) : m = m' := by
  have hasymm : ∀ a b : α × β, cmp a.1 b.1 = .lt → ¬cmp b.1 a.1 = .lt := by
    intro a b hab hba
    rw [Std.OrientedCmp.gt_iff_lt.mpr hab] at hba
    cases hba
  have hentries : m.entries = m'.entries := by
    refine eq_of_pairwise_of_mem_iff hasymm m.sorted m'.sorted fun e => ?_
    rw [show e = (e.1, e.2) from rfl, mem_entries_iff, mem_entries_iff, h]
  cases m
  cases m'
  cases hentries
  rfl

/-- Inserting what a key already has changes nothing. -/
theorem insert_self [DecidableEq α] {m : SortedMap α β cmp} {key : α} {value : β}
    (h : m.get? key = some value) : m.insert key value = m := by
  refine ext_get? fun probe => ?_
  rw [get?_insert_eq]
  split
  · rename_i heq
    rw [← heq, h]
  · rfl

omit [Std.LawfulEqCmp cmp] in
theorem length_erase_of_some {m : SortedMap α β cmp} {key : α} {value : β}
    (h : m.get? key = some value) : (m.erase key).entries.length + 1 = m.entries.length := by
  have hsum := m.sum_erase (fun _ => 1) key
  rw [h] at hsum
  simpa using hsum

omit [Std.LawfulEqCmp cmp] in
theorem length_insert_of_some {m : SortedMap α β cmp} {key : α} {value value' : β}
    (h : m.get? key = some value) : (m.insert key value').entries.length = m.entries.length := by
  have hsum := m.sum_insert (fun _ => 1) key value'
  rw [h] at hsum
  simpa using hsum

end SortedMap
