import Mathlib.Data.List.AList

/-!
# Keeping part of a map

A map without the keys that fail a test, and what is found in it; the lookup
function of a map, which changes at one key; and the map of a partial function on
a list of keys.
-/

universe u v

namespace AList

open List

variable {α : Type u} {β : α → Type v}

/-- The entries whose keys pass a test. -/
def retain (p : α → Bool) (m : AList β) : AList β :=
  ⟨m.entries.filter fun e => p e.1, m.nodupKeys.sublist List.filter_sublist⟩

theorem mem_retain {p : α → Bool} {m : AList β} {a : α} : a ∈ m.retain p ↔ p a = true ∧ a ∈ m := by
  rw [mem_keys, mem_keys, keys, keys, List.mem_keys, List.mem_keys]
  simp only [retain, mem_filter]
  constructor
  · rintro ⟨b, hmem, hp⟩
    exact ⟨hp, b, hmem⟩
  · rintro ⟨hp, b, hmem⟩
    exact ⟨b, hmem, hp⟩

variable [DecidableEq α]

theorem lookup_retain (p : α → Bool) (m : AList β) (a : α) :
    (m.retain p).lookup a = if p a then m.lookup a else none := by
  by_cases hp : p a = true
  · rw [if_pos hp]
    refine Option.ext fun b => mem_lookup_iff.trans (Iff.trans ?_ mem_lookup_iff.symm)
    rw [retain, mem_filter, and_iff_left hp]
  · rw [if_neg hp, lookup_eq_none, mem_retain]
    exact fun h => hp h.1

/-- Nothing changes if no key fails the test. -/
theorem retain_eq_self_iff {p : α → Bool} {m : AList β} :
    m.retain p = m ↔ ∀ a, p a = false → m.lookup a = none := by
  constructor
  · intro h a hp
    have hlookup := lookup_retain p m a
    rw [h, if_neg (by rw [hp]; exact Bool.false_ne_true)] at hlookup
    exact hlookup
  · intro h
    refine AList.ext (filter_eq_self.mpr fun e he => ?_)
    by_contra hp
    have hnone := h e.1 (Bool.not_eq_true _ ▸ hp)
    rw [lookup_eq_none, mem_keys, keys] at hnone
    exact hnone (mem_keys_of_mem he)

theorem erase_eq_self_iff {m : AList β} {a : α} : m.erase a = m ↔ m.lookup a = none := by
  constructor
  · intro h
    rw [← h]
    exact lookup_erase a m
  · intro h
    rw [lookup_eq_none] at h
    exact AList.ext (kerase_of_notMem_keys h)

/-- An entry that is found comes first in some order of the entries. -/
theorem entries_perm_erase {m : AList β} {a : α} {b : β a} (h : m.lookup a = some b) :
    m.entries.Perm (⟨a, b⟩ :: (m.erase a).entries) := by
  have hmem : a ∈ m.entries.keys := (mem_keys).mp (lookup_isSome.mp (by rw [h]; rfl))
  obtain ⟨b', l₁, l₂, hnot, hentries, herase⟩ := exists_of_kerase hmem
  have hb : (⟨a, b'⟩ : Sigma β) ∈ m.entries := by
    rw [hentries]
    exact mem_append_right _ (.head _)
  obtain rfl : b' = b := Option.some.inj ((mem_lookup_iff.mpr hb).symm.trans h)
  change m.entries.Perm (_ :: m.entries.kerase a)
  rw [herase, hentries]
  exact perm_middle

section

variable {γ : Type v} {δ : Type*} (m : AList fun _ : α => γ) (f : γ → δ) (a : α)

theorem map_lookup_insert (b : γ) : (fun k => ((m.insert a b).lookup k).map f) =
    Function.update (fun k => (m.lookup k).map f) a (some (f b)) := by
  funext k
  rw [Function.update_apply]
  split
  · next heq => rw [heq, lookup_insert, Option.map_some]
  · next hne => rw [lookup_insert_ne hne]

theorem map_lookup_erase : (fun k => ((m.erase a).lookup k).map f) =
    Function.update (fun k => (m.lookup k).map f) a none := by
  funext k
  rw [Function.update_apply]
  split
  · next heq => rw [heq, lookup_erase, Option.map_none]
  · next hne => rw [lookup_erase_ne hne]

theorem lookup_insert_eq_update (b : γ) :
    (fun k => (m.insert a b).lookup k) = Function.update (fun k => m.lookup k) a (some b) := by
  have h := map_lookup_insert m id a b
  simpa only [Option.map_id, id] using h

theorem lookup_erase_eq_update :
    (fun k => (m.erase a).lookup k) = Function.update (fun k => m.lookup k) a none := by
  have h := map_lookup_erase m id a
  simpa only [Option.map_id, id] using h

end

section

variable {γ : Type v}

/-- The entries that pass a test of key and value. -/
def retainEntries (p : α → γ → Bool) (m : AList fun _ : α => γ) : AList fun _ : α => γ :=
  ⟨m.entries.filter fun e => p e.1 e.2, m.nodupKeys.sublist List.filter_sublist⟩

theorem lookup_retainEntries (p : α → γ → Bool) (m : AList fun _ : α => γ) (a : α) :
    (m.retainEntries p).lookup a = (m.lookup a).filter (p a) := by
  refine Option.ext fun b => ?_
  rw [Option.filter_eq_some_iff]
  refine mem_lookup_iff.trans ?_
  rw [retainEntries, mem_filter]
  exact and_congr_left' mem_lookup_iff.symm

/-! What holds of every value. -/

theorem forall_lookup_insert {P : γ → Prop} {m : AList fun _ : α => γ}
    (h : ∀ a c, m.lookup a = some c → P c) (a : α) {c : γ} (hc : P c) :
    ∀ b d, (m.insert a c).lookup b = some d → P d := by
  intro b d hlookup
  by_cases heq : b = a
  · rw [heq, lookup_insert] at hlookup
    cases hlookup
    exact hc
  · rw [lookup_insert_ne heq] at hlookup
    exact h b d hlookup

theorem forall_lookup_erase {P : γ → Prop} {m : AList fun _ : α => γ}
    (h : ∀ a c, m.lookup a = some c → P c) (a : α) :
    ∀ b d, (m.erase a).lookup b = some d → P d := by
  intro b d hlookup
  by_cases heq : b = a
  · rw [heq, lookup_erase] at hlookup
    cases hlookup
  · rw [lookup_erase_ne heq] at hlookup
    exact h b d hlookup

/-- The keys of a list with their values, where there is one. -/
def ofNames (names : List α) (f : α → Option γ) : AList fun _ : α => γ :=
  (names.filterMap fun a => (f a).map (Sigma.mk a)).toAList

theorem lookup_ofNames (names : List α) (f : α → Option γ) (a : α) :
    (ofNames names f).lookup a = if a ∈ names then f a else none := by
  rw [ofNames, lookup_to_alist]
  induction names with
  | nil => rfl
  | cons b names ih =>
      cases hb : f b with
      | none =>
          rw [filterMap_cons_none (by rw [hb, Option.map_none]), ih]
          by_cases hab : a = b
          · simp [hab, hb]
          · simp [hab]
      | some c =>
          rw [filterMap_cons_some (by rw [hb, Option.map_some])]
          by_cases hab : a = b
          · rw [hab, dlookup_cons_eq, if_pos mem_cons_self, hb]
          · rw [dlookup_cons_ne _ _ hab, ih]
            simp [hab]

end

end AList
