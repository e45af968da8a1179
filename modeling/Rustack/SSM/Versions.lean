import Rustack.Lib.Outcome
import Rustack.SSM.Storage

/-!
# Versions and labels of a parameter

What holds of a parameter between calls: its versions are numbered up to the current one and
within the limit, a label is on one version, and a version has few labels.  Overwriting,
labeling and unlabeling keep it.
-/

namespace Rustack.SSM

open List SortedMap Finset

namespace ParameterRecord

variable {raises : Prop} {r r' : ParameterRecord}

structure Sound (r : ParameterRecord) : Prop where
  bounded : r.versions.entries.length ≤ MAX_VERSIONS
  current : ∃ v, r.versions.get? r.currentVersion = some v
  numbered : ∀ k v, r.versions.get? k = some v → v.version = k ∧ k ≤ r.currentVersion
  one_version : ∀ label k k' v v', r.versions.get? k = some v → r.versions.get? k' = some v' →
    label ∈ v.labels → label ∈ v'.labels → k = k'
  quota : ∀ k v, r.versions.get? k = some v → v.labels.card ≤ MAX_LABELS_PER_VERSION

/-- What one call may do to a parameter, where `raises` says that it puts the parameter: only
such a call adds a version, one, under the next number; only the oldest version is ever dropped,
for a new one at the limit, and only without labels. -/
structure Follows (raises : Prop) (r r' : ParameterRecord) : Prop where
  counted : r'.currentVersion = r.currentVersion ∨
    raises ∧ r'.currentVersion = r.currentVersion + 1
  fresh : ∀ k v', r'.versions.get? k = some v' → (∃ v, r.versions.get? k = some v) ∨
    k = r'.currentVersion ∧ r'.currentVersion = r.currentVersion + 1
  dropped : ∀ k v, r.versions.get? k = some v → r'.versions.get? k = none →
    r'.currentVersion = r.currentVersion + 1 ∧ MAX_VERSIONS ≤ r.versions.entries.length ∧
      v.labels = ∅ ∧ ∀ k' v', r.versions.get? k' = some v' → k ≤ k'

/-- A change that keeps the numbers of the versions. -/
theorem Follows.of_same (hcurrent : r'.currentVersion = r.currentVersion)
    (hkeys : ∀ k, (r'.versions.get? k).isSome = (r.versions.get? k).isSome) :
    Follows raises r r' where
  counted := Or.inl hcurrent
  fresh := fun k v' hv' => by
    refine Or.inl (Option.isSome_iff_exists.mp ?_)
    rw [← hkeys, hv']
    rfl
  dropped := fun k v hv hnone => by
    have hkey := hkeys k
    rw [hv, hnone] at hkey
    cases hkey

theorem Follows.refl (r : ParameterRecord) : Follows raises r r :=
  .of_same rfl fun _ => rfl

/-! ## Selectors -/

/-- The versions that a selector asks for. -/
def Selects : ParameterSelector → ParameterVersion → Prop
  | .version number, v => v.version = number
  | .label label, v => label ∈ v.labels

/-- A version that a selector asks for is the one that it resolves to. -/
def Resolves (r : ParameterRecord) : Prop :=
  ∀ selector k v, r.versions.get? k = some v → Selects selector v →
    r.resolveVersion (some selector) = .ok v

theorem Sound.resolves (h : Sound r) : Resolves r := by
  intro selector k v hget hselects
  unfold resolveVersion
  cases selector with
  | version number =>
      obtain rfl : v.version = number := hselects
      dsimp only
      rw [(h.numbered k v hget).1, hget]
  | label label =>
      have hlabel : label ∈ v.labels := hselects
      have hmem : v ∈ r.versions.entries.map Prod.snd :=
        mem_map.mpr ⟨(k, v), (mem_entries_iff _).mpr hget, rfl⟩
      cases hfind : (r.versions.entries.map Prod.snd).find? fun v => label ∈ v.labels with
      | none =>
          have hnot := find?_eq_none.mp hfind v hmem
          exact absurd (decide_eq_true hlabel) hnot
      | some v' =>
          obtain ⟨⟨k', v''⟩, hmem', rfl⟩ := mem_map.mp (mem_of_find?_eq_some hfind)
          have hget' := (mem_entries_iff _).mp hmem'
          have hlabel' := find?_some hfind
          obtain rfl := h.one_version label k k' v v'' hget hget' hlabel (of_decide_eq_true hlabel')
          rw [hget] at hget'
          dsimp only
          rw [hfind]
          exact congrArg Except.ok (Option.some.inj hget'.symm)

/-! ## Overwriting -/

/-- The oldest version has no labels. -/
def OldestUnlabeled (r : ParameterRecord) : Prop :=
  ∃ e, r.versions.entries.head? = some e ∧ e.2.labels = ∅

/-- Some version has no labels. -/
def SomeUnlabeled (r : ParameterRecord) : Prop :=
  ∃ k v, r.versions.get? k = some v ∧ v.labels = ∅

theorem OldestUnlabeled.someUnlabeled (h : OldestUnlabeled r) : SomeUnlabeled r := by
  obtain ⟨e, hhead, hlabels⟩ := h
  exact ⟨e.1, e.2, (mem_entries_iff _).mp (mem_of_mem_head? hhead), hlabels⟩

theorem oldestUnlabeled_eq_none : r.oldestUnlabeled = none ↔ ¬SomeUnlabeled r := by
  unfold oldestUnlabeled SomeUnlabeled
  rw [Option.map_eq_none_iff, find?_eq_none]
  constructor
  · rintro hnone ⟨k, v, hget, hlabels⟩
    exact hnone (k, v) ((mem_entries_iff _).mpr hget) (decide_eq_true hlabels)
  · rintro hnot ⟨k, v⟩ hmem hlabels
    exact hnot ⟨k, v, (mem_entries_iff _).mp hmem, of_decide_eq_true hlabels⟩

theorem oldestUnlabeled_eq_some {k : ℕ} (h : r.oldestUnlabeled = some k) :
    ∃ v, r.versions.get? k = some v ∧ v.labels = ∅ := by
  obtain ⟨⟨k', v⟩, hfind, rfl⟩ := Option.map_eq_some_iff.mp h
  have hlabels := find?_some hfind
  exact ⟨v, (mem_entries_iff _).mp (mem_of_find?_eq_some hfind),
    of_decide_eq_true hlabels⟩

/-- When the oldest version has no labels, it is the one that makes room. -/
theorem OldestUnlabeled.least (h : OldestUnlabeled r) {k : ℕ} (hk : r.oldestUnlabeled = some k)
    {k' : ℕ} {v' : ParameterVersion} (hget : r.versions.get? k' = some v') : k ≤ k' := by
  obtain ⟨e, hhead, hlabels⟩ := h
  have hmem := (mem_entries_iff _).mpr hget
  have hsorted := r.versions.sorted
  unfold oldestUnlabeled at hk
  cases hentries : r.versions.entries with
  | nil =>
      rw [hentries] at hhead
      cases hhead
  | cons first rest =>
      rw [hentries] at hhead hk hmem hsorted
      obtain rfl := Option.some.inj hhead
      rw [find?_cons, decide_eq_true hlabels] at hk
      obtain rfl : first.1 = k := Option.some.inj hk
      rcases mem_cons.mp hmem with heq | hrest
      · exact Nat.le_of_eq (congrArg Prod.fst heq).symm
      · have hlt := (pairwise_cons.mp hsorted).1 _ hrest
        exact Nat.le_of_lt (Nat.compare_eq_lt.mp hlt)

theorem makeRoom_eq_none : r.makeRoom = none ↔
    MAX_VERSIONS ≤ r.versions.entries.length ∧ ¬SomeUnlabeled r := by
  unfold makeRoom
  split
  · rename_i hfull
    rw [Option.map_eq_none_iff, oldestUnlabeled_eq_none, and_iff_right hfull]
  · rename_i hroom
    exact iff_of_false (Option.some_ne_none _) fun h => hroom h.1

/-- Making room drops nothing, or at the limit an unlabeled version. -/
theorem makeRoom_cases {versions : Versions} (h : r.makeRoom = some versions) :
    r.versions.entries.length < MAX_VERSIONS ∧ versions = r.versions ∨
      MAX_VERSIONS ≤ r.versions.entries.length ∧
        ∃ k, r.oldestUnlabeled = some k ∧ versions = r.versions.erase k := by
  unfold makeRoom at h
  split at h
  · rename_i hfull
    obtain ⟨k, hk, rfl⟩ := Option.map_eq_some_iff.mp h
    exact Or.inr ⟨hfull, k, hk, rfl⟩
  · rename_i hroom
    exact Or.inl ⟨Nat.lt_of_not_le hroom, (Option.some.inj h).symm⟩

theorem makeRoom_get? {versions : Versions} (h : r.makeRoom = some versions) {k : ℕ}
    {v : ParameterVersion} (hget : versions.get? k = some v) : r.versions.get? k = some v := by
  rcases makeRoom_cases h with ⟨-, rfl⟩ | ⟨-, dropped, -, rfl⟩
  · exact hget
  · rw [get?_erase_eq] at hget
    split at hget
    · cases hget
    · exact hget

theorem makeRoom_length {versions : Versions} (h : r.makeRoom = some versions)
    (hbounded : r.versions.entries.length ≤ MAX_VERSIONS) :
    versions.entries.length < MAX_VERSIONS := by
  rcases makeRoom_cases h with ⟨hroom, rfl⟩ | ⟨-, k, hk, rfl⟩
  · exact hroom
  · obtain ⟨v, hget, -⟩ := oldestUnlabeled_eq_some hk
    have hlength := length_erase_of_some hget
    omega

section Overwrite

variable {put : NewParameter} {accountId : String} {now : ℤ}

/-- An overwrite that is made: room was made, and the new version goes in under the next
number. -/
theorem overwrite_ok (h : r.overwrite put accountId now = .ok r') :
    put.overwrite = true ∧ r.parameterType = put.parameterType ∧
      ∃ versions, r.makeRoom = some versions ∧ r' = { r with
        currentVersion := r.currentVersion + 1
        keyId := put.keyId.or r.keyId
        versions := versions.insert (r.currentVersion + 1)
          (put.snapshot accountId now (r.currentVersion + 1)) } := by
  unfold overwrite at h
  split at h
  · cases h
  · rename_i hoverwrite
    split at h
    · cases h
    · rename_i htype
      split at h
      · cases h
      · rename_i versions hroom
        cases h
        exact ⟨Bool.not_eq_false _ ▸ hoverwrite, not_not.mp htype, versions, hroom, rfl⟩

theorem overwrite_isOk_iff (hoverwrite : put.overwrite = true)
    (htype : r.parameterType = put.parameterType) :
    (∃ r', r.overwrite put accountId now = .ok r') ↔
      r.versions.entries.length < MAX_VERSIONS ∨ SomeUnlabeled r := by
  unfold overwrite
  rw [hoverwrite, if_neg Bool.true_eq_false.mp, if_neg (not_not.mpr htype)]
  cases hroom : r.makeRoom with
  | none =>
      obtain ⟨hfull, hall⟩ := makeRoom_eq_none.mp hroom
      refine iff_of_false ?_ ?_
      · rintro ⟨r', hr'⟩
        cases hr'
      · rintro (hlt | hsome)
        · exact absurd hfull (Nat.not_le_of_lt hlt)
        · exact hall hsome
  | some versions =>
      refine iff_of_true ⟨_, rfl⟩ ?_
      by_contra hnot
      obtain ⟨hfull, hall⟩ := not_or.mp hnot
      rw [makeRoom_eq_none.mpr ⟨Nat.le_of_not_lt hfull, hall⟩] at hroom
      cases hroom

theorem Sound.overwrite (h : Sound r) (hok : r.overwrite put accountId now = .ok r') :
    Sound r' := by
  obtain ⟨-, -, versions, hroom, rfl⟩ := overwrite_ok hok
  have hold := fun k v (hget : versions.get? k = some v) => makeRoom_get? hroom hget
  have hcases : ∀ k v, (versions.insert (r.currentVersion + 1)
      (put.snapshot accountId now (r.currentVersion + 1))).get? k = some v →
        k = r.currentVersion + 1 ∧ v.labels = ∅ ∧ v.version = k ∨ r.versions.get? k = some v := by
    intro k v hget
    rw [get?_insert_eq] at hget
    split at hget
    · rename_i hkey
      cases hget
      exact Or.inl ⟨hkey.symm, rfl, hkey⟩
    · exact Or.inr (hold k v hget)
  constructor
  · have hlength := makeRoom_length hroom h.bounded
    exact Nat.le_trans (length_insertEntry_le _ _ _) hlength
  · exact ⟨_, by rw [get?_insert_eq, if_pos rfl]⟩
  · intro k v hget
    rcases hcases k v hget with ⟨rfl, -, hversion⟩ | hget
    · exact ⟨hversion, Nat.le_refl _⟩
    · exact ⟨(h.numbered k v hget).1, Nat.le_succ_of_le (h.numbered k v hget).2⟩
  · intro label k k' v v' hget hget' hlabel hlabel'
    rcases hcases k v hget with ⟨-, hnone, -⟩ | hget
    · rw [hnone] at hlabel
      exact absurd hlabel (notMem_empty _)
    · rcases hcases k' v' hget' with ⟨-, hnone, -⟩ | hget'
      · rw [hnone] at hlabel'
        exact absurd hlabel' (notMem_empty _)
      · exact h.one_version label k k' v v' hget hget' hlabel hlabel'
  · intro k v hget
    rcases hcases k v hget with ⟨-, hnone, -⟩ | hget
    · rw [hnone, card_empty]
      exact Nat.zero_le _
    · exact h.quota k v hget

theorem Follows.overwrite (hraises : raises) (hok : r.overwrite put accountId now = .ok r')
    (holdest : r.versions.entries.length < MAX_VERSIONS ∨ OldestUnlabeled r) :
    Follows raises r r' := by
  obtain ⟨-, -, versions, hroom, rfl⟩ := overwrite_ok hok
  refine ⟨Or.inr ⟨hraises, rfl⟩, fun k v' hget => ?_, fun k v hv hnone => ⟨rfl, ?_⟩⟩
  · rw [get?_insert_eq] at hget
    split at hget
    · rename_i hkey
      exact Or.inr ⟨hkey.symm, rfl⟩
    · exact Or.inl ⟨v', makeRoom_get? hroom hget⟩
  · rw [get?_insert_eq] at hnone
    split at hnone
    · cases hnone
    · rcases makeRoom_cases hroom with ⟨-, rfl⟩ | ⟨hfull, dropped, hdropped, rfl⟩
      · rw [hv] at hnone
        cases hnone
      · rw [get?_erase_eq] at hnone
        split at hnone
        · rename_i hkey
          subst hkey
          obtain ⟨v', hget, hlabels⟩ := oldestUnlabeled_eq_some hdropped
          rw [hv] at hget
          cases hget
          have hleast := holdest.resolve_left (Nat.not_lt_of_le hfull)
          exact ⟨hfull, hlabels, fun k' v' hget' => hleast.least hdropped hget'⟩
        · rw [hv] at hnone
          cases hnone

end Overwrite

/-! ## Labels -/

/-- Versions that keep their numbers and have no more labels than before. -/
theorem Sound.relabel (h : Sound r) {versions : Versions}
    (hkeys : ∀ k, (versions.get? k).isSome = (r.versions.get? k).isSome)
    (hlength : versions.entries.length = r.versions.entries.length)
    (hnumbers : ∀ k v, versions.get? k = some v → v.version = k)
    (hone : ∀ label k k' v v', versions.get? k = some v → versions.get? k' = some v' →
      label ∈ v.labels → label ∈ v'.labels → k = k')
    (hquota : ∀ k v, versions.get? k = some v → v.labels.card ≤ MAX_LABELS_PER_VERSION) :
    Sound { r with versions := versions } where
  bounded := Nat.le_trans (Nat.le_of_eq hlength) h.bounded
  current := by
    obtain ⟨v, hv⟩ := h.current
    refine Option.isSome_iff_exists.mp ?_
    rw [hkeys, hv]
    rfl
  numbered := fun k v hget => by
    refine ⟨hnumbers k v hget, ?_⟩
    have hkey := hkeys k
    rw [hget] at hkey
    obtain ⟨v', hget'⟩ := Option.isSome_iff_exists.mp hkey.symm
    exact (h.numbered k v' hget').2
  one_version := hone
  quota := hquota

/-- A version that is written back over itself. -/
theorem get?_insert_isSome {versions : Versions} {k : ℕ} {v : ParameterVersion}
    (hget : versions.get? k = some v) (v' : ParameterVersion) (k' : ℕ) :
    ((versions.insert k v').get? k').isSome = (versions.get? k').isSome := by
  rw [get?_insert_eq]
  split
  · rename_i heq
    rw [← heq, hget]
    rfl
  · rfl

theorem get?_detachLabels (versions : Versions) (target : ℕ) (labels : List String) (k : ℕ) :
    (detachLabels versions target labels).get? k = (versions.get? k).map fun v =>
      if v.version ≠ target then { v with labels := v.labels \ labels.toFinset } else v :=
  get?_mapValues _ _ k

theorem length_detachLabels (versions : Versions) (target : ℕ) (labels : List String) :
    (detachLabels versions target labels).entries.length = versions.entries.length :=
  length_map _

/-- Labels that are new, counted with repeats, bound what the version ends up with. -/
theorem card_union_le (held : Finset String) (labels : List String) :
    (held ∪ labels.toFinset).card ≤ held.card + labels.countP fun l => decide (l ∉ held) := by
  have hsplit : held ∪ labels.toFinset =
      held ∪ (labels.filter fun l => decide (l ∉ held)).toFinset := by
    ext l
    simp only [mem_union, mem_toFinset, mem_filter, decide_eq_true_eq]
    by_cases hl : l ∈ held
    · simp [hl]
    · simp [hl]
  rw [hsplit, countP_eq_length_filter]
  refine (Finset.card_union_le _ _).trans (Nat.add_le_add_left ?_ _)
  exact toFinset_card_le _

section Label

variable {name : String} {version : Option ℕ} {labels : List String}

/-- The versions after a request: the target with the valid labels, the others without. -/
def labeledVersions (r : ParameterRecord) (target : ℕ) (v : ParameterVersion)
    (labels : List String) : Versions :=
  (detachLabels r.versions target (labels.filter isValidLabel)).insert target
    { v with labels := v.labels ∪ (labels.filter isValidLabel).toFinset }

theorem labelVersion_none (h : r.versions.get? (version.getD r.currentVersion) = none) :
    r.labelVersion name version labels =
      .error (versionNotFound name (version.getD r.currentVersion)) := by
  unfold labelVersion
  dsimp only
  rw [h]

theorem labelVersion_over {v : ParameterVersion}
    (hget : r.versions.get? (version.getD r.currentVersion) = some v)
    (hover : MAX_LABELS_PER_VERSION < v.labels.card + newLabelCount v.labels labels) :
    r.labelVersion name version labels = .error labelLimitExceeded := by
  unfold labelVersion
  dsimp only
  rw [hget]
  exact if_pos hover

theorem labelVersion_within (h : Sound r) {v : ParameterVersion}
    (hget : r.versions.get? (version.getD r.currentVersion) = some v)
    (hwithin : v.labels.card + newLabelCount v.labels labels ≤ MAX_LABELS_PER_VERSION) :
    r.labelVersion name version labels = .ok ({ r with
      versions := labeledVersions r (version.getD r.currentVersion) v labels },
      labels.filter fun label => !isValidLabel label, version.getD r.currentVersion) := by
  unfold labelVersion
  dsimp only
  rw [hget]
  dsimp only
  rw [if_neg (Nat.not_lt_of_le hwithin), get?_detachLabels, hget, Option.map_some,
    if_neg (not_not.mpr (h.numbered _ v hget).1)]
  rfl

/-- What a version has become: the target has the labels, other versions have lost them. -/
theorem labeledVersions_cases (h : Sound r) {target : ℕ} {v : ParameterVersion}
    (hget : r.versions.get? target = some v) (labels : List String) (k : ℕ)
    (v' : ParameterVersion) (hv' : (labeledVersions r target v labels).get? k = some v') :
    ∃ old, r.versions.get? k = some old ∧ v'.version = old.version ∧
      (k = target ∧ v'.labels = old.labels ∪ (labels.filter isValidLabel).toFinset ∨
        k ≠ target ∧ v'.labels = old.labels \ (labels.filter isValidLabel).toFinset) := by
  unfold labeledVersions at hv'
  rw [get?_insert_eq] at hv'
  split at hv'
  · rename_i hk
    subst hk
    cases hv'
    exact ⟨v, hget, rfl, Or.inl ⟨rfl, rfl⟩⟩
  · rename_i hk
    rw [get?_detachLabels] at hv'
    obtain ⟨old, hold, rfl⟩ := Option.map_eq_some_iff.mp hv'
    have hversion : old.version ≠ target := by
      rw [(h.numbered k old hold).1]
      exact Ne.symm hk
    rw [if_pos hversion]
    exact ⟨old, hold, rfl, Or.inr ⟨Ne.symm hk, rfl⟩⟩

theorem labeledVersions_isSome {target : ℕ} {v : ParameterVersion}
    (hget : r.versions.get? target = some v) (k : ℕ) :
    ((labeledVersions r target v labels).get? k).isSome = (r.versions.get? k).isSome := by
  unfold labeledVersions
  rw [get?_insert_eq]
  split
  · rename_i hk
    rw [← hk, hget]
    rfl
  · rw [get?_detachLabels, Option.isSome_map]

theorem length_labeledVersions {target : ℕ} {v : ParameterVersion}
    (hget : r.versions.get? target = some v) :
    (labeledVersions r target v labels).entries.length = r.versions.entries.length := by
  obtain ⟨old, htarget⟩ : ∃ old,
      (detachLabels r.versions target (labels.filter isValidLabel)).get? target = some old :=
    ⟨_, by rw [get?_detachLabels, hget, Option.map_some]⟩
  unfold labeledVersions
  rw [length_insert_of_some htarget, length_detachLabels]

theorem Sound.labeled (h : Sound r) {target : ℕ} {v : ParameterVersion}
    (hget : r.versions.get? target = some v)
    (hwithin : v.labels.card + newLabelCount v.labels labels ≤ MAX_LABELS_PER_VERSION) :
    Sound { r with versions := labeledVersions r target v labels } := by
  have hcases := fun k v' => labeledVersions_cases h hget labels k v'
  refine h.relabel (labeledVersions_isSome hget) (length_labeledVersions hget) ?_ ?_ ?_
  · intro k v' hv'
    obtain ⟨old, hold, hversion, -⟩ := hcases k v' hv'
    rw [hversion]
    exact (h.numbered k old hold).1
  · intro label k k' v₁ v₂ h₁ h₂ hlabel hlabel'
    obtain ⟨old₁, hold₁, -, hlabels₁⟩ := hcases k v₁ h₁
    obtain ⟨old₂, hold₂, -, hlabels₂⟩ := hcases k' v₂ h₂
    rcases hlabels₁ with ⟨rfl, hlabels₁⟩ | ⟨hk, hlabels₁⟩
    · rcases hlabels₂ with ⟨rfl, -⟩ | ⟨hk', hlabels₂⟩
      · rfl
      · rw [hlabels₂] at hlabel'
        obtain ⟨hin, hout⟩ := mem_sdiff.mp hlabel'
        rw [hlabels₁] at hlabel
        have hin' := (mem_union.mp hlabel).resolve_right hout
        exact h.one_version label k k' old₁ old₂ hold₁ hold₂ hin' hin
    · rw [hlabels₁] at hlabel
      obtain ⟨hin, hout⟩ := mem_sdiff.mp hlabel
      rcases hlabels₂ with ⟨rfl, hlabels₂⟩ | ⟨-, hlabels₂⟩
      · rw [hlabels₂] at hlabel'
        have hin' := (mem_union.mp hlabel').resolve_right hout
        exact h.one_version label k k' old₁ old₂ hold₁ hold₂ hin hin'
      · rw [hlabels₂] at hlabel'
        exact h.one_version label k k' old₁ old₂ hold₁ hold₂ hin (mem_sdiff.mp hlabel').1
  · intro k v' hv'
    obtain ⟨old, hold, -, hlabels⟩ := hcases k v' hv'
    rcases hlabels with ⟨rfl, hlabels⟩ | ⟨-, hlabels⟩
    · rw [hget] at hold
      cases hold
      rw [hlabels]
      exact (card_union_le _ _).trans hwithin
    · rw [hlabels]
      exact (card_le_card sdiff_subset).trans (h.quota k old hold)

end Label

/-! ## Taking labels off -/

theorem removeLabels_subset (held : Finset String) (labels : List String) :
    (removeLabels held labels).1 ⊆ held := by
  induction labels generalizing held with
  | nil => exact Finset.Subset.refl _
  | cons label labels ih =>
      have hrest : (removeLabels held (label :: labels)).1 =
          (removeLabels (held.erase label) labels).1 := by
        rw [removeLabels]
        dsimp only
        split <;> rfl
      rw [hrest]
      exact (ih _).trans (erase_subset _ _)

/-- A version whose labels are fewer now. -/
theorem Sound.fewer (h : Sound r) {k : ℕ} {v : ParameterVersion}
    (hget : r.versions.get? k = some v) {rest : Finset String} (hrest : rest ⊆ v.labels) :
    Sound { r with versions := r.versions.insert k { v with labels := rest } } ∧
      Follows raises r { r with versions := r.versions.insert k { v with labels := rest } } := by
  have hkeys := get?_insert_isSome hget { v with labels := rest }
  have hcases : ∀ k' v', (r.versions.insert k { v with labels := rest }).get? k' = some v' →
      ∃ old, r.versions.get? k' = some old ∧ v'.version = old.version ∧
        v'.labels ⊆ old.labels := by
    intro k' v' hv'
    rw [get?_insert_eq] at hv'
    split at hv'
    · rename_i hk
      subst hk
      cases hv'
      exact ⟨v, hget, rfl, hrest⟩
    · exact ⟨v', hv', rfl, Finset.Subset.refl _⟩
  refine ⟨h.relabel hkeys (length_insert_of_some hget) ?_ ?_ ?_, .of_same rfl hkeys⟩
  · intro k' v' hv'
    obtain ⟨old, hold, hversion, -⟩ := hcases k' v' hv'
    rw [hversion]
    exact (h.numbered k' old hold).1
  · intro label k₁ k₂ v₁ v₂ h₁ h₂ hlabel hlabel'
    obtain ⟨old₁, hold₁, -, hsub₁⟩ := hcases k₁ v₁ h₁
    obtain ⟨old₂, hold₂, -, hsub₂⟩ := hcases k₂ v₂ h₂
    exact h.one_version label k₁ k₂ old₁ old₂ hold₁ hold₂ (hsub₁ hlabel) (hsub₂ hlabel')
  · intro k' v' hv'
    obtain ⟨old, hold, -, hsub⟩ := hcases k' v' hv'
    exact (card_le_card hsub).trans (h.quota k' old hold)

end ParameterRecord

end Rustack.SSM
