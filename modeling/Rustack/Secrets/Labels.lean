import Mathlib.Data.String.Basic
import Rustack.Lib.Evict
import Rustack.Secrets.Version

/-!
# Staging labels and the versions they name

What holds of a secret between calls, and what one change of its labels or versions keeps of
it.  The cache of labels is always right, since every change builds it again; the labels
`AWSCURRENT` and `AWSPREVIOUS` can meet on one version, and a label can leave a version bare
that then counts against the version limit.
-/

namespace Rustack.Secrets

open List SecretRecord

variable {m : Moment}

/-! ## What is kept of a secret -/

/-- How many versions have a label. -/
def labeledCount (versions : Versions) (labels : StagingLabels) : ℕ :=
  (versions.entries.map Prod.fst).countP (SecretRecord.labeled labels)

/-- Labels name versions that exist, versions carry their labels in order, `AWSPREVIOUS` is not
on the version of `AWSCURRENT`, and versions beyond the limit are all labeled. -/
structure Sound (versions : Versions) (labels : StagingLabels) : Prop where
  exists_version : ∀ label id, labels.get? label = some id → ∃ v, versions.get? id = some v
  stages : ∀ id v, versions.get? id = some v → v.versionStages.Pairwise (· < ·) ∧
    ∀ label, label ∈ v.versionStages ↔ labels.get? label = some id
  uncrossed : ∀ id, labels.get? AWSPREVIOUS = some id → labels.get? AWSCURRENT ≠ some id
  bounded : versions.entries.length ≤ max MAX_VERSIONS (labeledCount versions labels)

/-- What one call may do to a secret: `AWSCURRENT` stays attached, `AWSPREVIOUS` follows it, and
versions that are dropped are no younger than the unlabeled ones that stay.  A dropped version
has lost its labels to the call itself: each is on a version that the call adds, or is
`AWSPREVIOUS` on the holder of `AWSCURRENT`. -/
structure Follows (before after : SecretRecord) : Prop where
  current_stays : (before.stagingLabels.get? AWSCURRENT).isSome →
    (after.stagingLabels.get? AWSCURRENT).isSome
  previous_named : ∀ v w, before.stagingLabels.get? AWSCURRENT = some v →
    after.stagingLabels.get? AWSCURRENT = some w → v ≠ w →
    after.stagingLabels.get? AWSPREVIOUS = some v
  dropped_oldest : ∀ id v, before.versions.get? id = some v → after.versions.get? id = none →
    (∀ label, before.stagingLabels.get? label = some id → ∃ w, w ≠ id ∧
      after.stagingLabels.get? label = some w ∧ (before.versions.get? w = none ∨
        label = AWSPREVIOUS ∧ before.stagingLabels.get? AWSCURRENT = some w)) ∧
    ∀ id' v', after.versions.get? id' = some v' →
      (∀ label, after.stagingLabels.get? label ≠ some id') → v.createdDate ≤ v'.createdDate

/-- A record that is sound after a call and follows the one before. -/
def Kept (before after : SecretRecord) : Prop :=
  Sound after.versions after.stagingLabels ∧ Follows before after

/-- A change that leaves versions and labels alone. -/
theorem Follows.of_eq {r r' : SecretRecord} (hversions : r'.versions = r.versions)
    (hlabels : r'.stagingLabels = r.stagingLabels) : Follows r r' where
  current_stays := fun h => by rwa [hlabels]
  previous_named := fun v w hv hw hne => by
    rw [hlabels, hv] at hw
    exact absurd (Option.some.inj hw) hne
  dropped_oldest := fun id v hv hnone => by
    rw [hversions, hv] at hnone
    cases hnone

theorem kept_refl {r : SecretRecord} (h : Sound r.versions r.stagingLabels) : Kept r r :=
  ⟨h, Follows.of_eq rfl rfl⟩

/-! ## Labels of a version -/

theorem labeled_iff {labels : StagingLabels} {id : String} :
    labeled labels id = true ↔ ∃ label, labels.get? label = some id := by
  unfold labeled
  rw [any_eq_true]
  constructor
  · rintro ⟨⟨label, id'⟩, hmem, hid⟩
    obtain rfl : id' = id := eq_of_beq hid
    exact ⟨label, (SortedMap.mem_entries_iff labels).mp hmem⟩
  · rintro ⟨label, hget⟩
    exact ⟨(label, id), (SortedMap.mem_entries_iff labels).mpr hget, beq_self_eq_true id⟩

theorem mem_keys_iff {versions : Versions} {id : String} :
    id ∈ versions.entries.map Prod.fst ↔ ∃ v, versions.get? id = some v := by
  rw [mem_map]
  constructor
  · rintro ⟨⟨id', v⟩, hmem, rfl⟩
    exact ⟨v, (SortedMap.mem_entries_iff versions).mp hmem⟩
  · rintro ⟨v, hget⟩
    exact ⟨(id, v), (SortedMap.mem_entries_iff versions).mpr hget, rfl⟩

theorem mem_stagesOf {labels : StagingLabels} {id label : String} :
    label ∈ stagesOf m labels id ↔ labels.get? label = some id := by
  unfold stagesOf
  rw [mem_mergeSort, mem_filter, (m.order_perm _).mem_iff, beq_iff_eq, mem_map]
  refine ⟨fun h => h.2, fun h => ⟨⟨(label, id), ?_, rfl⟩, h⟩⟩
  exact (SortedMap.mem_entries_iff labels).mpr h

theorem stagesOf_sorted (labels : StagingLabels) (id : String) :
    (stagesOf m labels id).Pairwise (· < ·) := by
  have hle : (stagesOf m labels id).Pairwise fun a b => decide (a ≤ b) = true := by
    refine pairwise_mergeSort (fun a b c hab hbc => ?_) (fun a b => ?_) _
    · exact decide_eq_true (le_trans (of_decide_eq_true hab) (of_decide_eq_true hbc))
    · rcases le_total a b with h | h
      · simp [h]
      · simp [h]
  have hnodup : (stagesOf m labels id).Nodup := by
    refine (mergeSort_perm _ _).nodup_iff.mpr (List.Nodup.filter _ ?_)
    exact (m.order_perm _).nodup_iff.mpr (SortedMap.nodup_keys labels)
  refine (hle.and hnodup).imp fun {a b} h => ?_
  exact lt_of_le_of_ne (of_decide_eq_true h.1) h.2

/-- A sorted list of labels with one member. -/
theorem eq_singleton_iff {stages : List String} (hsorted : stages.Pairwise (· < ·))
    {label : String} : stages = [label] ↔ ∀ l, l ∈ stages ↔ l = label := by
  constructor
  · rintro rfl l
    exact mem_singleton
  · intro h
    refine eq_of_pairwise_of_mem_iff (fun a b hab => lt_asymm hab) hsorted
      (pairwise_singleton _ _) fun l => ?_
    rw [h, mem_singleton]

/-! ## The cache of labels -/

theorem get?_rebuild (r : SecretRecord) (id : String) :
    (r.rebuildVersionStages m).versions.get? id = (r.versions.get? id).map fun v =>
      { v with versionStages := stagesOf m r.stagingLabels id } :=
  SortedMap.get?_mapValues _ _ id

theorem keys_rebuild (r : SecretRecord) :
    (r.rebuildVersionStages m).versions.entries.map Prod.fst = r.versions.entries.map Prod.fst := by
  unfold rebuildVersionStages SortedMap.mapValues
  rw [map_map]
  rfl

theorem length_rebuild (r : SecretRecord) :
    (r.rebuildVersionStages m).versions.entries.length = r.versions.entries.length := by
  rw [← length_map Prod.fst, keys_rebuild, length_map]

theorem rebuild_labels (r : SecretRecord) :
    (r.rebuildVersionStages m).stagingLabels = r.stagingLabels := rfl

/-- More versions than the limit are kept only when all of them are labeled. -/
theorem bounded_iff {versions : Versions} {labels : StagingLabels} :
    versions.entries.length ≤ max MAX_VERSIONS (labeledCount versions labels) ↔
      versions.entries.length ≤ MAX_VERSIONS ∨
        ∀ id v, versions.get? id = some v → ∃ label, labels.get? label = some id := by
  have hlength : (versions.entries.map Prod.fst).length = versions.entries.length :=
    length_map _
  have hall : labeledCount versions labels = (versions.entries.map Prod.fst).length ↔
      ∀ id v, versions.get? id = some v → ∃ label, labels.get? label = some id := by
    unfold labeledCount
    rw [countP_eq_length]
    constructor
    · intro h id v hget
      exact labeled_iff.mp (h id (mem_keys_iff.mpr ⟨v, hget⟩))
    · intro h id hid
      obtain ⟨v, hget⟩ := mem_keys_iff.mp hid
      exact labeled_iff.mpr (h id v hget)
  have hle : labeledCount versions labels ≤ (versions.entries.map Prod.fst).length :=
    countP_le_length
  rw [← hall, le_max_iff]
  omega

/-- A record whose cache was just built is sound as far as its labels allow. -/
theorem sound_rebuild_iff {r : SecretRecord}
    (hexists : ∀ label id, r.stagingLabels.get? label = some id →
      ∃ v, r.versions.get? id = some v) :
    Sound (r.rebuildVersionStages m).versions (r.rebuildVersionStages m).stagingLabels ↔
      (∀ id, r.stagingLabels.get? AWSPREVIOUS = some id →
        r.stagingLabels.get? AWSCURRENT ≠ some id) ∧
      r.versions.entries.length ≤ max MAX_VERSIONS (labeledCount r.versions r.stagingLabels) := by
  have hcount : labeledCount (r.rebuildVersionStages m).versions r.stagingLabels =
      labeledCount r.versions r.stagingLabels := by
    unfold labeledCount
    rw [keys_rebuild]
  constructor
  · intro h
    have hbounded := h.bounded
    rw [rebuild_labels, length_rebuild, hcount] at hbounded
    exact ⟨h.uncrossed, hbounded⟩
  · rintro ⟨huncrossed, hbounded⟩
    refine ⟨fun label id hlabel => ?_, fun id v hget => ?_, huncrossed, ?_⟩
    · obtain ⟨v, hget⟩ := hexists label id hlabel
      exact ⟨_, by rw [get?_rebuild, hget, Option.map_some]⟩
    · rw [get?_rebuild, Option.map_eq_some_iff] at hget
      obtain ⟨v, -, rfl⟩ := hget
      exact ⟨stagesOf_sorted _ _, fun label => mem_stagesOf⟩
    · rw [rebuild_labels, length_rebuild, hcount]
      exact hbounded

end Rustack.Secrets
