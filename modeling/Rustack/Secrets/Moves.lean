import Rustack.Secrets.Labels

/-!
# Adding versions and moving labels

What a new version does to a record, and what moving or removing a label does.  Each result
says when the record is sound afterwards.
-/

namespace Rustack.Secrets

open SecretRecord

variable {m : Moment}

/-! ## Labels after a promotion -/

theorem AWSPREVIOUS_ne_AWSCURRENT : AWSPREVIOUS ≠ AWSCURRENT := by decide

theorem get?_demoteCurrent (labels : StagingLabels) (label : String) :
    (demoteCurrent labels).get? label =
      if label = AWSPREVIOUS then (labels.get? AWSCURRENT).or (labels.get? AWSPREVIOUS)
      else labels.get? label := by
  unfold demoteCurrent
  cases hcurrent : labels.get? AWSCURRENT with
  | none =>
      by_cases hlabel : label = AWSPREVIOUS
      · rw [if_pos hlabel, hlabel, Option.none_or]
      · rw [if_neg hlabel]
  | some id =>
      dsimp only
      rw [SortedMap.get?_insert_eq]
      by_cases hlabel : label = AWSPREVIOUS
      · rw [if_pos hlabel.symm, if_pos hlabel, Option.some_or]
      · rw [if_neg (Ne.symm hlabel), if_neg hlabel]

theorem get?_foldl_insert (stages : List String) (labels : StagingLabels) (id label : String) :
    (stages.foldl (fun labels stage => labels.insert stage id) labels).get? label =
      if label ∈ stages then some id else labels.get? label := by
  induction stages generalizing labels with
  | nil => rfl
  | cons stage stages ih =>
      rw [List.foldl_cons, ih, SortedMap.get?_insert_eq]
      by_cases hlabel : stage = label
      · simp [hlabel]
      · simp [hlabel, Ne.symm hlabel]

theorem get?_promote (labels : StagingLabels) (stages : List String) (id label : String) :
    (promote labels stages id).get? label =
      if label ∈ stages then some id
      else if label = AWSPREVIOUS ∧ AWSCURRENT ∈ stages then
        (labels.get? AWSCURRENT).or (labels.get? AWSPREVIOUS)
      else labels.get? label := by
  unfold promote
  rw [get?_foldl_insert]
  by_cases hcurrent : AWSCURRENT ∈ stages
  · simp only [hcurrent, if_true, and_true, get?_demoteCurrent]
  · simp only [hcurrent, if_false, and_false]

/-- A label is on the new version or on a version that was labeled before. -/
theorem promote_cases {labels : StagingLabels} {stages : List String} {id label holder : String}
    (h : (promote labels stages id).get? label = some holder) :
    holder = id ∨ ∃ label', labels.get? label' = some holder := by
  rw [get?_promote] at h
  split at h
  · exact Or.inl (Option.some.inj h).symm
  · split at h
    · rcases Option.or_eq_some_iff.mp h with hcurrent | ⟨-, hprevious⟩
      · exact Or.inr ⟨AWSCURRENT, hcurrent⟩
      · exact Or.inr ⟨AWSPREVIOUS, hprevious⟩
    · exact Or.inr ⟨label, h⟩

/-- A label stays where it is, or is on the new version, or is `AWSPREVIOUS` on the version that
was `AWSCURRENT`. -/
theorem stays_or_moved {labels : StagingLabels} {label holder : String} (stages : List String)
    (id : String) (h : labels.get? label = some holder) :
    (promote labels stages id).get? label = some holder ∨
      ∃ w, (promote labels stages id).get? label = some w ∧
        (w = id ∨ label = AWSPREVIOUS ∧ labels.get? AWSCURRENT = some w) := by
  rw [get?_promote]
  split
  · exact Or.inr ⟨id, rfl, Or.inl rfl⟩
  · split
    · rename_i hprevious
      cases hcurrent : labels.get? AWSCURRENT with
      | none => exact Or.inl (by rw [Option.none_or, ← hprevious.1, h])
      | some w => exact Or.inr ⟨w, rfl, Or.inr ⟨hprevious.1, rfl⟩⟩
    · exact Or.inl h

/-! ## The version limit -/

/-- The versions that a record drops to get within the limit. -/
def dropped (r : SecretRecord) (m : Moment) : List String :=
  Evict.victims (SecretRecord.created r.versions) (SecretRecord.labeled r.stagingLabels)
    (r.versions.entries.length - MAX_VERSIONS) (m.order (r.versions.entries.map Prod.fst))

theorem cleanup_eq (r : SecretRecord) :
    r.cleanupDeprecatedVersions m =
      { r with versions := (dropped r m).foldl SortedMap.erase r.versions } := by
  unfold cleanupDeprecatedVersions
  by_cases hlimit : r.versions.entries.length ≤ MAX_VERSIONS
  · have hnone : dropped r m = [] := by
      unfold dropped Evict.victims
      rw [Nat.sub_eq_zero_of_le hlimit, List.take_zero]
    rw [if_pos hlimit, hnone]
    rfl
  · rw [if_neg hlimit]
    rfl

theorem cleanup_labels (r : SecretRecord) :
    (r.cleanupDeprecatedVersions m).stagingLabels = r.stagingLabels := by
  rw [cleanup_eq]

theorem get?_cleanup (r : SecretRecord) (id : String) :
    (r.cleanupDeprecatedVersions m).versions.get? id =
      if id ∈ dropped r m then none else r.versions.get? id := by
  rw [cleanup_eq]
  exact Evict.get?_foldl_erase _ _ _

theorem not_labeled_of_dropped {r : SecretRecord} {id : String} (h : id ∈ dropped r m)
    (label : String) : r.stagingLabels.get? label ≠ some id := by
  intro hlabel
  have hkept := (Evict.of_mem_victims h).2
  rw [labeled_iff.mpr ⟨label, hlabel⟩] at hkept
  cases hkept

theorem created_eq {versions : Versions} {id : String} {v : SecretVersion}
    (h : versions.get? id = some v) : created versions id = v.createdDate := by
  unfold created
  rw [h]
  rfl

/-- Dropped versions are no younger than unlabeled versions that stay. -/
theorem dropped_oldest {r : SecretRecord} {id id' : String} {v v' : SecretVersion}
    (h : id ∈ dropped r m) (hid : r.versions.get? id = some v)
    (hid' : r.versions.get? id' = some v') (hstays : id' ∉ dropped r m)
    (hbare : ∀ label, r.stagingLabels.get? label ≠ some id') : v.createdDate ≤ v'.createdDate := by
  have hunlabeled : labeled r.stagingLabels id' = false := by
    refine Bool.eq_false_iff.mpr fun hlabeled => ?_
    obtain ⟨label, hlabel⟩ := labeled_iff.mp hlabeled
    exact hbare label hlabel
  have hmem : id' ∈ m.order (r.versions.entries.map Prod.fst) :=
    (m.order_perm _).mem_iff.mpr (mem_keys_iff.mpr ⟨v', hid'⟩)
  have hage := Evict.age_le_of_mem_victims h hmem hunlabeled hstays
  rwa [created_eq hid, created_eq hid'] at hage

theorem keys_cleanup (r : SecretRecord) :
    (r.cleanupDeprecatedVersions m).versions.entries.map Prod.fst =
      (r.versions.entries.map Prod.fst).filter fun id => id ∉ dropped r m := by
  rw [cleanup_eq, List.filter_map]
  exact congrArg (List.map Prod.fst) (Evict.entries_foldl_erase _ _)

/-- After the cleanup the versions are within the limit or all labeled. -/
theorem cleanup_bounded (r : SecretRecord) :
    (r.cleanupDeprecatedVersions m).versions.entries.length ≤
      max MAX_VERSIONS (labeledCount (r.cleanupDeprecatedVersions m).versions
        (r.cleanupDeprecatedVersions m).stagingLabels) := by
  have hperm := m.order_perm (r.versions.entries.map Prod.fst)
  have hnodup := hperm.nodup_iff.mpr (SortedMap.nodup_keys r.versions)
  have hlimit : (m.order (r.versions.entries.map Prod.fst)).length = r.versions.entries.length := by
    rw [hperm.length_eq, List.length_map]
  have hle := Evict.length_le_of_victims (created r.versions)
    (labeled r.stagingLabels) MAX_VERSIONS hnodup
  rw [hlimit, (hperm.filter _).length_eq, hperm.countP_eq] at hle
  have hlength : (r.cleanupDeprecatedVersions m).versions.entries.length =
      ((r.versions.entries.map Prod.fst).filter fun id => id ∉ dropped r m).length := by
    rw [← keys_cleanup, List.length_map]
  have hcount : labeledCount (r.cleanupDeprecatedVersions m).versions
      (r.cleanupDeprecatedVersions m).stagingLabels =
        (r.versions.entries.map Prod.fst).countP (labeled r.stagingLabels) := by
    unfold labeledCount
    rw [cleanup_labels, keys_cleanup, List.countP_filter]
    refine List.countP_congr fun id _ => ?_
    rw [Bool.and_eq_true, decide_eq_true_iff]
    refine ⟨fun h => h.1, fun h => ⟨h, fun hdropped => ?_⟩⟩
    obtain ⟨label, hlabel⟩ := labeled_iff.mp h
    exact not_labeled_of_dropped hdropped label hlabel
  rw [hlength, hcount]
  exact hle

/-! ## A new version -/

section NewVersion

variable {r : SecretRecord} {version : SecretVersion} {stages : List String}

theorem insertVersion_labels : (r.insertVersion m version stages).stagingLabels =
    promote r.stagingLabels stages version.versionId := by
  unfold insertVersion
  dsimp only
  rw [rebuild_labels, cleanup_labels]

/-- The record with the new version and its labels, before anything is dropped. -/
def added (r : SecretRecord) (version : SecretVersion) (stages : List String) : SecretRecord :=
  { r with
    stagingLabels := SecretRecord.promote r.stagingLabels stages version.versionId
    versions := r.versions.insert version.versionId version }

theorem get?_added (id : String) : (added r version stages).versions.get? id =
    if version.versionId = id then some version else r.versions.get? id :=
  SortedMap.get?_insert_eq _ _ _ _

theorem get?_insertVersion (id : String) : (r.insertVersion m version stages).versions.get? id =
    if id ∈ dropped (added r version stages) m then none
    else ((added r version stages).versions.get? id).map fun v =>
      { v with versionStages := stagesOf m (added r version stages).stagingLabels id }
    := by
  unfold insertVersion
  dsimp only
  rw [get?_rebuild, cleanup_labels, get?_cleanup]
  by_cases hdropped : id ∈ dropped (added r version stages) m
  · rw [if_pos hdropped]
    exact congrArg (Option.map _) (if_pos hdropped)
  · rw [if_neg hdropped]
    exact congrArg (Option.map _) (if_neg hdropped)

theorem exists_version_added (h : Sound r.versions r.stagingLabels) (label id : String)
    (hlabel : (added r version stages).stagingLabels.get? label = some id) :
    ∃ v, (added r version stages).versions.get? id = some v := by
  rw [get?_added]
  by_cases hid : version.versionId = id
  · exact ⟨version, if_pos hid⟩
  · rw [if_neg hid]
    rcases promote_cases hlabel with hnew | ⟨label', hold⟩
    · exact absurd hnew.symm hid
    · exact h.exists_version label' id hold

/-- Stage lists that do not name both `AWSCURRENT` and `AWSPREVIOUS` keep the two apart. -/
theorem uncrossed_added (h : Sound r.versions r.stagingLabels)
    (hnew : r.versions.get? version.versionId = none)
    (hstages : ¬(AWSCURRENT ∈ stages ∧ AWSPREVIOUS ∈ stages)) (id : String)
    (hprevious : (added r version stages).stagingLabels.get? AWSPREVIOUS = some id) :
    (added r version stages).stagingLabels.get? AWSCURRENT ≠ some id := by
  intro hcurrent
  have hfresh : ∀ label, r.stagingLabels.get? label ≠ some version.versionId := by
    intro label hlabel
    obtain ⟨v, hget⟩ := h.exists_version label _ hlabel
    rw [hnew] at hget
    cases hget
  have hpromoted := fun label => get?_promote r.stagingLabels stages version.versionId label
  rw [show (added r version stages).stagingLabels =
    promote r.stagingLabels stages version.versionId from rfl, hpromoted]
    at hprevious hcurrent
  by_cases hin : AWSCURRENT ∈ stages
  · have hout : AWSPREVIOUS ∉ stages := fun hin' => hstages ⟨hin, hin'⟩
    rw [if_pos hin] at hcurrent
    rw [if_neg hout, if_pos ⟨rfl, hin⟩] at hprevious
    cases hcurrent
    rcases Option.or_eq_some_iff.mp hprevious with hold | ⟨-, hold⟩
    · exact hfresh _ hold
    · exact hfresh _ hold
  · rw [if_neg hin, if_neg fun hand => hin hand.2] at hcurrent
    by_cases hin' : AWSPREVIOUS ∈ stages
    · rw [if_pos hin'] at hprevious
      cases hprevious
      exact hfresh _ hcurrent
    · rw [if_neg hin', if_neg fun hand => hin hand.2] at hprevious
      exact h.uncrossed id hprevious hcurrent

theorem follows_insertVersion (hnew : r.versions.get? version.versionId = none)
    (hstages : ¬(AWSCURRENT ∈ stages ∧ AWSPREVIOUS ∈ stages)) :
    Follows r (r.insertVersion m version stages) where
  current_stays := fun h => by
    rw [insertVersion_labels, get?_promote]
    by_cases hin : AWSCURRENT ∈ stages
    · rw [if_pos hin]
      rfl
    · rwa [if_neg hin, if_neg fun hand => hin hand.2]
  previous_named := fun v w hv hw hne => by
    rw [insertVersion_labels, get?_promote] at hw ⊢
    by_cases hin : AWSCURRENT ∈ stages
    · rw [if_neg fun hin' => hstages ⟨hin, hin'⟩, if_pos ⟨rfl, hin⟩, hv, Option.some_or]
    · rw [if_neg hin, if_neg fun hand => hin hand.2, hv] at hw
      exact absurd (Option.some.inj hw) hne
  dropped_oldest := fun id v hv hnone => by
    have hadded : (added r version stages).versions.get? id = some v := by
      rw [get?_added, if_neg, hv]
      rintro rfl
      rw [hnew] at hv
      cases hv
    have hdropped : id ∈ dropped (added r version stages) m := by
      by_contra hkept
      rw [get?_insertVersion, if_neg hkept, hadded] at hnone
      cases hnone
    rw [insertVersion_labels]
    refine ⟨fun label hlabel => ?_, fun id' v' hv' hbare => ?_⟩
    · have hbare := not_labeled_of_dropped hdropped label
      rcases stays_or_moved stages version.versionId hlabel with hstays | ⟨w, hw, hmoved⟩
      · exact absurd hstays hbare
      · refine ⟨w, fun heq => hbare (heq ▸ hw), hw, hmoved.imp_left fun heq => ?_⟩
        rw [heq, hnew]
    rw [get?_insertVersion] at hv'
    split at hv'
    · cases hv'
    · rename_i hstays
      obtain ⟨v'', hget, rfl⟩ := Option.map_eq_some_iff.mp hv'
      have hage : v.createdDate ≤ v''.createdDate :=
        dropped_oldest hdropped hadded hget hstays hbare
      exact hage

/-- A new version keeps a record sound exactly when it does not take both labels at once. -/
theorem kept_insertVersion_iff (h : Sound r.versions r.stagingLabels)
    (hnew : r.versions.get? version.versionId = none) :
    Kept r (r.insertVersion m version stages) ↔ ¬(AWSCURRENT ∈ stages ∧ AWSPREVIOUS ∈ stages) := by
  constructor
  · rintro ⟨hsound, -⟩ ⟨hcurrent, hprevious⟩
    refine hsound.uncrossed version.versionId ?_ ?_
    · rw [insertVersion_labels, get?_promote, if_pos hprevious]
    · rw [insertVersion_labels, get?_promote, if_pos hcurrent]
  · intro hstages
    refine ⟨?_, follows_insertVersion hnew hstages⟩
    have hexists : ∀ label id,
        ((added r version stages).cleanupDeprecatedVersions m).stagingLabels.get?
        label = some id →
          ∃ v, ((added r version stages).cleanupDeprecatedVersions m).versions.get? id =
            some v := by
      intro label id hlabel
      rw [cleanup_labels] at hlabel
      rw [get?_cleanup, if_neg fun hdropped => not_labeled_of_dropped hdropped label hlabel]
      exact exists_version_added h label id hlabel
    refine (sound_rebuild_iff (m := m) hexists).mpr ⟨?_, cleanup_bounded _⟩
    rw [cleanup_labels]
    exact uncrossed_added h hnew hstages

end NewVersion

/-! ## A change of labels -/

/-- `label` is all that the version holding it has, and it goes elsewhere. -/
def LastLabel (r : SecretRecord) (label : String) (toVersionId : Option String) : Prop :=
  ∃ id v, r.stagingLabels.get? label = some id ∧ toVersionId ≠ some id ∧
    r.versions.get? id = some v ∧ v.versionStages = [label]

/-- Moving `label` to a version puts `AWSCURRENT` and `AWSPREVIOUS` together. -/
def Crosses (r : SecretRecord) (label toVersionId : String) : Prop :=
  label = AWSCURRENT ∧ (r.stagingLabels.get? AWSCURRENT = some toVersionId ∨
      r.stagingLabels.get? AWSCURRENT = none ∧
        r.stagingLabels.get? AWSPREVIOUS = some toVersionId) ∨
    label = AWSPREVIOUS ∧ r.stagingLabels.get? AWSCURRENT = some toVersionId

/-- Moving `label` to a version takes the last label of another one: of the version that held
it, or for `AWSCURRENT`, which leaves `AWSPREVIOUS` behind, of the one that held `AWSPREVIOUS`. -/
def Strands (r : SecretRecord) (label toVersionId : String) : Prop :=
  if label = AWSCURRENT then
    r.stagingLabels.get? AWSCURRENT ≠ none ∧ LastLabel r AWSPREVIOUS (some toVersionId)
  else LastLabel r label (some toVersionId)

/-- The record with other labels on the versions it has. -/
def relabel (r : SecretRecord) (m : Moment) (labels : StagingLabels) : SecretRecord :=
  SecretRecord.rebuildVersionStages { r with stagingLabels := labels } m

/-- The labels after `label` has moved. -/
def movedLabels (labels : StagingLabels) (label toVersionId : String) : StagingLabels :=
  (if label = AWSCURRENT then SecretRecord.demoteCurrent labels
    else labels).insert label toVersionId

section Relabel

variable {r : SecretRecord} {labels : StagingLabels}

/-- A version that has labels, none of which is in the new map. -/
def Bare (r : SecretRecord) (labels : StagingLabels) : Prop :=
  ∃ id v, r.versions.get? id = some v ∧ (∃ label, r.stagingLabels.get? label = some id) ∧
    ∀ label, labels.get? label ≠ some id

/-- New labels keep a record sound when they name its versions, keep `AWSPREVIOUS` apart from
`AWSCURRENT`, and, with more versions than the limit, leave none of them bare. -/
theorem sound_relabel_iff (h : Sound r.versions r.stagingLabels)
    (hexists : ∀ label id, labels.get? label = some id → ∃ v, r.versions.get? id = some v) :
    Sound (relabel r m labels).versions (relabel r m labels).stagingLabels ↔
      (∀ id, labels.get? AWSPREVIOUS = some id → labels.get? AWSCURRENT ≠ some id) ∧
      ¬(MAX_VERSIONS < r.versions.entries.length ∧ Bare r labels) := by
  have hsound := sound_rebuild_iff (m := m) (r := { r with stagingLabels := labels }) hexists
  refine hsound.trans (and_congr_right fun _ => ?_)
  dsimp only
  have hbefore := bounded_iff.mp h.bounded
  rw [bounded_iff]
  constructor
  · rintro (hle | hall) ⟨hlt, id, v, hget, -, hbare⟩
    · exact absurd hle (Nat.not_le_of_lt hlt)
    · obtain ⟨label, hlabel⟩ := hall id v hget
      exact hbare label hlabel
  · intro hnot
    by_cases hle : r.versions.entries.length ≤ MAX_VERSIONS
    · exact Or.inl hle
    · refine Or.inr fun id v hget => ?_
      by_contra hbare
      exact hnot ⟨Nat.lt_of_not_le hle, id, v, hget, hbefore.resolve_left hle id v hget,
        fun label hlabel => hbare ⟨label, hlabel⟩⟩

theorem stages_eq_singleton_iff (h : Sound r.versions r.stagingLabels) {id label : String}
    {v : SecretVersion} (hget : r.versions.get? id = some v) :
    v.versionStages = [label] ↔ ∀ l, r.stagingLabels.get? l = some id ↔ l = label := by
  obtain ⟨hsorted, hmem⟩ := h.stages id v hget
  rw [eq_singleton_iff hsorted]
  exact forall_congr' fun l => by rw [hmem]

/-- A version is left bare by new labels that differ from the old ones only in `label`, and
perhaps in one more that was on a version which has another one now. -/
theorem bare_iff_lastLabel (h : Sound r.versions r.stagingLabels) {label : String}
    {toVersionId : Option String}
    (hmoved : ∀ id, labels.get? label = some id → toVersionId = some id ∨
      r.stagingLabels.get? label ≠ some id)
    (hheld : ∀ id, toVersionId = some id → ∃ l, labels.get? l = some id)
    (hother : ∀ l id, l ≠ label → r.stagingLabels.get? l = some id →
      ∃ l', labels.get? l' = some id)
    (hback : ∀ l id, l ≠ label → labels.get? l = some id →
      r.stagingLabels.get? l = some id ∨ toVersionId = some id) :
    Bare r labels ↔ LastLabel r label toVersionId := by
  constructor
  · rintro ⟨id, v, hget, ⟨l, hlabel⟩, hbare⟩
    have honly : ∀ l, r.stagingLabels.get? l = some id → l = label := by
      intro l hl
      by_contra hne
      obtain ⟨l', hl'⟩ := hother l id hne hl
      exact hbare l' hl'
    obtain rfl := honly l hlabel
    refine ⟨id, v, hlabel, fun hto => ?_, hget, ?_⟩
    · obtain ⟨l', hl'⟩ := hheld id hto
      exact hbare l' hl'
    · refine (stages_eq_singleton_iff h hget).mpr fun l' => ⟨honly l', ?_⟩
      rintro rfl
      exact hlabel
  · rintro ⟨id, v, hlabel, hto, hget, hstages⟩
    refine ⟨id, v, hget, ⟨label, hlabel⟩, fun l hl => ?_⟩
    have honly := (stages_eq_singleton_iff h hget).mp hstages
    by_cases hl' : l = label
    · subst hl'
      rcases hmoved id hl with hmoved | hmoved
      · exact hto hmoved
      · exact hmoved hlabel
    · rcases hback l id hl' hl with hold | hmoved
      · exact hl' ((honly l).mp hold)
      · exact hto hmoved

theorem get?_relabel (id : String) : (relabel r m labels).versions.get? id =
    (r.versions.get? id).map fun v =>
      { v with versionStages := stagesOf m labels id } :=
  get?_rebuild _ id

theorem follows_relabel
    (hcurrent : (r.stagingLabels.get? AWSCURRENT).isSome → (labels.get? AWSCURRENT).isSome)
    (hprevious : ∀ v w, r.stagingLabels.get? AWSCURRENT = some v →
      labels.get? AWSCURRENT = some w → v ≠ w → labels.get? AWSPREVIOUS = some v) :
    Follows r (relabel r m labels) where
  current_stays := hcurrent
  previous_named := hprevious
  dropped_oldest := fun id v hv hnone => by
    rw [get?_relabel, hv] at hnone
    cases hnone

end Relabel

/-! ## Moving a label -/

section Move

variable {r : SecretRecord} {label toVersionId : String}

theorem get?_movedLabels (labels : StagingLabels) (l : String) :
    (movedLabels labels label toVersionId).get? l =
      if label = l then some toVersionId
      else if label = AWSCURRENT ∧ l = AWSPREVIOUS then
        (labels.get? AWSCURRENT).or (labels.get? AWSPREVIOUS)
      else labels.get? l := by
  unfold movedLabels
  rw [SortedMap.get?_insert_eq]
  by_cases hcurrent : label = AWSCURRENT
  · simp only [hcurrent, if_true, true_and, get?_demoteCurrent]
  · simp only [hcurrent, if_false, false_and]

theorem get?_moved_previous (labels : StagingLabels) :
    (movedLabels labels label toVersionId).get? AWSPREVIOUS =
      if label = AWSPREVIOUS then some toVersionId
      else if label = AWSCURRENT then (labels.get? AWSCURRENT).or (labels.get? AWSPREVIOUS)
      else labels.get? AWSPREVIOUS := by
  rw [get?_movedLabels]
  exact if_congr Iff.rfl rfl (if_congr (and_iff_left rfl) rfl rfl)

theorem get?_moved_current (labels : StagingLabels) :
    (movedLabels labels label toVersionId).get? AWSCURRENT =
      if label = AWSCURRENT then some toVersionId else labels.get? AWSCURRENT := by
  rw [get?_movedLabels]
  exact if_congr Iff.rfl rfl (if_neg fun hand => AWSPREVIOUS_ne_AWSCURRENT hand.2.symm)

theorem uncrossed_moved_iff (h : Sound r.versions r.stagingLabels) :
    (∀ id, (movedLabels r.stagingLabels label toVersionId).get? AWSPREVIOUS = some id →
      (movedLabels r.stagingLabels label toVersionId).get? AWSCURRENT ≠ some id) ↔
        ¬Crosses r label toVersionId := by
  rw [get?_moved_previous, get?_moved_current, Crosses]
  by_cases hcurrent : label = AWSCURRENT
  · subst hcurrent
    have hne : AWSCURRENT ≠ AWSPREVIOUS := AWSPREVIOUS_ne_AWSCURRENT.symm
    rw [if_neg hne, if_pos rfl, if_pos rfl]
    constructor
    · rintro hnot (⟨-, hcur | ⟨hnone, hprev⟩⟩ | ⟨heq, -⟩)
      · exact hnot toVersionId (by rw [hcur, Option.some_or]) rfl
      · exact hnot toVersionId (by rw [hnone, Option.none_or, hprev]) rfl
      · exact hne heq
    · rintro hnot id hor heq
      cases heq
      rcases Option.or_eq_some_iff.mp hor with hcur | ⟨hnone, hprev⟩
      · exact hnot (Or.inl ⟨rfl, Or.inl hcur⟩)
      · exact hnot (Or.inl ⟨rfl, Or.inr ⟨hnone, hprev⟩⟩)
  · rw [if_neg hcurrent, if_neg hcurrent]
    by_cases hprevious : label = AWSPREVIOUS
    · rw [if_pos hprevious]
      constructor
      · rintro hnot (⟨heq, -⟩ | ⟨-, hcur⟩)
        · exact hcurrent heq
        · exact hnot toVersionId rfl hcur
      · rintro hnot id heq hcur
        cases heq
        exact hnot (Or.inr ⟨hprevious, hcur⟩)
    · rw [if_neg hprevious]
      refine iff_of_true h.uncrossed ?_
      rintro (⟨heq, -⟩ | ⟨heq, -⟩)
      · exact hcurrent heq
      · exact hprevious heq

theorem bare_moved_iff (h : Sound r.versions r.stagingLabels) :
    Bare r (movedLabels r.stagingLabels label toVersionId) ↔ Strands r label toVersionId := by
  have hget : ∀ l, (movedLabels r.stagingLabels label toVersionId).get? l = _ :=
    get?_movedLabels r.stagingLabels
  have hself : (movedLabels r.stagingLabels label toVersionId).get? label = some toVersionId := by
    rw [hget, if_pos rfl]
  have hheld : ∀ id, some toVersionId = some id →
      ∃ l, (movedLabels r.stagingLabels label toVersionId).get? l = some id := by
    rintro id heq
    exact ⟨label, hself.trans heq⟩
  cases hcurrent : r.stagingLabels.get? AWSCURRENT with
  | none =>
      have hsame : ∀ l, l ≠ label →
          (movedLabels r.stagingLabels label toVersionId).get? l = r.stagingLabels.get? l := by
        intro l hl
        rw [hget, if_neg (Ne.symm hl), hcurrent, Option.none_or]
        split
        · rename_i hand
          rw [hand.2]
        · rfl
      have hlast : Bare r (movedLabels r.stagingLabels label toVersionId) ↔
          LastLabel r label (some toVersionId) :=
        bare_iff_lastLabel h (fun id hid => Or.inl (hself.symm.trans hid)) hheld
          (fun l id hl hold => ⟨l, (hsame l hl).trans hold⟩)
          (fun l id hl hnew => Or.inl ((hsame l hl).symm.trans hnew))
      rw [hlast, Strands]
      split
      · rename_i hlabel
        subst hlabel
        refine iff_of_false ?_ fun hand => hand.1 hcurrent
        rintro ⟨id, v, hid, -⟩
        rw [hcurrent] at hid
        cases hid
      · exact Iff.rfl
  | some current =>
      by_cases hlabel : label = AWSCURRENT
      · subst hlabel
        have hprevious : (movedLabels r.stagingLabels AWSCURRENT toVersionId).get? AWSPREVIOUS =
            some current := by
          rw [hget, if_neg AWSPREVIOUS_ne_AWSCURRENT.symm, if_pos ⟨rfl, rfl⟩, hcurrent,
            Option.some_or]
        have hsame : ∀ l, l ≠ AWSPREVIOUS → l ≠ AWSCURRENT →
            (movedLabels r.stagingLabels AWSCURRENT toVersionId).get? l =
              r.stagingLabels.get? l := by
          intro l hprev hcur
          rw [hget, if_neg (Ne.symm hcur), if_neg fun hand => hprev hand.2]
        rw [Strands, if_pos rfl, hcurrent]
        refine (bare_iff_lastLabel h (fun id hid => Or.inr ?_) hheld (fun l id hl hold => ?_)
          (fun l id hl hnew => ?_)).trans (and_iff_right (Option.some_ne_none _)).symm
        · intro hold
          rw [hprevious] at hid
          exact h.uncrossed id hold (hcurrent.trans hid)
        · by_cases hcur : l = AWSCURRENT
          · rw [hcur] at hold
            exact ⟨AWSPREVIOUS, hprevious.trans (hcurrent.symm.trans hold)⟩
          · exact ⟨l, (hsame l hl hcur).trans hold⟩
        · by_cases hcur : l = AWSCURRENT
          · rw [hcur] at hnew
            exact Or.inr (hself.symm.trans hnew)
          · exact Or.inl ((hsame l hl hcur).symm.trans hnew)
      · have hsame : ∀ l, l ≠ label →
            (movedLabels r.stagingLabels label toVersionId).get? l = r.stagingLabels.get? l := by
          intro l hl
          rw [hget, if_neg (Ne.symm hl), if_neg fun hand => hlabel hand.1]
        rw [Strands, if_neg hlabel]
        exact bare_iff_lastLabel h (fun id hid => Or.inl (hself.symm.trans hid)) hheld
          (fun l id hl hold => ⟨l, (hsame l hl).trans hold⟩)
          (fun l id hl hnew => Or.inl ((hsame l hl).symm.trans hnew))

theorem exists_version_moved (h : Sound r.versions r.stagingLabels)
    (hto : ∃ v, r.versions.get? toVersionId = some v) (l id : String)
    (hlabel : (movedLabels r.stagingLabels label toVersionId).get? l = some id) :
    ∃ v, r.versions.get? id = some v := by
  rw [get?_movedLabels] at hlabel
  split at hlabel
  · cases hlabel
    exact hto
  · split at hlabel
    · rcases Option.or_eq_some_iff.mp hlabel with hold | ⟨-, hold⟩
      · exact h.exists_version _ id hold
      · exact h.exists_version _ id hold
    · exact h.exists_version l id hlabel

theorem follows_moved :
    Follows r (relabel r m (movedLabels r.stagingLabels label toVersionId)) := by
  refine follows_relabel (fun hcurrent => ?_) fun v w hv hw hne => ?_
  · rw [get?_movedLabels]
    split
    · rfl
    · rwa [if_neg fun hand => AWSPREVIOUS_ne_AWSCURRENT hand.2.symm]
  · rw [get?_movedLabels] at hw ⊢
    by_cases hlabel : label = AWSCURRENT
    · subst hlabel
      rw [if_neg AWSPREVIOUS_ne_AWSCURRENT.symm, if_pos ⟨rfl, rfl⟩, hv, Option.some_or]
    · rw [if_neg hlabel, if_neg fun hand => hlabel hand.1, hv] at hw
      exact absurd (Option.some.inj hw) hne

/-- A moved label keeps a record sound exactly when `AWSCURRENT` and `AWSPREVIOUS` do not meet
and no version beyond the limit is left without a label. -/
theorem kept_moved_iff (h : Sound r.versions r.stagingLabels)
    (hto : ∃ v, r.versions.get? toVersionId = some v) :
    Kept r (relabel r m (movedLabels r.stagingLabels label toVersionId)) ↔
      ¬(Crosses r label toVersionId ∨
        MAX_VERSIONS < r.versions.entries.length ∧ Strands r label toVersionId) := by
  rw [Kept, and_iff_left follows_moved, sound_relabel_iff h (exists_version_moved h hto),
    uncrossed_moved_iff h, bare_moved_iff h, not_or]

/-- A removed label keeps a record sound exactly when it is not `AWSCURRENT` and no version
beyond the limit is left without a label. -/
theorem kept_erased_iff (h : Sound r.versions r.stagingLabels)
    (hlabel : (r.stagingLabels.get? label).isSome) :
    Kept r (relabel r m (r.stagingLabels.erase label)) ↔
      ¬(label = AWSCURRENT ∨ MAX_VERSIONS < r.versions.entries.length ∧
        LastLabel r label none) := by
  have hget := fun l => SortedMap.get?_erase_eq r.stagingLabels label l
  have hsame : ∀ l, l ≠ label →
      (r.stagingLabels.erase label).get? l = r.stagingLabels.get? l := by
    intro l hl
    rw [hget, if_neg (Ne.symm hl)]
  have hsome : ∀ l id, (r.stagingLabels.erase label).get? l = some id →
      r.stagingLabels.get? l = some id := by
    intro l id hl
    rw [hget] at hl
    split at hl
    · cases hl
    · exact hl
  have hbare : Bare r (r.stagingLabels.erase label) ↔ LastLabel r label none := by
    refine bare_iff_lastLabel h (fun id hid => ?_) (fun id hid => ?_)
      (fun l id hl hold => ⟨l, (hsame l hl).trans hold⟩)
      (fun l id hl hnew => Or.inl (hsome l id hnew))
    · rw [hget, if_pos rfl] at hid
      cases hid
    · cases hid
  have hsound : Sound (relabel r m (r.stagingLabels.erase label)).versions
      (relabel r m (r.stagingLabels.erase label)).stagingLabels ↔ _ :=
    sound_relabel_iff h fun l id hl => h.exists_version l id (hsome l id hl)
  rw [hbare, and_iff_right fun id hprevious hcurrent =>
    h.uncrossed id (hsome _ id hprevious) (hsome _ id hcurrent)] at hsound
  have hfollows : Follows r (relabel r m (r.stagingLabels.erase label)) ↔ label ≠ AWSCURRENT := by
    constructor
    · rintro hfollows rfl
      have hstays : ((r.stagingLabels.erase AWSCURRENT).get? AWSCURRENT).isSome :=
        hfollows.current_stays hlabel
      rw [hget, if_pos rfl] at hstays
      cases hstays
    · intro hne
      refine follows_relabel (fun hcurrent => ?_) fun v w hv hw hvw => ?_
      · rwa [hsame _ (Ne.symm hne)]
      · rw [hsame _ (Ne.symm hne), hv] at hw
        exact absurd (Option.some.inj hw) hvw
  rw [Kept, hsound, hfollows, not_or]
  exact and_comm

end Move

end Rustack.Secrets
