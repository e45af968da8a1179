import Rustack.Lib.Outcome
import Rustack.Secrets.Moves
import Rustack.Secrets.Provider

/-!
# Runs of the secret operations

Every state of a run is sound and every call keeps the secrets it finds, and leaves the store
alone when it fails, exactly when no call of the run is one of a few kinds that slip: a new
version or a moved label that brings `AWSCURRENT` and `AWSPREVIOUS` together, a removed
`AWSCURRENT`, a last label taken while there are more versions than the limit, and an update or
a rotation that fails after it has written to the record.
-/

namespace Rustack.Secrets

open SecretRecord SortedMap

variable {m : Moment} {r : SecretRecord}

/-- A version with this id has other contents. -/
def Conflicts (r : SecretRecord) (versionId : String) (secretString : Option String)
    (secretBinary : Option (List UInt8)) : Prop :=
  ∃ v, r.versions.get? versionId = some v ∧
    ¬(v.secretString = secretString ∧ v.secretBinary = secretBinary)

/-- A record after one call: it is kept, and a call that failed has not touched it. -/
def EditUpheld (r : SecretRecord) (out : SecretRecord × Answer) : Prop :=
  Kept r out.1 ∧ ∀ e, out.2 = .error e → out.1 = r

theorem editUpheld_refl (h : Sound r.versions r.stagingLabels) (answer : Answer) :
    EditUpheld r (r, answer) :=
  ⟨kept_refl h, fun _ _ => rfl⟩

theorem editUpheld_ok_iff {r' : SecretRecord} {response : Response} :
    EditUpheld r (r', .ok response) ↔ Kept r r' :=
  ⟨fun h => h.1, fun h => ⟨h, fun _ he => by cases he⟩⟩

/-- A call that fails on a record whose versions and labels it left alone. -/
theorem editUpheld_error_iff (h : Sound r.versions r.stagingLabels) {r' : SecretRecord}
    {e : SecretsManagerError} (hversions : r'.versions = r.versions)
    (hlabels : r'.stagingLabels = r.stagingLabels) :
    EditUpheld r (r', .error e) ↔ r' = r := by
  constructor
  · exact fun hupheld => hupheld.2 e rfl
  · rintro rfl
    exact editUpheld_refl h _

/-! ## Adding a version -/

theorem addVersion_conflicts {versionId : String} {secretString : Option String}
    {secretBinary : Option (List UInt8)} (stages : List String) (now : ℤ)
    (h : Conflicts r versionId secretString secretBinary) :
    ∃ e, r.addVersion m versionId secretString secretBinary stages now = .error e := by
  obtain ⟨v, hget, hne⟩ := h
  unfold addVersion
  rw [hget]
  exact ⟨_, if_neg hne⟩

theorem addVersion_same {versionId : String} {secretString : Option String}
    {secretBinary : Option (List UInt8)} (stages : List String) (now : ℤ) {v : SecretVersion}
    (hget : r.versions.get? versionId = some v)
    (h : ¬Conflicts r versionId secretString secretBinary) :
    r.addVersion m versionId secretString secretBinary stages now = .ok r := by
  unfold addVersion
  rw [hget]
  refine if_pos ?_
  by_contra hne
  exact h ⟨v, hget, hne⟩

theorem addVersion_new {versionId : String} (secretString : Option String)
    (secretBinary : Option (List UInt8)) (stages : List String) (now : ℤ)
    (hget : r.versions.get? versionId = none) :
    r.addVersion m versionId secretString secretBinary stages now = .ok (r.insertVersion m
      { versionId, secretString, secretBinary, createdDate := now, versionStages := [] }
      (stagesOrCurrent stages)) := by
  unfold addVersion
  rw [hget]

theorem both_stages_iff (stages : List String) :
    AWSCURRENT ∈ stagesOrCurrent stages ∧
      AWSPREVIOUS ∈ stagesOrCurrent stages ↔
        AWSCURRENT ∈ stages ∧ AWSPREVIOUS ∈ stages := by
  unfold stagesOrCurrent
  cases stages with
  | nil =>
      rw [List.isEmpty_nil, if_pos rfl, List.mem_singleton, List.mem_singleton]
      refine iff_of_false ?_ ?_
      · rintro ⟨-, hprevious⟩
        exact AWSPREVIOUS_ne_AWSCURRENT hprevious
      · rintro ⟨hcurrent, -⟩
        exact List.not_mem_nil hcurrent
  | cons stage stages => exact Iff.rfl

/-- Adding a version keeps a sound record unless it takes `AWSCURRENT` and `AWSPREVIOUS`. -/
theorem kept_addVersion_iff (h : Sound r.versions r.stagingLabels) {versionId : String}
    {secretString : Option String} {secretBinary : Option (List UInt8)} {stages : List String}
    {now : ℤ} {r' : SecretRecord}
    (hadd : r.addVersion m versionId secretString secretBinary stages now = .ok r') :
    Kept r r' ↔
      ¬(r.versions.get? versionId = none ∧ AWSCURRENT ∈ stages ∧ AWSPREVIOUS ∈ stages) := by
  cases hget : r.versions.get? versionId with
  | some v =>
      have hsame : ¬Conflicts r versionId secretString secretBinary := by
        intro hconflicts
        obtain ⟨e, he⟩ := addVersion_conflicts (m := m) stages now hconflicts
        rw [hadd] at he
        cases he
      rw [addVersion_same stages now hget hsame] at hadd
      cases hadd
      exact iff_of_true (kept_refl h) fun hnone => by cases hnone.1
  | none =>
      rw [addVersion_new secretString secretBinary stages now hget] at hadd
      cases hadd
      rw [kept_insertVersion_iff h ?_, both_stages_iff, and_iff_right rfl]
      exact hget

/-- Adding a version fails exactly on a conflict. -/
theorem addVersion_error_iff {versionId : String} {secretString : Option String}
    {secretBinary : Option (List UInt8)} (stages : List String) (now : ℤ) :
    (∃ e, r.addVersion m versionId secretString secretBinary stages now = .error e) ↔
      Conflicts r versionId secretString secretBinary := by
  constructor
  · rintro ⟨e, he⟩
    by_contra hsame
    cases hget : r.versions.get? versionId with
    | some v =>
        rw [addVersion_same stages now hget hsame] at he
        cases he
    | none =>
        rw [addVersion_new secretString secretBinary stages now hget] at he
        cases he
  · exact addVersion_conflicts stages now

/-! ## PutSecretValue -/

/-- The call adds a version and lists both `AWSCURRENT` and `AWSPREVIOUS` for it. -/
def PutSecretValueInput.Crosses (input : PutSecretValueInput) (m : Moment)
    (r : SecretRecord) : Prop :=
  r.isPendingDeletion = false ∧
    (∃ versionId, versionIdOf input.clientRequestToken m = .ok versionId ∧
      r.versions.get? versionId = none) ∧
    AWSCURRENT ∈ input.versionStages ∧ AWSPREVIOUS ∈ input.versionStages

theorem PutSecretValueInput.edit_upheld_iff (input : PutSecretValueInput)
    (h : Sound r.versions r.stagingLabels) :
    EditUpheld r (input.edit m r) ↔ ¬input.Crosses m r := by
  unfold PutSecretValueInput.edit PutSecretValueInput.Crosses
  cases hpending : r.isPendingDeletion with
  | true => exact iff_of_true (editUpheld_refl h _) fun hcrosses => by cases hcrosses.1
  | false =>
      rw [and_iff_right rfl, if_neg Bool.false_ne_true]
      unfold PutSecretValueInput.newVersion
      cases hid : versionIdOf input.clientRequestToken m with
      | error e =>
          refine iff_of_true (editUpheld_refl h _) ?_
          rintro ⟨⟨versionId, hok, -⟩, -⟩
          cases hok
      | ok versionId =>
          have hexists : (∃ id, Except.ok versionId = (.ok id : Except SecretsManagerError String) ∧
              r.versions.get? id = none) ↔ r.versions.get? versionId = none := by
            constructor
            · rintro ⟨id, hok, hnone⟩
              rwa [Except.ok.inj hok]
            · exact fun hnone => ⟨versionId, rfl, hnone⟩
          rw [hexists]
          cases hadd : r.addVersion m versionId input.secretString input.secretBinary
              (stagesOrCurrent input.versionStages) m.now with
          | error e =>
              obtain ⟨v, hget, -⟩ := (addVersion_error_iff _ _).mp ⟨e, hadd⟩
              rw [hget]
              refine iff_of_true ?_ fun hnone => by cases hnone.1
              simp only [bind, Except.bind, hadd]
              exact editUpheld_refl h _
          | ok r' =>
              rw [← both_stages_iff, ← kept_addVersion_iff h hadd, ← editUpheld_ok_iff]
              simp only [bind, Except.bind, hadd]
              exact Iff.rfl

/-! ## UpdateSecret -/

/-- The call changes the metadata and then fails: on the value, on the request token, or since
the version it names has other contents. -/
def UpdateSecretInput.LeavesMetadata (input : UpdateSecretInput) (m : Moment)
    (r : SecretRecord) : Prop :=
  r.isPendingDeletion = false ∧ input.description.forM validateDescription = .ok () ∧
    input.hasValue = true ∧ input.metadata r ≠ r ∧
    ((∃ e, validateSecretValue input.secretString input.secretBinary = .error e) ∨
      (∃ e, versionIdOf input.clientRequestToken m = .error e) ∨
      ∃ versionId, versionIdOf input.clientRequestToken m = .ok versionId ∧
        Conflicts r versionId input.secretString input.secretBinary)

theorem UpdateSecretInput.newVersion_error_iff (input : UpdateSecretInput) :
    (∃ e, input.newVersion m (input.metadata r) = .error e) ↔
      (∃ e, validateSecretValue input.secretString input.secretBinary = .error e) ∨
      (∃ e, versionIdOf input.clientRequestToken m = .error e) ∨
      ∃ versionId, versionIdOf input.clientRequestToken m = .ok versionId ∧
        Conflicts r versionId input.secretString input.secretBinary := by
  unfold UpdateSecretInput.newVersion
  cases hvalue : validateSecretValue input.secretString input.secretBinary with
  | error e => exact iff_of_true ⟨e, rfl⟩ (Or.inl ⟨e, rfl⟩)
  | ok u =>
      cases hid : versionIdOf input.clientRequestToken m with
      | error e => exact iff_of_true ⟨e, rfl⟩ (Or.inr (Or.inl ⟨e, rfl⟩))
      | ok versionId =>
          have hadd : (∃ e, (input.metadata r).addVersion m versionId input.secretString
              input.secretBinary [AWSCURRENT] m.now = .error e) ↔
                Conflicts r versionId input.secretString input.secretBinary :=
            addVersion_error_iff _ _
          constructor
          · rintro ⟨e, he⟩
            refine Or.inr (Or.inr ⟨versionId, rfl, hadd.mp ?_⟩)
            cases hadded : (input.metadata r).addVersion m versionId input.secretString
                input.secretBinary [AWSCURRENT] m.now with
            | error e => exact ⟨e, rfl⟩
            | ok r' =>
                simp only [bind, Except.bind, hadded] at he
                cases he
          · rintro (⟨e, he⟩ | ⟨e, he⟩ | ⟨id, hok, hconflicts⟩)
            · cases he
            · cases he
            · cases hok
              obtain ⟨e, he⟩ := hadd.mpr hconflicts
              exact ⟨e, by simp only [bind, Except.bind, he]⟩

theorem not_both_of_singleton {stage : String} (p : Prop) :
    ¬(p ∧ AWSCURRENT ∈ [stage] ∧ AWSPREVIOUS ∈ [stage]) := by
  rintro ⟨-, hcurrent, hprevious⟩
  rw [List.mem_singleton] at hcurrent hprevious
  exact AWSPREVIOUS_ne_AWSCURRENT (hprevious.trans hcurrent.symm)

theorem UpdateSecretInput.edit_upheld_iff (input : UpdateSecretInput)
    (h : Sound r.versions r.stagingLabels) :
    EditUpheld r (input.edit m r) ↔ ¬input.LeavesMetadata m r := by
  unfold UpdateSecretInput.edit UpdateSecretInput.LeavesMetadata
  cases hpending : r.isPendingDeletion with
  | true => exact iff_of_true (editUpheld_refl h _) fun hleaves => by cases hleaves.1
  | false =>
      rw [and_iff_right rfl, if_neg Bool.false_ne_true]
      cases hdescription : input.description.forM validateDescription with
      | error e => exact iff_of_true (editUpheld_refl h _) fun hleaves => by cases hleaves.1
      | ok u =>
          rw [and_iff_right rfl]
          cases hvalue : input.hasValue with
          | false =>
              refine iff_of_true (editUpheld_ok_iff.mpr ⟨h, Follows.of_eq rfl rfl⟩) ?_
              exact fun hleaves => by cases hleaves.1
          | true =>
              rw [and_iff_right rfl, ← input.newVersion_error_iff]
              dsimp only
              rw [if_pos rfl]
              cases hnew : input.newVersion m (input.metadata r) with
              | error e =>
                  rw [and_iff_left ⟨e, rfl⟩, not_not]
                  exact editUpheld_error_iff h rfl rfl
              | ok added =>
                  obtain ⟨versionId, r'⟩ := added
                  refine iff_of_true (editUpheld_ok_iff.mpr ?_) ?_
                  · unfold UpdateSecretInput.newVersion at hnew
                    obtain ⟨-, -, hnew⟩ := Except.bind_eq_ok.mp hnew
                    obtain ⟨id, -, hnew⟩ := Except.bind_eq_ok.mp hnew
                    obtain ⟨added, hadd, heq⟩ := Except.bind_eq_ok.mp hnew
                    cases heq
                    have hsound : Sound (input.metadata r).versions
                      (input.metadata r).stagingLabels := h
                    have hkept := (kept_addVersion_iff hsound hadd).mpr (not_both_of_singleton _)
                    exact ⟨hkept.1, hkept.2.current_stays, hkept.2.previous_named,
                      hkept.2.dropped_oldest⟩
                  · rintro ⟨-, e, he⟩
                    cases he

/-! ## RotateSecret -/

/-- The call configures rotation and then fails: on the request token, or since the version it
names does not have the current contents. -/
def RotateSecretInput.LeavesConfiguration (input : RotateSecretInput) (m : Moment)
    (r : SecretRecord) : Prop :=
  r.isPendingDeletion = false ∧ input.configured r ≠ r ∧
    ((∃ e, versionIdOf input.clientRequestToken m = .error e) ∨
      ∃ versionId, versionIdOf input.clientRequestToken m = .ok versionId ∧
        Conflicts r versionId (r.getCurrentVersion.bind (·.secretString))
          (r.getCurrentVersion.bind (·.secretBinary)))

/-- A rotation that succeeds adds a version with one label, or none. -/
theorem kept_startRotation (h : Sound r.versions r.stagingLabels) {versionId : String} {now : ℤ}
    {rotateImmediately : Bool} {r' : SecretRecord}
    (hstart : r.startRotation m versionId now rotateImmediately = .ok r') : Kept r r' := by
  unfold startRotation at hstart
  dsimp only at hstart
  split at hstart
  · cases hstart
  · rename_i added hadd
    cases hstart
    have hkept := (kept_addVersion_iff h hadd).mpr (not_both_of_singleton _)
    exact ⟨hkept.1, hkept.2.current_stays, hkept.2.previous_named, hkept.2.dropped_oldest⟩

theorem startRotation_error_iff {versionId : String} {now : ℤ} {rotateImmediately : Bool} :
    (∃ e, r.startRotation m versionId now rotateImmediately = .error e) ↔
      Conflicts r versionId (r.getCurrentVersion.bind (·.secretString))
        (r.getCurrentVersion.bind (·.secretBinary)) := by
  rw [← addVersion_error_iff (m := m)
    [if rotateImmediately = true then AWSCURRENT else AWSPENDING] now]
  unfold startRotation
  dsimp only
  split
  · rename_i e hadd
    exact iff_of_true ⟨e, rfl⟩ ⟨e, hadd⟩
  · rename_i added hadd
    refine iff_of_false ?_ ?_
    · rintro ⟨e, he⟩
      cases he
    · rintro ⟨e, he⟩
      rw [hadd] at he
      cases he

theorem RotateSecretInput.newVersion_error_iff (input : RotateSecretInput) :
    (∃ e, input.newVersion m (input.configured r) = .error e) ↔
      (∃ e, versionIdOf input.clientRequestToken m = .error e) ∨
      ∃ versionId, versionIdOf input.clientRequestToken m = .ok versionId ∧
        Conflicts r versionId (r.getCurrentVersion.bind (·.secretString))
          (r.getCurrentVersion.bind (·.secretBinary)) := by
  unfold RotateSecretInput.newVersion
  cases hid : versionIdOf input.clientRequestToken m with
  | error e => exact iff_of_true ⟨e, rfl⟩ (Or.inl ⟨e, rfl⟩)
  | ok versionId =>
      have hstart : (∃ e, (input.configured r).startRotation m versionId m.now
          (input.rotateImmediately.getD true) = .error e) ↔
            Conflicts r versionId (r.getCurrentVersion.bind (·.secretString))
              (r.getCurrentVersion.bind (·.secretBinary)) :=
        startRotation_error_iff
      constructor
      · rintro ⟨e, he⟩
        refine Or.inr ⟨versionId, rfl, hstart.mp ?_⟩
        cases hstarted : (input.configured r).startRotation m versionId m.now
            (input.rotateImmediately.getD true) with
        | error e => exact ⟨e, rfl⟩
        | ok r' =>
            simp only [bind, Except.bind, hstarted] at he
            cases he
      · rintro (⟨e, he⟩ | ⟨id, hok, hconflicts⟩)
        · cases he
        · cases hok
          obtain ⟨e, he⟩ := hstart.mpr hconflicts
          exact ⟨e, by simp only [bind, Except.bind, he]⟩

theorem RotateSecretInput.edit_upheld_iff (input : RotateSecretInput)
    (h : Sound r.versions r.stagingLabels) :
    EditUpheld r (input.edit m r) ↔ ¬input.LeavesConfiguration m r := by
  unfold RotateSecretInput.edit RotateSecretInput.LeavesConfiguration
  cases hpending : r.isPendingDeletion with
  | true => exact iff_of_true (editUpheld_refl h _) fun hleaves => by cases hleaves.1
  | false =>
      rw [and_iff_right rfl, if_neg Bool.false_ne_true, ← input.newVersion_error_iff]
      dsimp only
      cases hnew : input.newVersion m (input.configured r) with
      | error e =>
          rw [and_iff_left ⟨e, rfl⟩, not_not]
          exact editUpheld_error_iff h rfl rfl
      | ok added =>
          obtain ⟨versionId, r'⟩ := added
          refine iff_of_true (editUpheld_ok_iff.mpr ?_) ?_
          · unfold RotateSecretInput.newVersion at hnew
            obtain ⟨id, -, hnew⟩ := Except.bind_eq_ok.mp hnew
            obtain ⟨started, hstart, heq⟩ := Except.bind_eq_ok.mp hnew
            cases heq
            have hsound : Sound (input.configured r).versions (input.configured r).stagingLabels :=
              h
            have hkept := kept_startRotation hsound hstart
            exact ⟨hkept.1, hkept.2.current_stays, hkept.2.previous_named,
              hkept.2.dropped_oldest⟩
          · rintro ⟨-, e, he⟩
            cases he

/-! ## UpdateSecretVersionStage -/

/-- The label can be moved: the version exists, and holds the label where one is named. -/
def Movable (r : SecretRecord) (label toVersionId : String) (fromVersionId : Option String) :
    Prop :=
  (∃ v, r.versions.get? toVersionId = some v) ∧
    (fromVersionId.isSome → r.stagingLabels.get? label = fromVersionId)

theorem moveStagingLabel_movable {label toVersionId : String} {fromVersionId : Option String}
    (h : Movable r label toVersionId fromVersionId) :
    r.moveStagingLabel m label toVersionId fromVersionId =
      .ok (relabel r m (movedLabels r.stagingLabels label toVersionId)) := by
  obtain ⟨⟨v, hget⟩, hfrom⟩ := h
  unfold moveStagingLabel
  rw [hget, if_neg (by simp), if_neg fun hand => hand.2 (hfrom hand.1)]
  rfl

theorem moveStagingLabel_not_movable {label toVersionId : String}
    {fromVersionId : Option String} (h : ¬Movable r label toVersionId fromVersionId) :
    ∃ e, r.moveStagingLabel m label toVersionId fromVersionId = .error e := by
  unfold moveStagingLabel
  by_cases hnone : (r.versions.get? toVersionId).isNone
  · exact ⟨_, if_pos hnone⟩
  · rw [if_neg hnone]
    refine ⟨_, if_pos ?_⟩
    by_contra hfrom
    refine h ⟨Option.ne_none_iff_exists'.mp fun heq => hnone (by rw [heq]; rfl), fun hsome => ?_⟩
    by_contra hne
    exact hfrom ⟨hsome, hne⟩

/-- The call brings `AWSCURRENT` and `AWSPREVIOUS` together, removes `AWSCURRENT`, or, with more
versions than the limit, takes the last label of one. -/
def UpdateSecretVersionStageInput.Strays (input : UpdateSecretVersionStageInput)
    (r : SecretRecord) : Prop :=
  match input.moveToVersionId, input.removeFromVersionId with
  | some toVid, fromVid =>
    Movable r input.versionStage toVid fromVid ∧ (Crosses r input.versionStage toVid ∨
      MAX_VERSIONS < r.versions.entries.length ∧ Strands r input.versionStage toVid)
  | none, some fromVid =>
    r.stagingLabels.get? input.versionStage = some fromVid ∧ (input.versionStage = AWSCURRENT ∨
      MAX_VERSIONS < r.versions.entries.length ∧ LastLabel r input.versionStage none)
  | none, none => False

theorem UpdateSecretVersionStageInput.edit_upheld_iff (input : UpdateSecretVersionStageInput)
    (h : Sound r.versions r.stagingLabels) :
    EditUpheld r (input.edit m r) ↔ ¬input.Strays r := by
  obtain ⟨secretId, label, moveTo, removeFrom⟩ := input
  unfold UpdateSecretVersionStageInput.edit UpdateSecretVersionStageInput.Strays
  dsimp only
  cases moveTo with
  | some toVid =>
      dsimp only
      by_cases hmovable : Movable r label toVid removeFrom
      · rw [moveStagingLabel_movable hmovable, and_iff_right hmovable]
        exact editUpheld_ok_iff.trans (kept_moved_iff h hmovable.1)
      · obtain ⟨e, he⟩ := moveStagingLabel_not_movable (m := m) hmovable
        rw [he]
        exact iff_of_true (editUpheld_refl h _) fun hand => hmovable hand.1
  | none =>
      cases removeFrom with
      | none => exact iff_of_true (editUpheld_refl h _) not_false
      | some fromVid =>
          dsimp only
          by_cases hheld : r.stagingLabels.get? label = some fromVid
          · rw [if_neg (not_not.mpr hheld), and_iff_right hheld]
            exact editUpheld_ok_iff.trans (kept_erased_iff h (by rw [hheld]; rfl))
          · rw [if_pos hheld]
            exact iff_of_true (editUpheld_refl h _) fun hand => hheld hand.1

/-! ## One call on the store -/

variable {store : SecretStore} {config : SecretsManagerConfig}

/-- All secrets are sound. -/
def StoreSound (store : SecretStore) : Prop :=
  ∀ name r, store.get? name = some r → Sound r.versions r.stagingLabels

/-- A call keeps every secret, in the sense of `Follows`, and a call that fails leaves the whole
store as it was. -/
def CallUpheld (store : SecretStore) (out : SecretStore × Answer) : Prop :=
  (∀ name r, store.get? name = some r → ∃ r', out.1.get? name = some r' ∧ Follows r r') ∧
    ∀ e, out.2 = .error e → out.1 = store

theorem callUpheld_refl (answer : Answer) : CallUpheld store (store, answer) :=
  ⟨fun _ r hr => ⟨r, hr, Follows.of_eq rfl rfl⟩, fun _ _ => rfl⟩

theorem getMut_ok {secretId name : String} {check : Except SecretsManagerError Unit}
    (h : getMut store m secretId check = .ok (name, r)) : store.get? name = some r := by
  unfold getMut at h
  obtain ⟨resolved, -, h⟩ := Except.bind_eq_ok.mp h
  obtain ⟨-, -, h⟩ := Except.bind_eq_ok.mp h
  cases hget : store.get? resolved with
  | none =>
      rw [hget] at h
      cases h
  | some record =>
      rw [hget] at h
      cases h
      exact hget

/-- A call on one record is upheld in the store exactly when it is on the record it finds. -/
theorem withRecord_upheld_iff (h : StoreSound store) {secretId : String}
    {check : Except SecretsManagerError Unit} {edit : SecretRecord → SecretRecord × Answer}
    {slips : SecretRecord → Prop}
    (hedit : ∀ r, Sound r.versions r.stagingLabels → (EditUpheld r (edit r) ↔ ¬slips r)) :
    StoreSound (withRecord store m secretId check edit).1 ∧
        CallUpheld store (withRecord store m secretId check edit) ↔
      ¬∃ name r, getMut store m secretId check = .ok (name, r) ∧ slips r := by
  unfold withRecord
  cases hfound : getMut store m secretId check with
  | error e =>
      refine iff_of_true ⟨h, callUpheld_refl _⟩ ?_
      rintro ⟨name, r, heq, -⟩
      cases heq
  | ok found =>
      obtain ⟨name, r⟩ := found
      have hr := getMut_ok hfound
      have hiff := hedit r (h name r hr)
      have hself : (store.insert name (edit r).1).get? name = some (edit r).1 := by
        rw [get?_insert_eq, if_pos rfl]
      dsimp only
      constructor
      · rintro ⟨hsound, hfollows, herror⟩ ⟨name', r', heq, hslips⟩
        cases heq
        refine hiff.mp ⟨⟨hsound name _ hself, ?_⟩, fun e he => ?_⟩ hslips
        · obtain ⟨r', hr', hfollow⟩ := hfollows name r hr
          rw [hself] at hr'
          cases hr'
          exact hfollow
        · have hsame : store.insert name (edit r).1 = store := herror e he
          rw [hsame, hr] at hself
          exact (Option.some.inj hself).symm
      · intro hnot
        obtain ⟨⟨hsound, hfollow⟩, herror⟩ := hiff.mpr fun hslips => hnot ⟨name, r, rfl, hslips⟩
        refine ⟨fun name' r' hr' => ?_, fun name' r' hr' => ?_, fun e he => ?_⟩
        · rw [get?_insert_eq] at hr'
          split at hr'
          · cases hr'
            exact hsound
          · exact h name' r' hr'
        · by_cases hname : name = name'
          · subst hname
            rw [hr] at hr'
            cases hr'
            exact ⟨_, hself, hfollow⟩
          · refine ⟨r', ?_, Follows.of_eq rfl rfl⟩
            rw [get?_insert_eq, if_neg hname, hr']
        · dsimp only
          rw [herror e he]
          exact insert_self hr

/-- A record of a new secret, with or without a first version. -/
theorem sound_firstVersion {input : CreateSecretInput} {versionId : Option String}
    (h : input.firstVersion config m = .ok (r, versionId)) : Sound r.versions r.stagingLabels := by
  have hempty : Sound (input.newRecord config m).versions
      (input.newRecord config m).stagingLabels :=
    ⟨fun _ _ hget => (by cases hget), fun _ _ hget => (by cases hget),
      fun _ hget => (by cases hget), Nat.zero_le _⟩
  unfold CreateSecretInput.firstVersion at h
  dsimp only at h
  split at h
  · cases hadd : (input.newRecord config m).addVersion m (input.clientRequestToken.getD m.uuid)
        input.secretString input.secretBinary [AWSCURRENT] m.now with
    | error e =>
        rw [hadd] at h
        cases h
    | ok r' =>
        rw [hadd] at h
        cases h
        exact ((kept_addVersion_iff hempty hadd).mpr (not_both_of_singleton _)).1
  · cases h
    exact hempty

theorem createSecret_upheld (h : StoreSound store) (input : CreateSecretInput) :
    StoreSound (handleCreateSecret config store m input).1 ∧
      CallUpheld store (handleCreateSecret config store m input) := by
  unfold handleCreateSecret
  split
  · exact ⟨h, callUpheld_refl _⟩
  · split
    · exact ⟨h, callUpheld_refl _⟩
    · rename_i hfree
      split
      · exact ⟨h, callUpheld_refl _⟩
      · rename_i record versionId hfirst
        refine ⟨fun name r hr => ?_, fun name r hr => ⟨r, ?_, Follows.of_eq rfl rfl⟩,
          fun e he => by cases he⟩
        · rw [get?_insert_eq] at hr
          split at hr
          · cases hr
            exact sound_firstVersion hfirst
          · exact h name r hr
        · rw [get?_insert_eq, if_neg, hr]
          rintro rfl
          exact hfree (by rw [hr]; rfl)

/-! ## Runs -/

/-- The calls that slip. -/
def Call.Slips (store : SecretStore) (m : Moment) : Call → Prop
  | .createSecret _ => False
  | .putSecretValue input => ∃ name r,
    getMut store m input.secretId (validateSecretValue input.secretString input.secretBinary) =
      .ok (name, r) ∧ input.Crosses m r
  | .updateSecret input => ∃ name r,
    getMut store m input.secretId (.ok ()) = .ok (name, r) ∧ input.LeavesMetadata m r
  | .updateSecretVersionStage input => ∃ name r,
    getMut store m input.secretId (.ok ()) = .ok (name, r) ∧ input.Strays r
  | .rotateSecret input => ∃ name r,
    getMut store m input.secretId (.ok ()) = .ok (name, r) ∧ input.LeavesConfiguration m r

theorem handle_upheld_iff (h : StoreSound store) (call : Call) :
    StoreSound (handle config store m call).1 ∧ CallUpheld store (handle config store m call) ↔
      ¬call.Slips store m := by
  cases call with
  | createSecret input => exact iff_of_true (createSecret_upheld h input) not_false
  | putSecretValue input => exact withRecord_upheld_iff h fun _ => input.edit_upheld_iff
  | updateSecret input => exact withRecord_upheld_iff h fun _ => input.edit_upheld_iff
  | updateSecretVersionStage input => exact withRecord_upheld_iff h fun _ => input.edit_upheld_iff
  | rotateSecret input => exact withRecord_upheld_iff h fun _ => input.edit_upheld_iff

/-- All stores of a run are sound, and every call is upheld. -/
def RunUpheld (config : SecretsManagerConfig) (store : SecretStore) : List (Moment × Call) → Prop
  | [] => StoreSound store
  | (m, call) :: calls => StoreSound store ∧ CallUpheld store (handle config store m call) ∧
    RunUpheld config (handle config store m call).1 calls

/-- No call of a run slips. -/
def RunSteady (config : SecretsManagerConfig) (store : SecretStore) : List (Moment × Call) → Prop
  | [] => True
  | (m, call) :: calls => ¬call.Slips store m ∧
    RunSteady config (handle config store m call).1 calls

theorem RunUpheld.sound {calls : List (Moment × Call)} (h : RunUpheld config store calls) :
    StoreSound store := by
  cases calls with
  | nil => exact h
  | cons call calls => exact h.1

theorem StoreSound.run_iff (h : StoreSound store) (calls : List (Moment × Call)) :
    RunUpheld config store calls ↔ RunSteady config store calls := by
  induction calls generalizing store with
  | nil => exact iff_of_true h trivial
  | cons call calls ih =>
      obtain ⟨m, call⟩ := call
      constructor
      · rintro ⟨-, hupheld, hrest⟩
        exact ⟨(handle_upheld_iff h call).mp ⟨hrest.sound, hupheld⟩, (ih hrest.sound).mp hrest⟩
      · rintro ⟨hsteady, hrest⟩
        obtain ⟨hsound, hupheld⟩ := (handle_upheld_iff h call).mpr hsteady
        exact ⟨h, hupheld, (ih hsound).mpr hrest⟩

/-- Labels and versions of every secret are as they should be, after every call and from call to
call, and failed calls leave no trace, exactly in the runs no call of which slips. -/
theorem run_upheld_iff_steady (config : SecretsManagerConfig) (calls : List (Moment × Call)) :
    RunUpheld config empty calls ↔ RunSteady config empty calls :=
  StoreSound.run_iff (fun _ _ hget => (by cases hget)) calls

/-! ## Calls that slip -/

def localConfig : SecretsManagerConfig where
  defaultRegion := "us-east-1"
  defaultAccountId := "000000000000"

def createDatabase : CreateSecretInput where
  name := "db"
  clientRequestToken := none
  description := some "old"
  kmsKeyId := none
  secretBinary := none
  secretString := some "one"
  tags := []

/-- `AWSCURRENT` goes to the version that holds it already. -/
def moveToHolder : UpdateSecretVersionStageInput where
  secretId := "db"
  versionStage := AWSCURRENT
  moveToVersionId := some "v1"
  removeFromVersionId := none

/-- A new description, and a value with a request token that is too short. -/
def updateWithShortToken : UpdateSecretInput where
  secretId := "db"
  clientRequestToken := some "short"
  description := some "new"
  kmsKeyId := none
  secretBinary := none
  secretString := some "two"

/-- The store with one secret, whose first version is `v1`. -/
def databaseStore : SecretStore :=
  (handle localConfig SortedMap.empty (plainMoment 0 "v1") (.createSecret createDatabase)).1

/-- Moving `AWSCURRENT` to its holder labels one version with `AWSCURRENT` and `AWSPREVIOUS`, and
an update that fails on its request token has changed the description. -/
theorem slips_not_upheld :
    ¬RunUpheld localConfig empty
      [(plainMoment 0 "v1", .createSecret createDatabase),
        (plainMoment 1 "v2", .updateSecretVersionStage moveToHolder)] ∧
    ¬RunUpheld localConfig empty
      [(plainMoment 0 "v1", .createSecret createDatabase),
        (plainMoment 1 "v2", .updateSecret updateWithShortToken)] := by
  constructor
  · rintro ⟨-, -, -, -, hsound⟩
    have hlabels : ((handle localConfig databaseStore (plainMoment 1 "v2")
        (.updateSecretVersionStage moveToHolder)).1.get? "db").map (fun r =>
          (r.stagingLabels.get? AWSCURRENT, r.stagingLabels.get? AWSPREVIOUS)) =
            some (some "v1", some "v1") := by
      decide +kernel
    obtain ⟨r, hr, heq⟩ := Option.map_eq_some_iff.mp hlabels
    obtain ⟨hcurrent, hprevious⟩ := Prod.mk.inj heq
    exact (hsound "db" r hr).uncrossed "v1" hprevious hcurrent
  · rintro ⟨-, -, -, ⟨-, herror⟩, -⟩
    have hfails : (handle localConfig databaseStore (plainMoment 1 "v2")
        (.updateSecret updateWithShortToken)).2 =
          .error (invalidParameter "ClientRequestToken must be 32-64 characters long.") := by
      decide +kernel
    have hdescription : ((handle localConfig databaseStore (plainMoment 1 "v2")
        (.updateSecret updateWithShortToken)).1.get? "db").bind (·.description) =
          some "new" := by
      decide +kernel
    have hbefore : (databaseStore.get? "db").bind (·.description) = some "old" := by
      decide +kernel
    have hsame : (handle localConfig databaseStore (plainMoment 1 "v2")
        (.updateSecret updateWithShortToken)).1 = databaseStore := herror _ hfails
    rw [hsame, hbefore] at hdescription
    exact absurd hdescription (by decide)

end Rustack.Secrets
