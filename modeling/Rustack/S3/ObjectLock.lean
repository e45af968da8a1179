import Rustack.S3.VersionBodies

/-!
# Object Lock

In a bucket with versions, a version is only ever deleted by a request that its
lock allows, and only its metadata changes, by the rules for retention and legal
hold, along every run that does not go around the lock at this very version.
From this follow the promises of the lock.
-/

namespace Rustack.S3

open RustackS3 List Contents ObjectVersion

variable {deadline : DateTime} {m : ObjectMetadata} {op : S3Op}

/-- At most one of the versions has the id. -/
def SingleId (id : String) (versions : List ObjectVersion) : Prop :=
  versions.Pairwise fun v w => v.versionId = id → w.versionId ≠ id

/-- A version of a key in a bucket with versions, and the only one with its id. -/
def VersionAt (s : RustackS3) (name key : String) (object : S3Object) : Prop :=
  ∃ bucket, s.state.buckets.lookup name = some bucket ∧ bucket.objects.isVersioned = true ∧
    .object object ∈ bucket.objects.versionsOf key ∧
    SingleId object.versionId (bucket.objects.versionsOf key)

/-- The step does not go around the lock of a version: no object takes its null id while
versioning is suspended, its tags and access list stay, and its bucket is not to be deleted. -/
structure Gentle (env : S3Env) (name key id : String) (now : DateTime) (s : RustackS3)
    (op : S3Op) : Prop where
  notSuspended : ∀ w bucket, written env now s op = some w → w.bucket = name → w.key = key →
    id = "null" → s.state.buckets.lookup name = some bucket → bucket.versioning ≠ .suspended
  reinserts : ∀ versionId bucket object, op.reinserts = some (name, key, versionId) →
    s.state.buckets.lookup name = some bucket →
    lookupSource bucket.objects key versionId = .ok object → object.versionId ≠ id
  stays : op ≠ .deleteBucket name

/-- A retention in a mode that has not expired. -/
def Unexpired (now : DateTime) (mode : String) (m : ObjectMetadata) : Prop :=
  m.objectLockMode = some mode ∧ ∃ deadline, m.objectLockRetainUntil = some deadline ∧
    now < deadline

/-- A legal hold, or a retention that no one may bypass. -/
def Locked (now : DateTime) (m : ObjectMetadata) : Prop :=
  m.objectLockLegalHold = some true ∨ Unexpired now "COMPLIANCE" m

/-- The lock lets a version be deleted. -/
def LockAllows (now : DateTime) (m : ObjectMetadata) (bypass : Bool) : Prop :=
  m.objectLockLegalHold ≠ some true ∧ ∀ deadline, m.objectLockRetainUntil = some deadline →
    now < deadline → m.objectLockMode = some "GOVERNANCE" ∧ bypass = true

/-- The request carries the permission to bypass a GOVERNANCE retention. -/
def S3Op.bypass : S3Op → Bool
  | .deleteObject input => input.bypassGovernanceRetention.getD false
  | .deleteObjects input => input.bypassGovernanceRetention.getD false
  | .putObjectRetention input => input.bypassGovernanceRetention.getD false
  | _ => false

/-- What a call may do to the metadata of a version. -/
inductive MetadataChange (now : DateTime) : S3Op → ObjectMetadata → ObjectMetadata → Prop where
  | same (op : S3Op) (m : ObjectMetadata) : MetadataChange now op m m
  | retention (input : PutObjectRetentionInput) (m : ObjectMetadata)
      (h : checkRetentionChange now m input.retention
        (input.bypassGovernanceRetention.getD false) = .ok ()) :
      MetadataChange now (.putObjectRetention input) m (setRetention input.retention m)
  | legalHold (input : PutObjectLegalHoldInput) (status : ObjectLockLegalHoldStatus)
      (m : ObjectMetadata) (hstatus : input.status = some status) :
      MetadataChange now (.putObjectLegalHold input) m
        { m with objectLockLegalHold := some (status == .on) }

/-! ## What the checks mean -/

theorem lockAllows_of_check {now : DateTime} {store : ObjectStore} {key : String}
    {object : S3Object} {bypass : Bool}
    (hget : store.getVersion key object.versionId = some object)
    (h : checkObjectLockForDelete now store key object.versionId bypass = .ok ()) :
    LockAllows now object.metadata bypass := by
  unfold checkObjectLockForDelete at h
  rw [hget] at h
  dsimp only at h
  split at h
  · cases h
  · next hhold =>
      refine ⟨hhold, fun deadline hdeadline hnow => ?_⟩
      rw [hdeadline] at h
      dsimp only at h
      split at h
      · cases h
      · next hnot => exact not_not.mp fun hmode => hnot ⟨hnow, hmode⟩

/-- A change of a retention that has not expired does not shorten it, unless it is no COMPLIANCE
retention and may be bypassed. -/
theorem deadline_of_check {now : DateTime} {retention : Option ObjectLockRetention} {bypass : Bool}
    (hdeadline : m.objectLockRetainUntil = some deadline) (hnow : now < deadline)
    (hno : m.objectLockMode = some "COMPLIANCE" ∨ bypass = false)
    (h : checkRetentionChange now m retention bypass = .ok ()) :
    ∃ new, retention.bind ObjectLockRetention.retainUntilDate = some new ∧ deadline ≤ new := by
  unfold checkRetentionChange at h
  rw [hdeadline] at h
  dsimp only at h
  rw [if_pos hnow] at h
  cases hdate : retention.bind ObjectLockRetention.retainUntilDate with
  | none =>
      rw [hdate] at h
      dsimp only at h
      by_cases hmode : m.objectLockMode = some "COMPLIANCE"
      · rw [if_pos hmode, if_pos (Or.inr rfl)] at h
        cases h
      · rw [if_neg hmode, if_pos ⟨rfl, hno.resolve_left hmode⟩] at h
        cases h
  | some new =>
      rw [hdate] at h
      dsimp only at h
      refine ⟨new, rfl, not_lt.mp fun hlt => ?_⟩
      by_cases hmode : m.objectLockMode = some "COMPLIANCE"
      · rw [if_pos hmode, if_pos (Or.inr (decide_eq_true hlt))] at h
        cases h
      · rw [if_neg hmode, if_pos ⟨decide_eq_true hlt, hno.resolve_left hmode⟩] at h
        cases h

theorem mode_of_check {now : DateTime} {retention : Option ObjectLockRetention} {bypass : Bool}
    (hdeadline : m.objectLockRetainUntil = some deadline) (hnow : now < deadline)
    (hmode : m.objectLockMode = some "COMPLIANCE")
    (h : checkRetentionChange now m retention bypass = .ok ()) :
    retention.bind ObjectLockRetention.mode = some .compliance := by
  unfold checkRetentionChange at h
  rw [hdeadline] at h
  dsimp only at h
  rw [if_pos hnow, if_pos hmode] at h
  by_contra hother
  rw [if_pos (Or.inl hother)] at h
  cases h

/-- The date of a retention that has not expired only moves to later dates, unless it is no
COMPLIANCE retention and may be bypassed. -/
theorem deadline_of_change {now : DateTime} {m' : ObjectMetadata} (h : MetadataChange now op m m')
    (hdeadline : m.objectLockRetainUntil = some deadline) (hnow : now < deadline)
    (hno : m.objectLockMode = some "COMPLIANCE" ∨ op.bypass = false) :
    ∃ deadline', m'.objectLockRetainUntil = some deadline' ∧ deadline ≤ deadline' := by
  cases h with
  | same | legalHold => exact ⟨deadline, hdeadline, le_rfl⟩
  | retention input _ h =>
      obtain ⟨new, hnew, hle⟩ := deadline_of_check hdeadline hnow hno h
      refine ⟨new, ?_, hle⟩
      cases hretention : input.retention with
      | none =>
          rw [hretention] at hnew
          cases hnew
      | some ret =>
          rw [hretention] at hnew
          exact hnew

theorem mode_of_change {now : DateTime} {m' : ObjectMetadata} (h : MetadataChange now op m m')
    (hdeadline : m.objectLockRetainUntil = some deadline) (hnow : now < deadline)
    (hmode : m.objectLockMode = some "COMPLIANCE") : m'.objectLockMode = some "COMPLIANCE" := by
  cases h with
  | same => exact hmode
  | legalHold input status _ _ => exact hmode
  | retention input _ h =>
      have hnew := mode_of_check hdeadline hnow hmode h
      cases hretention : input.retention with
      | none =>
          rw [hretention] at hnew
          cases hnew
      | some ret =>
          rw [hretention] at hnew
          exact congrArg (Option.map ObjectLockMode.asStr) hnew

/-! ## What a step does to a version -/

/-- As `VersionAt`, of the contents. -/
structure Contents.Has (c : Contents) (name key : String) (object : S3Object) : Prop where
  mem : .object object ∈ c.versionsOf name key
  single : SingleId object.versionId (c.versionsOf name key)
  versioned : ∃ versioning, c.kind name = some (versioning, true)

theorem versionAt_iff {s : RustackS3} {name key : String} {object : S3Object} :
    VersionAt s name key object ↔ s.contents.Has name key object := by
  constructor
  · rintro ⟨bucket, hbucket, hversioned, hmem, hsingle⟩
    have hshelf := Effect.shelves_of_lookup hbucket
    have hversions : s.contents.versionsOf name key = bucket.objects.versionsOf key :=
      versionsOf_of_shelf hshelf
    refine ⟨hversions ▸ hmem, hversions ▸ hsingle, bucket.versioning, ?_⟩
    rw [kind_of_shelf hshelf]
    exact congrArg (fun b => some (bucket.versioning, b)) hversioned
  · rintro ⟨hmem, hsingle, versioning, hkind⟩
    obtain ⟨shelf, hshelf, heq⟩ := Option.map_eq_some_iff.mp hkind
    obtain ⟨bucket, hbucket, rfl⟩ := exists_lookup hshelf
    rw [versionsOf_of_shelf hshelf] at hmem hsingle
    exact ⟨bucket, hbucket, congrArg Prod.snd heq, hmem, hsingle⟩

namespace Contents.Has

variable {c : Contents} {name key : String} {object : S3Object} {shelf : Shelf}

theorem eq_of_versionId_eq (h : c.Has name key object) :
    ∀ v ∈ c.versionsOf name key, v.versionId = object.versionId → v = .object object := by
  intro v hv hid
  have hsymm : Std.Symm fun v w : ObjectVersion =>
      v.versionId = object.versionId → w.versionId ≠ object.versionId :=
    ⟨fun _ _ h hw hv => h hv hw⟩
  by_contra hne
  exact h.single.forall hv h.mem hne hid rfl

theorem isVersioned (h : c.Has name key object) (hshelf : c.shelves name = some shelf) :
    shelf.objects.isVersioned = true := by
  obtain ⟨versioning, hkind⟩ := h.versioned
  rw [kind_of_shelf hshelf] at hkind
  exact congrArg Prod.snd (Option.some.inj hkind)

/-- Another version in front has another id. -/
theorem cons {v : ObjectVersion} (h : c.Has name key object)
    (hid : v.versionId ≠ object.versionId) :
    SingleId object.versionId (v :: c.versionsOf name key) :=
  pairwise_cons.mpr ⟨fun _ _ heq => absurd heq hid, h.single⟩

end Contents.Has

/-- A version stays with its body and all but its metadata. -/
structure Keeps (c c' : Contents) (name key : String) (object object' : S3Object) : Prop where
  has : c'.Has name key object'
  same : { object with metadata := object'.metadata } = object'
  body : c'.bodies (name, key, object.versionId) = c.bodies (name, key, object.versionId)

namespace Keeps

variable {env : S3Env} {now : DateTime} {c c' c'' : Contents} {name key bucket : String}
  {object object' object'' : S3Object} {shelf : Shelf}
  {supplied : String × String × String → Option Written}

theorem trans (h : Keeps c c' name key object object')
    (h' : Keeps c' c'' name key object' object'') : Keeps c c'' name key object object'' where
  has := h'.has
  same := by
    rw [← h'.same, ← h.same]
  body := by
    have hid : object'.versionId = object.versionId := by rw [← h.same]
    rw [← hid, h'.body, hid, h.body]

theorem of_slot (hhas : c.Has name key object) (hkind : c'.kind name = c.kind name)
    (hslot : c'.slot name key = c.slot name key) : Keeps c c' name key object object where
  has := by
    have hversions : c'.versionsOf name key = c.versionsOf name key :=
      congrArg Slot.versions hslot
    exact ⟨hversions ▸ hhas.mem, hversions ▸ hhas.single, hkind ▸ hhas.versioned⟩
  same := rfl
  body := congrFun (congrArg Slot.body hslot) object.versionId

/-- A delete takes a version away only if its lock allows it. -/
theorem of_deletion {bypass : Bool} (hfresh : FreshIds env) (hinv : Inv False env c supplied)
    (hhas : c.Has name key object) (hdelete : Deletion env now bypass bucket c c') :
    LockAllows now object.metadata bypass ∨ Keeps c c' name key object object := by
  cases hdelete with
  | version place versionId shelf hshelf hlock =>
      have hkind : (c.removeVersion bucket place versionId).kind name = c.kind name :=
        kind_removeVersion bucket place versionId
      have hslot : (c.removeVersion bucket place versionId).slot name key = _ :=
        slot_removeVersion hshelf (hinv.nullIds hshelf) place versionId
      split at hslot
      · next hplace =>
          obtain ⟨rfl, rfl⟩ := hplace
          have hversions : c.versionsOf name key = _ := versionsOf_of_shelf hshelf
          by_cases hid : object.versionId = versionId
          · left
            have honly := hhas.eq_of_versionId_eq
            have hmem := hhas.mem
            rw [hversions] at honly hmem
            refine lockAllows_of_check (getVersion_of_mem ?_ honly hmem) (hid ▸ hlock)
            exact fun hno => hinv.nullIds hshelf hno key _ hmem
          · right
            have hafter : (c.removeVersion name key versionId).versionsOf name key = _ :=
              congrArg Slot.versions hslot
            refine ⟨⟨?_, ?_, hkind ▸ hhas.versioned⟩, rfl, ?_⟩
            · rw [hafter]
              refine (mem_eraseP_of_neg fun htest => ?_).mpr hhas.mem
              exact hid (of_decide_eq_true htest)
            · rw [hafter]
              exact hhas.single.sublist eraseP_sublist
            · have hbody := congrFun (congrArg Slot.body hslot) object.versionId
              refine hbody.trans ?_
              unfold Slot.remove
              dsimp only
              split
              · exact Function.update_of_ne hid _ _
              · rfl
      · exact Or.inr (of_slot hhas hkind hslot)
  | latest place shelf hshelf =>
      right
      have hkind : (c.removeLatest env now bucket place).kind name = c.kind name :=
        kind_removeLatest bucket place
      cases hstore : shelf.objects.isVersioned with
      | true =>
          have hslot : (c.removeLatest env now bucket place).slot name key = _ :=
            slot_removeLatest_versioned hshelf hstore place
          split at hslot
          · have hafter : (c.removeLatest env now bucket place).versionsOf name key = _ :=
              congrArg Slot.versions hslot
            have hne := (hinv.slots name key).ne_fresh hfresh le_rfl _ hhas.mem
            refine ⟨⟨?_, ?_, hkind ▸ hhas.versioned⟩, rfl,
              congrFun (congrArg Slot.body hslot) object.versionId⟩
            · rw [hafter]
              exact .tail _ hhas.mem
            · rw [hafter]
              exact hhas.cons hne.symm
          · exact of_slot hhas hkind hslot
      | false =>
          have hslot : (c.removeLatest env now bucket place).slot name key = _ :=
            slot_removeLatest_unversioned hshelf hstore place
          split at hslot
          · next hplace =>
              rw [hhas.isVersioned (hplace.1 ▸ hshelf)] at hstore
              cases hstore
          · exact of_slot hhas hkind hslot

theorem of_deletions {bypass : Bool} (hfresh : FreshIds env) (hinv : Inv False env c supplied)
    (hhas : c.Has name key object)
    (hdeletes : Relation.ReflTransGen (Deletion env now bypass bucket) c c') :
    LockAllows now object.metadata bypass ∨ Keeps c c' name key object object := by
  induction hdeletes with
  | refl => exact Or.inr (of_slot hhas rfl rfl)
  | tail hfirst hdelete ih =>
      rcases ih with hallows | hkeeps
      · exact Or.inl hallows
      · have hinv' := hinv.deletions hfresh hfirst
        exact (of_deletion hfresh hinv' hkeeps.has hdelete).imp_right hkeeps.trans

/-- A change in place of the object that is found. -/
theorem of_update {versionId : Option String} {place : String} {found : S3Object}
    {f : ObjectMetadata → ObjectMetadata} (hinv : Inv False env c supplied)
    (hhas : c.Has name key object) (hshelf : c.shelves bucket = some shelf)
    (hfound : lookupSource shelf.objects place versionId = .ok found) :
    Keeps c (c.update bucket place versionId f) name key object object ∨
      object = found ∧ Keeps c (c.update bucket place versionId f) name key object
        { object with metadata := f object.metadata } := by
  have hkind : (c.update bucket place versionId f).kind name = c.kind name :=
    kind_update bucket place versionId f
  have hslot : (c.update bucket place versionId f).slot name key = _ :=
    slot_update hshelf (hinv.nullIds hshelf) place versionId f
  split at hslot
  · next hplace =>
      obtain ⟨rfl, rfl⟩ := hplace
      have hfoundAt := getElem?_placeOf (hhas.isVersioned hshelf) hfound
      rw [← versionsOf_of_shelf hshelf] at hfoundAt
      obtain ⟨i, hi⟩ := mem_iff_getElem?.mp hhas.mem
      have hbody := congrFun (congrArg Slot.body hslot) object.versionId
      have hafter : (c.update name key versionId f).versionsOf name key = _ :=
        congrArg Slot.versions hslot
      have hget := Slot.Faithful.getElem?_mapAt (c.slot name key)
        (placeOf (c.slot name key).versions versionId) i f
      have hids := Slot.Faithful.map_versionId_mapAt (c.slot name key)
        (placeOf (c.slot name key).versions versionId) f
      rw [← hafter] at hget hids
      -- The ids are the same, so that still only one version has this one.
      have hsingle : SingleId object.versionId
          ((c.update name key versionId f).versionsOf name key) := by
        refine (pairwise_map (f := ObjectVersion.versionId)
          (R := fun a b => a = object.versionId → b ≠ object.versionId)).mp ?_
        rw [hids]
        exact pairwise_map.mpr hhas.single
      change _ = Option.map _ (c.versionsOf name key)[i]? at hget
      rw [hi, Option.map_some] at hget
      split at hget
      · next hidx =>
          have hsame : (c.versionsOf name key)[i]? = some (.object found) := hidx ▸ hfoundAt
          rw [hi] at hsame
          cases hsame
          exact Or.inr ⟨rfl, ⟨mem_of_getElem? hget, hsingle, hkind ▸ hhas.versioned⟩, rfl,
            hbody⟩
      · exact Or.inl ⟨⟨mem_of_getElem? hget, hsingle, hkind ▸ hhas.versioned⟩, rfl, hbody⟩
  · exact Or.inl (of_slot hhas hkind hslot)

/-- Turning versioning on or off leaves a store with versions one. -/
theorem of_mapShelf {f : Shelf → Shelf} (hhas : c.Has name key object)
    (hf : ∀ shelf, shelf.objects.isVersioned = true → (f shelf).objects.isVersioned = true)
    (hslot : (c.mapShelf bucket f).slot name key = c.slot name key) :
    Keeps c (c.mapShelf bucket f) name key object object := by
  have hversions : (c.mapShelf bucket f).versionsOf name key = c.versionsOf name key :=
    congrArg Slot.versions hslot
  refine ⟨⟨hversions ▸ hhas.mem, hversions ▸ hhas.single, ?_⟩, rfl,
    congrFun (congrArg Slot.body hslot) object.versionId⟩
  obtain ⟨versioning, hkind⟩ := hhas.versioned
  rw [kind_mapShelf]
  split
  · obtain ⟨shelf, hshelf, heq⟩ := Option.map_eq_some_iff.mp hkind
    rw [hshelf]
    refine ⟨(f shelf).versioning, congrArg some (Prod.ext rfl ?_)⟩
    exact hf shelf (congrArg Prod.snd heq)
  · exact ⟨versioning, hkind⟩

/-- An object that is put next to a version, under another id or a null one. -/
theorem of_reinsert {new : S3Object} (hfresh : FreshIds env) (hinv : Inv False env c supplied)
    (hhas : c.Has name key object) (hshelf : c.shelves bucket = some shelf)
    (hother : name = bucket → key = new.key → new.versionId ≠ "null" →
      new.versionId ≠ object.versionId) :
    Keeps c (c.reinsert env bucket new) name key object object := by
  have hkind : (c.reinsert env bucket new).kind name = c.kind name :=
    kind_reinsert bucket new
  have hslot : (c.reinsert env bucket new).slot name key = _ := slot_reinsert hshelf
  split at hslot
  · next hplace =>
      obtain ⟨rfl, rfl⟩ := hplace
      rw [versionsOf_put_versioned _ (hhas.isVersioned hshelf),
        ← versionsOf_of_shelf hshelf] at hslot
      have hafter : (c.reinsert env name new).versionsOf name new.key = _ :=
        congrArg Slot.versions hslot
      refine ⟨⟨?_, ?_, hkind ▸ hhas.versioned⟩, rfl,
        congrFun (congrArg Slot.body hslot) object.versionId⟩
      · rw [hafter]
        exact .tail _ hhas.mem
      · rw [hafter]
        refine hhas.cons ?_
        change S3Object.versionId (if _ then _ else _) ≠ object.versionId
        split
        · exact ((hinv.slots name new.key).ne_fresh hfresh (Nat.le_succ _) _ hhas.mem).symm
        · next hnull => exact hother rfl rfl hnull
  · exact of_slot hhas hkind hslot

theorem of_write {stored : StoredData} {new : S3Object} (hfresh : FreshIds env)
    (hinv : Inv False env c supplied) (hhas : c.Has name key object)
    (hshelf : c.shelves bucket = some shelf) (hid : new.versionId = shelf.newId env c.drawn)
    (hnull : name = bucket → key = new.key → object.versionId = "null" →
      shelf.versioning ≠ .suspended) :
    Keeps c (c.write env bucket new stored) name key object object := by
  have hother : name = bucket → key = new.key → new.versionId ≠ object.versionId := by
    rintro rfl hkey
    rw [hid, Shelf.newId]
    split
    · exact ((hinv.slots name key).ne_fresh hfresh le_rfl _ hhas.mem).symm
    · next hnotEnabled =>
        have hdisabled := (hinv.kinds name _ _ (kind_of_shelf hshelf)).mp
          (hhas.isVersioned hshelf)
        intro heq
        have hnotSuspended := hnull rfl hkey heq.symm
        cases hversioning : shelf.versioning with
        | disabled => exact hdisabled hversioning
        | enabled => exact hnotEnabled hversioning
        | suspended => exact hnotSuspended hversioning
  have hbody : Keeps c (c.setBody (bucket, new.key, new.versionId) (some stored)) name key
      object object := by
    refine ⟨⟨hhas.mem, hhas.single, hhas.versioned⟩, rfl, Function.update_of_ne ?_ _ _⟩
    intro heq
    obtain ⟨hname, hkey, hid⟩ := Prod.mk.inj heq |>.imp_right Prod.mk.inj
    exact hother hname hkey hid.symm
  have hinv' : Inv False env (c.setBody (bucket, new.key, new.versionId) (some stored)) supplied :=
    hinv.setBody id _ _
  exact hbody.trans (of_reinsert hfresh hinv' hbody.has hshelf fun hname hkey _ =>
    hother hname hkey)

end Keeps

/-- A gentle step deletes a version only if its lock allows it; else the version stays, and its
metadata changes by the rules. -/
theorem version_step {env : S3Env} {now : DateTime} {t : Trace} {name key : String}
    {object : S3Object} (hfresh : FreshIds env) (hinv : Inv False env t.service.contents t.supplied)
    (hhas : t.service.contents.Has name key object)
    (hop : Gentle env name key object.versionId now t.service op) :
    LockAllows now object.metadata op.bypass ∨ ∃ object',
      Keeps t.service.contents (t.service.step env now op).contents name key object object' ∧
        MetadataChange now op object.metadata object'.metadata := by
  have heffect := step_effect env now t.service op
  generalize (t.service.step env now op).contents = c at heffect ⊢
  have hstays : ∀ bucket, op = .deleteBucket bucket → name ≠ bucket := by
    rintro bucket hdelete rfl
    exact hop.stays hdelete
  cases heffect with
  | quiet _ drawn _ => exact Or.inr ⟨object, .of_slot hhas rfl rfl, .same _ _⟩
  | create input howner =>
      have hnone : t.service.contents.shelves input.bucket = none :=
        Option.map_eq_none_iff.mp (hinv.owners input.bucket howner)
      have hother : name ≠ input.bucket := by
        rintro rfl
        have hmem := hhas.mem
        rw [versionsOf_of_none hnone] at hmem
        exact absurd hmem not_mem_nil
      obtain ⟨hempty, _⟩ := createdBucket_shelf env now input
      refine Or.inr ⟨object, .of_slot hhas ?_ (slot_create input.bucket hnone hempty),
        .same _ _⟩
      exact congrArg (Option.map _) (Function.update_of_ne hother _ _)
  | refuse bucket _ =>
      have hslot : (t.service.contents.dropBodies bucket).slot name key = _ :=
        slot_dropBodies bucket
      rw [if_neg (hstays bucket rfl)] at hslot
      exact Or.inr ⟨object, .of_slot hhas rfl hslot, .same _ _⟩
  | destroy bucket _ =>
      have hslot : (t.service.contents.destroy bucket).slot name key = _ :=
        slot_destroy bucket
      rw [if_neg (hstays bucket rfl)] at hslot
      refine Or.inr ⟨object, .of_slot hhas ?_ hslot, .same _ _⟩
      exact congrArg (Option.map _) (Function.update_of_ne (hstays bucket rfl) _ _)
  | enable _ bucket _ =>
      refine Or.inr ⟨object, .of_mapShelf hhas (fun shelf h => ?_) (slot_enable bucket),
        .same _ _⟩
      unfold Shelf.enable
      split
      · exact shelf.objects.isVersioned_transitionToVersioned
      · exact h
  | suspend _ bucket _ =>
      refine Or.inr ⟨object, .of_mapShelf hhas (fun shelf h => ?_) (slot_suspend bucket),
        .same _ _⟩
      unfold Shelf.suspend
      split <;> exact h
  | write _ w shelf new body hwritten hshelf hkey hid hetag hsize hbody =>
      obtain ⟨b, hbucket, rfl⟩ := exists_lookup hshelf
      refine Or.inr ⟨object, .of_write hfresh hinv hhas hshelf hid ?_, .same _ _⟩
      rintro rfl rfl hnull
      exact hop.notSuspended w b hwritten rfl hkey.symm hnull hbucket
  | reinsert _ bucket place versionId shelf found f hreinserts _ hshelf hobject =>
      obtain ⟨b, hbucket, rfl⟩ := exists_lookup hshelf
      refine Or.inr ⟨object, .of_reinsert hfresh hinv hhas hshelf ?_, .same _ _⟩
      rintro rfl hkey _
      have hmem := mem_of_getElem? (getElem?_placeOf (hhas.isVersioned hshelf) hobject)
      have hplace : key = place := hkey.trans (ObjectStore.key_of_mem_versionsOf hmem)
      cases hplace
      exact hop.reinserts versionId b found hreinserts hbucket hobject
  | retention input shelf found hshelf hobject hchange =>
      rcases Keeps.of_update (f := setRetention input.retention) hinv hhas hshelf hobject with
        hkeeps | ⟨rfl, hkeeps⟩
      · exact Or.inr ⟨object, hkeeps, .same _ _⟩
      · exact Or.inr ⟨_, hkeeps, .retention input _ hchange⟩
  | legalHold input status shelf found hshelf hobject hstatus =>
      rcases Keeps.of_update (f := fun m => { m with objectLockLegalHold := some (status == .on) })
        hinv hhas hshelf hobject with hkeeps | ⟨rfl, hkeeps⟩
      · exact Or.inr ⟨object, hkeeps, .same _ _⟩
      · exact Or.inr ⟨_, hkeeps, .legalHold input status _ hstatus⟩
  | delete input _ hdelete =>
      exact (Keeps.of_deletion hfresh hinv hhas hdelete).imp_right
        fun hkeeps => ⟨object, hkeeps, .same _ _⟩
  | deletes input _ hdeletes =>
      exact (Keeps.of_deletions hfresh hinv hhas hdeletes).imp_right
        fun hkeeps => ⟨object, hkeeps, .same _ _⟩

/-! ## Along runs -/

/-- The steps from one state of a run to a later one, each made under a condition. -/
inductive Trace.Steps (env : S3Env) (condition : DateTime → RustackS3 → S3Op → Prop)
    (t : Trace) : Trace → Prop where
  | refl : Steps env condition t t
  | step {t' : Trace} (now : DateTime) (op : S3Op) (h : Steps env condition t t')
      (hcondition : condition now t'.service op) : Steps env condition t (t'.step env now op)

theorem Trace.Steps.mono {env : S3Env} {p q : DateTime → RustackS3 → S3Op → Prop} {t t' : Trace}
    (hpq : ∀ now s op, p now s op → q now s op) (h : t.Steps env p t') : t.Steps env q t' := by
  induction h with
  | refl => exact .refl
  | step now op _ hp ih => exact .step now op ih (hpq now _ op hp)

theorem Trace.Run.steps {env : S3Env} {maxMemorySize : ℕ}
    {allowed : DateTime → RustackS3 → S3Op → Prop} {t t' : Trace}
    (hrun : t.Run env maxMemorySize allowed) (h : t.Steps env allowed t') :
    t'.Run env maxMemorySize allowed := by
  induction h with
  | refl => exact hrun
  | step now op _ hop ih => exact .step now op ih hop

/-- A version is still there, with its body and all but its metadata. -/
structure StillThere (t t' : Trace) (name key : String) (object object' : S3Object) : Prop where
  versionAt : VersionAt t'.service name key object'
  same : { object with metadata := object'.metadata } = object'
  body : t'.service.storage.objects.lookup (name, key, object.versionId) =
    t.service.storage.objects.lookup (name, key, object.versionId)

theorem Keeps.stillThere {t t' : Trace} {name key : String} {object object' : S3Object}
    (h : Keeps t.service.contents t'.service.contents name key object object') :
    StillThere t t' name key object object' :=
  ⟨versionAt_iff.mpr h.has, h.same, h.body⟩

theorem StillThere.trans {t t' t'' : Trace} {name key : String}
    {object object' object'' : S3Object} (h : StillThere t t' name key object object')
    (h' : StillThere t' t'' name key object' object'') :
    StillThere t t'' name key object object'' := by
  have hid : object'.versionId = object.versionId := by rw [← h.same]
  refine ⟨h'.versionAt, ?_, ?_⟩
  · rw [← h'.same, ← h.same]
  · rw [← hid, h'.body, hid, h.body]

section

variable {env : S3Env} {maxMemorySize : ℕ} {t t' : Trace} {name key : String} {object : S3Object}

/-- What one gentle step does to a version. -/
theorem stillThere_step {now : DateTime} (hfresh : FreshIds env)
    (hrun : t.Run env maxMemorySize fun _ _ _ => True) (hat : VersionAt t.service name key object)
    (hop : Gentle env name key object.versionId now t.service op) :
    LockAllows now object.metadata op.bypass ∨ ∃ object',
      StillThere t (t.step env now op) name key object object' ∧
        MetadataChange now op object.metadata object'.metadata :=
  (version_step hfresh (inv_run hfresh False.elim hrun) (versionAt_iff.mp hat) hop).imp_right
    fun ⟨object', hkeeps, hchange⟩ => ⟨object', hkeeps.stillThere, hchange⟩

theorem not_lockAllows_of_locked {now : DateTime} {bypass : Bool} (hlocked : Locked now m) :
    ¬ LockAllows now m bypass := by
  rintro ⟨hnoHold, hretention⟩
  rcases hlocked with hhold | ⟨hmode, deadline, hdeadline, hnow⟩
  · exact hnoHold hhold
  · have hgovernance := (hretention deadline hdeadline hnow).1
    rw [hmode] at hgovernance
    exact absurd (Option.some.inj hgovernance) (by decide)

/-- A version that is locked at every step stays. -/
theorem stillThere_of_locked (hfresh : FreshIds env)
    (hrun : t.Run env maxMemorySize fun _ _ _ => True) (hat : VersionAt t.service name key object)
    (hsteps : t.Steps env (fun now s op => Gentle env name key object.versionId now s op ∧
      ∃ locked, VersionAt s name key locked ∧ locked.versionId = object.versionId ∧
        Locked now locked.metadata) t') :
    ∃ object', StillThere t t' name key object object' := by
  induction hsteps with
  | refl => exact ⟨object, hat, rfl, rfl⟩
  | step now op h hcondition ih =>
      obtain ⟨object', hthere⟩ := ih
      obtain ⟨hop, locked, hlockedAt, hid, hlocked⟩ := hcondition
      have hrun' := hrun.steps (h.mono fun _ _ _ _ => trivial)
      have hsameId : object'.versionId = object.versionId := by
        rw [← hthere.same]
      have hsame : ObjectVersion.object locked = .object object' :=
        (versionAt_iff.mp hthere.versionAt).eq_of_versionId_eq _ (versionAt_iff.mp hlockedAt).mem
          (hid.trans hsameId.symm)
      cases hsame
      rcases stillThere_step hfresh hrun' hthere.versionAt (hsameId ▸ hop) with
        hallows | ⟨object'', h', _⟩
      · exact absurd hallows (not_lockAllows_of_locked hlocked)
      · exact ⟨object'', hthere.trans h'⟩

/-- A retention is not cut short before its date by steps that may not bypass it. -/
theorem stillThere_of_retention (hfresh : FreshIds env)
    (hrun : t.Run env maxMemorySize fun _ _ _ => True) (hat : VersionAt t.service name key object)
    (hdeadline : object.metadata.objectLockRetainUntil = some deadline)
    (hsteps : t.Steps env (fun now s op => Gentle env name key object.versionId now s op ∧
      now < deadline ∧
      (object.metadata.objectLockMode = some "COMPLIANCE" ∨ op.bypass = false)) t') :
    ∃ object' deadline', StillThere t t' name key object object' ∧
      object'.metadata.objectLockRetainUntil = some deadline' ∧ deadline ≤ deadline' ∧
      (object.metadata.objectLockMode = some "COMPLIANCE" →
        object'.metadata.objectLockMode = some "COMPLIANCE") := by
  induction hsteps with
  | refl => exact ⟨object, deadline, ⟨hat, rfl, rfl⟩, hdeadline, le_rfl, id⟩
  | step now op h hcondition ih =>
      obtain ⟨object', deadline', hthere, hdate, hle, hmode⟩ := ih
      obtain ⟨hop, hnow, hno⟩ := hcondition
      have hrun' := hrun.steps (h.mono fun _ _ _ _ => trivial)
      have hsameId : object'.versionId = object.versionId := by
        rw [← hthere.same]
      have hnow' : now < deadline' := hnow.trans_le hle
      have hno' : object'.metadata.objectLockMode = some "COMPLIANCE" ∨ op.bypass = false :=
        hno.imp_left hmode
      rcases stillThere_step hfresh hrun' hthere.versionAt (hsameId ▸ hop) with
        hallows | ⟨object'', h', hchange⟩
      · obtain ⟨hgovernance, hbypass⟩ := hallows.2 deadline' hdate hnow'
        rcases hno' with hcompliance | hbypass'
        · rw [hcompliance] at hgovernance
          exact absurd (Option.some.inj hgovernance) (by decide)
        · rw [hbypass] at hbypass'
          cases hbypass'
      · obtain ⟨deadline'', hdate'', hle''⟩ := deadline_of_change hchange hdate hnow' hno'
        exact ⟨object'', deadline'', hthere.trans h', hdate'', hle.trans hle'',
          fun hcompliance => mode_of_change hchange hdate hnow' (hmode hcompliance)⟩

/-- A change of retention or legal hold, which makes no version and takes none away. -/
theorem versionIds_of_lock_change {now : DateTime} (hfresh : FreshIds env)
    (hrun : t.Run env maxMemorySize fun _ _ _ => True)
    (hop : (∃ input, op = .putObjectRetention input) ∨ ∃ input, op = .putObjectLegalHold input)
    (name key : String) :
    ((t.step env now op).service.contents.versionsOf name key).map versionId =
      (t.service.contents.versionsOf name key).map versionId := by
  have hinv : Inv False env t.service.contents t.supplied := inv_run hfresh False.elim hrun
  have hwritten : written env now t.service op = none := by
    rcases hop with ⟨input, rfl⟩ | ⟨input, rfl⟩ <;> rfl
  have hupdate : ∀ {bucket place versionId f shelf},
      t.service.contents.shelves bucket = some shelf →
      ((t.service.contents.update bucket place versionId f).versionsOf name key).map
        ObjectVersion.versionId =
      (t.service.contents.versionsOf name key).map ObjectVersion.versionId := by
    intro bucket place versionId f shelf hshelf
    have hslot : (t.service.contents.update bucket place versionId f).slot name key = _ :=
      slot_update hshelf (hinv.nullIds hshelf) place versionId f
    have hafter := congrArg (fun slot => slot.versions.map ObjectVersion.versionId) hslot
    refine hafter.trans ?_
    split
    · exact Slot.Faithful.map_versionId_mapAt _ _ f
    · rfl
  have heffect := step_effect env now t.service op
  change (((t.service.step env now op).contents).versionsOf name key).map _ = _
  generalize (t.service.step env now op).contents = c at heffect ⊢
  cases heffect with
  | quiet => rfl
  | enable _ bucket _ =>
      exact congrArg (fun slot => slot.versions.map versionId)
        (slot_enable bucket)
  | suspend _ bucket _ =>
      exact congrArg (fun slot => slot.versions.map versionId)
        (slot_suspend bucket)
  | write _ w _ _ _ h =>
      rw [hwritten] at h
      cases h
  | reinsert _ _ _ _ _ _ _ h =>
      rcases hop with ⟨input, rfl⟩ | ⟨input, rfl⟩ <;> cases h
  | retention input shelf _ hshelf _ _ => exact hupdate hshelf
  | legalHold input _ shelf _ hshelf _ _ => exact hupdate hshelf
  | create | refuse | destroy | delete | deletes =>
      rcases hop with ⟨input, h⟩ | ⟨input, h⟩ <;> cases h

/-- The lock of a version in a bucket with versions.  While it is held or under a COMPLIANCE
retention it stays with its body; a retention, unless it may be bypassed, is not cut short; and
changes of retention and legal hold make no versions.  Only the steps around this version have
to be gentle, and the run before it may be any. -/
theorem objectLock_holds (hfresh : FreshIds env)
    (hrun : t.Run env maxMemorySize fun _ _ _ => True)
    (hat : VersionAt t.service name key object) :
    (∀ t', t.Steps env (fun now s op => Gentle env name key object.versionId now s op ∧
        ∃ locked, VersionAt s name key locked ∧ locked.versionId = object.versionId ∧
          Locked now locked.metadata) t' →
      ∃ object', StillThere t t' name key object object') ∧
    (∀ t' deadline, object.metadata.objectLockRetainUntil = some deadline →
      t.Steps env (fun now s op => Gentle env name key object.versionId now s op ∧
        now < deadline ∧
        (object.metadata.objectLockMode = some "COMPLIANCE" ∨ op.bypass = false)) t' →
      ∃ object' deadline', StillThere t t' name key object object' ∧
        object'.metadata.objectLockRetainUntil = some deadline' ∧ deadline ≤ deadline' ∧
        (object.metadata.objectLockMode = some "COMPLIANCE" →
          object'.metadata.objectLockMode = some "COMPLIANCE")) ∧
    (∀ now op, (∃ input, op = .putObjectRetention input) ∨
        (∃ input, op = .putObjectLegalHold input) →
      ∀ name key,
        ((t.step env now op).service.contents.versionsOf name key).map versionId =
          (t.service.contents.versionsOf name key).map versionId) := by
  refine ⟨fun t' hsteps => ?_, fun t' deadline hdeadline hsteps => ?_, fun now op hop => ?_⟩
  · exact stillThere_of_locked hfresh hrun hat hsteps
  · exact stillThere_of_retention hfresh hrun hat hdeadline hsteps
  · exact versionIds_of_lock_change hfresh hrun hop

end

/-! ## Runs on fixed inputs -/

theorem gentle_of_written_eq_none {env : S3Env} {name key id : String} {now : DateTime}
    {s : RustackS3} (hwritten : written env now s op = none)
    (hreinserts : ∀ versionId, op.reinserts ≠ some (name, key, versionId))
    (hstays : op ≠ .deleteBucket name) : Gentle env name key id now s op where
  notSuspended := by
    intro w bucket hw
    rw [hwritten] at hw
    cases hw
  reinserts := fun versionId _ _ h => absurd h (hreinserts versionId)
  stays := hstays

instance (id : String) (versions : List ObjectVersion) : Decidable (SingleId id versions) :=
  inferInstanceAs (Decidable (List.Pairwise _ _))

theorem exists_versionAt (s : RustackS3) (name key : String) (p : S3Object → Bool)
    (h : (s.state.buckets.lookup name).any (fun bucket => bucket.objects.isVersioned &&
      (bucket.objects.versionsOf key).any fun v => v.asObject.any fun o => p o &&
        decide (SingleId o.versionId (bucket.objects.versionsOf key))) = true) :
    ∃ object, VersionAt s name key object ∧ p object = true := by
  obtain ⟨bucket, hbucket, h⟩ := (Option.any_eq_true _ _).mp h
  obtain ⟨hversioned, h⟩ := Bool.and_eq_true_iff.mp h
  obtain ⟨v, hv, h⟩ := any_eq_true.mp h
  obtain ⟨object, hobject, h⟩ := (Option.any_eq_true _ _).mp h
  obtain ⟨hp, hsingle⟩ := Bool.and_eq_true_iff.mp h
  rw [asObject_eq_some] at hobject
  exact ⟨object, ⟨bucket, hbucket, hversioned, hobject ▸ hv, of_decide_eq_true hsingle⟩, hp⟩

def lockedCreate (bucket : String) : S3Op :=
  .createBucket { bucket, locationConstraint := none, objectLockEnabledForBucket := some true }

/-- A put of an object under a retention and, maybe, a legal hold. -/
def lockedPut (bucket : String) (mode : ObjectLockMode) (deadline : DateTime)
    (hold : Option ObjectLockLegalHoldStatus) : S3Op :=
  .putObject
    { bucket, key := "cat", body := some [1, 2, 3], contentMd5 := none, expires := none,
      checksums := .none,
      headers := { ObjectHeaders.none with
        objectLockMode := some mode, objectLockRetainUntilDate := some deadline,
        objectLockLegalHoldStatus := hold } } none

def changeRetention (mode : ObjectLockMode) (deadline : DateTime) (bypass : Option Bool) : S3Op :=
  .putObjectRetention
    { bucket := "photos", key := "cat", versionId := none,
      retention := some { mode := some mode, retainUntilDate := some deadline },
      bypassGovernanceRetention := bypass }

def deleteFilm : S3Op :=
  .deleteObject
    { bucket := "films", key := "cat", versionId := none, bypassGovernanceRetention := none }

/-- Two objects, one under a COMPLIANCE retention. -/
def lockedCat : Trace :=
  plainTrace [lockedCreate "photos", plainPut "photos" "dog" [4],
    lockedPut "photos" .compliance 100 none]

theorem lockedCat_run : lockedCat.Run plainEnv 100 fun _ _ _ => True :=
  .step 0 _ (.step 0 _ (.step 0 _ .new trivial) trivial) trivial

def tagDog : S3Op :=
  .putObjectTagging
    { bucket := "photos", key := "dog", versionId := none, tagSet := [("size", "small")] }

/-- The other object is tagged, another bucket deleted, and then the retention extended. -/
theorem lockedCat_extended : ∃ object object' deadline',
    StillThere lockedCat (((lockedCat.step plainEnv 0 tagDog).step plainEnv 0
      (.deleteBucket "films")).step plainEnv 0 (changeRetention .compliance 200 none))
      "photos" "cat" object object' ∧
    object'.metadata.objectLockRetainUntil = some deadline' ∧ 100 ≤ deadline' := by
  obtain ⟨object, hat, hdate⟩ := exists_versionAt lockedCat.service "photos" "cat"
    (fun o => decide (o.metadata.objectLockRetainUntil = some 100)) (by decide +kernel)
  have htag : ∀ s, Gentle plainEnv "photos" "cat" object.versionId 0 s tagDog := by
    refine fun s => gentle_of_written_eq_none rfl (fun versionId h => ?_) fun h => by cases h
    have hdog : tagDog.reinserts = some ("photos", "dog", none) := by
      decide +kernel
    rw [hdog] at h
    exact absurd (congrArg (fun o => o.map fun t => t.2.1) h) (by simp)
  have hdelete : ∀ s, Gentle plainEnv "photos" "cat" object.versionId 0 s
      (.deleteBucket "films") := by
    refine fun s => gentle_of_written_eq_none rfl (fun _ h => by cases h) fun h => ?_
    exact absurd (S3Op.deleteBucket.inj h) (by decide)
  have hextend : ∀ s, Gentle plainEnv "photos" "cat" object.versionId 0 s
      (changeRetention .compliance 200 none) :=
    fun s => gentle_of_written_eq_none rfl (fun _ h => by cases h) fun h => by cases h
  obtain ⟨object', deadline', hthere, hdate', hle, _⟩ :=
    (objectLock_holds plainEnv_freshIds lockedCat_run hat).2.1 _ 100 (of_decide_eq_true hdate)
      (.step 0 _ (.step 0 _ (.step 0 _ .refl ⟨htag _, by decide, Or.inr rfl⟩)
        ⟨hdelete _, by decide, Or.inr rfl⟩) ⟨hextend _, by decide, Or.inr rfl⟩)
  exact ⟨object, object', deadline', hthere, hdate', hle⟩

/-- Locked versions of which something changes: a COMPLIANCE retention is extended; under a legal
hold a GOVERNANCE retention is cut short by a request that may bypass it; and in a bucket without
versions a held object is deleted. -/
theorem locked_changes :
    (¬ ∀ env maxMemorySize t now op name key object object', FreshIds env →
      Trace.Run env maxMemorySize (fun _ _ _ => True) t →
      VersionAt t.service name key object → Unexpired now "COMPLIANCE" object.metadata →
      VersionAt (t.step env now op).service name key object' →
      object'.versionId = object.versionId →
      object'.metadata.objectLockRetainUntil = object.metadata.objectLockRetainUntil) ∧
    (¬ ∀ env maxMemorySize t now op name key object object' deadline deadline', FreshIds env →
      Trace.Run env maxMemorySize (fun _ _ _ => True) t →
      VersionAt t.service name key object → object.metadata.objectLockLegalHold = some true →
      object.metadata.objectLockRetainUntil = some deadline →
      VersionAt (t.step env now op).service name key object' →
      object'.versionId = object.versionId →
      object'.metadata.objectLockRetainUntil = some deadline' → deadline ≤ deadline') ∧
    ¬ ∀ env maxMemorySize t now op name key object, FreshIds env →
      Trace.Run env maxMemorySize (fun _ _ _ => True) t →
      .object object ∈ t.service.contents.versionsOf name key →
      object.metadata.objectLockLegalHold = some true →
      ∃ v ∈ (t.step env now op).service.contents.versionsOf name key,
        v.versionId = object.versionId := by
  refine ⟨fun h => ?_, fun h => ?_, fun h => ?_⟩
  · obtain ⟨object, hat, hobject⟩ := exists_versionAt lockedCat.service "photos" "cat"
      (fun o => decide (o.metadata.objectLockRetainUntil = some 100 ∧
        o.metadata.objectLockMode = some "COMPLIANCE" ∧ o.versionId = "vxx"))
      (by decide +kernel)
    obtain ⟨object', hat', hobject'⟩ := exists_versionAt
      (lockedCat.step plainEnv 0 (changeRetention .compliance 200 none)).service "photos" "cat"
      (fun o => decide (o.metadata.objectLockRetainUntil = some 200 ∧ o.versionId = "vxx"))
      (by decide +kernel)
    obtain ⟨hdate, hmode, hid⟩ := of_decide_eq_true hobject
    obtain ⟨hdate', hid'⟩ := of_decide_eq_true hobject'
    have hsame := h plainEnv 100 _ 0 _ "photos" "cat" object object' plainEnv_freshIds
      lockedCat_run hat ⟨hmode, 100, hdate, by decide⟩ hat' (hid'.trans hid.symm)
    rw [hdate, hdate'] at hsame
    exact absurd hsame (by decide)
  · have hrun : (plainTrace [lockedCreate "photos", lockedPut "photos" .governance 100
        (some .on)]).Run plainEnv 100 fun _ _ _ => True :=
      .step 0 _ (.step 0 _ .new trivial) trivial
    obtain ⟨object, hat, hobject⟩ := exists_versionAt (plainTrace [lockedCreate "photos",
        lockedPut "photos" .governance 100 (some .on)]).service "photos" "cat"
      (fun o => decide (o.metadata.objectLockRetainUntil = some 100 ∧
        o.metadata.objectLockLegalHold = some true ∧ o.versionId = "v"))
      (by decide +kernel)
    obtain ⟨object', hat', hobject'⟩ := exists_versionAt ((plainTrace [lockedCreate "photos",
        lockedPut "photos" .governance 100 (some .on)]).step plainEnv 0
          (changeRetention .governance 50 (some true))).service "photos" "cat"
      (fun o => decide (o.metadata.objectLockRetainUntil = some 50 ∧ o.versionId = "v"))
      (by decide +kernel)
    obtain ⟨hdate, hhold, hid⟩ := of_decide_eq_true hobject
    obtain ⟨hdate', hid'⟩ := of_decide_eq_true hobject'
    exact absurd (h plainEnv 100 _ 0 _ "photos" "cat" object object' 100 50 plainEnv_freshIds hrun
      hat hhold hdate hat' (hid'.trans hid.symm) hdate') (by decide)
  · have hrun : (plainTrace [plainCreate "films", lockedPut "films" .governance 100
        (some .on)]).Run plainEnv 100 fun _ _ _ => True :=
      .step 0 _ (.step 0 _ .new trivial) trivial
    have hheld : ((plainTrace [plainCreate "films", lockedPut "films" .governance 100
        (some .on)]).service.contents.versionsOf "films" "cat").any (fun v => v.asObject.any
          fun o => decide (o.metadata.objectLockLegalHold = some true)) = true := by
      decide +kernel
    have hgone : ((plainTrace [plainCreate "films", lockedPut "films" .governance 100
        (some .on)]).step plainEnv 0 deleteFilm).service.contents.versionsOf
          "films" "cat" = [] := by
      refine isEmpty_iff.mp ?_
      decide +kernel
    obtain ⟨v, hv, h'⟩ := any_eq_true.mp hheld
    obtain ⟨object, hobject, hhold⟩ := (Option.any_eq_true _ _).mp h'
    rw [asObject_eq_some] at hobject
    obtain ⟨v', hmem, _⟩ := h plainEnv 100 _ 0 _ "films" "cat" object plainEnv_freshIds hrun
      (hobject ▸ hv) (of_decide_eq_true hhold)
    rw [hgone] at hmem
    exact absurd hmem not_mem_nil

end Rustack.S3
