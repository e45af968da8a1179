import Rustack.S3.Versions

/-!
# Runs that keep every version with its bytes

Along a run it is recorded, for each version, what the write that made it has
supplied.  The invariant of versions and bodies holds along every run whose
steps avoid the few calls that break it.
-/

namespace Rustack.S3

open RustackS3 List ObjectVersion Contents

/-- The service, and what the write of each version has supplied. -/
structure Trace where
  service : RustackS3
  supplied : String × String × String → Option Written

/-- A write that is accepted makes the version that is in front afterwards. -/
def record (after : Contents) (w : Option Written)
    (supplied : String × String × String → Option Written) :
    String × String × String → Option Written :=
  match w with
  | none => supplied
  | some w =>
    match (after.versionsOf w.bucket w.key).head? with
    | none => supplied
    | some version => Function.update supplied (w.bucket, w.key, version.versionId) (some w)

def Trace.step (env : S3Env) (now : DateTime) (t : Trace) (op : S3Op) : Trace where
  service := t.service.step env now op
  supplied := record (t.service.step env now op).contents (written env now t.service op) t.supplied

/-- No object goes into a bucket with suspended versioning, tags and access lists change only
where there is no versioning, and a bucket that is deleted has no objects. -/
structure Careful (env : S3Env) (now : DateTime) (s : RustackS3) (op : S3Op) : Prop where
  notSuspended : ∀ w bucket, written env now s op = some w →
    s.state.buckets.lookup w.bucket = some bucket → bucket.versioning ≠ .suspended
  reinserts : ∀ name key versionId bucket object,
    op.reinserts = some (name, key, versionId) → s.state.buckets.lookup name = some bucket →
    lookupSource bucket.objects key versionId = .ok object → bucket.versioning = .disabled
  noObjects : ∀ name bucket key object, op = .deleteBucket name →
    s.state.buckets.lookup name = some bucket → .object object ∉ bucket.objects.versionsOf key

/-- The runs of which every step is allowed where it is made. -/
inductive Trace.Run (env : S3Env) (maxMemorySize : ℕ)
    (allowed : DateTime → RustackS3 → S3Op → Prop) : Trace → Prop where
  | new : Run env maxMemorySize allowed ⟨.new maxMemorySize, fun _ => none⟩
  | step {t : Trace} (now : DateTime) (op : S3Op) (h : Run env maxMemorySize allowed t)
      (hop : allowed now t.service op) : Run env maxMemorySize allowed (t.step env now op)

theorem exists_lookup {s : RustackS3} {name : String} {shelf : Shelf}
    (hshelf : s.contents.shelves name = some shelf) :
    ∃ bucket, s.state.buckets.lookup name = some bucket ∧ bucket.shelf = shelf :=
  Option.map_eq_some_iff.mp hshelf

theorem createdBucket_shelf (env : S3Env) (now : DateTime) (input : CreateBucketInput) :
    (∀ key, (createdBucket env now input).shelf.objects.versionsOf key = []) ∧
      ((createdBucket env now input).shelf.objects.isVersioned = true ↔
        (createdBucket env now input).shelf.versioning ≠ .disabled) := by
  unfold createdBucket
  split
  · exact ⟨fun _ => rfl, iff_of_true rfl fun h => by cases h⟩
  · exact ⟨fun _ => rfl, iff_of_false Bool.false_ne_true fun h => h rfl⟩

/-- The object that is found is the one at the place that is changed. -/
theorem getElem?_placeOf {store : ObjectStore} {key : String} {versionId : Option String}
    {found : S3Object} (hstore : store.isVersioned = true)
    (hfound : lookupSource store key versionId = .ok found) :
    (store.versionsOf key)[placeOf (store.versionsOf key) versionId]? =
      some (.object found) := by
  cases store with
  | unversioned ks => exact absurd hstore Bool.false_ne_true
  | versioned vs =>
      unfold lookupSource at hfound
      cases versionId with
      | none =>
          dsimp only at hfound
          split at hfound
          · cases hfound
          · next object hget =>
              cases hfound
              change ((vs.versionsOf key).head?.bind asObject) = some found at hget
              obtain ⟨v, hv, hobject⟩ := Option.bind_eq_some_iff.mp hget
              rw [asObject_eq_some] at hobject
              rw [← hobject, ← hv]
              exact head?_eq_getElem?.symm
      | some id =>
          dsimp only at hfound
          split at hfound
          · cases hfound
          · next object hget =>
              cases hfound
              change (((vs.versionsOf key).find? _).bind asObject) = some found
                at hget
              obtain ⟨v, hv, hobject⟩ := Option.bind_eq_some_iff.mp hget
              rw [asObject_eq_some] at hobject
              rw [← hobject, ← hv, find?_eq_getElem?_findIdx]
              rfl

/-- Every step keeps the invariant, and a careful one keeps all of it. -/
theorem inv_step {care : Prop} {env : S3Env} {now : DateTime} {t : Trace} {op : S3Op}
    (hfresh : FreshIds env) (h : Inv care env t.service.contents t.supplied)
    (hop : care → Careful env now t.service op) :
    Inv care env (t.step env now op).service.contents (t.step env now op).supplied := by
  have heffect := step_effect env now t.service op
  unfold Trace.step
  dsimp only
  generalize (t.service.step env now op).contents = c at heffect ⊢
  cases heffect with
  | quiet _ drawn hwritten =>
      rw [hwritten]
      exact h.draw drawn
  | create input howner =>
      obtain ⟨hempty, hkind⟩ := createdBucket_shelf env now input
      exact h.create howner hempty hkind
  | refuse bucket hstays =>
      refine h.dropBodies fun hcare key object hmem => ?_
      cases hshelf : t.service.contents.shelves bucket with
      | none =>
          rw [versionsOf_of_none hshelf] at hmem
          exact absurd hmem not_mem_nil
      | some shelf =>
          obtain ⟨b, hbucket, rfl⟩ := exists_lookup hshelf
          rw [versionsOf_of_shelf hshelf] at hmem
          exact (hop hcare).noObjects bucket b key object rfl hbucket hmem
  | destroy bucket hgoes => exact h.destroy bucket
  | enable _ bucket hwritten =>
      rw [hwritten]
      exact h.enable bucket
  | suspend _ bucket hwritten =>
      rw [hwritten]
      exact h.suspend bucket
  | write _ w shelf object body hwritten hshelf hkey hid hetag hsize hbody =>
      obtain ⟨b, hbucket, rfl⟩ := exists_lookup hshelf
      have hid' : object.versionId = b.shelf.newId env t.service.contents.drawn := hid
      by_cases hnotSuspended : b.shelf.versioning = .suspended
      · have hno : ¬care := fun hcare =>
          (hop hcare).notSuspended w b hwritten hbucket hnotSuspended
        have hnull : object.versionId = "null" :=
          hid'.trans (if_neg (by rw [hnotSuspended]; decide))
        refine Inv.put hno (h.setBody hno _ _) hshelf ?_ (Or.inl hnull)
        refine (h.kinds w.bucket _ _ (kind_of_shelf hshelf)).mpr ?_
        rw [hnotSuspended]
        decide
      have hnew : b.shelf.objects.isVersioned = true → object.versionId ≠ "null" := by
        intro hversioned
        rw [hid', h.newId_versioned hshelf hnotSuspended hversioned]
        exact hfresh.ne_null _
      have hfront : ((t.service.contents.write env w.bucket object body).versionsOf w.bucket
          object.key).head? = some (.object object) := Inv.versionsOf_write hshelf hnew
      have hinv := h.write hfresh hshelf hnotSuspended hid' ⟨hbody, hsize, hetag⟩
      rw [hkey] at hfront hinv
      rw [hwritten]
      simp only [record, hfront]
      exact hinv
  | reinsert _ bucket key versionId shelf object f hreinserts hwritten hshelf hobject =>
      obtain ⟨b, hbucket, rfl⟩ := exists_lookup hshelf
      have hkind := h.kinds bucket _ _ (kind_of_shelf hshelf)
      rw [hwritten]
      cases hstore : b.shelf.objects.isVersioned with
      | false => exact h.reinsert f hshelf hstore hobject
      | true =>
          have hno : ¬care := fun hcare => hkind.mp hstore
            ((hop hcare).reinserts bucket key versionId b object hreinserts hbucket hobject)
          have hmem := mem_of_getElem? (getElem?_placeOf hstore hobject)
          rw [← versionsOf_of_shelf hshelf] at hmem
          exact h.put hno hshelf hstore ((h.slots bucket key).drawnIds _ hmem)
  | retention input shelf object hshelf _ _ =>
      exact h.update hshelf input.key input.versionId _
  | legalHold input status shelf object hshelf _ _ =>
      exact h.update hshelf input.key input.versionId _
  | delete input _ hdelete => exact h.deletion hfresh hdelete
  | deletes input _ hdeletes => exact h.deletions hfresh hdeletes

theorem inv_run {care : Prop} {env : S3Env} {maxMemorySize : ℕ} {t : Trace}
    {allowed : DateTime → RustackS3 → S3Op → Prop} (hfresh : FreshIds env)
    (hcareful : care → ∀ now s op, allowed now s op → Careful env now s op)
    (h : t.Run env maxMemorySize allowed) : Inv care env t.service.contents t.supplied := by
  induction h with
  | new =>
      refine ⟨fun _ _ => .empty, fun bucket versioning versioned hkind => ?_, fun _ _ => rfl⟩
      cases hkind
  | step now op _ hop ih =>
      exact inv_step hfresh ih fun hcare => hcareful hcare now _ op hop

/-! ## What is stored and what is read -/

/-- The bytes an answer carries or points to. -/
def returnedBytes (answer : GetObjectOutput × Option StagedUpload) : Bytes :=
  match answer.2 with
  | some upload => upload.data
  | none => answer.1.body.getD []

/-- A read succeeds with what a write has supplied. -/
def Reads (env : S3Env) (s : RustackS3) (input : GetObjectInput) (w : Written) : Prop :=
  ∃ answer, getObjectBody env s input true = .ok answer ∧ returnedBytes answer = w.data ∧
    answer.1.eTag = some w.etag

/-- Versions of a key have ids of their own; each object has one body, which is what its write
has supplied, and reading it gives that; and there are no other bodies. -/
structure EveryVersionHasItsBody (env : S3Env) (t : Trace) : Prop where
  distinct : ∀ name bucket key, t.service.state.buckets.lookup name = some bucket →
    ((bucket.objects.versionsOf key).map ObjectVersion.versionId).Nodup
  body : ∀ name bucket key object, t.service.state.buckets.lookup name = some bucket →
    .object object ∈ bucket.objects.versionsOf key → ∃ stored w,
      t.service.storage.objects.lookup (name, key, object.versionId) = some stored ∧
      t.supplied (name, key, object.versionId) = some w ∧ stored.data = w.data ∧
      object.size = w.data.length ∧ object.etag = w.etag ∧
      Reads env t.service { bucket := name, key, versionId := some object.versionId } w ∧
      ((bucket.objects.versionsOf key).head? = some (.object object) →
        Reads env t.service { bucket := name, key, versionId := none } w)
  only : ∀ name key id, t.service.storage.objects.lookup (name, key, id) ≠ none →
    ∃ bucket object, t.service.state.buckets.lookup name = some bucket ∧
      .object object ∈ bucket.objects.versionsOf key ∧ object.versionId = id

theorem getVersion_of_mem {store : ObjectStore} {key : String} {object : S3Object}
    (hnull : store.isVersioned = false → object.versionId = "null")
    (honly : ∀ v ∈ store.versionsOf key, v.versionId = object.versionId → v = .object object)
    (hmem : .object object ∈ store.versionsOf key) :
    store.getVersion key object.versionId = some object := by
  cases store with
  | unversioned ks =>
      obtain ⟨found, hfound, heq⟩ := mem_map.mp hmem
      cases heq
      exact (if_pos (hnull rfl)).trans (Option.mem_toList.mp hfound)
  | versioned vs =>
      change ((vs.versionsOf key).find? _).bind asObject = some object
      have hfind : (vs.versionsOf key).find? (fun v => v.versionId = object.versionId) =
          some (.object object) := by
        cases hfind : (vs.versionsOf key).find? fun v => v.versionId = object.versionId with
        | none =>
            exact absurd (decide_eq_true rfl) (find?_eq_none.mp hfind _ hmem)
        | some v =>
            have htest := find?_some hfind
            exact congrArg some
              (honly v (mem_of_find?_eq_some hfind) (of_decide_eq_true htest))
      rw [hfind]
      rfl

theorem get_of_head? {store : ObjectStore} {key : String} {object : S3Object}
    (hhead : (store.versionsOf key).head? = some (.object object)) :
    store.get key = some object := by
  cases store with
  | unversioned ks =>
      change ks.get key = some object
      change ((ks.get key).toList.map ObjectVersion.object).head? = _ at hhead
      cases hget : ks.get key with
      | none =>
          rw [hget] at hhead
          cases hhead
      | some found =>
          rw [hget] at hhead
          cases hhead
          rfl
  | versioned vs =>
      change (vs.versionsOf key).head?.bind asObject = some object
      change (vs.versionsOf key).head? = _ at hhead
      rw [hhead]
      rfl

theorem reads_of_body {env : S3Env} {s : RustackS3} {bucket : S3Bucket} {object : S3Object}
    {input : GetObjectInput} {stored : StoredData} {w : Written}
    (hbucket : s.state.buckets.lookup input.bucket = some bucket)
    (hobject : lookupObject env bucket.objects input.key input.versionId = .ok object)
    (hbody : s.storage.objects.lookup (input.bucket, input.key, object.versionId) = some stored)
    (hdata : stored.data = w.data) (hetag : object.etag = w.etag) : Reads env s input w := by
  have hfound := getBucket_eq_ok.mpr hbucket
  -- A body that is not staged is returned whole.
  have hwhole : (∀ upload, stored ≠ .staged upload) → stored.readAll = .ok w.data →
      Reads env s input w := by
    intro hnotStaged hread
    have hnone : s.storage.stagedObject input.bucket input.key object.versionId = none := by
      rw [InMemoryStorage.stagedObject, hbody]
      cases stored with
      | staged upload => exact absurd rfl (hnotStaged upload)
      | inMemory data => rfl
      | onDisk data => rfl
    have hdata : s.storage.readObject input.bucket input.key object.versionId = .ok w.data := by
      rw [InMemoryStorage.readObject, hbody]
      exact hread
    refine ⟨({ body := some w.data, contentLength := asI64 w.data.length,
               eTag := some object.etag, versionId := realVersionId object.versionId,
               metadata := object.metadata.userMetadata }, none), ?_, rfl, congrArg some hetag⟩
    simp only [getObjectBody, hfound, hobject, hnone, hdata, bind, Except.bind, if_true]
    rfl
  cases stored with
  | inMemory | onDisk => exact hwhole (fun _ h => by cases h) (congrArg Except.ok hdata)
  | staged upload =>
      have hstaged : s.storage.stagedObject input.bucket input.key object.versionId =
          some upload := by
        rw [InMemoryStorage.stagedObject, hbody]
      refine ⟨({ body := none, contentLength := asI64 object.size, eTag := some object.etag,
                 versionId := realVersionId object.versionId,
                 metadata := object.metadata.userMetadata }, some upload), ?_, hdata,
        congrArg some hetag⟩
      simp only [getObjectBody, hfound, hobject, hstaged, bind, Except.bind, if_true]
      rfl

theorem lookupObject_of_getVersion {env : S3Env} {store : ObjectStore} {key id : String}
    {object : S3Object} (h : store.getVersion key id = some object) :
    lookupObject env store key (some id) = .ok object := by
  unfold lookupObject
  dsimp only
  rw [h]

theorem lookupObject_of_get {env : S3Env} {store : ObjectStore} {key : String}
    {object : S3Object} (h : store.get key = some object) :
    lookupObject env store key none = .ok object := by
  unfold lookupObject
  dsimp only
  rw [h]

/-- In every run of careful steps, every version has its own bytes. -/
theorem everyVersionHasItsBody {env : S3Env} {maxMemorySize : ℕ} {t : Trace}
    (hfresh : FreshIds env) (h : t.Run env maxMemorySize (Careful env)) :
    EveryVersionHasItsBody env t := by
  have hinv : Inv True env t.service.contents t.supplied := inv_run hfresh (fun _ _ _ _ => id) h
  constructor
  · intro name bucket key hbucket
    have hslot := ((hinv.slots name key).faithful trivial).distinct
    change ((t.service.contents.versionsOf name key).map _).Nodup at hslot
    rw [versionsOf_of_shelf (Effect.shelves_of_lookup hbucket)] at hslot
    exact hslot
  · intro name bucket key object hbucket hmem
    have hshelf := Effect.shelves_of_lookup hbucket
    have hversions : (t.service.contents.slot name key).versions = bucket.objects.versionsOf key :=
      versionsOf_of_shelf hshelf
    have hfaithful := (hinv.slots name key).faithful trivial
    have hdistinct := hfaithful.distinct
    rw [hversions] at hdistinct
    obtain ⟨stored, w, hbody, hsupplied, hdata, hsize, hetag⟩ :=
      hfaithful.body object (hversions ▸ hmem)
    have hget := getVersion_of_mem
      (fun hversioned => hinv.nullIds hshelf hversioned key _ hmem)
      (fun v hv hid => inj_on_of_nodup_map hdistinct hv hmem hid) hmem
    refine ⟨stored, w, hbody, hsupplied, hdata, hsize, hetag, ?_, fun hhead => ?_⟩
    · exact reads_of_body hbucket (lookupObject_of_getVersion hget) hbody hdata hetag
    · exact reads_of_body hbucket (lookupObject_of_get (get_of_head? hhead)) hbody hdata hetag
  · intro name key id hbody
    obtain ⟨object, hmem, hid⟩ := ((hinv.slots name key).faithful trivial).only id hbody
    cases hshelf : t.service.contents.shelves name with
    | none =>
        have hempty : t.service.contents.versionsOf name key = [] :=
          versionsOf_of_none hshelf
        change _ ∈ t.service.contents.versionsOf name key at hmem
        rw [hempty] at hmem
        exact absurd hmem not_mem_nil
    | some shelf =>
        obtain ⟨bucket, hbucket, rfl⟩ := exists_lookup hshelf
        change _ ∈ t.service.contents.versionsOf name key at hmem
        rw [versionsOf_of_shelf hshelf] at hmem
        exact ⟨bucket, object, hbucket, hmem, hid⟩

theorem plainEnv_freshIds : FreshIds plainEnv where
  injective := by
    intro m n h
    have hlist := congrArg String.length h
    simpa [plainEnv] using hlist
  ne_null := by
    intro n h
    have hlist := congrArg String.toList h
    rw [show plainEnv.versionIds n = "v" ++ String.ofList (replicate n 'x') from rfl,
      String.toList_append] at hlist
    have hhead := congrArg head? hlist
    have hchar : some 'v' = some 'n' := hhead
    exact absurd hchar (by decide)

/-- The trace of a run on fixed inputs. -/
def plainTrace (ops : List S3Op) : Trace :=
  ops.foldl (fun t op => t.step plainEnv 0 op) ⟨.new 100, fun _ => none⟩

theorem careful_of_written_eq_none {env : S3Env} {now : DateTime} {s : RustackS3} {op : S3Op}
    (hwritten : written env now s op = none) (hop : op.reinserts = none)
    (hdelete : ∀ name, op ≠ .deleteBucket name) : Careful env now s op where
  notSuspended := by
    intro w bucket hw
    rw [hwritten] at hw
    cases hw
  reinserts := by
    intro name key versionId bucket object hreinserts
    rw [hop] at hreinserts
    cases hreinserts
  noObjects := fun name bucket key object heq => absurd heq (hdelete name)

theorem careful_photo {s : RustackS3} {data : Bytes}
    (hplace : (written plainEnv 0 s (plainPut "photos" "cat" data)).map Written.bucket =
      some "photos")
    (hkind : (s.state.buckets.lookup "photos").map S3Bucket.versioning = some .enabled) :
    Careful plainEnv 0 s (plainPut "photos" "cat" data) where
  notSuspended := by
    intro w bucket hw hbucket
    rw [hw, Option.map_some, Option.some_inj] at hplace
    rw [← hplace, hbucket, Option.map_some, Option.some_inj] at hkind
    rw [hkind]
    exact fun h => by cases h
  reinserts := by
    intro name key versionId bucket object hreinserts
    cases hreinserts
  noObjects := by
    intro name bucket key object hdelete
    cases hdelete

/-- Two versions of one key. -/
def twoPhotos : Trace :=
  plainTrace [plainCreate "photos", .putBucketVersioning "photos" (some .enabled),
    plainPut "photos" "cat" [1, 2, 3], plainPut "photos" "cat" [4, 5]]

theorem twoPhotos_bodies : EveryVersionHasItsBody plainEnv twoPhotos := by
  have hrun : Trace.Run plainEnv 100 (Careful plainEnv) twoPhotos := by
    refine .step 0 _ (.step 0 _ (.step 0 _ (.step 0 _ .new ?_) ?_) ?_) ?_
    · exact careful_of_written_eq_none rfl rfl fun _ h => by cases h
    · exact careful_of_written_eq_none rfl rfl fun _ h => by cases h
    · exact careful_photo (by decide +kernel) (by decide +kernel)
    · exact careful_photo (by decide +kernel) (by decide +kernel)
  exact everyVersionHasItsBody plainEnv_freshIds hrun

/-- An object put while versioning is suspended. -/
def suspendedPut : Trace :=
  plainTrace [plainCreate "photos", .putBucketVersioning "photos" (some .enabled),
    .putBucketVersioning "photos" (some .suspended), plainPut "photos" "cat" [1, 2, 3]]

/-- The calls that make buckets and set their versioning, and those that store, change and
delete objects. -/
def S3Op.aboutObjects : S3Op → Bool
  | .createBucket _ | .putBucketVersioning _ _ | .putObject _ _ | .copyObject _
  | .createMultipartUpload _ | .uploadPart _ _ | .completeMultipartUpload _
  | .abortMultipartUpload _ _ | .deleteObject _ | .deleteObjects _ | .putObjectTagging _
  | .deleteObjectTagging _ | .putObjectAcl _ => true
  | _ => false

/-- The version gets an id under which there is no body. -/
theorem suspended_put_loses_body : ¬ ∀ env maxMemorySize t, FreshIds env →
    Trace.Run env maxMemorySize (fun _ _ op => op.aboutObjects = true) t →
    EveryVersionHasItsBody env t := by
  intro h
  have hproperty := h plainEnv 100 suspendedPut plainEnv_freshIds
    (.step 0 _ (.step 0 _ (.step 0 _ (.step 0 _ .new rfl) rfl) rfl) rfl)
  have hbody : (suspendedPut.service.storage.objects.lookup ("photos", "cat", "null")).isSome =
      true := by
    decide +kernel
  have hversions : (suspendedPut.service.state.buckets.lookup "photos").map
      (fun bucket => (bucket.objects.versionsOf "cat").map versionId) =
        some ["vx"] := by
    decide +kernel
  obtain ⟨bucket, object, hbucket, hmem, hid⟩ := hproperty.only "photos" "cat" "null"
    fun hnone => by
      rw [hnone] at hbody
      cases hbody
  rw [hbucket, Option.map_some, Option.some_inj] at hversions
  have hids := mem_map_of_mem (f := versionId) hmem
  rw [hversions, mem_singleton] at hids
  exact absurd (hid.symm.trans hids) (by decide)

end Rustack.S3
