import Rustack.S3.Contents

/-!
# The effect of every call

For each call, what it does to the contents of the service, together with what
its checks have made sure of.
-/

namespace Rustack.S3

open RustackS3 InMemoryStorage
open Except (bind_eq_ok)

/-- What a request that stores an object supplies. -/
structure Written where
  bucket : String
  key : String
  data : Bytes
  etag : String

/-- The bytes of the parts of an upload. -/
def partData (s : RustackS3) (bucket uploadId : String) (partNumber : ℕ) : Bytes :=
  ((s.storage.parts.lookup (bucket, uploadId, partNumber)).map StoredData.data).getD []

def quotedMd5 (d : Digests) (data : Bytes) : String := "\"" ++ computeMd5 d data ++ "\""

/-- The data of the source as it stands when it is copied. -/
def sourceData (s : RustackS3) (plan : CopyPlan) : Bytes :=
  ((s.storage.objects.lookup (plan.sourceBucket, plan.sourceKey, plan.source.versionId)).map
    StoredData.data).getD []

def completedNumbers (parts : List CompletedPart) : List ℕ :=
  parts.filterMap fun part => part.partNumber.map Int.toNat

/-- What an accepted call stores: the body of the request, the data of the source, or
the parts in the order asked for. -/
def written (env : S3Env) (now : DateTime) (s : RustackS3) : S3Op → Option Written
  | .putObject input upload =>
    if (putObjectBody env now s input upload).2.isOk then
      let data := requestData input.body upload
      some { bucket := input.bucket, key := input.key, data, etag := quotedMd5 env.digests data }
    else none
  | .copyObject input =>
    match (handleCopyObject env now s input).2, s.prepareCopy env input with
    | .ok _, .ok plan =>
      let data := sourceData s plan
      some { bucket := input.bucket, key := input.key, data, etag := quotedMd5 env.digests data }
    | _, _ => none
  | .completeMultipartUpload input =>
    if (handleCompleteMultipartUpload env now s input).2.isOk then
      let parts := (completedNumbers input.parts).map (partData s input.bucket input.uploadId)
      some { bucket := input.bucket
             key := input.key
             data := parts.flatten
             etag := computeMultipartEtag env.digests (parts.map (computeMd5 env.digests))
               parts.length }
    else none
  | _ => none

/-- The object that a call reads, changes and gives back to the store: a change of tags that
are valid, or of an access list that is known. -/
def S3Op.reinserts : S3Op → Option (String × String × Option String)
  | .putObjectTagging input =>
    if (validateTags input.tagSet).isOk then some (input.bucket, input.key, input.versionId)
    else none
  | .deleteObjectTagging input => some (input.bucket, input.key, input.versionId)
  | .putObjectAcl input =>
    if (input.acl.bind fun acl => CannedAcl.fromStr acl.asStr).isSome then
      some (input.bucket, input.key, input.versionId)
    else none
  | _ => none

/-- One object or version that a delete takes away. -/
inductive Deletion (env : S3Env) (now : DateTime) (bypass : Bool) (bucket : String)
    (c : Contents) : Contents → Prop where
  | version (key versionId : String) (shelf : Shelf) (hshelf : c.shelves bucket = some shelf)
      (hlock : checkObjectLockForDelete now shelf.objects key versionId bypass = .ok ()) :
      Deletion env now bypass bucket c (c.removeVersion bucket key versionId)
  | latest (key : String) (shelf : Shelf) (hshelf : c.shelves bucket = some shelf) :
      Deletion env now bypass bucket c (c.removeLatest env now bucket key)

inductive Effect (env : S3Env) (now : DateTime) (s : RustackS3) : S3Op → Contents → Prop where
  | quiet (op : S3Op) (drawn : ℕ) (hwritten : written env now s op = none) :
      Effect env now s op (s.contents.draw drawn)
  | create (input : CreateBucketInput) (howner : s.contents.owners input.bucket = none) :
      Effect env now s (.createBucket input)
        (s.contents.create input.bucket (createdBucket env now input).shelf)
  | refuse (bucket : String) (hstays : ¬ s.MayGo bucket) :
      Effect env now s (.deleteBucket bucket) (s.contents.dropBodies bucket)
  | destroy (bucket : String) (hgoes : s.MayGo bucket) :
      Effect env now s (.deleteBucket bucket) (s.contents.destroy bucket)
  | enable (op : S3Op) (bucket : String) (hwritten : written env now s op = none) :
      Effect env now s op (s.contents.mapShelf bucket Shelf.enable)
  | suspend (op : S3Op) (bucket : String) (hwritten : written env now s op = none) :
      Effect env now s op (s.contents.mapShelf bucket Shelf.suspend)
  | write (op : S3Op) (w : Written) (shelf : Shelf) (object : S3Object) (body : StoredData)
      (hwritten : written env now s op = some w)
      (hshelf : s.contents.shelves w.bucket = some shelf)
      (hkey : object.key = w.key) (hid : object.versionId = shelf.newId env s.drawn)
      (hetag : object.etag = w.etag) (hsize : object.size = w.data.length)
      (hbody : body.data = w.data) :
      Effect env now s op (s.contents.write env w.bucket object body)
  | reinsert (op : S3Op) (bucket key : String) (versionId : Option String) (shelf : Shelf)
      (object : S3Object) (f : ObjectMetadata → ObjectMetadata)
      (hop : op.reinserts = some (bucket, key, versionId))
      (hwritten : written env now s op = none)
      (hshelf : s.contents.shelves bucket = some shelf)
      (hobject : lookupSource shelf.objects key versionId = .ok object) :
      Effect env now s op
        (s.contents.reinsert env bucket { object with metadata := f object.metadata })
  | retention (input : PutObjectRetentionInput) (shelf : Shelf) (object : S3Object)
      (hshelf : s.contents.shelves input.bucket = some shelf)
      (hobject : lookupSource shelf.objects input.key input.versionId = .ok object)
      (hchange : checkRetentionChange now object.metadata input.retention
        (input.bypassGovernanceRetention.getD false) = .ok ()) :
      Effect env now s (.putObjectRetention input)
        (s.contents.update input.bucket input.key input.versionId (setRetention input.retention))
  | legalHold (input : PutObjectLegalHoldInput) (status : ObjectLockLegalHoldStatus)
      (shelf : Shelf) (object : S3Object)
      (hshelf : s.contents.shelves input.bucket = some shelf)
      (hobject : lookupSource shelf.objects input.key input.versionId = .ok object)
      (hstatus : input.status = some status) :
      Effect env now s (.putObjectLegalHold input)
        (s.contents.update input.bucket input.key input.versionId fun metadata =>
          { metadata with objectLockLegalHold := some (status == .on) })
  | delete (input : DeleteObjectInput) (c : Contents)
      (h : Deletion env now (input.bypassGovernanceRetention.getD false) input.bucket
        s.contents c) :
      Effect env now s (.deleteObject input) c
  | deletes (input : DeleteObjectsInput) (c : Contents)
      (h : Relation.ReflTransGen (Deletion env now (input.bypassGovernanceRetention.getD false)
        input.bucket) s.contents c) :
      Effect env now s (.deleteObjects input) c

namespace Effect

variable {env : S3Env} {now : DateTime} {s : RustackS3}

theorem of_contents_eq {op : S3Op} {c : Contents} (hwritten : written env now s op = none)
    (h : c = s.contents) : Effect env now s op c := by
  rw [h]
  exact quiet op 0 hwritten

/-- A failed call has the effect of its operation; what is left is the call that succeeds. -/
theorem commit_effect {α : Type} {op : S3Op} {result : Except S3Error (RustackS3 × α)}
    (hwritten : written env now s op = none)
    (hok : ∀ s' out, result = .ok (s', out) → Effect env now s op s'.contents) :
    Effect env now s op (s.commit result).1.contents :=
  commit_rule (motive := fun s' => Effect env now s op s'.contents)
    (of_contents_eq hwritten rfl) hok

/-! ## Buckets -/

theorem createBucket (input : CreateBucketInput) :
    Effect env now s (.createBucket input) (handleCreateBucket env now s input).1.contents := by
  rcases handleCreateBucket_cases env now s input with ⟨e, h⟩ | ⟨out, hnone, h⟩
  · exact of_contents_eq rfl (by rw [h])
  · have hcontents : (handleCreateBucket env now s input).1.contents =
        s.contents.create input.bucket (createdBucket env now input).shelf := by
      rw [h]
      exact Contents.ext (AList.map_lookup_insert _ _ _ _) (AList.lookup_insert_eq_update _ _ _)
        rfl rfl
    rw [hcontents]
    exact create input hnone

theorem contents_dropData (s : RustackS3) (name : String) :
    (s.dropData name).contents = s.contents.dropBodies name := by
  refine Contents.ext rfl rfl (funext fun place => ?_) rfl
  change AList.lookup place (AList.retain (fun k => k.1 != name) s.storage.objects) = _
  rw [AList.lookup_retain]
  by_cases h : place.1 = name
  · rw [if_neg (by rw [h, bne_self_eq_false]; exact Bool.false_ne_true)]
    exact (if_pos h).symm
  · rw [if_pos (bne_iff_ne.mpr h)]
    exact (if_neg h).symm

theorem deleteBucket (bucket : String) :
    Effect env now s (.deleteBucket bucket) (s.handleDeleteBucket bucket).1.contents := by
  by_cases hgoes : s.MayGo bucket
  · have hcontents : (s.handleDeleteBucket bucket).1.contents = s.contents.destroy bucket := by
      have hdrop : (s.dropData bucket).contents.bodies = (s.contents.dropBodies bucket).bodies := by
        rw [contents_dropData]
      rw [handleDeleteBucket_of_mayGo hgoes]
      exact Contents.ext (AList.map_lookup_erase _ _ _) (AList.lookup_erase_eq_update _ _)
        hdrop rfl
    rw [hcontents]
    exact destroy bucket hgoes
  · obtain ⟨e, hdelete⟩ := handleDeleteBucket_of_not_mayGo hgoes
    rw [hdelete, contents_dropData]
    exact refuse bucket hgoes

theorem putBucketVersioning (bucket : String) (status : Option BucketVersioningStatus) :
    Effect env now s (.putBucketVersioning bucket status)
      (s.handlePutBucketVersioning bucket status).1.contents := by
  refine commit_effect rfl fun s' out hresult => ?_
  obtain ⟨_, _, hresult⟩ := bind_eq_ok.mp hresult
  cases hresult
  cases status with
  | none => exact of_contents_eq rfl (contents_modifyBucket_of_same (fun _ => rfl) s bucket)
  | some status =>
      cases status with
      | enabled =>
          have h := contents_modifyBucket (f := setVersioning (some .enabled))
            S3Bucket.shelf_enableVersioning s bucket
          rw [h]
          exact enable _ bucket rfl
      | suspended =>
          have h := contents_modifyBucket (f := setVersioning (some .suspended))
            S3Bucket.shelf_suspendVersioning s bucket
          rw [h]
          exact suspend _ bucket rfl

theorem putBucketCors (bucket : String) (configs : List CorsRuleConfig) :
    Effect env now s (.putBucketCors bucket configs)
      (s.handlePutBucketCors bucket configs).1.contents := by
  refine commit_effect rfl fun s' out hresult => ?_
  obtain ⟨_, _, hresult⟩ := bind_eq_ok.mp hresult
  cases hresult
  exact of_contents_eq rfl (contents_modifyBucket_of_same
    (f := fun b => { b with corsRules := some configs }) (fun _ => rfl) s bucket)

theorem deleteBucketCors (bucket : String) :
    Effect env now s (.deleteBucketCors bucket) (s.handleDeleteBucketCors bucket).1.contents := by
  refine commit_effect rfl fun s' out hresult => ?_
  obtain ⟨_, _, hresult⟩ := bind_eq_ok.mp hresult
  cases hresult
  exact of_contents_eq rfl (contents_modifyBucket_of_same
    (f := fun b => { b with corsRules := none }) (fun _ => rfl) s bucket)

theorem putObjectLockConfiguration (bucket : String) (config : Option ObjectLockConfiguration) :
    Effect env now s (.putObjectLockConfiguration bucket config)
      (s.handlePutObjectLockConfiguration bucket config).1.contents := by
  refine commit_effect rfl fun s' out hresult => ?_
  obtain ⟨_, _, hresult⟩ := bind_eq_ok.mp hresult
  cases config with
  | none =>
      cases hresult
      exact of_contents_eq rfl rfl
  | some config =>
      cases hresult
      have hlock : ∀ b : S3Bucket, S3Bucket.shelf
          { enableObjectLock b with objectLockConfiguration := some config } =
            b.shelf.enable := fun b => S3Bucket.shelf_enableVersioning _
      rw [contents_modifyBucket hlock]
      exact enable _ bucket rfl

/-! ## Deletes -/

theorem contents_setObjects {bucket : S3Bucket} {name : String}
    (hbucket : s.state.buckets.lookup name = some bucket) (f : ObjectStore → ObjectStore) :
    (s.setObjects name (f bucket.objects)).contents = s.contents.mapStore name f := by
  have hset := contents_modifyBucket (f := fun b => { b with objects := f bucket.objects })
    (g := fun shelf => { shelf with objects := f bucket.objects }) (fun _ => rfl) s name
  refine hset.trans ?_
  have hshelf : s.contents.shelves name = some bucket.shelf := by
    change Option.map S3Bucket.shelf _ = _
    rw [hbucket]
    rfl
  unfold Contents.mapStore Contents.mapShelf
  rw [hshelf]
  rfl

theorem contents_deleteObject (s : RustackS3) (bucket key versionId : String) :
    RustackS3.contents { s with storage := s.storage.deleteObject bucket key versionId } =
      s.contents.setBody (bucket, key, versionId) none :=
  Contents.ext rfl rfl (AList.lookup_erase_eq_update _ _) rfl

theorem shelves_of_lookup {bucket : S3Bucket} {name : String}
    (hbucket : s.state.buckets.lookup name = some bucket) :
    s.contents.shelves name = some bucket.shelf := by
  change Option.map S3Bucket.shelf _ = _
  rw [hbucket]
  rfl

theorem contents_removeVersion {bucket : S3Bucket} {name : String}
    (hbucket : s.state.buckets.lookup name = some bucket) (key versionId : String) :
    (s.removeVersion name bucket.objects key versionId).1.contents =
      s.contents.removeVersion name key versionId := by
  have hset := contents_setObjects hbucket fun store => (store.deleteVersion key versionId).1
  unfold removeVersion Contents.removeVersion
  rw [shelves_of_lookup hbucket]
  have hshelf : bucket.shelf.objects = bucket.objects := rfl
  cases h : (bucket.objects.deleteVersion key versionId).2 with
  | none =>
      simp only [h, hshelf]
      exact hset
  | some version =>
      simp only [h, hshelf]
      rw [contents_deleteObject, hset]

theorem contents_removeLatest {bucket : S3Bucket} {name : String}
    (hbucket : s.state.buckets.lookup name = some bucket) (key : String) :
    (removeLatest env now s name bucket.objects key).1.contents =
      s.contents.removeLatest env now name key := by
  have hset := contents_setObjects hbucket fun store =>
    (store.deleteVersioned key .default (env.versionIds s.drawn) now).1
  unfold Contents.removeLatest
  rw [shelves_of_lookup hbucket]
  cases hobjects : bucket.objects with
  | unversioned ks =>
      rw [hobjects] at hset
      change _ = if bucket.objects.isVersioned then _ else _
      rw [hobjects]
      exact (contents_deleteObject _ name key "null").trans
        (congrArg (fun c => Contents.setBody (c.draw 1) (name, key, "null") none) hset)
  | versioned vs =>
      rw [hobjects] at hset
      change _ = if bucket.objects.isVersioned then _ else _
      rw [hobjects]
      exact congrArg (Contents.draw · 1) hset

/-- A delete fails and changes nothing, or takes one object away. -/
theorem handleDeleteObject_deletion (input : DeleteObjectInput) :
    (handleDeleteObject env now s input).1.contents = s.contents ∨
      Deletion env now (input.bypassGovernanceRetention.getD false) input.bucket s.contents
        (handleDeleteObject env now s input).1.contents := by
  refine commit_rule (motive := fun s' => s'.contents = s.contents ∨
    Deletion env now _ input.bucket s.contents s'.contents) (.inl rfl) fun s' out hresult => ?_
  obtain ⟨bucket, hbucket, hresult⟩ := bind_eq_ok.mp hresult
  rw [getBucket_eq_ok] at hbucket
  have hshelf := shelves_of_lookup hbucket
  right
  cases hversion : input.versionId with
  | some versionId =>
      rw [hversion, bind_eq_ok] at hresult
      obtain ⟨_, hlock, hresult⟩ := hresult
      obtain rfl : (s.removeVersion input.bucket bucket.objects input.key versionId).1 = s' :=
        congrArg Prod.fst (Except.ok.inj hresult)
      rw [contents_removeVersion hbucket]
      exact .version input.key versionId bucket.shelf hshelf hlock
  | none =>
      rw [hversion] at hresult
      obtain rfl : (removeLatest env now s input.bucket bucket.objects input.key).1 = s' :=
        congrArg Prod.fst (Except.ok.inj hresult)
      rw [contents_removeLatest hbucket]
      exact .latest input.key bucket.shelf hshelf

theorem deleteObject (input : DeleteObjectInput) :
    Effect env now s (.deleteObject input) (handleDeleteObject env now s input).1.contents := by
  rcases @handleDeleteObject_deletion env now s input with hsame | hdelete
  · rw [hsame]
    exact of_contents_eq rfl rfl
  · exact delete input _ hdelete

/-- An entry of a bulk delete takes away at most one object. -/
theorem deleteEntry_deletion (bucketName : String) (bypass : Bool) (entry : ObjectIdentifier) :
    Relation.ReflTransGen (Deletion env now bypass bucketName) s.contents
      (deleteEntry env now s bucketName bypass entry).1.contents := by
  unfold deleteEntry
  split
  · exact .refl
  · next bucket hbucket =>
      rw [getBucket_eq_ok] at hbucket
      have hshelf := shelves_of_lookup hbucket
      split
      · next versionId hversion =>
          split
          · exact .refl
          · next hlock =>
              refine .single ?_
              have hremove := contents_removeVersion hbucket entry.key versionId
              change Deletion _ _ _ _ _ (s.removeVersion _ _ _ _).1.contents
              rw [hremove]
              exact .version entry.key versionId bucket.shelf hshelf hlock
      · refine .single ?_
        have hremove :
            (removeLatest env now s bucketName bucket.objects entry.key).1.contents = _ :=
          contents_removeLatest hbucket entry.key
        change Deletion _ _ _ _ _ (removeLatest env now s _ _ _).1.contents
        rw [hremove]
        exact .latest entry.key bucket.shelf hshelf

theorem deleteEntries_deletion (bucketName : String) (bypass : Bool)
    (entries : List ObjectIdentifier) (s : RustackS3) :
    Relation.ReflTransGen (Deletion env now bypass bucketName) s.contents
      (deleteEntries env now bucketName bypass s entries).1.contents := by
  induction entries generalizing s with
  | nil => exact .refl
  | cons entry entries ih =>
      exact (deleteEntry_deletion bucketName bypass entry).trans (ih _)

theorem deleteObjects (input : DeleteObjectsInput) :
    Effect env now s (.deleteObjects input) (handleDeleteObjects env now s input).1.contents := by
  refine commit_effect rfl fun s' out hresult => ?_
  obtain ⟨_, _, hresult⟩ := bind_eq_ok.mp hresult
  cases hresult
  exact deletes input _ (deleteEntries_deletion input.bucket _ input.objects s)

/-! ## Metadata -/

theorem contents_storeObject (s : RustackS3) (bucket : String) (object : S3Object) :
    (s.storeObject env bucket object).contents = s.contents.reinsert env bucket object := by
  have hmodify := contents_modifyBucket
    (f := fun b => { b with objects := b.objects.put object (env.versionIds (s.drawn + 1)) })
    (g := fun shelf =>
      { shelf with objects := shelf.objects.put object (env.versionIds (s.drawn + 1)) })
    (fun _ => rfl) s bucket
  exact congrArg (Contents.draw · 2) hmodify

theorem reinsert_effect {op : S3Op} {bucket key : String} {versionId : Option String}
    {f : ObjectMetadata → ObjectMetadata} {s' : RustackS3}
    (hop : op.reinserts = some (bucket, key, versionId)) (hwritten : written env now s op = none)
    (h : s.reinsert env bucket key versionId f = .ok s') : Effect env now s op s'.contents := by
  unfold RustackS3.reinsert at h
  obtain ⟨b, hbucket, h⟩ := bind_eq_ok.mp h
  rw [getBucket_eq_ok] at hbucket
  obtain ⟨object, hobject, h⟩ := bind_eq_ok.mp h
  rw [asS3Error_eq_ok] at hobject
  cases h
  rw [contents_storeObject]
  exact reinsert op bucket key versionId b.shelf object f hop hwritten (shelves_of_lookup hbucket)
    hobject

theorem putObjectTagging (input : PutObjectTaggingInput) :
    Effect env now s (.putObjectTagging input) (handlePutObjectTagging env s input).1.contents := by
  refine commit_effect rfl fun s' out hresult => ?_
  obtain ⟨_, _, hresult⟩ := bind_eq_ok.mp hresult
  obtain ⟨_, htags, hresult⟩ := bind_eq_ok.mp hresult
  obtain ⟨s'', hreinsert, hresult⟩ := bind_eq_ok.mp hresult
  cases hresult
  rw [asS3Error_eq_ok] at htags
  refine reinsert_effect (if_pos ?_) rfl hreinsert
  rw [htags]
  rfl

theorem deleteObjectTagging (input : DeleteObjectTaggingInput) :
    Effect env now s (.deleteObjectTagging input)
      (handleDeleteObjectTagging env s input).1.contents := by
  refine commit_effect rfl fun s' out hresult => ?_
  obtain ⟨s'', hreinsert, hresult⟩ := bind_eq_ok.mp hresult
  cases hresult
  exact reinsert_effect rfl rfl hreinsert

theorem putObjectAcl (input : PutObjectAclInput) :
    Effect env now s (.putObjectAcl input) (handlePutObjectAcl env s input).1.contents := by
  refine commit_effect rfl fun s' out hresult => ?_
  obtain ⟨_, _, hresult⟩ := bind_eq_ok.mp hresult
  split at hresult
  · cases hresult
    exact of_contents_eq rfl rfl
  · next acl hacl =>
      split at hresult
      · cases hresult
      · next canned hcanned =>
          obtain ⟨s'', hreinsert, hresult⟩ := bind_eq_ok.mp hresult
          cases hresult
          refine reinsert_effect (if_pos ?_) rfl hreinsert
          rw [hacl, Option.bind_some, hcanned]
          rfl

theorem contents_updateInPlace (s : RustackS3) (bucket key : String) (versionId : Option String)
    (f : ObjectMetadata → ObjectMetadata) :
    (s.updateInPlace bucket key versionId f).contents =
      s.contents.update bucket key versionId f :=
  contents_modifyBucket (fun _ => rfl) s bucket

theorem putObjectRetention (input : PutObjectRetentionInput) :
    Effect env now s (.putObjectRetention input)
      (handlePutObjectRetention now s input).1.contents := by
  refine commit_effect rfl fun s' out hresult => ?_
  obtain ⟨bucket, hbucket, hresult⟩ := bind_eq_ok.mp hresult
  rw [getBucket_eq_ok] at hbucket
  obtain ⟨object, hobject, hresult⟩ := bind_eq_ok.mp hresult
  rw [asS3Error_eq_ok] at hobject
  obtain ⟨_, hchange, hresult⟩ := bind_eq_ok.mp hresult
  rw [asS3Error_eq_ok] at hchange
  cases hresult
  rw [contents_updateInPlace]
  exact retention input bucket.shelf object (shelves_of_lookup hbucket) hobject hchange

theorem putObjectLegalHold (input : PutObjectLegalHoldInput) :
    Effect env now s (.putObjectLegalHold input)
      (s.handlePutObjectLegalHold input).1.contents := by
  refine commit_effect rfl fun s' out hresult => ?_
  obtain ⟨bucket, hbucket, hresult⟩ := bind_eq_ok.mp hresult
  rw [getBucket_eq_ok] at hbucket
  cases hlock : bucket.objectLockEnabled with
  | false =>
      rw [if_pos hlock] at hresult
      cases hresult
  | true =>
      rw [if_neg (by rw [hlock]; exact Bool.noConfusion)] at hresult
      cases hstatus : input.status with
      | none =>
          rw [hstatus] at hresult
          cases hresult
      | some status =>
          rw [hstatus] at hresult
          obtain ⟨object, hobject, hresult⟩ := bind_eq_ok.mp hresult
          rw [asS3Error_eq_ok] at hobject
          cases hresult
          rw [contents_updateInPlace]
          exact legalHold input status bucket.shelf object (shelves_of_lookup hbucket) hobject
            hstatus

/-! ## Writes -/

/-- A body and an object stored one after the other. -/
theorem contents_store {storage : InMemoryStorage} {bucket : String} {object : S3Object}
    {body : StoredData} (hstorage : storage.objects =
      s.storage.objects.insert (bucket, object.key, object.versionId) body) :
    (RustackS3.storeObject env { s with storage } bucket object).contents =
      s.contents.write env bucket object body := by
  rw [contents_storeObject]
  refine congrArg (Contents.reinsert · env bucket object) (Contents.ext rfl rfl ?_ rfl)
  change (fun place => storage.objects.lookup place) = _
  rw [hstorage]
  exact AList.lookup_insert_eq_update _ _ _

theorem newVersionId_eq (s : RustackS3) (bucket : S3Bucket) :
    s.newVersionId env bucket = bucket.shelf.newId env s.drawn := by
  unfold newVersionId Shelf.newId S3Bucket.isVersioningEnabled
  exact if_congr beq_iff_eq rfl rfl

theorem preparePut_eq_ok {input : PutObjectInput} {upload : Option StagedUpload} {plan : PutPlan}
    (h : preparePut env s input upload = .ok plan) :
    ∃ bucket, s.state.buckets.lookup input.bucket = some bucket ∧
      plan.versionId = s.newVersionId env bucket := by
  unfold preparePut at h
  simp only [bind_eq_ok, getBucket_eq_ok] at h
  obtain ⟨_, _, bucket, hbucket, _, _, _, _, _, _, _, _, h⟩ := h
  cases h
  exact ⟨bucket, hbucket, rfl⟩

/-- What the storage keeps is what the request carries. -/
theorem writeBody_spec (s : RustackS3) (bucket key versionId : String) (body : Option Bytes)
    (upload : Option StagedUpload) :
    (∃ stored, (s.writeBody env bucket key versionId body upload).1.objects =
        s.storage.objects.insert (bucket, key, versionId) stored ∧
      stored.data = requestData body upload) ∧
    (s.writeBody env bucket key versionId body upload).2 =
      writeResult env.digests (requestData body upload) := by
  cases upload with
  | some upload => exact ⟨⟨.staged upload, rfl, rfl⟩, rfl⟩
  | none =>
      refine ⟨⟨s.storage.storeData (body.getD []), rfl, ?_⟩, rfl⟩
      unfold storeData
      split <;> rfl

theorem store_effect {op : S3Op} {w : Written} {bucket : S3Bucket} {storage : InMemoryStorage}
    {object : S3Object} {stored : StoredData} (hwritten : written env now s op = some w)
    (hbucket : s.state.buckets.lookup w.bucket = some bucket) (hkey : object.key = w.key)
    (hid : object.versionId = s.newVersionId env bucket) (hetag : object.etag = w.etag)
    (hsize : object.size = w.data.length) (hstorage : storage.objects =
      s.storage.objects.insert (w.bucket, object.key, object.versionId) stored)
    (hdata : stored.data = w.data) :
    Effect env now s op
      (RustackS3.storeObject env { s with storage } w.bucket object).contents := by
  rw [contents_store hstorage]
  exact write op w bucket.shelf object stored hwritten (shelves_of_lookup hbucket) hkey
    (hid.trans (newVersionId_eq s bucket)) hetag hsize hdata

theorem putObject (input : PutObjectInput) (upload : Option StagedUpload) :
    Effect env now s (.putObject input upload)
      (putObjectBody env now s input upload).1.contents := by
  have hcases : (∃ e, putObjectBody env now s input upload = (s, .error e)) ∨
    ∃ s' out, _ = _ ∧ putObjectBody env now s input upload = (s', .ok out) := s.commit_cases _
  rcases hcases with ⟨e, h⟩ | ⟨s', out, hresult, h⟩
  · refine of_contents_eq ?_ (by rw [h])
    rw [written, h]
    rfl
  · rw [bind_eq_ok] at hresult
    obtain ⟨plan, hplan, hresult⟩ := hresult
    obtain ⟨bucket, hbucket, hid⟩ := preparePut_eq_ok hplan
    obtain ⟨⟨stored, hstored, hdata⟩, hwrite⟩ := @writeBody_spec env s input.bucket
      input.key plan.versionId input.body upload
    have hwritten : written env now s (.putObject input upload) = some
        { bucket := input.bucket
          key := input.key
          data := requestData input.body upload
          etag := quotedMd5 env.digests (requestData input.body upload) } := by
      rw [written, h]
      rfl
    have hs' : _ = s' := congrArg Prod.fst (Except.ok.inj hresult)
    have hfirst : (putObjectBody env now s input upload).1 = s' := by rw [h]
    rw [hfirst, ← hs']
    exact store_effect hwritten hbucket rfl hid (congrArg WriteResult.etag hwrite)
      (congrArg WriteResult.size hwrite) hstored hdata

theorem asInternal_eq_ok {α : Type} {x : Except S3ServiceError α} {a : α} :
    asInternal x = .ok a ↔ x = .ok a := by
  cases x <;> simp [asInternal, Except.mapError]

theorem prepareCopy_eq_ok {input : CopyObjectInput} {plan : CopyPlan}
    (h : prepareCopy env s input = .ok plan) :
    ∃ bucket, s.state.buckets.lookup input.bucket = some bucket ∧
      plan.versionId = s.newVersionId env bucket := by
  unfold prepareCopy at h
  simp only [bind_eq_ok, getBucket_eq_ok] at h
  obtain ⟨_, _, _, _, _, _, _, _, bucket, hbucket, h⟩ := h
  cases h
  exact ⟨bucket, hbucket, rfl⟩

/-- A copy that succeeds has found its source. -/
theorem copyObject_eq_ok {d : Digests} {storage storage' : InMemoryStorage} {result : WriteResult}
    {srcBucket srcKey srcVersionId dstBucket dstKey dstVersionId : String}
    (h : storage.copyObject d srcBucket srcKey srcVersionId dstBucket dstKey dstVersionId =
      .ok (storage', result)) :
    ∃ source stored, storage.objects.lookup (srcBucket, srcKey, srcVersionId) = some source ∧
      storage'.objects = storage.objects.insert (dstBucket, dstKey, dstVersionId) stored ∧
      stored.data = source.data ∧ result = writeResult d source.data := by
  unfold copyObject stagedObject at h
  split at h
  · next upload hupload =>
      split at hupload
      · next upload' hlookup =>
          cases hupload
          cases h
          exact ⟨_, .staged upload, hlookup, rfl, rfl, rfl⟩
      · cases hupload
  · rw [bind_eq_ok] at h
    obtain ⟨data, hread, h⟩ := h
    cases h
    unfold readObject at hread
    split at hread
    · cases hread
    · next stored hlookup =>
        have hdata : stored.data = data := by
          cases stored with
          | staged upload =>
              unfold StoredData.readAll at hread
              dsimp only at hread
              split at hread
              · cases hread
              · exact Except.ok.inj hread
          | inMemory | onDisk => exact Except.ok.inj hread
        refine ⟨stored, storage.storeData data, hlookup, rfl, ?_, ?_⟩
        · rw [hdata]
          unfold storeData
          split <;> rfl
        · rw [hdata]

theorem copyObject (input : CopyObjectInput) :
    Effect env now s (.copyObject input) (handleCopyObject env now s input).1.contents := by
  have hcases : (∃ e, handleCopyObject env now s input = (s, .error e)) ∨
    ∃ s' out, _ = _ ∧ handleCopyObject env now s input = (s', .ok out) := s.commit_cases _
  rcases hcases with ⟨e, h⟩ | ⟨s', out, hresult, h⟩
  · refine of_contents_eq ?_ (by rw [h])
    rw [written, h]
  · rw [bind_eq_ok] at hresult
    obtain ⟨plan, hplan, hresult⟩ := hresult
    obtain ⟨⟨storage, result⟩, hcopy, hresult⟩ := bind_eq_ok.mp hresult
    rw [asInternal_eq_ok] at hcopy
    obtain ⟨bucket, hbucket, hid⟩ := prepareCopy_eq_ok hplan
    obtain ⟨source, stored, hsource, hstored, hdata, rfl⟩ := copyObject_eq_ok hcopy
    have hwritten : written env now s (.copyObject input) = some
        { bucket := input.bucket
          key := input.key
          data := source.data
          etag := quotedMd5 env.digests source.data } := by
      rw [written, h, hplan]
      unfold sourceData
      simp only [hsource, Option.map_some, Option.getD_some]
    have hs' : _ = s' := congrArg Prod.fst (Except.ok.inj hresult)
    have hfirst : (handleCopyObject env now s input).1 = s' := by rw [h]
    rw [hfirst, ← hs']
    exact store_effect hwritten hbucket rfl hid rfl rfl hstored hdata

/-- The parts asked for, one after the other. -/
theorem appendParts_eq_ok {d : Digests} {bucket uploadId : String} {data data' : Bytes}
    {digests digests' : List String} {partNumbers : List ℕ}
    (h : s.storage.appendParts d bucket uploadId data digests partNumbers =
      .ok (data', digests')) :
    data' = data ++ (partNumbers.map (partData s bucket uploadId)).flatten ∧
      digests' = digests ++
        (partNumbers.map (partData s bucket uploadId)).map (computeMd5 d) := by
  induction partNumbers generalizing data digests with
  | nil =>
      cases h
      simp
  | cons partNumber partNumbers ih =>
      rw [appendParts] at h
      split at h
      · cases h
      · next stored hstored =>
          split at h
          · cases h
          · obtain ⟨hdata, hdigests⟩ := ih h
            have hpart : partData s bucket uploadId partNumber = stored.data := by
              unfold partData
              rw [hstored]
              rfl
            rw [hdata, hdigests, List.map_cons, hpart]
            simp

theorem requestedParts_eq_ok {upload : MultipartUpload} {lastNum : ℤ} {parts : List CompletedPart}
    {partNumbers : List ℕ} (h : requestedParts upload lastNum parts = .ok partNumbers) :
    partNumbers = completedNumbers parts := by
  induction parts generalizing lastNum partNumbers with
  | nil =>
      cases h
      rfl
  | cons part parts ih =>
      unfold requestedParts at h
      split at h
      · cases h
      · next partNum hpart =>
          split at h
          · cases h
          · split at h
            · cases h
            · cases hrest : requestedParts upload partNum parts with
              | error e =>
                  rw [hrest] at h
                  cases h
              | ok rest =>
                  rw [hrest] at h
                  cases h
                  rw [completedNumbers, List.filterMap_cons, hpart, ih hrest]
                  rfl

theorem prepareComplete_eq_ok {input : CompleteMultipartUploadInput} {plan : CompletePlan}
    (h : prepareComplete env s input = .ok plan) :
    ∃ bucket, s.state.buckets.lookup input.bucket = some bucket ∧
      plan.versionId = s.newVersionId env bucket ∧
      plan.partNumbers = completedNumbers input.parts := by
  unfold prepareComplete at h
  obtain ⟨bucket, hbucket, h⟩ := bind_eq_ok.mp h
  rw [getBucket_eq_ok] at hbucket
  split at h
  · cases h
  · rw [bind_eq_ok] at h
    obtain ⟨partNumbers, hparts, h⟩ := h
    obtain ⟨_, _, h⟩ := bind_eq_ok.mp h
    cases h
    exact ⟨bucket, hbucket, rfl, requestedParts_eq_ok hparts⟩

theorem completeMultipart_eq_ok {d : Digests} {storage : InMemoryStorage} {result : WriteResult}
    {bucket uploadId key versionId : String} {partNumbers : List ℕ} {digests : List String}
    (h : s.storage.completeMultipart d bucket uploadId key versionId partNumbers =
      .ok (storage, result, digests)) :
    let parts := partNumbers.map (partData s bucket uploadId)
    storage.objects = s.storage.objects.insert (bucket, key, versionId)
        (.staged ⟨parts.flatten⟩) ∧
      result.size = parts.flatten.length ∧
      result.etag = computeMultipartEtag d (parts.map (computeMd5 d)) parts.length := by
  unfold completeMultipart at h
  obtain ⟨⟨data, digests'⟩, hparts, h⟩ := bind_eq_ok.mp h
  obtain ⟨rfl, rfl⟩ := appendParts_eq_ok hparts
  cases h
  refine ⟨rfl, rfl, ?_⟩
  rw [List.length_map]
  rfl

theorem completeMultipartUpload (input : CompleteMultipartUploadInput) :
    Effect env now s (.completeMultipartUpload input)
      (handleCompleteMultipartUpload env now s input).1.contents := by
  have hcases : (∃ e, handleCompleteMultipartUpload env now s input = (s, .error e)) ∨
    ∃ s' out, _ = _ ∧ handleCompleteMultipartUpload env now s input = (s', .ok out) :=
      s.commit_cases _
  rcases hcases with ⟨e, h⟩ | ⟨s', out, hresult, h⟩
  · refine of_contents_eq ?_ (by rw [h])
    rw [written, h]
    rfl
  · rw [bind_eq_ok] at hresult
    obtain ⟨plan, hplan, hresult⟩ := hresult
    obtain ⟨⟨storage, result, digests⟩, hcomplete, hresult⟩ := bind_eq_ok.mp hresult
    rw [asInternal_eq_ok] at hcomplete
    obtain ⟨bucket, hbucket, hid, hnumbers⟩ := prepareComplete_eq_ok hplan
    obtain ⟨hstored, hsize, hetag⟩ := completeMultipart_eq_ok hcomplete
    rw [hnumbers] at hstored hsize hetag
    have hwritten : written env now s (.completeMultipartUpload input) = some
        { bucket := input.bucket
          key := input.key
          data := ((completedNumbers input.parts).map
            (partData s input.bucket input.uploadId)).flatten
          etag := computeMultipartEtag env.digests
            (((completedNumbers input.parts).map (partData s input.bucket input.uploadId)).map
              (computeMd5 env.digests))
            ((completedNumbers input.parts).map (partData s input.bucket input.uploadId)).length }
        := by
      rw [written, h]
      rfl
    have hs' : _ = s' := congrArg Prod.fst (Except.ok.inj hresult)
    have hfirst : (handleCompleteMultipartUpload env now s input).1 = s' := by rw [h]
    rw [hfirst, ← hs', contents_modifyBucket_of_same
      (f := fun b => { b with multipartUploads := b.multipartUploads.erase input.uploadId })
      fun _ => rfl]
    exact store_effect hwritten hbucket rfl hid hetag hsize hstored rfl

/-! ## Calls that store no object -/

theorem contents_addUpload (s : RustackS3) (bucket uploadId : String) (upload : MultipartUpload) :
    RustackS3.contents { s.modifyBucket bucket fun b =>
        { b with multipartUploads := b.multipartUploads.insert uploadId upload } with
      drawn := s.drawn + 1 } = s.contents.draw 1 := by
  have hsame := contents_modifyBucket_of_same
    (f := fun b => { b with multipartUploads := b.multipartUploads.insert uploadId upload })
    (fun _ => rfl) s bucket
  exact congrArg (Contents.draw · 1) hsame

theorem createMultipartUpload (input : CreateMultipartUploadInput) :
    Effect env now s (.createMultipartUpload input)
      (handleCreateMultipartUpload env now s input).1.contents := by
  refine commit_effect rfl fun s' out hresult => ?_
  obtain ⟨_, _, hresult⟩ := bind_eq_ok.mp hresult
  obtain ⟨_, _, hresult⟩ := bind_eq_ok.mp hresult
  cases hresult
  refine (congrArg (Effect env now s _) (contents_addUpload s input.bucket _ _)).mpr ?_
  exact quiet _ 1 rfl

theorem contents_recordPart (s : RustackS3) (bucket uploadId : String) (part : UploadPart) :
    (s.recordPart bucket uploadId part).contents = s.contents := by
  refine contents_modifyBucket_of_same (fun b => ?_) s bucket
  split <;> rfl

theorem uploadPart (input : UploadPartInput) (staged : Option StagedUpload) :
    Effect env now s (.uploadPart input staged)
      (uploadPartBody env now s input staged).1.contents := by
  refine commit_effect rfl fun s' out hresult => ?_
  obtain ⟨checksum, _, hresult⟩ := bind_eq_ok.mp hresult
  cases hresult
  rw [contents_recordPart]
  refine of_contents_eq rfl ?_
  cases staged <;> rfl

theorem uploadPartCopy (input : UploadPartCopyInput) :
    Effect env now s (.uploadPartCopy input) (handleUploadPartCopy env now s input).1.contents := by
  refine of_contents_eq rfl ?_
  unfold handleUploadPartCopy
  split
  · rfl
  · next srcBucket srcKey srcVersionId hsource =>
      dsimp only
      split
      · rfl
      · next storage result hwritten =>
          have hobjects : storage.objects = s.storage.objects := by
            split at hwritten
            · cases hwritten
              rfl
            · rw [bind_eq_ok] at hwritten
              obtain ⟨_, _, hwritten⟩ := hwritten
              cases hwritten
              rfl
          have hsame : RustackS3.contents { s with storage } = s.contents :=
            Contents.ext rfl rfl (congrArg (fun m place => AList.lookup place m) hobjects) rfl
          split
          · exact hsame
          · exact (contents_recordPart _ _ _ _).trans hsame

theorem abortMultipartUpload (bucket uploadId : String) :
    Effect env now s (.abortMultipartUpload bucket uploadId)
      (s.handleAbortMultipartUpload bucket uploadId).1.contents := by
  refine commit_effect rfl fun s' out hresult => ?_
  obtain ⟨_, _, hresult⟩ := bind_eq_ok.mp hresult
  cases hresult
  exact of_contents_eq rfl (contents_modifyBucket_of_same
    (f := fun b => { b with multipartUploads := b.multipartUploads.erase uploadId })
    (fun _ => rfl) s bucket)

end Effect

/-- Every call has one of the effects. -/
theorem step_effect (env : S3Env) (now : DateTime) (s : RustackS3) (op : S3Op) :
    Effect env now s op (s.step env now op).contents := by
  cases op with
  | createBucket input => exact Effect.createBucket input
  | deleteBucket bucket => exact Effect.deleteBucket bucket
  | putBucketVersioning bucket status => exact Effect.putBucketVersioning bucket status
  | putBucketCors bucket configs => exact Effect.putBucketCors bucket configs
  | deleteBucketCors bucket => exact Effect.deleteBucketCors bucket
  | putObjectLockConfiguration bucket config =>
      exact Effect.putObjectLockConfiguration bucket config
  | putObject input upload => exact Effect.putObject input upload
  | deleteObject input => exact Effect.deleteObject input
  | deleteObjects input => exact Effect.deleteObjects input
  | copyObject input => exact Effect.copyObject input
  | putObjectTagging input => exact Effect.putObjectTagging input
  | deleteObjectTagging input => exact Effect.deleteObjectTagging input
  | putObjectAcl input => exact Effect.putObjectAcl input
  | putObjectRetention input => exact Effect.putObjectRetention input
  | putObjectLegalHold input => exact Effect.putObjectLegalHold input
  | createMultipartUpload input => exact Effect.createMultipartUpload input
  | uploadPart input staged => exact Effect.uploadPart input staged
  | uploadPartCopy input => exact Effect.uploadPartCopy input
  | completeMultipartUpload input => exact Effect.completeMultipartUpload input
  | abortMultipartUpload bucket uploadId => exact Effect.abortMultipartUpload bucket uploadId

end Rustack.S3
