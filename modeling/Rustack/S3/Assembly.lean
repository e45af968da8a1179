import Rustack.S3.Versions

/-!
# Uploads that are put together

An upload keeps for each number the part that came last, in its record as well as in storage, so
that completing it puts together what has been sent.  Beside the upload goes what its parts were
to hold: the body of a call, or the bytes of a source that a copy asks for.
-/

namespace Rustack.S3

open RustackS3 List
open Except (bind_eq_ok)
open Option (map_some bind_some)

namespace Assembly

/-! ## What a part is to hold -/

/-- The version that is asked for: the one named, or the current one. -/
def sourceVersion (s : RustackS3) (bucket key : String) (versionId : Option String) :
    Option S3Object :=
  (s.state.buckets.lookup bucket).bind fun b =>
    match versionId with
    | none => b.objects.get key
    | some id => b.objects.getVersion key id

def sourceBytes (s : RustackS3) (bucket key : String) (versionId : Option String) : Option Bytes :=
  (sourceVersion s bucket key versionId).bind fun object =>
    (s.storage.objects.lookup (bucket, key, object.versionId)).map StoredData.data

/-- The bytes from the first to the last. -/
def byteRange (data : Bytes) : Option (ℕ × ℕ) → Option Bytes
  | none => some data
  | some (first, last) =>
    if first ≤ last ∧ last < data.length then some ((data.take (last + 1)).drop first) else none

/-- A call that sends a part; a copy may ask for a range of its source. -/
inductive PartCall where
  | upload (input : UploadPartInput) (staged : Option StagedUpload)
  | copy (input : UploadPartCopyInput) (range : Option (ℕ × ℕ))

namespace PartCall

def bucket : PartCall → String
  | upload input _ => input.bucket
  | copy input _ => input.bucket

def uploadId : PartCall → String
  | upload input _ => input.uploadId
  | copy input _ => input.uploadId

def number : PartCall → ℕ
  | upload input _ => input.partNumber.toNat
  | copy input _ => asU32 input.partNumber

def copied : PartCall → Bool
  | upload _ _ => false
  | copy _ _ => true

/-- The state that a call leaves behind, and whether it succeeded. -/
def run (env : S3Env) (now : DateTime) (s : RustackS3) : PartCall → RustackS3 × Bool
  | upload input staged =>
    ((uploadPartBody env now s input staged).1, (uploadPartBody env now s input staged).2.isOk)
  | copy input _ =>
    ((handleUploadPartCopy env now s input).1, (handleUploadPartCopy env now s input).2.isOk)

/-- The bytes that the part is to hold. -/
def requested (env : S3Env) (s : RustackS3) : PartCall → Option Bytes
  | upload input staged => some (requestData input.body staged)
  | copy input range =>
    match parseCopySource env.percentDecode input.copySource with
    | .error _ => none
    | .ok (bucket, key, versionId) =>
      (sourceBytes s bucket key versionId).bind fun data => byteRange data range

/-- A copy finds the version that is asked for under the id that it reads, and asks for the whole
of it. -/
def Plain (env : S3Env) (s : RustackS3) : PartCall → Prop
  | upload _ _ => True
  | copy input range =>
    ∀ bucket key versionId,
      parseCopySource env.percentDecode input.copySource = .ok (bucket, key, versionId) →
        (sourceVersion s bucket key versionId = none →
          s.storage.objects.lookup (bucket, key, versionId.getD "null") = none) ∧
        ∀ object, sourceVersion s bucket key versionId = some object →
          object.versionId = versionId.getD "null" ∧
            ∀ data, sourceBytes s bucket key versionId = some data →
              byteRange data range = some data

end PartCall

/-! ## Runs of an upload -/

structure Received where
  data : Bytes
  copied : Bool

/-- What has been received last under each number. -/
abbrev Latest := ℕ → Option Received

/-- What a call has added. -/
def Latest.after (latest : Latest) (env : S3Env) (s : RustackS3) (call : PartCall)
    (succeeded : Bool) : Latest :=
  if succeeded then
    Function.update latest call.number ((call.requested env s).map fun data => ⟨data, call.copied⟩)
  else latest

/-- Something else has happened, which has nothing to do with the upload. -/
structure Untouched (bucket uploadId : String) (s s' : RustackS3) : Prop where
  record : (s'.state.buckets.lookup bucket).map (fun b => b.multipartUploads.lookup uploadId) =
    (s.state.buckets.lookup bucket).map fun b => b.multipartUploads.lookup uploadId
  parts : ∀ number, s'.storage.parts.lookup (bucket, uploadId, number) =
    s.storage.parts.lookup (bucket, uploadId, number)

variable (env : S3Env) (created : CreateMultipartUploadInput) (uploadId : String)

/-- The upload has been created, and parts have been sent by calls of some kind. -/
inductive Run (kind : RustackS3 → PartCall → Prop) : RustackS3 → Latest → Prop where
  | create {s : RustackS3} (now : DateTime) :
      (handleCreateMultipartUpload env now s created).2 = .ok uploadId →
        Run kind (handleCreateMultipartUpload env now s created).1 fun _ => none
  | part {s : RustackS3} {latest : Latest} (now : DateTime) (call : PartCall) :
      Run kind s latest → call.bucket = created.bucket → call.uploadId = uploadId →
        kind s call →
          Run kind (call.run env now s).1 (latest.after env s call (call.run env now s).2)
  | other {s s' : RustackS3} {latest : Latest} :
      Run kind s latest → Untouched created.bucket uploadId s s' → Run kind s' latest

/-! ## What completing is to do -/

/-- The type of checksum of an upload with an algorithm. -/
def typeOf (algorithm : ChecksumAlgorithm) : String :=
  uploadChecksumType algorithm.asStr (created.checksumType.map ChecksumType.asStr)

/-- The checksum of what has been received. -/
def checksumOf (received : List Received) : Option ChecksumData :=
  created.checksumAlgorithm.map fun algorithm =>
    { algorithm := algorithm.asStr
      value :=
        if typeOf created algorithm = "FULL_OBJECT" then
          env.digests.checksum algorithm (received.map Received.data).flatten
        else
          computeCompositeChecksum env.digests algorithm
            (received.map fun r => env.digests.checksum algorithm r.data)
      checksumType := typeOf created algorithm }

/-- An object is put together from the parts that are listed. -/
structure Assembled (latest : Latest) (input : CompleteMultipartUploadInput) (s : RustackS3)
    (out : CompleteMultipartUploadOutput) : Prop where
  ownKey : input.key = created.key
  listed : input.parts ≠ []
  parts : ∃ (numbers : List ℕ) (received : List Received),
    input.parts.map CompletedPart.partNumber = numbers.map (fun number : ℕ => some (number : ℤ)) ∧
    numbers.Pairwise (· < ·) ∧ numbers.map latest = received.map some ∧
    input.parts.map CompletedPart.eTag =
      received.map (fun r => some (quotedMd5 env.digests r.data)) ∧
    (∀ r ∈ received.dropLast, minPartSize ≤ r.data.length) ∧
    ∃ object stored, sourceVersion s created.bucket created.key none = some object ∧
      s.storage.objects.lookup (created.bucket, created.key, object.versionId) = some stored ∧
      stored.data = (received.map Received.data).flatten ∧
      object.size = stored.data.length ∧
      object.etag = computeMultipartEtag env.digests
        (received.map fun r => computeMd5 env.digests r.data) received.length ∧
      object.checksum = checksumOf env created received ∧ out.eTag = some object.etag
  cleared : ∀ number, s.storage.parts.lookup (created.bucket, uploadId, number) = none
  closed : ∀ b, s.state.buckets.lookup created.bucket = some b →
    b.multipartUploads.lookup uploadId = none

/-- A request that fails leaves everything as it is, and one that succeeds puts the object
together. -/
def CompletionContract (latest : Latest) (s : RustackS3) (now : DateTime)
    (input : CompleteMultipartUploadInput) : Prop :=
  (∀ e, (handleCompleteMultipartUpload env now s input).2 = .error e →
    (handleCompleteMultipartUpload env now s input).1 = s) ∧
  ∀ out, (handleCompleteMultipartUpload env now s input).2 = .ok out →
    Assembled env created uploadId latest input
      (handleCompleteMultipartUpload env now s input).1 out

/-- A request that the code serves as it is meant. -/
structure Conforms (latest : Latest) (input : CompleteMultipartUploadInput) (s : RustackS3) :
    Prop where
  ownKey : input.key = created.key
  listed : input.parts ≠ []
  etags : ∀ part ∈ input.parts, ∀ number received, part.partNumber = some number →
    latest number.toNat = some received → part.eTag = some (quotedMd5 env.digests received.data)
  uncopied : ∀ algorithm, created.checksumAlgorithm = some algorithm →
    typeOf created algorithm ≠ "FULL_OBJECT" → ∀ part ∈ input.parts, ∀ number received,
      part.partNumber = some number → latest number.toNat = some received →
        received.copied = false
  steady : ∀ b, s.state.buckets.lookup created.bucket = some b →
    b.versioning = .enabled ∨ b.objects.isVersioned = false

/-! ## What is kept of the parts -/

/-- The record and the storage have what has been received under a number. -/
def Holds (s : RustackS3) (upload : MultipartUpload) (number : ℕ) : Option Received → Prop
  | none => upload.getPart number = none
  | some received => ∃ part stored, upload.getPart number = some part ∧
      s.storage.parts.lookup (created.bucket, uploadId, number) = some stored ∧
      stored.data = received.data ∧ part.etag = quotedMd5 env.digests received.data ∧
      part.size = received.data.length ∧
      (received.copied = false → ∀ algorithm, created.checksumAlgorithm = some algorithm →
        part.checksum.map ChecksumData.value = some (env.digests.checksum algorithm received.data))

structure Sound (s : RustackS3) (latest : Latest) (b : S3Bucket) (upload : MultipartUpload) :
    Prop where
  bucket : s.state.buckets.lookup created.bucket = some b
  record : b.multipartUploads.lookup uploadId = some upload
  algorithm : upload.checksumAlgorithm = created.checksumAlgorithm.map ChecksumAlgorithm.asStr
  type : upload.checksumType = created.checksumAlgorithm.map (typeOf created)
  key : upload.key = created.key
  holds : ∀ number, Holds env created uploadId s upload number (latest number)

variable {env created uploadId} {s s' : RustackS3} {latest : Latest} {b : S3Bucket}
  {upload : MultipartUpload} {now : DateTime}

@[simp] theorem fromStr_asStr (algorithm : ChecksumAlgorithm) :
    ChecksumAlgorithm.fromStr algorithm.asStr = some algorithm := by
  cases algorithm <;> decide +kernel

theorem getPart_putPart (upload : MultipartUpload) (part : UploadPart) (number : ℕ) :
    (upload.putPart part).getPart number =
      if part.partNumber = number then some part else upload.getPart number :=
  SortedMap.get?_insert_eq ..

theorem lookup_modifyBucket_self (h : s.state.buckets.lookup created.bucket = some b)
    (f : S3Bucket → S3Bucket) :
    (s.modifyBucket created.bucket f).state.buckets.lookup created.bucket = some (f b) := by
  change (s.state.modifyBucket created.bucket f).buckets.lookup created.bucket = _
  rw [S3ServiceState.lookup_modifyBucket, if_pos rfl, h]
  rfl

theorem lookup_recordPart {upload : MultipartUpload}
    (h : s.state.buckets.lookup created.bucket = some b)
    (hrecord : b.multipartUploads.lookup uploadId = some upload) (part : UploadPart) :
    (s.recordPart created.bucket uploadId part).state.buckets.lookup created.bucket =
      some { b with
        multipartUploads := b.multipartUploads.insert uploadId (upload.putPart part) } := by
  unfold recordPart
  rw [lookup_modifyBucket_self h, hrecord]

theorem sound_create
    (h : (handleCreateMultipartUpload env now s created).2 = .ok uploadId) :
    ∃ b upload, Sound env created uploadId (handleCreateMultipartUpload env now s created).1
      (fun _ => none) b upload := by
  have hcases : (∃ e, handleCreateMultipartUpload env now s created = (s, .error e)) ∨
    ∃ s' out, _ = _ ∧ handleCreateMultipartUpload env now s created = (s', .ok out) :=
      s.commit_cases _
  rcases hcases with ⟨e, heq⟩ | ⟨s', out, hresult, heq⟩
  · rw [heq] at h
    cases h
  · rw [heq] at h ⊢
    cases h
    obtain ⟨_, -, hresult⟩ := bind_eq_ok.mp hresult
    obtain ⟨b, hbucket, hresult⟩ := bind_eq_ok.mp hresult
    rw [getBucket_eq_ok] at hbucket
    cases hresult
    refine ⟨_, _, lookup_modifyBucket_self hbucket _, AList.lookup_insert _, rfl, ?_, rfl,
      fun number => ?_⟩
    · change Option.map _ (Option.map _ _) = _
      rw [Option.map_map]
      rfl
    · exact SortedMap.get?_empty number

theorem sound_other (h : Sound env created uploadId s latest b upload)
    (hsame : Untouched created.bucket uploadId s s') :
    ∃ b', Sound env created uploadId s' latest b' upload := by
  have hrecord := hsame.record
  rw [h.bucket, map_some, h.record, Option.map_eq_some_iff] at hrecord
  obtain ⟨b', hbucket, hupload⟩ := hrecord
  refine ⟨b', hbucket, hupload, h.algorithm, h.type, h.key, fun number => ?_⟩
  have hholds := h.holds number
  cases hlatest : latest number with
  | none => rwa [hlatest] at hholds
  | some received =>
      rw [hlatest] at hholds
      obtain ⟨part, stored, hpart, hstored, hrest⟩ := hholds
      exact ⟨part, stored, hpart, (hsame.parts number).trans hstored, hrest⟩

/-- The record of a part with these bytes. -/
def recordOf (d : Digests) (now : DateTime) (number : ℕ) (data : Bytes)
    (checksum : Option ChecksumData) : UploadPart where
  partNumber := number
  etag := quotedMd5 d data
  size := data.length
  lastModified := now
  checksum := checksum

/-- A part is stored and recorded. -/
def addPart (s : RustackS3) (bucket uploadId : String) (stored : StoredData) (part : UploadPart) :
    RustackS3 :=
  let storage := s.storage.insertPart bucket uploadId part.partNumber stored
  RustackS3.recordPart { s with storage } bucket uploadId part

/-- A part takes the place of the one with its number. -/
theorem sound_received (h : Sound env created uploadId s latest b upload) (number : ℕ)
    {stored : StoredData} (received : Received) (hdata : stored.data = received.data)
    {checksum : Option ChecksumData}
    (hchecksum : received.copied = false → ∀ algorithm,
      created.checksumAlgorithm = some algorithm →
        checksum.map ChecksumData.value =
          some (env.digests.checksum algorithm received.data)) (now : DateTime) :
    ∃ b' upload', Sound env created uploadId
      (addPart s created.bucket uploadId stored
        (recordOf env.digests now number received.data checksum))
      (Function.update latest number (some received)) b' upload' := by
  have hbucket := lookup_recordPart h.bucket h.record
    (recordOf env.digests now number received.data checksum)
  refine ⟨_, _, hbucket, AList.lookup_insert _, h.algorithm, h.type, h.key, fun other => ?_⟩
  have hlookup : (s.storage.insertPart created.bucket uploadId number stored).parts.lookup
      (created.bucket, uploadId, other) = if other = number then some stored
        else s.storage.parts.lookup (created.bucket, uploadId, other) := by
    change (s.storage.parts.insert (created.bucket, uploadId, number) stored).lookup _ = _
    split_ifs with heq
    · rw [heq]
      exact AList.lookup_insert _
    · exact AList.lookup_insert_ne fun hkey => heq (Prod.mk.inj (Prod.mk.inj hkey).2).2
  by_cases heq : other = number
  · subst heq
    rw [Function.update_self]
    refine ⟨_, stored, (getPart_putPart ..).trans (if_pos rfl), hlookup.trans (if_pos rfl), hdata,
      rfl, rfl, hchecksum⟩
  · rw [Function.update_of_ne heq]
    have hgetPart : (upload.putPart (recordOf env.digests now number received.data
        checksum)).getPart other = upload.getPart other :=
      (getPart_putPart ..).trans (if_neg (Ne.symm heq))
    have hholds := h.holds other
    cases hlatest : latest other with
    | none =>
        rw [hlatest] at hholds
        exact hgetPart.trans hholds
    | some received' =>
        rw [hlatest] at hholds
        obtain ⟨part', stored', hpart, hstored, hrest⟩ := hholds
        exact ⟨part', stored', hgetPart.trans hpart, (hlookup.trans (if_neg heq)).trans hstored,
          hrest⟩

theorem partChecksum_eq_ok {data : Bytes} {algorithm : ChecksumAlgorithm}
    {client checksum : Option ChecksumData}
    (h : partChecksum env data (some algorithm.asStr) client = .ok checksum) :
    checksum.map ChecksumData.value = some (env.digests.checksum algorithm data) := by
  unfold partChecksum at h
  dsimp only at h
  rw [fromStr_asStr] at h
  dsimp only at h
  cases client with
  | none =>
      cases h
      rfl
  | some client =>
      dsimp only at h
      split_ifs at h
      cases h
      rfl

theorem data_storeData (storage : InMemoryStorage) (data : Bytes) :
    (storage.storeData data).data = data := by
  unfold InMemoryStorage.storeData
  split_ifs <;> rfl

theorem sound_upload (h : Sound env created uploadId s latest b upload) {input : UploadPartInput}
    {staged : Option StagedUpload} (hbucket : input.bucket = created.bucket)
    (hupload : input.uploadId = uploadId) (now : DateTime) :
    ∃ b' upload', Sound env created uploadId ((PartCall.upload input staged).run env now s).1
      (latest.after env s (.upload input staged)
        ((PartCall.upload input staged).run env now s).2) b' upload' := by
  have hcases : (∃ e, uploadPartBody env now s input staged = (s, .error e)) ∨
    ∃ s' out, _ = _ ∧ uploadPartBody env now s input staged = (s', .ok out) := s.commit_cases _
  rcases hcases with ⟨e, heq⟩ | ⟨s', out, hresult, heq⟩
  · have hrun : (PartCall.upload input staged).run env now s = (s, false) := by
      change (_, _) = _
      rw [heq]
      rfl
    rw [hrun]
    exact ⟨b, upload, h⟩
  · have hrun : (PartCall.upload input staged).run env now s = (s', true) := by
      change (_, _) = _
      rw [heq]
      rfl
    rw [hrun]
    subst hupload
    obtain ⟨checksum, hprepare, hresult⟩ := bind_eq_ok.mp hresult
    have hchecksum : ∀ algorithm, created.checksumAlgorithm = some algorithm →
        checksum.map ChecksumData.value =
          some (env.digests.checksum algorithm (requestData input.body staged)) := by
      intro algorithm halgorithm
      obtain ⟨client, -, hprepare⟩ := bind_eq_ok.mp hprepare
      split_ifs at hprepare
      · cases hprepare
      · obtain ⟨b', hb', hprepare⟩ := bind_eq_ok.mp hprepare
        rw [getBucket_eq_ok, hbucket, h.bucket] at hb'
        cases hb'
        rw [h.record] at hprepare
        obtain ⟨_, -, hprepare⟩ := bind_eq_ok.mp hprepare
        obtain ⟨_, -, hprepare⟩ := bind_eq_ok.mp hprepare
        rw [asS3Error_eq_ok, h.algorithm, halgorithm] at hprepare
        exact partChecksum_eq_ok hprepare
    have hnext : ∀ stored : StoredData, stored.data = requestData input.body staged →
        ∃ b' upload', Sound env created input.uploadId
          (addPart s created.bucket input.uploadId stored
            (recordOf env.digests now input.partNumber.toNat (requestData input.body staged)
              checksum))
          (latest.after env s (.upload input staged) true) b' upload' := fun stored hstored =>
      sound_received h input.partNumber.toNat ⟨requestData input.body staged, false⟩ hstored
        (fun _ => hchecksum) now
    rw [hbucket] at hresult
    cases staged with
    | some staged =>
        cases hresult
        exact hnext (.staged staged) rfl
    | none =>
        cases hresult
        exact hnext (s.storage.storeData (input.body.getD [])) (data_storeData _ _)

theorem readAll_eq_ok {stored : StoredData} {data : Bytes} (h : stored.readAll = .ok data) :
    data = stored.data := by
  cases stored with
  | staged upload =>
      unfold StoredData.readAll at h
      dsimp only at h
      split_ifs at h
      exact (Except.ok.inj h).symm
  | inMemory | onDisk => exact (Except.ok.inj h).symm

/-- A copy that succeeds puts what is stored in one place into another. -/
theorem handleUploadPartCopy_cases (h : s.state.buckets.lookup created.bucket = some b)
    {input : UploadPartCopyInput} (hbucket : input.bucket = created.bucket) (now : DateTime) :
    (∃ e, handleUploadPartCopy env now s input = (s, .error e)) ∨
      ∃ bucket key versionId source stored out,
        parseCopySource env.percentDecode input.copySource = .ok (bucket, key, versionId) ∧
        s.storage.objects.lookup (bucket, key, versionId.getD "null") = some source ∧
        stored.data = source.data ∧
        handleUploadPartCopy env now s input =
          (addPart s created.bucket input.uploadId stored
            (recordOf env.digests now (asU32 input.partNumber) source.data none), .ok out) := by
  unfold handleUploadPartCopy
  cases hparse : parseCopySource env.percentDecode input.copySource with
  | error e => exact .inl ⟨_, rfl⟩
  | ok source =>
      obtain ⟨bucket, key, versionId⟩ := source
      have hget : ∀ storage, RustackS3.getBucket { s with storage } created.bucket = .ok b :=
        fun storage => getBucket_eq_ok.mpr h
      dsimp only
      rw [hbucket]
      cases hstaged : s.storage.stagedObject bucket key (versionId.getD "null") with
      | some staged =>
          have hsource : s.storage.objects.lookup (bucket, key, versionId.getD "null") =
              some (.staged staged) := by
            unfold InMemoryStorage.stagedObject at hstaged
            split at hstaged
            · next upload hlookup =>
                cases hstaged
                exact hlookup
            · cases hstaged
          dsimp only
          rw [hget]
          exact .inr ⟨bucket, key, versionId, .staged staged, .staged staged, _, rfl, hsource, rfl,
            rfl⟩
      | none =>
          dsimp only
          unfold InMemoryStorage.readObject
          cases hlookup : s.storage.objects.lookup (bucket, key, versionId.getD "null") with
          | none => exact .inl ⟨_, rfl⟩
          | some source =>
              dsimp only
              cases hread : source.readAll with
              | error e => exact .inl ⟨_, rfl⟩
              | ok data =>
                  obtain rfl := readAll_eq_ok hread
                  dsimp only [bind, Except.bind, pure, Except.pure]
                  rw [hget]
                  exact .inr ⟨bucket, key, versionId, source, s.storage.storeData source.data, _,
                    rfl, hlookup, data_storeData _ _, rfl⟩

theorem sound_copy (h : Sound env created uploadId s latest b upload) {input : UploadPartCopyInput}
    {range : Option (ℕ × ℕ)} (hbucket : input.bucket = created.bucket)
    (hupload : input.uploadId = uploadId) (hplain : (PartCall.copy input range).Plain env s)
    (now : DateTime) :
    ∃ b' upload', Sound env created uploadId ((PartCall.copy input range).run env now s).1
      (latest.after env s (.copy input range)
        ((PartCall.copy input range).run env now s).2) b' upload' := by
  have hrun : (PartCall.copy input range).run env now s =
      ((handleUploadPartCopy env now s input).1, (handleUploadPartCopy env now s input).2.isOk) :=
    rfl
  rw [hrun]
  rcases handleUploadPartCopy_cases h.bucket hbucket now with
    ⟨e, heq⟩ | ⟨bucket, key, versionId, source, stored, out, hparse, hsource, hstored, heq⟩
  · rw [heq]
    exact ⟨b, upload, h⟩
  · obtain ⟨hnone, hsome⟩ := hplain bucket key versionId hparse
    have hrequested : (PartCall.copy input range).requested env s = some source.data := by
      have hunfold : (PartCall.copy input range).requested env s =
          (sourceBytes s bucket key versionId).bind fun data => byteRange data range := by
        simp only [PartCall.requested, hparse]
      cases hversion : sourceVersion s bucket key versionId with
      | none =>
          rw [hnone hversion] at hsource
          cases hsource
      | some object =>
          obtain ⟨hid, hwhole⟩ := hsome object hversion
          have hbytes : sourceBytes s bucket key versionId = some source.data := by
            unfold sourceBytes
            rw [hversion, bind_some, hid, hsource]
            rfl
          rw [hunfold, hbytes]
          exact hwhole _ hbytes
    have hlatest : latest.after env s (.copy input range) true =
        Function.update latest (asU32 input.partNumber) (some ⟨source.data, true⟩) := by
      change Function.update latest (asU32 input.partNumber)
        (((PartCall.copy input range).requested env s).map _) = _
      rw [hrequested]
      rfl
    rw [heq]
    subst hupload
    change ∃ b' upload', Sound env created input.uploadId _
      (latest.after env s (.copy input range) true) b' upload'
    rw [hlatest]
    exact sound_received h (asU32 input.partNumber) ⟨source.data, true⟩ hstored
      (fun hcopied => nomatch hcopied) now

theorem sound_run (h : Run env created uploadId (fun s call => call.Plain env s) s latest) :
    ∃ b upload, Sound env created uploadId s latest b upload := by
  induction h with
  | create now hcreate => exact sound_create hcreate
  | part now call _ hbucket hupload hplain ih =>
      obtain ⟨b, upload, h⟩ := ih
      cases call with
      | upload input staged => exact sound_upload h hbucket hupload now
      | copy input range => exact sound_copy h hbucket hupload hplain now
  | other _ hsame ih =>
      obtain ⟨b, upload, h⟩ := ih
      obtain ⟨b', h'⟩ := sound_other h hsame
      exact ⟨b', upload, h'⟩

/-! ## Completing -/

theorem requestedParts_listed {lastNum : ℤ} {parts : List CompletedPart} {numbers : List ℕ}
    (hlast : 0 ≤ lastNum) (h : requestedParts upload lastNum parts = .ok numbers) :
    parts.map CompletedPart.partNumber = numbers.map (fun number : ℕ => some (number : ℤ)) ∧
      numbers.Pairwise (· < ·) ∧ (∀ number ∈ numbers, lastNum < number) ∧
      ∀ number ∈ numbers, (upload.getPart number).isSome = true := by
  induction parts generalizing lastNum numbers with
  | nil =>
      cases h
      simp
  | cons part parts ih =>
      unfold requestedParts at h
      split at h
      · cases h
      next partNum hnumber =>
      split_ifs at h with hle hpart
      · cases hrest : requestedParts upload partNum parts with
        | error e =>
            rw [hrest] at h
            cases h
        | ok rest =>
            rw [hrest] at h
            cases h
            obtain ⟨hmap, hpairwise, hbelow, hthere⟩ := ih (by omega) hrest
            have hcast : ((partNum.toNat : ℕ) : ℤ) = partNum := Int.toNat_of_nonneg (by omega)
            refine ⟨?_, pairwise_cons.mpr ⟨fun number hmem => ?_, hpairwise⟩, ?_, ?_⟩
            · rw [map_cons, map_cons, hnumber, hmap, hcast]
            · have := hbelow number hmem
              omega
            · intro number hmem
              rcases mem_cons.mp hmem with rfl | hmem
              · omega
              · have := hbelow number hmem
                omega
            · intro number hmem
              rcases mem_cons.mp hmem with rfl | hmem
              · exact Option.isSome_iff_ne_none.mpr fun hnone => hpart (by rw [hnone]; rfl)
              · exact hthere number hmem

theorem forM_eq_ok {α ε : Type} {f : α → Except ε Unit} {xs : List α}
    (h : xs.forM f = .ok ()) : ∀ x ∈ xs, f x = .ok () := by
  induction xs with
  | nil => exact fun x hx => absurd hx not_mem_nil
  | cons x xs ih =>
      have hcons : (f x >>= fun _ => xs.forM f) = .ok () := h
      obtain ⟨_, hx, hxs⟩ := bind_eq_ok.mp hcons
      exact forall_mem_cons.mpr ⟨hx, ih hxs⟩

theorem checkPartSizes_eq_ok {numbers : List ℕ} (h : checkPartSizes upload numbers = .ok ()) :
    ∀ number ∈ numbers.dropLast, ∀ part, upload.getPart number = some part →
      minPartSize ≤ part.size := by
  intro number hmem part hpart
  have hnumber := forM_eq_ok h number hmem
  rw [hpart] at hnumber
  dsimp only at hnumber
  split_ifs at hnumber with hsmall
  exact Nat.le_of_not_lt hsmall

/-- The parts that a list of numbers has received. -/
theorem exists_received (h : Sound env created uploadId s latest b upload) {numbers : List ℕ}
    (hthere : ∀ number ∈ numbers, (upload.getPart number).isSome = true) :
    ∃ received : List Received, numbers.map latest = received.map some := by
  induction numbers with
  | nil => exact ⟨[], rfl⟩
  | cons number numbers ih =>
      obtain ⟨received, hreceived⟩ := ih fun other hother =>
        hthere other (.tail _ hother)
      have hholds := h.holds number
      cases hlatest : latest number with
      | none =>
          rw [hlatest] at hholds
          have hsome := hthere number (.head _)
          rw [show upload.getPart number = none from hholds] at hsome
          cases hsome
      | some r => exact ⟨r :: received, by rw [map_cons, hlatest, hreceived, map_cons]⟩

/-- What is said of each part that has been received is said of all. -/
theorem map_received {β : Type} {f : Received → β} {g : ℕ → β} {numbers : List ℕ}
    {received : List Received} (h : numbers.map latest = received.map some)
    (heach : ∀ number ∈ numbers, ∀ r, latest number = some r → f r = g number) :
    received.map f = numbers.map g := by
  induction numbers generalizing received with
  | nil =>
      rw [map_nil, eq_comm, map_eq_nil_iff] at h
      rw [h]
      rfl
  | cons number numbers ih =>
      cases received with
      | nil => cases h
      | cons r received =>
          rw [map_cons, map_cons, cons.injEq] at h
          rw [map_cons, map_cons, heach number (.head _) r h.1,
            ih h.2 fun other hother => heach other (.tail _ hother)]

theorem map_listed {β : Type} {f : CompletedPart → β} {g : ℕ → β} {parts : List CompletedPart}
    {numbers : List ℕ}
    (h : parts.map CompletedPart.partNumber = numbers.map (fun number : ℕ => some (number : ℤ)))
    (heach : ∀ part ∈ parts, ∀ number ∈ numbers, part.partNumber = some (number : ℤ) →
      f part = g number) : parts.map f = numbers.map g := by
  induction parts generalizing numbers with
  | nil =>
      rw [map_nil, eq_comm, map_eq_nil_iff] at h
      rw [h]
      rfl
  | cons part parts ih =>
      cases numbers with
      | nil => cases h
      | cons number numbers =>
          rw [map_cons, map_cons, cons.injEq] at h
          rw [map_cons, map_cons,
            heach part (.head _) number (.head _) h.1,
            ih h.2 fun part hpart number hnumber =>
              heach part (.tail _ hpart) number (.tail _ hnumber)]

theorem finalChecksum_eq (h : Sound env created uploadId s latest b upload) {numbers : List ℕ}
    {received : List Received} (hreceived : numbers.map latest = received.map some)
    (huncopied : ∀ algorithm, created.checksumAlgorithm = some algorithm →
      typeOf created algorithm ≠ "FULL_OBJECT" → ∀ number ∈ numbers, ∀ r,
        latest number = some r → r.copied = false) :
    finalChecksum env upload (received.map Received.data).flatten numbers =
      checksumOf env created received := by
  unfold finalChecksum checksumOf
  rw [h.algorithm, h.type]
  cases halgorithm : created.checksumAlgorithm with
  | none => rfl
  | some algorithm =>
      rw [map_some, map_some, map_some, bind_some, fromStr_asStr,
        map_some, Option.getD_some]
      dsimp only
      by_cases htype : typeOf created algorithm = "FULL_OBJECT"
      · rw [if_pos htype, if_pos htype]
      · have heach := map_received (f := fun r => some (env.digests.checksum algorithm r.data))
          (g := fun number => ((upload.getPart number).bind UploadPart.checksum).map
            ChecksumData.value) hreceived fun number hnumber r hr => by
              have hholds := h.holds number
              rw [hr] at hholds
              obtain ⟨part, stored, hpart, -, -, -, -, hchecksum⟩ := hholds
              have hcopied := huncopied algorithm halgorithm htype number hnumber r hr
              rw [hpart, bind_some, hchecksum hcopied algorithm halgorithm]
        have hvalues : (numbers.filterMap fun number =>
            ((upload.getPart number).bind UploadPart.checksum).map ChecksumData.value) =
              received.map fun r => env.digests.checksum algorithm r.data := by
          have hfilter := congrArg (filterMap id) heach
          rw [filterMap_map, filterMap_map] at hfilter
          exact hfilter.symm.trans (by rw [← filterMap_eq_map]; rfl)
        rw [if_neg htype, if_neg htype, hvalues]

/-- An object that has been put is the current version of its key. -/
theorem get_put {store : ObjectStore} {object : S3Object} (generated : String)
    (hid : store.isVersioned = true → object.versionId ≠ "null") :
    (store.put object generated).get object.key = some object := by
  cases store with
  | unversioned ks => exact (KeyStore.get_put ..).trans (if_pos rfl)
  | versioned vs =>
      change ((vs.put object generated).versionsOf object.key).head?.bind _ = _
      rw [VersionedKeyStore.versionsOf_put, if_pos rfl, if_neg (hid rfl)]
      rfl

theorem prepareComplete_listed (h : Sound env created uploadId s latest b upload)
    {input : CompleteMultipartUploadInput} (hbucket : input.bucket = created.bucket)
    (hupload : input.uploadId = uploadId) {plan : CompletePlan}
    (hplan : s.prepareComplete env input = .ok plan) :
    plan.upload = upload ∧ plan.versionId = s.newVersionId env b ∧
      requestedParts upload 0 input.parts = .ok plan.partNumbers ∧
      checkPartSizes upload plan.partNumbers = .ok () := by
  obtain ⟨b', hb', hplan⟩ := bind_eq_ok.mp hplan
  rw [getBucket_eq_ok, hbucket, h.bucket] at hb'
  cases hb'
  rw [hupload, h.record] at hplan
  obtain ⟨numbers, hnumbers, hplan⟩ := bind_eq_ok.mp hplan
  obtain ⟨_, hsizes, hplan⟩ := bind_eq_ok.mp hplan
  cases hplan
  exact ⟨rfl, rfl, hnumbers, hsizes⟩

theorem parts_completeMultipart {d : Digests} {storage storage' : InMemoryStorage}
    {result : WriteResult} {bucket uploadId key versionId : String} {partNumbers : List ℕ}
    {digests : List String}
    (h : storage.completeMultipart d bucket uploadId key versionId partNumbers =
      .ok (storage', result, digests)) (number : ℕ) :
    storage'.parts.lookup (bucket, uploadId, number) = none := by
  obtain ⟨⟨data, digests'⟩, -, h⟩ := bind_eq_ok.mp h
  cases h
  refine (AList.lookup_retain _ _ _).trans (if_neg ?_)
  simp

/-- The state in which an upload has ended and its object is stored. -/
def completed (env : S3Env) (s : RustackS3) (storage : InMemoryStorage) (bucket uploadId : String)
    (object : S3Object) : RustackS3 :=
  (RustackS3.storeObject env { s with storage } bucket object).modifyBucket bucket fun b =>
    { b with multipartUploads := b.multipartUploads.erase uploadId }

theorem lookup_completed (h : s.state.buckets.lookup created.bucket = some b)
    {storage : InMemoryStorage} {object : S3Object} :
    (completed env s storage created.bucket uploadId object).state.buckets.lookup created.bucket =
      some { b with
        objects := b.objects.put object (env.versionIds (s.drawn + 1))
        multipartUploads := b.multipartUploads.erase uploadId } := by
  have hstored : (RustackS3.storeObject env { s with storage } created.bucket
      object).state.buckets.lookup created.bucket =
        some { b with objects := b.objects.put object (env.versionIds (s.drawn + 1)) } :=
    lookup_modifyBucket_self h _
  exact lookup_modifyBucket_self hstored _

theorem sourceVersion_completed (h : s.state.buckets.lookup created.bucket = some b)
    {storage : InMemoryStorage} {object : S3Object}
    (hid : b.objects.isVersioned = true → object.versionId ≠ "null") :
    sourceVersion (completed env s storage created.bucket uploadId object) created.bucket
      object.key none = some object := by
  unfold sourceVersion
  rw [lookup_completed h, bind_some]
  exact get_put _ hid

theorem assembled_of_sound (hnull : ∀ n, env.versionIds n ≠ "null")
    (h : Sound env created uploadId s latest b upload) {input : CompleteMultipartUploadInput}
    (hbucket : input.bucket = created.bucket) (hupload : input.uploadId = uploadId)
    {out : CompleteMultipartUploadOutput}
    (hok : (handleCompleteMultipartUpload env now s input).2 = .ok out)
    (hconforms : Conforms env created latest input s) :
    Assembled env created uploadId latest input
      (handleCompleteMultipartUpload env now s input).1 out := by
  have hcases : (∃ e, handleCompleteMultipartUpload env now s input = (s, .error e)) ∨
    ∃ s' out, _ = _ ∧ handleCompleteMultipartUpload env now s input = (s', .ok out) :=
      s.commit_cases _
  rcases hcases with ⟨e, heq⟩ | ⟨s', out', hresult, heq⟩
  · rw [heq] at hok
    cases hok
  rw [heq] at hok ⊢
  cases hok
  obtain ⟨plan, hplan, hresult⟩ := bind_eq_ok.mp hresult
  obtain ⟨⟨storage, written, digests⟩, hcomplete, hresult⟩ := bind_eq_ok.mp hresult
  rw [Effect.asInternal_eq_ok] at hcomplete
  obtain ⟨hplanUpload, hid, hrequested, hsizes⟩ := prepareComplete_listed h hbucket hupload hplan
  obtain ⟨hlisted, hascending, hpositive, hthere⟩ := requestedParts_listed le_rfl hrequested
  obtain ⟨received, hreceived⟩ := exists_received h hthere
  -- The entry of the request that lists a number.
  have hentry : ∀ number ∈ plan.partNumbers, ∃ part ∈ input.parts,
      part.partNumber = some (number : ℤ) := by
    intro number hmem
    have hmem' : some (number : ℤ) ∈ input.parts.map CompletedPart.partNumber := by
      rw [hlisted]
      exact mem_map_of_mem hmem
    exact mem_map.mp hmem'
  have huncopied : ∀ algorithm, created.checksumAlgorithm = some algorithm →
      typeOf created algorithm ≠ "FULL_OBJECT" → ∀ number ∈ plan.partNumbers, ∀ r,
        latest number = some r → r.copied = false := by
    intro algorithm halgorithm htype number hmem r hr
    obtain ⟨part, hpart, hnumber⟩ := hentry number hmem
    exact hconforms.uncopied algorithm halgorithm htype part hpart number r hnumber
      (by rw [Int.toNat_natCast, hr])
  have hdata : received.map Received.data =
      plan.partNumbers.map (partData s created.bucket uploadId) :=
    map_received hreceived fun number _ r hr => by
      have hholds := h.holds number
      rw [hr] at hholds
      obtain ⟨part, stored, -, hstored, hstoredData, -⟩ := hholds
      unfold partData
      rw [hstored, ← hstoredData]
      rfl
  have hmd5 : received.map (fun r => computeMd5 env.digests r.data) =
      (plan.partNumbers.map (partData s created.bucket uploadId)).map (computeMd5 env.digests) := by
    rw [← hdata, map_map]
    rfl
  have hlength : received.length = plan.partNumbers.length := by
    simpa using (congrArg length hreceived).symm
  have hetags : input.parts.map CompletedPart.eTag =
      received.map fun r => some (quotedMd5 env.digests r.data) := by
    rw [map_received (g := fun number =>
        (latest number).map fun r => quotedMd5 env.digests r.data) hreceived
      fun number _ r hr => by rw [hr]; rfl]
    refine map_listed hlisted fun part hpart number hmem hnumber => ?_
    have hmem' : latest number ∈ plan.partNumbers.map latest := mem_map_of_mem hmem
    rw [hreceived] at hmem'
    obtain ⟨r, -, hr⟩ := mem_map.mp hmem'
    rw [← hr, map_some]
    exact hconforms.etags part hpart number r hnumber (by rw [Int.toNat_natCast, ← hr])
  have hlarge : ∀ r ∈ received.dropLast, minPartSize ≤ r.data.length := by
    intro r hr
    have hmem : some r ∈ plan.partNumbers.dropLast.map latest := by
      rw [map_dropLast, hreceived, ← map_dropLast]
      exact mem_map_of_mem hr
    obtain ⟨number, hnumber, hlatest⟩ := mem_map.mp hmem
    have hholds := h.holds number
    rw [hlatest] at hholds
    obtain ⟨part, stored, hpart, -, -, -, hsize, -⟩ := hholds
    rw [← hsize]
    exact checkPartSizes_eq_ok hsizes number hnumber part hpart
  obtain ⟨hobjects, hsize, hetag⟩ := Effect.completeMultipart_eq_ok hcomplete
  have hcleared := parts_completeMultipart hcomplete
  rw [hbucket, hupload] at hobjects hsize hetag hcleared hresult
  rw [← hdata] at hobjects hsize
  rw [← hmd5, length_map, ← hlength] at hetag
  have hstaged : storage.stagedObject created.bucket input.key plan.versionId =
      some ⟨(received.map Received.data).flatten⟩ := by
    unfold InMemoryStorage.stagedObject
    rw [hobjects, AList.lookup_insert]
  have hchecksum := finalChecksum_eq h hreceived huncopied
  have hversion : b.objects.isVersioned = true → plan.versionId ≠ "null" := by
    intro hversioned
    rcases hconforms.steady b h.bucket with henabled | hnot
    · rw [hid, newVersionId, S3Bucket.isVersioningEnabled, henabled]
      exact hnull _
    · rw [hversioned] at hnot
      cases hnot
  dsimp only at hresult
  rw [hplanUpload, hstaged, map_some, Option.getD_some, hchecksum, hconforms.ownKey]
    at hresult
  rw [hconforms.ownKey] at hobjects
  cases hresult
  refine ⟨hconforms.ownKey, hconforms.listed,
    ⟨plan.partNumbers, received, hlisted, hascending, hreceived, hetags, hlarge, ?_⟩, hcleared,
    fun b' hb' => ?_⟩
  · refine ⟨_, .staged ⟨(received.map Received.data).flatten⟩,
      sourceVersion_completed h.bucket hversion, ?_, rfl, hsize, hetag, rfl, rfl⟩
    change storage.objects.lookup _ = _
    rw [hobjects]
    exact AList.lookup_insert _
  · have hlookup := (lookup_completed h.bucket).symm.trans hb'
    cases hlookup
    exact AList.lookup_erase _ _

/-- In a run whose copies are plain, a request that conforms is served as it is meant. -/
theorem complete_assembles (hnull : ∀ n, env.versionIds n ≠ "null")
    (h : Run env created uploadId (fun s call => call.Plain env s) s latest)
    {input : CompleteMultipartUploadInput} (hbucket : input.bucket = created.bucket)
    (hupload : input.uploadId = uploadId) (hconforms : Conforms env created latest input s) :
    CompletionContract env created uploadId latest s now input := by
  obtain ⟨b, upload, hsound⟩ := sound_run h
  refine ⟨fun e herror => ?_, fun out hok =>
    assembled_of_sound hnull hsound hbucket hupload hok hconforms⟩
  have hcases : (∃ e, handleCompleteMultipartUpload env now s input = (s, .error e)) ∨
    ∃ s' out, _ = _ ∧ handleCompleteMultipartUpload env now s input = (s', .ok out) :=
      s.commit_cases _
  rcases hcases with ⟨e', heq⟩ | ⟨s', out, -, heq⟩
  · rw [heq]
  · rw [heq] at herror
    cases herror

theorem plainEnv_versionIds (n : ℕ) : plainEnv.versionIds n ≠ "null" := by
  intro h
  have hchars := congrArg String.toList h
  rw [show plainEnv.versionIds n = "v" ++ String.ofList (replicate n 'x') from rfl,
    String.toList_append] at hchars
  cases hchars

/-- A service with one bucket. -/
def onlyBucket : RustackS3 :=
  (RustackS3.new 100).step plainEnv 0 (plainCreate "photos")

def dogUpload : CreateMultipartUploadInput where
  bucket := "photos"
  key := "dog"
  headers := .none
  checksumAlgorithm := none
  checksumType := none

def summedUpload : CreateMultipartUploadInput :=
  { dogUpload with checksumAlgorithm := some .crc32, checksumType := some .fullObject }

def dogStarted : RustackS3 := (handleCreateMultipartUpload plainEnv 0 onePhoto summedUpload).1

def dogPart : PartCall :=
  .upload { bucket := "photos", uploadId := "uxx", partNumber := 1, body := some [7, 8]
            contentMd5 := none, checksums := .none } none

def dogSent : RustackS3 := (dogPart.run plainEnv 0 dogStarted).1

/-- A copy of the one object. -/
def copiedPart : PartCall :=
  .copy { bucket := "photos", uploadId := "uxx", partNumber := 2, copySource := "photos/cat" } none

def copiedSent : RustackS3 := (copiedPart.run plainEnv 0 dogSent).1

/-- A request for one part; in front of another a part has five MiB. -/
def completeDog (uploadId : String) (number : ℤ) (size : ℕ) : CompleteMultipartUploadInput where
  bucket := "photos"
  key := "dog"
  uploadId := uploadId
  parts := [{ partNumber := some number
              eTag := some (quotedMd5 plainEnv.digests (List.replicate size 0)) }]

theorem eq_ok_of_toOption {α ε : Type} {result : Except ε α} {a : α}
    (h : result.toOption = some a) : result = .ok a := by
  cases result with
  | error e => cases h
  | ok a' =>
      cases h
      rfl

theorem summedUpload_started :
    (handleCreateMultipartUpload plainEnv 0 onePhoto summedUpload).2 = .ok "uxx" :=
  eq_ok_of_toOption (by decide +kernel)

theorem copiedPart_plain : copiedPart.Plain plainEnv dogSent := by
  have hparse : (parseCopySource plainEnv.percentDecode "photos/cat").toOption =
      some ("photos", "cat", none) := by decide +kernel
  have hsource : (sourceVersion dogSent "photos" "cat" none).map S3Object.versionId =
      some "null" := by decide +kernel
  rintro bucket key versionId heq
  cases (eq_ok_of_toOption hparse).symm.trans heq
  refine ⟨fun hnone => ?_, fun object hobject => ⟨?_, fun data _ => rfl⟩⟩
  · rw [hnone] at hsource
    cases hsource
  · rw [hobject] at hsource
    exact Option.some.inj hsource

theorem complete_copied : ∃ latest : Latest,
    latest 1 = some ⟨[7, 8], false⟩ ∧ latest 2 = some ⟨[1, 2, 3], true⟩ ∧
      CompletionContract plainEnv summedUpload "uxx" latest copiedSent 0 (completeDog "uxx" 2 3) ∧
      (handleCompleteMultipartUpload plainEnv 0 copiedSent (completeDog "uxx" 2 3)).2.isOk ∧
      sourceBytes (handleCompleteMultipartUpload plainEnv 0 copiedSent (completeDog "uxx" 2 3)).1
        "photos" "dog" none = some [1, 2, 3] := by
  have hfirst : (dogPart.run plainEnv 0 dogStarted).2 = true := by decide +kernel
  have hsecond : (copiedPart.run plainEnv 0 dogSent).2 = true := by decide +kernel
  have hcopied : copiedPart.requested plainEnv dogSent = some [1, 2, 3] := by decide +kernel
  have hrun := Run.part 0 copiedPart
    (.part 0 dogPart (.create 0 summedUpload_started) rfl rfl trivial)
    rfl rfl copiedPart_plain
  change Run plainEnv summedUpload "uxx" _ _
    (Latest.after (Latest.after _ plainEnv dogStarted dogPart
    (dogPart.run plainEnv 0 dogStarted).2) plainEnv dogSent copiedPart
      (copiedPart.run plainEnv 0 dogSent).2) at hrun
  rw [hfirst, hsecond] at hrun
  have htwo : (Latest.after (Latest.after (fun _ => none) plainEnv dogStarted dogPart true) plainEnv
      dogSent copiedPart true) 2 = some ⟨[1, 2, 3], true⟩ :=
    congrArg (Option.map fun data => (⟨data, true⟩ : Received)) hcopied
  refine ⟨_, rfl, htwo, complete_assembles plainEnv_versionIds hrun rfl rfl
    ⟨rfl, cons_ne_nil _ _, ?_, fun algorithm halgorithm hcomposite => ?_, fun b hb => ?_⟩,
    by decide +kernel, by decide +kernel⟩
  · intro part hpart number received hnumber hreceived
    rw [mem_singleton.mp hpart] at hnumber ⊢
    cases hnumber
    cases htwo.symm.trans hreceived
    rfl
  · cases halgorithm
    exact absurd rfl hcomposite
  · have hplain : (copiedSent.state.buckets.lookup "photos").map
        (fun b => b.objects.isVersioned) = some false := by decide +kernel
    change copiedSent.state.buckets.lookup "photos" = some b at hb
    rw [hb] at hplain
    exact .inr (Option.some.inj hplain)

/-- A bucket with two versions of one object, of which the first has no id of its own. -/
def twoCats : RustackS3 :=
  ((onlyBucket.step plainEnv 0 (plainPut "photos" "cat" [1])).step plainEnv 0
    (.putBucketVersioning "photos" (some .enabled))).step plainEnv 0
      (plainPut "photos" "cat" [2])

def catStarted : RustackS3 := (handleCreateMultipartUpload plainEnv 0 twoCats dogUpload).1

/-- A copy of the current version, whose only byte is `2`. -/
def catPart : PartCall :=
  .copy { bucket := "photos", uploadId := "uxxxx", partNumber := 1
          copySource := "photos/cat" } none

def catSent : RustackS3 := (catPart.run plainEnv 0 catStarted).1

/-- The object that is put together from the copy has the byte of the version before. -/
theorem complete_stale_copy : ¬ ∀ env created uploadId s latest now input,
    (∀ n, env.versionIds n ≠ "null") → Run env created uploadId (fun _ _ => True) s latest →
      input.bucket = created.bucket → input.uploadId = uploadId →
        CompletionContract env created uploadId latest s now input := by
  intro h
  have hstarted : (handleCreateMultipartUpload plainEnv 0 twoCats dogUpload).2 = .ok "uxxxx" :=
    eq_ok_of_toOption (by decide +kernel)
  have hsent : (catPart.run plainEnv 0 catStarted).2 = true := by decide +kernel
  have hrequested : catPart.requested plainEnv catStarted = some [2] := by decide +kernel
  have hcompleted : (handleCompleteMultipartUpload plainEnv 0 catSent
      (completeDog "uxxxx" 1 1)).2.toOption.isSome = true := by decide +kernel
  have hbytes : sourceBytes (handleCompleteMultipartUpload plainEnv 0 catSent
      (completeDog "uxxxx" 1 1)).1 "photos" "dog" none = some [1] := by decide +kernel
  obtain ⟨out, hout⟩ := Option.isSome_iff_exists.mp hcompleted
  have hassembled := (h plainEnv dogUpload "uxxxx" _ _ 0 (completeDog "uxxxx" 1 1)
    plainEnv_versionIds (.part 0 catPart (.create 0 hstarted) rfl rfl trivial) rfl rfl).2 out
      (eq_ok_of_toOption hout)
  obtain ⟨numbers, received, hlisted, -, hreceived, -, -, object, stored, hobject, hstored, hdata,
    -⟩ := hassembled.parts
  have hnumbers : numbers = [1] := by
    cases numbers with
    | nil => cases hlisted
    | cons number numbers =>
        cases numbers with
        | nil =>
            have hone : some (1 : ℤ) = some (number : ℤ) := (cons.inj hlisted).1
            rw [Option.some.injEq] at hone
            have hnat : number = 1 := by omega
            rw [hnat]
        | cons other numbers => cases hlisted
  have hlatest : Latest.after (fun _ => none) plainEnv catStarted catPart
      (catPart.run plainEnv 0 catStarted).2 1 = some ⟨[2], true⟩ := by
    unfold Latest.after
    rw [if_pos hsent, hrequested]
    rfl
  have hone : [some (⟨[2], true⟩ : Received)] = received.map some := by
    rw [← hreceived, hnumbers, map_singleton]
    exact congrArg (fun r => [r]) hlatest.symm
  have hreceived' : received = [⟨[2], true⟩] :=
    map_injective_iff.mpr (Option.some_injective _) hone.symm
  rw [hreceived'] at hdata
  change sourceVersion (handleCompleteMultipartUpload plainEnv 0 catSent
    (completeDog "uxxxx" 1 1)).1 "photos" "dog" none = some object at hobject
  unfold sourceBytes at hbytes
  rw [hobject, bind_some] at hbytes
  have hbytes' := (congrArg (Option.map StoredData.data) hstored).symm.trans hbytes
  rw [map_some, hdata] at hbytes'
  cases hbytes'

end Assembly

end Rustack.S3
