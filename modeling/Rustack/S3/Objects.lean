import Rustack.S3.Listing
import Rustack.S3.Provider

/-!
# Putting, getting, deleting and copying objects

Each call first checks the request and then changes the bodies and the store.
The id under which a body is stored is chosen before the store is given the
object.
-/

namespace Rustack.S3

def ObjectStorageClass.asStr : ObjectStorageClass → String
  | deepArchive => "DEEP_ARCHIVE"
  | expressOnezone => "EXPRESS_ONEZONE"
  | fsxOntap => "FSX_ONTAP"
  | fsxOpenzfs => "FSX_OPENZFS"
  | glacier => "GLACIER"
  | glacierIr => "GLACIER_IR"
  | intelligentTiering => "INTELLIGENT_TIERING"
  | onezoneIa => "ONEZONE_IA"
  | outposts => "OUTPOSTS"
  | reducedRedundancy => "REDUCED_REDUNDANCY"
  | snow => "SNOW"
  | standard => "STANDARD"
  | standardIa => "STANDARD_IA"

inductive ObjectCannedACL where
  | authenticatedRead | awsExecRead | bucketOwnerFullControl | bucketOwnerRead | «private»
  | publicRead | publicReadWrite
  deriving DecidableEq

def ObjectCannedACL.asStr : ObjectCannedACL → String
  | authenticatedRead => "authenticated-read"
  | awsExecRead => "aws-exec-read"
  | bucketOwnerFullControl => "bucket-owner-full-control"
  | bucketOwnerRead => "bucket-owner-read"
  | «private» => "private"
  | publicRead => "public-read"
  | publicReadWrite => "public-read-write"

inductive ObjectLockMode where
  | compliance | governance
  deriving DecidableEq

def ObjectLockMode.asStr : ObjectLockMode → String
  | compliance => "COMPLIANCE"
  | governance => "GOVERNANCE"

inductive ObjectLockLegalHoldStatus where
  | off | on
  deriving DecidableEq

/-- What a request may say about the object it writes. -/
structure ObjectHeaders where
  contentType : Option String
  contentEncoding : Option String
  contentDisposition : Option String
  contentLanguage : Option String
  cacheControl : Option String
  metadata : List (String × String)
  serverSideEncryption : Option String
  ssekmsKeyId : Option String
  bucketKeyEnabled : Option Bool
  sseCustomerAlgorithm : Option String
  sseCustomerKeyMd5 : Option String
  tagging : Option String
  acl : Option ObjectCannedACL
  objectLockMode : Option ObjectLockMode
  objectLockRetainUntilDate : Option DateTime
  objectLockLegalHoldStatus : Option ObjectLockLegalHoldStatus
  storageClass : Option ObjectStorageClass

def ObjectHeaders.none : ObjectHeaders where
  contentType := .none
  contentEncoding := .none
  contentDisposition := .none
  contentLanguage := .none
  cacheControl := .none
  metadata := []
  serverSideEncryption := .none
  ssekmsKeyId := .none
  bucketKeyEnabled := .none
  sseCustomerAlgorithm := .none
  sseCustomerKeyMd5 := .none
  tagging := .none
  acl := .none
  objectLockMode := .none
  objectLockRetainUntilDate := .none
  objectLockLegalHoldStatus := .none
  storageClass := .none

def parseAcl (acl : Option ObjectCannedACL) : CannedAcl :=
  (acl.bind fun a => CannedAcl.fromStr a.asStr).getD .«private»

/-- The metadata of a new object; only a put names when it expires. -/
def ObjectHeaders.build (env : S3Env) (headers : ObjectHeaders) (expires : Option String) :
    ObjectMetadata where
  contentType := headers.contentType
  contentEncoding := headers.contentEncoding
  contentDisposition := headers.contentDisposition
  contentLanguage := headers.contentLanguage
  cacheControl := headers.cacheControl
  expires := expires
  userMetadata := headers.metadata
  sseAlgorithm := headers.serverSideEncryption
  sseKmsKeyId := headers.ssekmsKeyId
  sseBucketKeyEnabled := headers.bucketKeyEnabled
  sseCustomerAlgorithm := headers.sseCustomerAlgorithm
  sseCustomerKeyMd5 := headers.sseCustomerKeyMd5
  tagging := (headers.tagging.map (parseTaggingHeader env.percentDecode)).getD []
  acl := parseAcl headers.acl
  objectLockMode := headers.objectLockMode.map ObjectLockMode.asStr
  objectLockRetainUntil := headers.objectLockRetainUntilDate
  objectLockLegalHold := headers.objectLockLegalHoldStatus.map (· == .on)

def ObjectHeaders.storageClassText (headers : ObjectHeaders) : String :=
  (headers.storageClass.map ObjectStorageClass.asStr).getD "STANDARD"

def realVersionId (versionId : String) : Option String :=
  if versionId = "null" then none else some versionId

namespace RustackS3

/-- The id of a new version: a random one if versioning is enabled. -/
def newVersionId (env : S3Env) (s : RustackS3) (bucket : S3Bucket) : String :=
  if bucket.isVersioningEnabled then env.versionIds s.drawn else "null"

/-- Hand an object to the store of its bucket, which may draw an id of its own. -/
def storeObject (env : S3Env) (s : RustackS3) (bucket : String) (object : S3Object) : RustackS3 :=
  { s.modifyBucket bucket fun b =>
      { b with objects := b.objects.put object (env.versionIds (s.drawn + 1)) } with
    drawn := s.drawn + 2 }

/-! ## Put -/

structure PutObjectInput where
  bucket : String
  key : String
  body : Option Bytes
  contentMd5 : Option String
  expires : Option String
  checksums : ChecksumHeaders
  headers : ObjectHeaders

structure PutObjectOutput where
  eTag : Option String
  versionId : Option String
  checksums : ChecksumHeaders
  deriving DecidableEq

def buildMetadata (env : S3Env) (input : PutObjectInput) : ObjectMetadata :=
  input.headers.build env input.expires

/-- The bytes a request carries, staged or not. -/
def requestData (body : Option Bytes) (upload : Option StagedUpload) : Bytes :=
  match upload with
  | some upload => upload.data
  | none => body.getD []

def validateRequestMd5 (env : S3Env) (contentMd5 : Option String) (body : Option Bytes)
    (upload : Option StagedUpload) : Except S3ServiceError Unit :=
  match upload with
  | some upload => upload.validateMd5 env.digests contentMd5
  | none => validateContentMd5 env.digests contentMd5 (body.getD [])

def verifyChecksum (env : S3Env) (data : Bytes) (checksum : Option ChecksumData) :
    Except S3ServiceError Unit :=
  match checksum with
  | none => .ok ()
  | some checksum =>
    match ChecksumAlgorithm.fromStr checksum.algorithm with
    | none => .error .badDigest
    | some algorithm =>
      if checksum.value ≠ env.digests.checksum algorithm data then .error .badDigest else .ok ()

/-- The checksum kept with an object: the one sent with it, or a CRC32. -/
def keptChecksum (env : S3Env) (data : Bytes) (checksum : Option ChecksumData) : ChecksumData :=
  checksum.getD
    { algorithm := "CRC32", value := env.digests.checksum .crc32 data,
      checksumType := "FULL_OBJECT" }

structure PutPlan where
  versionId : String
  checksum : ChecksumData

/-- The checks of a put, up to the point where it starts to write. -/
def preparePut (env : S3Env) (s : RustackS3) (input : PutObjectInput)
    (upload : Option StagedUpload) : Except S3Error PutPlan := do
  asS3Error (validateObjectKey input.key)
  let bucket ← s.getBucket input.bucket
  asS3Error (validateRequestMd5 env input.contentMd5 input.body upload)
  asS3Error (validateMetadata (buildMetadata env input).userMetadata)
  let clientChecksum ← asS3Error (extractChecksum input.checksums)
  asS3Error (verifyChecksum env (requestData input.body upload) clientChecksum)
  return { versionId := s.newVersionId env bucket
           checksum := keptChecksum env (requestData input.body upload) clientChecksum }

def writeBody (env : S3Env) (s : RustackS3) (bucket key versionId : String) (body : Option Bytes)
    (upload : Option StagedUpload) : InMemoryStorage × WriteResult :=
  match upload with
  | some upload => s.storage.writeStagedObject env.digests bucket key versionId upload
  | none => s.storage.writeObject env.digests bucket key versionId (body.getD [])

def putObjectBody (env : S3Env) (now : DateTime) (s : RustackS3) (input : PutObjectInput)
    (upload : Option StagedUpload) : RustackS3 × Except S3Error PutObjectOutput :=
  s.commit do
    let plan ← s.preparePut env input upload
    let (storage, written) :=
      s.writeBody env input.bucket input.key plan.versionId input.body upload
    let object : S3Object :=
      { key := input.key
        versionId := plan.versionId
        etag := written.etag
        size := written.size
        lastModified := now
        storageClass := input.headers.storageClassText
        metadata := buildMetadata env input
        owner := .default
        checksum := some plan.checksum
        partsCount := none
        partEtags := [] }
    return ({ s with storage }.storeObject env input.bucket object,
      { eTag := some written.etag
        versionId := realVersionId plan.versionId
        checksums := checksumToFields plan.checksum })

/-! ## Get -/

def lookupObject (env : S3Env) (store : ObjectStore) (key : String) (versionId : Option String) :
    Except S3Error S3Object :=
  let object := match versionId with
    | some id => store.getVersion key id
    | none => store.get key
  match object with
  | some object => .ok object
  | none =>
    match store.deleteMarker key versionId with
    | some marker =>
      let code : S3ErrorCode := if versionId.isSome then .methodNotAllowed else .noSuchKey
      let error := ((S3Error.new code).withHeader "x-amz-delete-marker" "true").withHeader
        "x-amz-version-id" marker.versionId
      .error (if versionId.isSome then
        error.withHeader "Last-Modified" (env.httpDate marker.lastModified) else error)
    | none =>
      match versionId with
      | some id => .error (S3ServiceError.noSuchVersion key id).intoS3Error
      | none => .error (S3ServiceError.noSuchKey key).intoS3Error

structure GetObjectInput where
  bucket : String
  key : String
  versionId : Option String

structure GetObjectOutput where
  body : Option Bytes
  contentLength : ℤ
  eTag : Option String
  versionId : Option String
  metadata : List (String × String)
  deriving DecidableEq

/-- An object and, where it is staged and the caller streams, the file to stream from. -/
def getObjectBody (env : S3Env) (s : RustackS3) (input : GetObjectInput) (streaming : Bool) :
    Except S3Error (GetObjectOutput × Option StagedUpload) := do
  let bucket ← s.getBucket input.bucket
  let object ← lookupObject env bucket.objects input.key input.versionId
  let staged := if streaming then
    s.storage.stagedObject input.bucket input.key object.versionId else none
  match staged with
  | some upload =>
    return ({ body := none, contentLength := asI64 object.size, eTag := some object.etag,
              versionId := realVersionId object.versionId,
              metadata := object.metadata.userMetadata }, some upload)
  | none =>
    let data ← asS3Error (s.storage.readObject input.bucket input.key object.versionId)
    return ({ body := some data, contentLength := asI64 data.length, eTag := some object.etag,
              versionId := realVersionId object.versionId,
              metadata := object.metadata.userMetadata }, none)

/-! ## Delete -/

def checkObjectLockForDelete (now : DateTime) (store : ObjectStore) (key versionId : String)
    (bypassGovernance : Bool) : Except S3Error Unit :=
  match store.getVersion key versionId with
  | none => .ok ()
  | some obj =>
    if obj.metadata.objectLockLegalHold = some true then
      .error (.withMessage .accessDenied "Object Lock legal hold is enabled on this object")
    else
      match obj.metadata.objectLockRetainUntil with
      | none => .ok ()
      | some retainUntil =>
        if now < retainUntil ∧
            ¬(obj.metadata.objectLockMode = some "GOVERNANCE" ∧ bypassGovernance = true) then
          .error (.withMessage .accessDenied "Object Lock retention period has not expired")
        else .ok ()

def setObjects (s : RustackS3) (bucket : String) (objects : ObjectStore) : RustackS3 :=
  s.modifyBucket bucket fun b => { b with objects }

/-- Delete one version, and its body if there was one to delete. -/
def removeVersion (s : RustackS3) (bucketName : String) (store : ObjectStore)
    (key versionId : String) : RustackS3 × Option ObjectVersion :=
  let (store, removed) := store.deleteVersion key versionId
  let s := s.setObjects bucketName store
  match removed with
  | none => (s, none)
  | some version =>
    ({ s with storage := s.storage.deleteObject bucketName key version.versionId }, some version)

/-- Delete without an id: a marker where there are versions, else the object and its body. -/
def removeLatest (env : S3Env) (now : DateTime) (s : RustackS3) (bucketName : String)
    (store : ObjectStore) (key : String) : RustackS3 × Option String :=
  let (store, (markerId, _)) := store.deleteVersioned key .default (env.versionIds s.drawn) now
  let s := { s.setObjects bucketName store with drawn := s.drawn + 1 }
  match markerId with
  | none => ({ s with storage := s.storage.deleteObject bucketName key "null" }, none)
  | some id => (s, some id)

structure DeleteObjectInput where
  bucket : String
  key : String
  versionId : Option String
  bypassGovernanceRetention : Option Bool

structure DeleteObjectOutput where
  deleteMarker : Option Bool
  versionId : Option String
  deriving DecidableEq

def handleDeleteObject (env : S3Env) (now : DateTime) (s : RustackS3) (input : DeleteObjectInput) :
    RustackS3 × Except S3Error DeleteObjectOutput :=
  s.commit do
    let bucket ← s.getBucket input.bucket
    match input.versionId with
    | some versionId =>
      checkObjectLockForDelete now bucket.objects input.key versionId
        (input.bypassGovernanceRetention.getD false)
      let (s', removed) := s.removeVersion input.bucket bucket.objects input.key versionId
      return (s', { deleteMarker := if removed.any ObjectVersion.isDeleteMarker then some true
                      else none
                    versionId := removed.map ObjectVersion.versionId })
    | none =>
      let (s', markerId) := s.removeLatest env now input.bucket bucket.objects input.key
      return (s', { deleteMarker := if markerId.isSome then some true else none
                    versionId := markerId })

structure ObjectIdentifier where
  key : String
  versionId : Option String
  deriving DecidableEq

structure DeletedObject where
  deleteMarker : Option Bool
  deleteMarkerVersionId : Option String
  key : Option String
  versionId : Option String
  deriving DecidableEq

structure DeleteError where
  code : Option String
  key : Option String
  message : Option String
  versionId : Option String
  deriving DecidableEq

structure DeleteObjectsInput where
  bucket : String
  objects : List ObjectIdentifier
  quiet : Option Bool
  bypassGovernanceRetention : Option Bool

structure DeleteObjectsOutput where
  deleted : List DeletedObject
  errors : List DeleteError
  deriving DecidableEq

/-- One entry of a bulk delete, with what it adds to the answer. -/
def deleteEntry (env : S3Env) (now : DateTime) (s : RustackS3) (bucketName : String)
    (bypass : Bool) (entry : ObjectIdentifier) : RustackS3 × (DeletedObject ⊕ DeleteError) :=
  match s.getBucket bucketName with
  | .error e => (s, .inr
      { code := some e.code.asStr
        key := some entry.key
        message := some e.message
        versionId := entry.versionId })
  | .ok bucket =>
    match entry.versionId with
    | some versionId =>
      match checkObjectLockForDelete now bucket.objects entry.key versionId bypass with
      | .error e => (s, .inr
          { code := some e.code.asStr
            key := some entry.key
            message := some e.message
            versionId := some versionId })
      | .ok () =>
        let (s', removed) := s.removeVersion bucketName bucket.objects entry.key versionId
        let isMarker := removed.any ObjectVersion.isDeleteMarker
        (s', .inl
          { deleteMarker := if isMarker then some true else none
            deleteMarkerVersionId := if isMarker then some versionId else none
            key := some entry.key
            versionId := some versionId })
    | none =>
      let (s', markerId) := s.removeLatest env now bucketName bucket.objects entry.key
      (s', .inl
        { deleteMarker := markerId.map fun _ => true
          deleteMarkerVersionId := markerId
          key := some entry.key
          versionId := markerId })

def deleteEntries (env : S3Env) (now : DateTime) (bucketName : String) (bypass : Bool)
    (s : RustackS3) : List ObjectIdentifier → RustackS3 × List (DeletedObject ⊕ DeleteError)
  | [] => (s, [])
  | entry :: entries =>
    let (s', result) := s.deleteEntry env now bucketName bypass entry
    let (s'', results) := deleteEntries env now bucketName bypass s' entries
    (s'', result :: results)

def handleDeleteObjects (env : S3Env) (now : DateTime) (s : RustackS3)
    (input : DeleteObjectsInput) : RustackS3 × Except S3Error DeleteObjectsOutput :=
  s.commit do
    let _ ← s.getBucket input.bucket
    let (s', results) := s.deleteEntries env now input.bucket
      (input.bypassGovernanceRetention.getD false) input.objects
    return (s', { deleted := if input.quiet.getD false then [] else results.filterMap Sum.getLeft?
                  errors := results.filterMap Sum.getRight? })

/-! ## Copy -/

structure CopyObjectInput where
  bucket : String
  key : String
  copySource : String
  replaceMetadata : Bool
  headers : ObjectHeaders

structure CopyObjectOutput where
  eTag : Option String
  copySourceVersionId : Option String
  versionId : Option String
  deriving DecidableEq

def buildMetadataForCopy (env : S3Env) (input : CopyObjectInput) : ObjectMetadata :=
  input.headers.build env none

def lookupSource (store : ObjectStore) (key : String) (versionId : Option String) :
    Except S3ServiceError S3Object :=
  match versionId with
  | some id =>
    match store.getVersion key id with
    | none => .error (.noSuchVersion key id)
    | some object => .ok object
  | none =>
    match store.get key with
    | none => .error (.noSuchKey key)
    | some object => .ok object

structure CopyPlan where
  sourceBucket : String
  sourceKey : String
  sourceVersionId : Option String
  source : S3Object
  versionId : String

/-- The checks of a copy, up to the point where it starts to copy. -/
def prepareCopy (env : S3Env) (s : RustackS3) (input : CopyObjectInput) :
    Except S3Error CopyPlan := do
  asS3Error (validateObjectKey input.key)
  let (sourceBucket, sourceKey, sourceVersionId) ←
    asS3Error (parseCopySource env.percentDecode input.copySource)
  let sourceRef ← s.getBucket sourceBucket
  let source ← asS3Error (lookupSource sourceRef.objects sourceKey sourceVersionId)
  let bucket ← s.getBucket input.bucket
  return {
    sourceBucket, sourceKey, sourceVersionId, source, versionId := s.newVersionId env bucket }

def S3ServiceError.display : S3ServiceError → String
  | .noSuchKey key => "The specified key does not exist: " ++ key
  | .invalidPart => "One or more of the specified parts could not be found"
  | .internal message => message
  | e => e.errorCode.defaultMessage

/-- A failure of the bodies is an internal error to the caller. -/
def asInternal {α : Type} (x : Except S3ServiceError α) : Except S3Error α :=
  x.mapError fun e => (S3ServiceError.internal (S3ServiceError.display e)).intoS3Error

def handleCopyObject (env : S3Env) (now : DateTime) (s : RustackS3) (input : CopyObjectInput) :
    RustackS3 × Except S3Error CopyObjectOutput :=
  s.commit do
    let plan ← s.prepareCopy env input
    let (storage, written) ← asInternal (s.storage.copyObject env.digests plan.sourceBucket
      plan.sourceKey plan.source.versionId input.bucket input.key plan.versionId)
    let object : S3Object :=
      { key := input.key
        versionId := plan.versionId
        etag := written.etag
        size := written.size
        lastModified := now
        storageClass := input.headers.storageClassText
        metadata := if input.replaceMetadata then buildMetadataForCopy env input
          else plan.source.metadata
        owner := .default
        checksum := plan.source.checksum
        partsCount := none
        partEtags := [] }
    return ({ s with storage }.storeObject env input.bucket object,
      { eTag := some written.etag
        copySourceVersionId := plan.sourceVersionId
        versionId := realVersionId plan.versionId })

end RustackS3

end Rustack.S3
