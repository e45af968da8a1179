import Rustack.S3.Objects

/-!
# Tags, access, retention and legal hold of an object

Tags and the access list are changed by giving the store a changed copy of the
object; retention and legal hold are changed in place.
-/

namespace Rustack.S3

namespace RustackS3

/-- Give the store a copy of an object with changed metadata. -/
def reinsert (env : S3Env) (s : RustackS3) (bucketName key : String) (versionId : Option String)
    (f : ObjectMetadata → ObjectMetadata) : Except S3Error RustackS3 := do
  let bucket ← s.getBucket bucketName
  let object ← asS3Error (lookupSource bucket.objects key versionId)
  return s.storeObject env bucketName { object with metadata := f object.metadata }

structure PutObjectTaggingInput where
  bucket : String
  key : String
  versionId : Option String
  tagSet : List (String × String)

def handlePutObjectTagging (env : S3Env) (s : RustackS3) (input : PutObjectTaggingInput) :
    RustackS3 × Except S3Error (Option String) :=
  s.commit do
    let _ ← s.getBucket input.bucket
    asS3Error (validateTags input.tagSet)
    let s' ← s.reinsert env input.bucket input.key input.versionId fun metadata =>
      { metadata with tagging := input.tagSet }
    return (s', input.versionId)

structure DeleteObjectTaggingInput where
  bucket : String
  key : String
  versionId : Option String

def handleDeleteObjectTagging (env : S3Env) (s : RustackS3) (input : DeleteObjectTaggingInput) :
    RustackS3 × Except S3Error (Option String) :=
  s.commit do
    let s' ← s.reinsert env input.bucket input.key input.versionId fun metadata =>
      { metadata with tagging := [] }
    return (s', input.versionId)

structure PutObjectAclInput where
  bucket : String
  key : String
  versionId : Option String
  acl : Option ObjectCannedACL

def handlePutObjectAcl (env : S3Env) (s : RustackS3) (input : PutObjectAclInput) :
    RustackS3 × Except S3Error Unit :=
  s.commit do
    let _ ← s.getBucket input.bucket
    match input.acl with
    | none => return (s, ())
    | some acl =>
      match CannedAcl.fromStr acl.asStr with
      | none => throw (.invalidArgument "Invalid canned ACL")
      | some acl =>
        let s' ← s.reinsert env input.bucket input.key input.versionId fun metadata =>
          { metadata with acl }
        return (s', ())

/-! ## Retention and legal hold -/

/-- Change the metadata of an object in place. -/
def updateInPlace (s : RustackS3) (bucketName key : String) (versionId : Option String)
    (f : ObjectMetadata → ObjectMetadata) : RustackS3 :=
  s.modifyBucket bucketName fun b =>
    { b with objects := match versionId with
        | some id => b.objects.updateVersionMetadata key id f
        | none => b.objects.updateMetadata key f }

structure ObjectLockRetention where
  mode : Option ObjectLockMode
  retainUntilDate : Option DateTime
  deriving DecidableEq

structure PutObjectRetentionInput where
  bucket : String
  key : String
  versionId : Option String
  retention : Option ObjectLockRetention
  bypassGovernanceRetention : Option Bool

/-- The rules for changing a retention that has not expired. -/
def checkRetentionChange (now : DateTime) (current : ObjectMetadata)
    (retention : Option ObjectLockRetention) (bypass : Bool) : Except S3ServiceError Unit :=
  match current.objectLockRetainUntil with
  | none => .ok ()
  | some currentUntil =>
    if now < currentUntil then
      have newMode := retention.bind ObjectLockRetention.mode
      have newUntil := retention.bind ObjectLockRetention.retainUntilDate
      have isShortening := match newUntil with
        | some new => decide (new < currentUntil)
        | none => true
      if current.objectLockMode = some "COMPLIANCE" then
        if newMode ≠ some .compliance ∨ isShortening = true then .error .accessDenied else .ok ()
      else if isShortening = true ∧ bypass = false then .error .accessDenied
      else .ok ()
    else .ok ()

def setRetention (retention : Option ObjectLockRetention) (metadata : ObjectMetadata) :
    ObjectMetadata :=
  match retention with
  | some ret =>
    { metadata with
      objectLockMode := ret.mode.map ObjectLockMode.asStr
      objectLockRetainUntil := ret.retainUntilDate }
  | none => { metadata with objectLockMode := none, objectLockRetainUntil := none }

def handlePutObjectRetention (now : DateTime) (s : RustackS3) (input : PutObjectRetentionInput) :
    RustackS3 × Except S3Error Unit :=
  s.commit do
    let bucket ← s.getBucket input.bucket
    let object ← asS3Error (lookupSource bucket.objects input.key input.versionId)
    asS3Error (checkRetentionChange now object.metadata input.retention
      (input.bypassGovernanceRetention.getD false))
    return (s.updateInPlace input.bucket input.key input.versionId (setRetention input.retention),
      ())

structure PutObjectLegalHoldInput where
  bucket : String
  key : String
  versionId : Option String
  status : Option ObjectLockLegalHoldStatus

def handlePutObjectLegalHold (s : RustackS3) (input : PutObjectLegalHoldInput) :
    RustackS3 × Except S3Error Unit :=
  s.commit do
    let bucket ← s.getBucket input.bucket
    if bucket.objectLockEnabled = false then
      throw S3ServiceError.objectLockConfigurationNotFoundError.intoS3Error
    match input.status with
    | none => throw .malformedXml
    | some status =>
      let _ ← asS3Error (lookupSource bucket.objects input.key input.versionId)
      return (s.updateInPlace input.bucket input.key input.versionId fun metadata =>
        { metadata with objectLockLegalHold := some (status == .on) }, ())

end RustackS3

end Rustack.S3
