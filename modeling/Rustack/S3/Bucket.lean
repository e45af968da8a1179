import Mathlib.Data.List.AList
import Rustack.S3.Error
import Rustack.S3.Keystore

/-!
# Buckets and the state of the service

A bucket holds its objects, its uploads in progress and its configuration; the
service state maps bucket names to buckets and to their owners.  Concurrent hash
maps are association lists.
-/

namespace Rustack.S3

inductive VersioningStatus where
  | disabled | enabled | suspended
  deriving DecidableEq

structure CorsRuleConfig where
  id : Option String
  allowedOrigins : List String
  allowedMethods : List String
  allowedHeaders : List String
  exposeHeaders : List String
  maxAgeSeconds : Option ℤ
  deriving DecidableEq

structure DefaultRetention where
  mode : String
  days : Option ℤ
  years : Option ℤ
  deriving DecidableEq

structure ObjectLockRule where
  defaultRetention : Option DefaultRetention
  deriving DecidableEq

structure ObjectLockConfiguration where
  objectLockEnabled : String
  rule : Option ObjectLockRule
  deriving DecidableEq

/-! ## Multipart uploads -/

structure UploadPart where
  partNumber : ℕ
  etag : String
  size : ℕ
  lastModified : DateTime
  checksum : Option ChecksumData
  deriving DecidableEq

structure MultipartUpload where
  uploadId : String
  key : String
  initiated : DateTime
  owner : Owner
  metadata : ObjectMetadata
  checksumAlgorithm : Option String
  checksumType : Option String
  parts : SortedMap ℕ UploadPart compare
  sseAlgorithm : Option String
  sseKmsKeyId : Option String
  storageClass : String

namespace MultipartUpload

def new (uploadId key : String) (owner : Owner) (metadata : ObjectMetadata) (now : DateTime) :
    MultipartUpload where
  uploadId := uploadId
  key := key
  initiated := now
  owner := owner
  metadata := metadata
  checksumAlgorithm := none
  checksumType := none
  parts := .empty
  sseAlgorithm := none
  sseKmsKeyId := none
  storageClass := "STANDARD"

def putPart (upload : MultipartUpload) (part : UploadPart) : MultipartUpload :=
  { upload with parts := upload.parts.insert part.partNumber part }

def getPart (upload : MultipartUpload) (partNumber : ℕ) : Option UploadPart :=
  upload.parts.get? partNumber

end MultipartUpload

/-! ## Buckets -/

structure S3Bucket where
  name : String
  region : String
  creationDate : DateTime
  owner : Owner
  objects : ObjectStore
  multipartUploads : AList fun _ : String => MultipartUpload
  versioning : VersioningStatus
  corsRules : Option (List CorsRuleConfig)
  objectLockEnabled : Bool
  objectLockConfiguration : Option ObjectLockConfiguration

namespace S3Bucket

def new (name region : String) (owner : Owner) (now : DateTime) : S3Bucket where
  name := name
  region := region
  creationDate := now
  owner := owner
  objects := .default
  multipartUploads := ∅
  versioning := .disabled
  corsRules := none
  objectLockEnabled := false
  objectLockConfiguration := none

def isEmpty (bucket : S3Bucket) : Bool :=
  bucket.objects.isEmpty && bucket.multipartUploads.entries.isEmpty

def isVersioningEnabled (bucket : S3Bucket) : Bool := bucket.versioning == .enabled

def enableVersioning (bucket : S3Bucket) : S3Bucket :=
  if bucket.versioning ≠ .enabled then
    { bucket with objects := bucket.objects.transitionToVersioned, versioning := .enabled }
  else bucket

def suspendVersioning (bucket : S3Bucket) : S3Bucket :=
  if bucket.versioning = .enabled then { bucket with versioning := .suspended } else bucket

end S3Bucket

/-! ## The state of the service -/

structure S3ServiceState where
  buckets : AList fun _ : String => S3Bucket
  globalBucketOwner : AList fun _ : String => String

namespace S3ServiceState

def new : S3ServiceState := ⟨∅, ∅⟩

def createBucket (state : S3ServiceState) (name region : String) (owner : Owner)
    (now : DateTime) : Except S3ServiceError S3ServiceState :=
  match state.globalBucketOwner.lookup name with
  | some existingOwner =>
    if existingOwner = owner.id then .error (.bucketAlreadyOwnedByYou name)
    else .error (.bucketAlreadyExists name)
  | none => .ok
    { buckets := state.buckets.insert name (.new name region owner now)
      globalBucketOwner := state.globalBucketOwner.insert name owner.id }

def deleteBucket (state : S3ServiceState) (name : String) :
    Except S3ServiceError S3ServiceState :=
  match state.buckets.lookup name with
  | none => .error (.noSuchBucket name)
  | some bucket =>
    if bucket.isEmpty then
      .ok { buckets := state.buckets.erase name
            globalBucketOwner := state.globalBucketOwner.erase name }
    else .error (.bucketNotEmpty name)

def getBucket (state : S3ServiceState) (name : String) : Except S3ServiceError S3Bucket :=
  match state.buckets.lookup name with
  | none => .error (.noSuchBucket name)
  | some bucket => .ok bucket

/-- Write to a bucket through a reference to it. -/
def modifyBucket (state : S3ServiceState) (name : String) (f : S3Bucket → S3Bucket) :
    S3ServiceState :=
  match state.buckets.lookup name with
  | none => state
  | some bucket => { state with buckets := state.buckets.insert name (f bucket) }

theorem getBucket_eq_ok {state : S3ServiceState} {name : String} {bucket : S3Bucket} :
    state.getBucket name = .ok bucket ↔ state.buckets.lookup name = some bucket := by
  unfold getBucket
  split
  · next h => simp [h]
  · next h => simp [h]

theorem modifyBucket_of_lookup {state : S3ServiceState} {name : String} {bucket : S3Bucket}
    (h : state.buckets.lookup name = some bucket) (f : S3Bucket → S3Bucket) :
    state.modifyBucket name f = { state with buckets := state.buckets.insert name (f bucket) } := by
  rw [modifyBucket, h]

theorem lookup_modifyBucket (state : S3ServiceState) (name : String) (f : S3Bucket → S3Bucket)
    (name' : String) : (state.modifyBucket name f).buckets.lookup name' =
      if name' = name then (state.buckets.lookup name').map f else state.buckets.lookup name' := by
  by_cases heq : name' = name
  · rw [if_pos heq, heq]
    cases h : state.buckets.lookup name with
    | none =>
        rw [modifyBucket, h]
        exact h
    | some bucket =>
        rw [modifyBucket_of_lookup h]
        exact AList.lookup_insert _
  · rw [if_neg heq]
    cases h : state.buckets.lookup name with
    | none => rw [modifyBucket, h]
    | some bucket =>
        rw [modifyBucket_of_lookup h]
        exact AList.lookup_insert_ne heq

end S3ServiceState

end Rustack.S3
