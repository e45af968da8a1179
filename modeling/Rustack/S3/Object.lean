import Mathlib.Data.String.Basic

/-!
# Objects, delete markers and their metadata

The records an object store holds.  A moment is a number of nanoseconds, and the
hash map of user metadata is an association list in its iteration order.
-/

namespace Rustack.S3

abbrev DateTime := ℤ

structure Owner where
  id : String
  displayName : String
  deriving DecidableEq

def Owner.default : Owner where
  id := "75aa57f09aa0c8caeab4f8c24e99d10f8e7faeebf76c078efc7c6caea54ba06a"
  displayName := "webfile"

inductive CannedAcl where
  | «private» | publicRead | publicReadWrite | authenticatedRead | awsExecRead | bucketOwnerRead
  | bucketOwnerFullControl | logDeliveryWrite
  deriving DecidableEq

/-- `None` where parsing fails. -/
def CannedAcl.fromStr : String → Option CannedAcl
  | "private" => some .«private»
  | "public-read" => some .publicRead
  | "public-read-write" => some .publicReadWrite
  | "authenticated-read" => some .authenticatedRead
  | "aws-exec-read" => some .awsExecRead
  | "bucket-owner-read" => some .bucketOwnerRead
  | "bucket-owner-full-control" => some .bucketOwnerFullControl
  | "log-delivery-write" => some .logDeliveryWrite
  | _ => none

structure ChecksumData where
  algorithm : String
  value : String
  checksumType : String
  deriving DecidableEq

structure ObjectMetadata where
  contentType : Option String
  contentEncoding : Option String
  contentDisposition : Option String
  contentLanguage : Option String
  cacheControl : Option String
  expires : Option String
  userMetadata : List (String × String)
  sseAlgorithm : Option String
  sseKmsKeyId : Option String
  sseBucketKeyEnabled : Option Bool
  sseCustomerAlgorithm : Option String
  sseCustomerKeyMd5 : Option String
  tagging : List (String × String)
  acl : CannedAcl
  objectLockMode : Option String
  objectLockRetainUntil : Option DateTime
  objectLockLegalHold : Option Bool
  deriving DecidableEq

def ObjectMetadata.default : ObjectMetadata where
  contentType := none
  contentEncoding := none
  contentDisposition := none
  contentLanguage := none
  cacheControl := none
  expires := none
  userMetadata := []
  sseAlgorithm := none
  sseKmsKeyId := none
  sseBucketKeyEnabled := none
  sseCustomerAlgorithm := none
  sseCustomerKeyMd5 := none
  tagging := []
  acl := .«private»
  objectLockMode := none
  objectLockRetainUntil := none
  objectLockLegalHold := none

structure S3Object where
  key : String
  versionId : String
  etag : String
  size : ℕ
  lastModified : DateTime
  storageClass : String
  metadata : ObjectMetadata
  owner : Owner
  checksum : Option ChecksumData
  partsCount : Option ℕ
  partEtags : List String
  deriving DecidableEq

structure S3DeleteMarker where
  key : String
  versionId : String
  lastModified : DateTime
  owner : Owner
  deriving DecidableEq

inductive ObjectVersion where
  | object (object : S3Object)
  | deleteMarker (marker : S3DeleteMarker)
  deriving DecidableEq

namespace ObjectVersion

def key : ObjectVersion → String
  | object obj => obj.key
  | deleteMarker dm => dm.key

def versionId : ObjectVersion → String
  | object obj => obj.versionId
  | deleteMarker dm => dm.versionId

def isDeleteMarker : ObjectVersion → Bool
  | object _ => false
  | deleteMarker _ => true

def asObject : ObjectVersion → Option S3Object
  | object obj => some obj
  | deleteMarker _ => none

theorem asObject_eq_some {v : ObjectVersion} {obj : S3Object} :
    v.asObject = some obj ↔ v = .object obj := by
  cases v <;> simp [asObject]

end ObjectVersion

end Rustack.S3
