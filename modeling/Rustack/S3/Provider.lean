import Rustack.S3.Bucket
import Rustack.S3.Validation

/-!
# The object service

The service keeps the buckets, the bodies and an index of CORS rules, and every
call changes them one after the other.  Random ids are taken from a sequence of
which the service has drawn a first part.  Here are the calls about buckets.
-/

namespace Rustack.S3

structure CorsRule where
  allowedOrigins : List String
  allowedMethods : List String
  allowedHeaders : List String
  exposeHeaders : List String
  maxAgeSeconds : Option ℤ
  deriving DecidableEq

/-- What the service takes from its configuration and from other packages. -/
structure S3Env where
  digests : Digests
  percentDecode : String → Option String
  httpDate : DateTime → String
  versionIds : ℕ → String
  uploadIds : ℕ → String
  defaultRegion : String

structure RustackS3 where
  state : S3ServiceState
  storage : InMemoryStorage
  corsIndex : AList fun _ : String => List CorsRule
  drawn : ℕ

def asS3Error {α : Type} (x : Except S3ServiceError α) : Except S3Error α :=
  x.mapError S3ServiceError.intoS3Error

namespace RustackS3

def new (maxMemorySize : ℕ) : RustackS3 := ⟨.new, .new maxMemorySize, ∅, 0⟩

/-- Make the changes of a call, or none if it fails. -/
def commit {α : Type} (s : RustackS3) (result : Except S3Error (RustackS3 × α)) :
    RustackS3 × Except S3Error α :=
  match result with
  | .ok (s', out) => (s', .ok out)
  | .error e => (s, .error e)

def getBucket (s : RustackS3) (name : String) : Except S3Error S3Bucket :=
  asS3Error (s.state.getBucket name)

def modifyBucket (s : RustackS3) (name : String) (f : S3Bucket → S3Bucket) : RustackS3 :=
  { s with state := s.state.modifyBucket name f }

/-! ## Buckets -/

structure CreateBucketInput where
  bucket : String
  locationConstraint : Option String
  objectLockEnabledForBucket : Option Bool

structure CreateBucketOutput where
  location : Option String
  deriving DecidableEq

def enableObjectLock (bucket : S3Bucket) : S3Bucket :=
  { bucket with objectLockEnabled := true }.enableVersioning

def handleCreateBucket (env : S3Env) (now : DateTime) (s : RustackS3) (input : CreateBucketInput) :
    RustackS3 × Except S3Error CreateBucketOutput :=
  s.commit do
    asS3Error (validateBucketName input.bucket)
    let region := input.locationConstraint.getD env.defaultRegion
    let state ← asS3Error (s.state.createBucket input.bucket region .default now)
    let created : RustackS3 := { s with state }
    let created := if input.objectLockEnabledForBucket.getD false then
      created.modifyBucket input.bucket enableObjectLock else created
    return (created, { location := some ("/" ++ input.bucket) })

/-- The rules and the data go first, then the bucket, if it may. -/
def handleDeleteBucket (s : RustackS3) (bucket : String) : RustackS3 × Except S3Error Unit :=
  let s := { s with corsIndex := s.corsIndex.erase bucket }
  let s := { s with storage := s.storage.deleteBucketData bucket }
  match s.state.deleteBucket bucket with
  | .error e => (s, .error e.intoS3Error)
  | .ok state => ({ s with state }, .ok ())

inductive BucketVersioningStatus where
  | enabled | suspended
  deriving DecidableEq

def setVersioning (status : Option BucketVersioningStatus) (bucket : S3Bucket) : S3Bucket :=
  match status with
  | none => bucket
  | some .enabled => bucket.enableVersioning
  | some .suspended => bucket.suspendVersioning

def handlePutBucketVersioning (s : RustackS3) (bucket : String)
    (status : Option BucketVersioningStatus) : RustackS3 × Except S3Error Unit :=
  s.commit do
    let _ ← s.getBucket bucket
    return (s.modifyBucket bucket (setVersioning status), ())

def indexRule (config : CorsRuleConfig) : CorsRule where
  allowedOrigins := config.allowedOrigins
  allowedMethods := config.allowedMethods
  allowedHeaders := config.allowedHeaders
  exposeHeaders := config.exposeHeaders
  maxAgeSeconds := config.maxAgeSeconds

def handlePutBucketCors (s : RustackS3) (bucket : String) (configs : List CorsRuleConfig) :
    RustackS3 × Except S3Error Unit :=
  s.commit do
    let _ ← s.getBucket bucket
    let s' := s.modifyBucket bucket fun b => { b with corsRules := some configs }
    return ({ s' with corsIndex := s'.corsIndex.insert bucket (configs.map indexRule) }, ())

def handleDeleteBucketCors (s : RustackS3) (bucket : String) : RustackS3 × Except S3Error Unit :=
  s.commit do
    let _ ← s.getBucket bucket
    let s' := s.modifyBucket bucket fun b => { b with corsRules := none }
    return ({ s' with corsIndex := s'.corsIndex.erase bucket }, ())

/-- The configuration comes as it is kept, with the defaults of the request filled in. -/
def handlePutObjectLockConfiguration (s : RustackS3) (bucket : String)
    (config : Option ObjectLockConfiguration) : RustackS3 × Except S3Error Unit :=
  s.commit do
    let _ ← s.getBucket bucket
    match config with
    | none => return (s, ())
    | some config =>
      return (s.modifyBucket bucket fun b =>
        { enableObjectLock b with objectLockConfiguration := some config }, ())

end RustackS3

end Rustack.S3
