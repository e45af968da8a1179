import Rustack.S3.Multipart
import Rustack.S3.ObjectConfig

/-!
# Runs of the object service

The calls that change the service, as a datatype, and the states that any
sequence of them reaches from the empty service.  A staged body comes with the
call that carries it.
-/

namespace Rustack.S3

open RustackS3

inductive S3Op where
  | createBucket (input : CreateBucketInput)
  | deleteBucket (bucket : String)
  | putBucketVersioning (bucket : String) (status : Option BucketVersioningStatus)
  | putBucketCors (bucket : String) (configs : List CorsRuleConfig)
  | deleteBucketCors (bucket : String)
  | putObjectLockConfiguration (bucket : String) (config : Option ObjectLockConfiguration)
  | putObject (input : PutObjectInput) (upload : Option StagedUpload)
  | deleteObject (input : DeleteObjectInput)
  | deleteObjects (input : DeleteObjectsInput)
  | copyObject (input : CopyObjectInput)
  | putObjectTagging (input : PutObjectTaggingInput)
  | deleteObjectTagging (input : DeleteObjectTaggingInput)
  | putObjectAcl (input : PutObjectAclInput)
  | putObjectRetention (input : PutObjectRetentionInput)
  | putObjectLegalHold (input : PutObjectLegalHoldInput)
  | createMultipartUpload (input : CreateMultipartUploadInput)
  | uploadPart (input : UploadPartInput) (staged : Option StagedUpload)
  | uploadPartCopy (input : UploadPartCopyInput)
  | completeMultipartUpload (input : CompleteMultipartUploadInput)
  | abortMultipartUpload (bucket uploadId : String)

/-- The state a call leaves behind, whether it succeeds or not. -/
def RustackS3.step (env : S3Env) (now : DateTime) (s : RustackS3) : S3Op → RustackS3
  | .createBucket input => (handleCreateBucket env now s input).1
  | .deleteBucket bucket => (s.handleDeleteBucket bucket).1
  | .putBucketVersioning bucket status => (s.handlePutBucketVersioning bucket status).1
  | .putBucketCors bucket configs => (s.handlePutBucketCors bucket configs).1
  | .deleteBucketCors bucket => (s.handleDeleteBucketCors bucket).1
  | .putObjectLockConfiguration bucket config =>
    (s.handlePutObjectLockConfiguration bucket config).1
  | .putObject input upload => (putObjectBody env now s input upload).1
  | .deleteObject input => (handleDeleteObject env now s input).1
  | .deleteObjects input => (handleDeleteObjects env now s input).1
  | .copyObject input => (handleCopyObject env now s input).1
  | .putObjectTagging input => (handlePutObjectTagging env s input).1
  | .deleteObjectTagging input => (handleDeleteObjectTagging env s input).1
  | .putObjectAcl input => (handlePutObjectAcl env s input).1
  | .putObjectRetention input => (handlePutObjectRetention now s input).1
  | .putObjectLegalHold input => (s.handlePutObjectLegalHold input).1
  | .createMultipartUpload input => (handleCreateMultipartUpload env now s input).1
  | .uploadPart input staged => (uploadPartBody env now s input staged).1
  | .uploadPartCopy input => (handleUploadPartCopy env now s input).1
  | .completeMultipartUpload input => (handleCompleteMultipartUpload env now s input).1
  | .abortMultipartUpload bucket uploadId => (s.handleAbortMultipartUpload bucket uploadId).1

inductive Reachable (env : S3Env) (maxMemorySize : ℕ) : RustackS3 → Prop where
  | new : Reachable env maxMemorySize (.new maxMemorySize)
  | step {s : RustackS3} (now : DateTime) (op : S3Op) (h : Reachable env maxMemorySize s) :
      Reachable env maxMemorySize (s.step env now op)

namespace RustackS3

/-! ## Inversion rules -/

theorem asS3Error_eq_ok {α : Type} {x : Except S3ServiceError α} {a : α} :
    asS3Error x = .ok a ↔ x = .ok a := by
  cases x <;> simp [asS3Error, Except.mapError]

theorem getBucket_eq_ok {s : RustackS3} {name : String} {bucket : S3Bucket} :
    s.getBucket name = .ok bucket ↔ s.state.buckets.lookup name = some bucket := by
  rw [getBucket, asS3Error_eq_ok, S3ServiceState.getBucket_eq_ok]

/-- A call that changes the state only when it succeeds. -/
theorem commit_cases {α : Type} (s : RustackS3) (result : Except S3Error (RustackS3 × α)) :
    (∃ e, s.commit result = (s, .error e)) ∨
      ∃ s' out, result = .ok (s', out) ∧ s.commit result = (s', .ok out) := by
  cases result with
  | error e => exact Or.inl ⟨e, rfl⟩
  | ok r =>
      obtain ⟨s', out⟩ := r
      exact Or.inr ⟨s', out, rfl, rfl⟩

/-- What holds of the state if nothing changes and of every change holds afterwards. -/
theorem commit_rule {α : Type} {motive : RustackS3 → Prop} {s : RustackS3}
    {result : Except S3Error (RustackS3 × α)} (hsame : motive s)
    (hok : ∀ s' out, result = .ok (s', out) → motive s') : motive (s.commit result).1 := by
  cases result with
  | error e => exact hsame
  | ok r => exact hok r.1 r.2 rfl

end RustackS3

end Rustack.S3
