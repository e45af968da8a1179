import Rustack.S3.Objects

/-!
# Multipart uploads

An upload is started, its parts are put in any order, and completing it stores
their concatenation as an object under the key of the completing request.
-/

namespace Rustack.S3

inductive ChecksumType where
  | composite | fullObject
  deriving DecidableEq

def ChecksumType.asStr : ChecksumType → String
  | composite => "COMPOSITE"
  | fullObject => "FULL_OBJECT"

namespace RustackS3

structure CreateMultipartUploadInput where
  bucket : String
  key : String
  headers : ObjectHeaders
  checksumAlgorithm : Option ChecksumAlgorithm
  checksumType : Option ChecksumType

/-- The type an algorithm forces, or the one asked for, or a composite. -/
def uploadChecksumType (algorithm : String) (requested : Option String) : String :=
  match algorithm with
  | "CRC64NVME" => "FULL_OBJECT"
  | "SHA1" => "COMPOSITE"
  | "SHA256" => "COMPOSITE"
  | _ => requested.getD "COMPOSITE"

def handleCreateMultipartUpload (env : S3Env) (now : DateTime) (s : RustackS3)
    (input : CreateMultipartUploadInput) : RustackS3 × Except S3Error String :=
  s.commit do
    asS3Error (validateObjectKey input.key)
    let _ ← s.getBucket input.bucket
    let uploadId := env.uploadIds s.drawn
    let algorithm := input.checksumAlgorithm.map ChecksumAlgorithm.asStr
    let upload : MultipartUpload :=
      { MultipartUpload.new uploadId input.key .default (input.headers.build env none) now with
        storageClass := input.headers.storageClassText
        checksumAlgorithm := algorithm
        checksumType := algorithm.map fun a =>
          uploadChecksumType a (input.checksumType.map ChecksumType.asStr)
        sseAlgorithm := input.headers.serverSideEncryption
        sseKmsKeyId := input.headers.ssekmsKeyId }
    return ({ s.modifyBucket input.bucket fun b =>
        { b with multipartUploads := b.multipartUploads.insert uploadId upload } with
      drawn := s.drawn + 1 }, uploadId)

/-- Record a part of an upload that is still in progress. -/
def recordPart (s : RustackS3) (bucket uploadId : String) (part : UploadPart) : RustackS3 :=
  s.modifyBucket bucket fun b =>
    match b.multipartUploads.lookup uploadId with
    | none => b
    | some upload =>
      { b with multipartUploads := b.multipartUploads.insert uploadId (upload.putPart part) }

structure UploadPartInput where
  bucket : String
  uploadId : String
  partNumber : ℤ
  body : Option Bytes
  contentMd5 : Option String
  checksums : ChecksumHeaders

/-- The checksum kept with a part, which must fit the one of the upload. -/
def partChecksum (env : S3Env) (data : Bytes) (uploadAlgorithm : Option String)
    (client : Option ChecksumData) : Except S3ServiceError (Option ChecksumData) :=
  match uploadAlgorithm with
  | none => .ok client
  | some text =>
    match ChecksumAlgorithm.fromStr text with
    | none => .ok client
    | some algorithm =>
      let computed := env.digests.checksum algorithm data
      let kept : ChecksumData :=
        { algorithm := text, value := computed, checksumType := "FULL_OBJECT" }
      match client with
      | none => .ok (some kept)
      | some checksum =>
        if checksum.algorithm.toUpper ≠ text.toUpper then
          .error (.invalidArgument ("Checksum algorithm mismatch: expected " ++ text ++ ", got " ++
            checksum.algorithm))
        else if checksum.value ≠ computed then .error .badDigest
        else .ok (some kept)

def preparePart (env : S3Env) (s : RustackS3) (input : UploadPartInput)
    (staged : Option StagedUpload) : Except S3Error (Option ChecksumData) := do
  let client ← asS3Error (extractChecksum input.checksums)
  if input.partNumber < 1 ∨ 10000 < input.partNumber then
    throw (.invalidArgument "Part number must be between 1 and 10000")
  let bucket ← s.getBucket input.bucket
  match bucket.multipartUploads.lookup input.uploadId with
  | none => throw (S3ServiceError.noSuchUpload input.uploadId).intoS3Error
  | some upload =>
    asS3Error (validateRequestMd5 env input.contentMd5 input.body staged)
    asS3Error (verifyChecksum env (requestData input.body staged) client)
    asS3Error (partChecksum env (requestData input.body staged) upload.checksumAlgorithm client)

structure UploadPartOutput where
  eTag : Option String
  checksums : ChecksumHeaders
  deriving DecidableEq

def uploadPartBody (env : S3Env) (now : DateTime) (s : RustackS3) (input : UploadPartInput)
    (staged : Option StagedUpload) : RustackS3 × Except S3Error UploadPartOutput :=
  s.commit do
    let checksum ← s.preparePart env input staged
    let partNumber := input.partNumber.toNat
    let (storage, written) := match staged with
      | some upload =>
        s.storage.writeStagedPart env.digests input.bucket input.uploadId partNumber upload
      | none =>
        s.storage.writePart env.digests input.bucket input.uploadId partNumber
          (input.body.getD [])
    let part : UploadPart :=
      { partNumber, etag := written.etag, size := written.size, lastModified := now, checksum }
    return ({ s with storage }.recordPart input.bucket input.uploadId part,
      { eTag := some written.etag
        checksums := (checksum.map checksumToFields).getD .none })

structure UploadPartCopyInput where
  bucket : String
  uploadId : String
  partNumber : ℤ
  copySource : String

/-- A signed part number read as an unsigned one. -/
def asU32 (n : ℤ) : ℕ := (n % 2 ^ 32).toNat

/-- The part is written before its bucket is looked for. -/
def handleUploadPartCopy (env : S3Env) (now : DateTime) (s : RustackS3)
    (input : UploadPartCopyInput) : RustackS3 × Except S3Error (Option String) :=
  match parseCopySource env.percentDecode input.copySource with
  | .error e => (s, .error e.intoS3Error)
  | .ok (srcBucket, srcKey, srcVersionId) =>
    let srcVid := srcVersionId.getD "null"
    let partNumber := asU32 input.partNumber
    let written : Except S3ServiceError (InMemoryStorage × WriteResult) :=
      match s.storage.stagedObject srcBucket srcKey srcVid with
      | some staged => .ok
          (s.storage.writeStagedPart env.digests input.bucket input.uploadId partNumber staged)
      | none => do
        let data ← s.storage.readObject srcBucket srcKey srcVid
        return s.storage.writePart env.digests input.bucket input.uploadId partNumber data
    match written with
    | .error e => (s, .error e.intoS3Error)
    | .ok (storage, result) =>
      let s' := { s with storage }
      match s'.getBucket input.bucket with
      | .error e => (s', .error e)
      | .ok _ =>
        let part : UploadPart :=
          { partNumber, etag := result.etag, size := result.size, lastModified := now,
            checksum := none }
        (s'.recordPart input.bucket input.uploadId part, .ok (some result.etag))

structure CompletedPart where
  partNumber : Option ℤ
  eTag : Option String
  deriving DecidableEq

structure CompleteMultipartUploadInput where
  bucket : String
  key : String
  uploadId : String
  parts : List CompletedPart

/-- The numbers of the parts asked for, which come in order and have been uploaded. -/
def requestedParts (upload : MultipartUpload) :
    ℤ → List CompletedPart → Except S3Error (List ℕ)
  | _, [] => .ok []
  | lastNum, part :: parts =>
    match part.partNumber with
    | none => .error (.withMessage .invalidArgument "Part number is required")
    | some partNum =>
      if partNum ≤ lastNum then .error S3ServiceError.invalidPartOrder.intoS3Error
      else if (upload.getPart partNum.toNat).isNone then
        .error S3ServiceError.invalidPart.intoS3Error
      else (requestedParts upload partNum parts).map (partNum.toNat :: ·)

def minPartSize : ℕ := 5 * 1024 * 1024

/-- All parts but the last must be large enough. -/
def checkPartSizes (upload : MultipartUpload) (partNumbers : List ℕ) : Except S3Error Unit :=
  partNumbers.dropLast.forM fun num =>
    match upload.getPart num with
    | none => .ok ()
    | some part =>
      if part.size < minPartSize then
        .error (.withMessage .entityTooSmall
          ("Your proposed upload is smaller than the minimum allowed size. Part " ++
            toString num ++ " has size " ++ toString part.size ++ " bytes, minimum is " ++
            toString minPartSize))
      else .ok ()

/-- The checksum of the whole object, if the upload was started with an algorithm. -/
def finalChecksum (env : S3Env) (upload : MultipartUpload) (assembled : Bytes)
    (partNumbers : List ℕ) : Option ChecksumData :=
  upload.checksumAlgorithm.bind fun text =>
    (ChecksumAlgorithm.fromStr text).map fun algorithm =>
      let checksumType := upload.checksumType.getD "COMPOSITE"
      let value :=
        if checksumType = "FULL_OBJECT" then env.digests.checksum algorithm assembled
        else computeCompositeChecksum env.digests algorithm (partNumbers.filterMap fun num =>
          ((upload.getPart num).bind UploadPart.checksum).map ChecksumData.value)
      { algorithm := text, value, checksumType }

structure CompleteMultipartUploadOutput where
  bucket : Option String
  key : Option String
  eTag : Option String
  location : Option String
  versionId : Option String
  checksums : ChecksumHeaders
  deriving DecidableEq

structure CompletePlan where
  upload : MultipartUpload
  partNumbers : List ℕ
  versionId : String

/-- The checks of a completion, up to the point where the parts are assembled. -/
def prepareComplete (env : S3Env) (s : RustackS3) (input : CompleteMultipartUploadInput) :
    Except S3Error CompletePlan := do
  let bucket ← s.getBucket input.bucket
  match bucket.multipartUploads.lookup input.uploadId with
  | none => throw (S3ServiceError.noSuchUpload input.uploadId).intoS3Error
  | some upload =>
    let partNumbers ← requestedParts upload 0 input.parts
    checkPartSizes upload partNumbers
    return { upload, partNumbers, versionId := s.newVersionId env bucket }

def handleCompleteMultipartUpload (env : S3Env) (now : DateTime) (s : RustackS3)
    (input : CompleteMultipartUploadInput) :
    RustackS3 × Except S3Error CompleteMultipartUploadOutput :=
  s.commit do
    let plan ← s.prepareComplete env input
    let (storage, written, _) ← asInternal (s.storage.completeMultipart env.digests input.bucket
      input.uploadId input.key plan.versionId plan.partNumbers)
    let assembled := (storage.stagedObject input.bucket input.key plan.versionId).map
      StagedUpload.data
    let checksum := finalChecksum env plan.upload (assembled.getD []) plan.partNumbers
    let object : S3Object :=
      { key := input.key
        versionId := plan.versionId
        etag := written.etag
        size := written.size
        lastModified := now
        storageClass := plan.upload.storageClass
        metadata := plan.upload.metadata
        owner := plan.upload.owner
        checksum
        partsCount := some plan.partNumbers.length
        partEtags := input.parts.filterMap CompletedPart.eTag }
    let stored := { s with storage }.storeObject env input.bucket object
    return (stored.modifyBucket input.bucket fun b =>
        { b with multipartUploads := b.multipartUploads.erase input.uploadId },
      { bucket := some input.bucket
        key := some input.key
        eTag := some written.etag
        location := some ("http://s3.amazonaws.com/" ++ input.bucket)
        versionId := realVersionId plan.versionId
        checksums := (checksum.map checksumToFields).getD .none })

def handleAbortMultipartUpload (s : RustackS3) (bucket uploadId : String) :
    RustackS3 × Except S3Error Unit :=
  s.commit do
    let _ ← s.getBucket bucket
    let s' := s.modifyBucket bucket fun b =>
      { b with multipartUploads := b.multipartUploads.erase uploadId }
    return ({ s' with storage := s'.storage.abortMultipart bucket uploadId }, ())

end RustackS3

end Rustack.S3
