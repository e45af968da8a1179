import Mathlib.Data.Prod.Basic
import Rustack.Lib.Base64
import Rustack.Lib.Retain
import Rustack.S3.Error

/-!
# The bodies of objects

Bodies are stored apart from the objects that describe them, under bucket, key
and version id, and the parts of an upload under bucket, upload id and number.
Digests are computed elsewhere and stand here as functions; reading and writing
temporary files is taken not to fail.
-/

namespace Rustack.S3

abbrev Bytes := List UInt8

/-! ## Checksums -/

inductive ChecksumAlgorithm where
  | crc32 | crc32c | crc64Nvme | sha1 | sha256
  deriving DecidableEq

namespace ChecksumAlgorithm

def asStr : ChecksumAlgorithm → String
  | crc32 => "CRC32"
  | crc32c => "CRC32C"
  | crc64Nvme => "CRC64NVME"
  | sha1 => "SHA1"
  | sha256 => "SHA256"

def fromStr (s : String) : Option ChecksumAlgorithm :=
  match s.toUpper with
  | "CRC32" => some crc32
  | "CRC32C" => some crc32c
  | "CRC64NVME" => some crc64Nvme
  | "SHA1" => some sha1
  | "SHA256" => some sha256
  | _ => none

end ChecksumAlgorithm

/-- The digest functions of other packages. -/
structure Digests where
  md5 : Bytes → Bytes
  checksum : ChecksumAlgorithm → Bytes → String

def hexDigit (n : ℕ) : Char := "0123456789abcdef".toList.getD n '0'

def hexEncode (bytes : Bytes) : String :=
  String.ofList (bytes.flatMap fun b => [hexDigit (b.toNat / 16), hexDigit (b.toNat % 16)])

def hexValue (c : Char) : Option ℕ := "0123456789abcdef".toList.findIdx? (· == c.toLower)

def hexDecode : List Char → Option Bytes
  | [] => some []
  | [_] => none
  | c :: c' :: cs =>
    match hexValue c, hexValue c', hexDecode cs with
    | some high, some low, some bytes => some (UInt8.ofNat (16 * high + low) :: bytes)
    | _, _, _ => none

def trimQuotes (s : String) : List Char :=
  ((s.toList.dropWhile (· == '"')).reverse.dropWhile (· == '"')).reverse

def computeMd5 (d : Digests) (data : Bytes) : String := hexEncode (d.md5 data)

def computeMultipartEtag (d : Digests) (partMd5Hexes : List String) (partCount : ℕ) : String :=
  let combined := partMd5Hexes.flatMap fun hex => (hexDecode (trimQuotes hex)).getD []
  "\"" ++ computeMd5 d combined ++ "-" ++ toString partCount ++ "\""

def computeCompositeChecksum (d : Digests) (algorithm : ChecksumAlgorithm)
    (partChecksums : List String) : String :=
  let combined := partChecksums.flatMap fun b64 => (Base64.decode b64.toList).getD []
  d.checksum algorithm combined ++ "-" ++ toString partChecksums.length

/-! ## Stored data -/

/-- The most that is read into memory at once. -/
def upstreamBodyLimit : ℕ := 64 * 1024 * 1024

/-- The most that an object may hold. -/
def s3ObjectBodyBytes : ℕ := 5 * 1024 * 1024 * 1024

structure StagedUpload where
  data : Bytes
  deriving DecidableEq

def StagedUpload.size (upload : StagedUpload) : ℕ := upload.data.length

inductive StoredData where
  | staged (upload : StagedUpload)
  | inMemory (data : Bytes)
  | onDisk (data : Bytes)
  deriving DecidableEq

namespace StoredData

def data : StoredData → Bytes
  | staged upload => upload.data
  | inMemory data => data
  | onDisk data => data

def readAll (stored : StoredData) : Except S3ServiceError Bytes :=
  match stored with
  | staged upload =>
    if upstreamBodyLimit < upload.size then
      .error (.internal "large object requires streaming read")
    else .ok upload.data
  | inMemory data => .ok data
  | onDisk data => .ok data

end StoredData

structure WriteResult where
  etag : String
  size : ℕ
  md5Hex : String

def writeResult (d : Digests) (data : Bytes) : WriteResult where
  etag := "\"" ++ computeMd5 d data ++ "\""
  size := data.length
  md5Hex := computeMd5 d data

structure InMemoryStorage where
  objects : AList fun _ : String × String × String => StoredData
  parts : AList fun _ : String × String × ℕ => StoredData
  maxMemorySize : ℕ

namespace InMemoryStorage

def new (maxMemorySize : ℕ) : InMemoryStorage := ⟨∅, ∅, maxMemorySize⟩

def storeData (storage : InMemoryStorage) (data : Bytes) : StoredData :=
  if storage.maxMemorySize < data.length then .onDisk data else .inMemory data

def insertObject (storage : InMemoryStorage) (bucket key versionId : String)
    (stored : StoredData) : InMemoryStorage :=
  { storage with objects := storage.objects.insert (bucket, key, versionId) stored }

def insertPart (storage : InMemoryStorage) (bucket uploadId : String) (partNumber : ℕ)
    (stored : StoredData) : InMemoryStorage :=
  { storage with parts := storage.parts.insert (bucket, uploadId, partNumber) stored }

def writeObject (d : Digests) (storage : InMemoryStorage) (bucket key versionId : String)
    (data : Bytes) : InMemoryStorage × WriteResult :=
  (storage.insertObject bucket key versionId (storage.storeData data), writeResult d data)

def writeStagedObject (d : Digests) (storage : InMemoryStorage) (bucket key versionId : String)
    (upload : StagedUpload) : InMemoryStorage × WriteResult :=
  (storage.insertObject bucket key versionId (.staged upload), writeResult d upload.data)

def writePart (d : Digests) (storage : InMemoryStorage) (bucket uploadId : String)
    (partNumber : ℕ) (data : Bytes) : InMemoryStorage × WriteResult :=
  (storage.insertPart bucket uploadId partNumber (storage.storeData data), writeResult d data)

def writeStagedPart (d : Digests) (storage : InMemoryStorage) (bucket uploadId : String)
    (partNumber : ℕ) (upload : StagedUpload) : InMemoryStorage × WriteResult :=
  (storage.insertPart bucket uploadId partNumber (.staged upload), writeResult d upload.data)

def stagedObject (storage : InMemoryStorage) (bucket key versionId : String) :
    Option StagedUpload :=
  match storage.objects.lookup (bucket, key, versionId) with
  | some (.staged upload) => some upload
  | _ => none

/-- Read a whole object. -/
def readObject (storage : InMemoryStorage) (bucket key versionId : String) :
    Except S3ServiceError Bytes :=
  match storage.objects.lookup (bucket, key, versionId) with
  | none => .error (.noSuchKey key)
  | some stored => stored.readAll

def copyObject (d : Digests) (storage : InMemoryStorage)
    (srcBucket srcKey srcVersionId dstBucket dstKey dstVersionId : String) :
    Except S3ServiceError (InMemoryStorage × WriteResult) :=
  match storage.stagedObject srcBucket srcKey srcVersionId with
  | some upload => .ok (storage.writeStagedObject d dstBucket dstKey dstVersionId upload)
  | none => do
    let data ← storage.readObject srcBucket srcKey srcVersionId
    return storage.writeObject d dstBucket dstKey dstVersionId data

def deleteObject (storage : InMemoryStorage) (bucket key versionId : String) : InMemoryStorage :=
  { storage with objects := storage.objects.erase (bucket, key, versionId) }

/-- Append the parts to what is assembled, and collect their digests. -/
def appendParts (d : Digests) (storage : InMemoryStorage) (bucket uploadId : String) :
    Bytes → List String → List ℕ → Except S3ServiceError (Bytes × List String)
  | written, partMd5Hexes, [] => .ok (written, partMd5Hexes)
  | written, partMd5Hexes, partNumber :: partNumbers =>
    match storage.parts.lookup (bucket, uploadId, partNumber) with
    | none => .error .invalidPart
    | some stored =>
      if s3ObjectBodyBytes < written.length + stored.data.length then
        .error (.internal "S3 object exceeds 5 GiB")
      else
        appendParts d storage bucket uploadId (written ++ stored.data)
          (partMd5Hexes ++ [computeMd5 d stored.data]) partNumbers

def abortMultipart (storage : InMemoryStorage) (bucket uploadId : String) : InMemoryStorage :=
  { storage with parts := storage.parts.retain fun k => !(k.1 == bucket && k.2.1 == uploadId) }

def completeMultipart (d : Digests) (storage : InMemoryStorage)
    (bucket uploadId key versionId : String) (partNumbers : List ℕ) :
    Except S3ServiceError (InMemoryStorage × WriteResult × List String) := do
  let (data, partMd5Hexes) ← storage.appendParts d bucket uploadId [] [] partNumbers
  let etag := computeMultipartEtag d partMd5Hexes partNumbers.length
  let stored := storage.insertObject bucket key versionId (.staged ⟨data⟩)
  let md5Hex := String.ofList ((trimQuotes etag).takeWhile (· ≠ '-'))
  return (stored.abortMultipart bucket uploadId, { etag, size := data.length, md5Hex },
    partMd5Hexes)

def deleteBucketData (storage : InMemoryStorage) (bucket : String) : InMemoryStorage :=
  { storage with
    objects := storage.objects.retain fun k => k.1 != bucket
    parts := storage.parts.retain fun k => k.1 != bucket }

end InMemoryStorage

end Rustack.S3
