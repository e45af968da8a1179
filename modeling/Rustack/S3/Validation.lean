import Rustack.Lib.Text
import Rustack.S3.Object
import Rustack.S3.Storage

/-!
# Checking requests

The checks made of names, keys, tags, metadata and digests, and the reading of
the headers that carry tags and the source of a copy.  Percent decoding is done
elsewhere and stands here as a function.
-/

namespace Rustack.S3

def isAsciiLowercaseOrDigit (c : Char) : Bool :=
  ('a' ≤ c && c ≤ 'z') || ('0' ≤ c && c ≤ '9')

/-- A decimal number below 256 without a leading zero. -/
def isIpv4Octet (digits : List Char) : Bool :=
  digits != [] && digits.length ≤ 3 && digits.all Char.isDigit &&
    (digits.length == 1 || digits.head? != some '0') &&
    digits.foldl (fun n c => 10 * n + (c.toNat - '0'.toNat)) 0 ≤ 255

def isIpv4Address (name : List Char) : Bool :=
  (name.splitOn '.').length == 4 && (name.splitOn '.').all isIpv4Octet

def validateBucketName (name : String) : Except S3ServiceError Unit :=
  let chars := name.toList
  let len := Text.byteLength chars
  let invalid (reason : String) : Except S3ServiceError Unit :=
    .error (.invalidBucketName name reason)
  if len < 3 ∨ 63 < len then
    invalid "Bucket name must be between 3 and 63 characters long"
  else if ¬chars.all fun c => isAsciiLowercaseOrDigit c || c == '-' || c == '.' then
    invalid "Bucket name must only contain lowercase letters, numbers, hyphens, and dots"
  else if ¬(chars.head?.any isAsciiLowercaseOrDigit && chars.getLast?.any isAsciiLowercaseOrDigit)
  then
    invalid "Bucket name must start and end with a letter or number"
  else if "..".toList <:+: chars then
    invalid "Bucket name must not contain consecutive dots"
  else if isIpv4Address chars then
    invalid "Bucket name must not be formatted as an IP address"
  else if "xn--".toList <+: chars then
    invalid "Bucket name must not start with 'xn--'"
  else if "-s3alias".toList <:+ chars then
    invalid "Bucket name must not end with '-s3alias'"
  else if "sthree-".toList <+: chars then
    invalid "Bucket name must not start with 'sthree-'"
  else .ok ()

def maxKeyBytes : ℕ := 1024

def validateObjectKey (key : String) : Except S3ServiceError Unit :=
  if key = "" then .error (.invalidArgument "Object key must not be empty")
  else if maxKeyBytes < Text.byteLength key.toList then .error .keyTooLong
  else .ok ()

def maxTagKeyLen : ℕ := 128

def maxTagValueLen : ℕ := 256

def maxTags : ℕ := 10

def validateTagKey (key : String) : Except S3ServiceError Unit :=
  if key = "" then .error (.invalidTag "Tag key must not be empty")
  else if maxTagKeyLen < key.toList.length then
    .error (.invalidTag ("Tag key must not exceed " ++ toString maxTagKeyLen ++
      " characters, got " ++ toString key.toList.length))
  else .ok ()

def validateTagValue (value : String) : Except S3ServiceError Unit :=
  if maxTagValueLen < value.toList.length then
    .error (.invalidTag ("Tag value must not exceed " ++ toString maxTagValueLen ++
      " characters, got " ++ toString value.toList.length))
  else .ok ()

def validateTags (tags : List (String × String)) : Except S3ServiceError Unit := do
  if maxTags < tags.length then
    throw (.invalidTag ("Object tags cannot be greater than " ++ toString maxTags ++ ", got " ++
      toString tags.length))
  tags.forM fun tag => do
    validateTagKey tag.1
    validateTagValue tag.2

def maxMetadataSize : ℕ := 2048

def validateMetadata (metadata : List (String × String)) : Except S3ServiceError Unit :=
  let totalSize := (metadata.map fun e =>
    Text.byteLength e.1.toList + Text.byteLength e.2.toList).sum
  if maxMetadataSize < totalSize then
    .error (.invalidArgument ("User-defined metadata must not exceed " ++
      toString maxMetadataSize ++ " bytes, got " ++ toString totalSize))
  else .ok ()

def validateContentMd5 (d : Digests) (contentMd5 : Option String) (body : Bytes) :
    Except S3ServiceError Unit :=
  match contentMd5 with
  | none => .ok ()
  | some expectedB64 =>
    match Base64.decode expectedB64.toList with
    | none => .error .invalidDigest
    | some expected => if d.md5 body ≠ expected then .error .badDigest else .ok ()

/-- The same check of a staged upload, which calls a header it cannot read a bad digest. -/
def StagedUpload.validateMd5 (d : Digests) (upload : StagedUpload) (declared : Option String) :
    Except S3ServiceError Unit :=
  match declared with
  | none => .ok ()
  | some declared =>
    match Base64.decode declared.toList with
    | none => .error .badDigest
    | some bytes =>
      if hexEncode bytes ≠ computeMd5 d upload.data then .error .badDigest else .ok ()

/-! ## Headers -/

/-- What comes before and behind the first of a character. -/
def splitOnce (c : Char) (chars : List Char) : Option (List Char × List Char) :=
  if c ∈ chars then some (chars.takeWhile (· ≠ c), (chars.dropWhile (· ≠ c)).tail) else none

/-- What is behind the text a parameter starts with. -/
def stripStart (start chars : List Char) : Option (List Char) :=
  if start.isPrefixOf chars then some (chars.drop start.length) else none

def parseTaggingHeader (percentDecode : String → Option String) (tagging : String) :
    List (String × String) :=
  ((tagging.toList.splitOn '&').filter (· ≠ [])).filterMap fun pair => do
    let (k, v) := (splitOnce '=' pair).getD (pair, [])
    let key ← percentDecode (String.ofList k)
    let value ← percentDecode (String.ofList v)
    return (key, value)

def parseCopySource (percentDecode : String → Option String) (source : String) :
    Except S3ServiceError (String × String × Option String) :=
  let chars := (stripStart ['/'] source.toList).getD source.toList
  let (path, versionId) :=
    match splitOnce '?' chars with
    | some (path, query) =>
      (path, ((query.splitOn '&').findSome? (stripStart "versionId=".toList)).map String.ofList)
    | none => (chars, none)
  match splitOnce '/' path with
  | none => .error (.invalidArgument "Invalid copy source: must be in the format bucket/key")
  | some (bucket, key) =>
    if bucket = [] ∨ key = [] then
      .error (.invalidArgument "Invalid copy source: bucket and key must not be empty")
    else
      match percentDecode (String.ofList key) with
      | none => .error (.invalidArgument "Invalid copy source: key contains invalid UTF-8")
      | some decodedKey => .ok (String.ofList bucket, decodedKey, versionId)

/-! ## Checksums of requests -/

/-- The checksums a request may carry, of which it may carry one. -/
structure ChecksumHeaders where
  checksumCrc32 : Option String
  checksumCrc32c : Option String
  checksumCrc64nvme : Option String
  checksumSha1 : Option String
  checksumSha256 : Option String
  deriving DecidableEq

def ChecksumHeaders.none : ChecksumHeaders := ⟨.none, .none, .none, .none, .none⟩

def extractChecksum (headers : ChecksumHeaders) : Except S3ServiceError (Option ChecksumData) :=
  let candidates := [("CRC32", headers.checksumCrc32), ("CRC32C", headers.checksumCrc32c),
    ("CRC64NVME", headers.checksumCrc64nvme), ("SHA1", headers.checksumSha1),
    ("SHA256", headers.checksumSha256)]
  let found := candidates.filterMap fun c => c.2.map fun value =>
    { algorithm := c.1, value, checksumType := "FULL_OBJECT" : ChecksumData }
  if 1 < found.length then
    .error (.invalidArgument "Only one checksum value can be provided per request")
  else .ok found.head?

/-- A checksum as the fields of a response. -/
def checksumToFields (checksum : ChecksumData) : ChecksumHeaders :=
  match checksum.algorithm with
  | "CRC32" => { ChecksumHeaders.none with checksumCrc32 := some checksum.value }
  | "CRC32C" => { ChecksumHeaders.none with checksumCrc32c := some checksum.value }
  | "CRC64NVME" => { ChecksumHeaders.none with checksumCrc64nvme := some checksum.value }
  | "SHA1" => { ChecksumHeaders.none with checksumSha1 := some checksum.value }
  | "SHA256" => { ChecksumHeaders.none with checksumSha256 := some checksum.value }
  | _ => ChecksumHeaders.none

end Rustack.S3
