import Rustack.S3.Listing

/-!
# Listing the versions of a bucket

`ListObjectVersions` walks over the keys in order and over the versions of each,
the newest first.  It goes on behind a pair of a key and a version id.  To stop
at the first key behind the prefix it takes the last byte off the prefix, which
panics where that byte is not a character of its own.
-/

namespace Rustack.S3

structure VersionListEntry where
  version : ObjectVersion
  isLatest : Bool
  deriving DecidableEq

structure VersionListResult where
  versions : List VersionListEntry
  commonPrefixes : List String
  isTruncated : Bool
  nextKeyMarker : Option String
  nextVersionIdMarker : Option String

def KeyStore.listObjectVersions (ks : KeyStore) (pre delimiter keyMarker : String)
    (maxKeys : ℕ) : VersionListResult :=
  let list := (ObjectStore.unversioned ks).listObjects pre delimiter keyMarker maxKeys
  { versions := list.objects.map fun obj => { version := .object obj, isLatest := true }
    commonPrefixes := list.commonPrefixes
    isTruncated := list.isTruncated
    nextKeyMarker := list.nextMarker
    nextVersionIdMarker := none }

structure VersionScan where
  resultVersions : List VersionListEntry
  commonPrefixes : List String
  count : ℕ
  isTruncated : Bool
  lastKey : Option String
  lastVersionId : Option String

/-- The inner loop: the versions of a key from place `idx` on. -/
def versionLoop (maxKeys : ℕ) (versionIdMarker key : String) (skipVersions : Bool) (idx : ℕ)
    (scan : VersionScan) : List ObjectVersion → VersionScan
  | [] => scan
  | version :: versions =>
    if skipVersions then
      versionLoop maxKeys versionIdMarker key (version.versionId != versionIdMarker) (idx + 1) scan
        versions
    else if maxKeys ≤ scan.count then { scan with isTruncated := true }
    else
      versionLoop maxKeys versionIdMarker key false (idx + 1)
        { scan with
          resultVersions := scan.resultVersions ++ [{ version, isLatest := idx == 0 }]
          lastKey := some key
          lastVersionId := some version.versionId
          count := scan.count + 1 }
        versions

/-- The prefix less its last byte, but not less than one byte; `none` is the panic. -/
def shortenedPrefix (pre : String) : Option (List Char) :=
  Text.sliceTo pre.toList (max (Text.byteLength pre.toList - 1) 1)

/-- The outer loop, which a truncated page leaves. -/
def keyLoop (pre delimiter keyMarker versionIdMarker : String) (maxKeys : ℕ)
    (scan : VersionScan) : List (String × List ObjectVersion) → Option VersionScan
  | [] => some scan
  | (key, versions) :: entries =>
    if keyMarker ≠ "" ∧ key < keyMarker then
      keyLoop pre delimiter keyMarker versionIdMarker maxKeys scan entries
    else if pre ≠ "" ∧ Text.startsWith key pre = false then
      if pre < key then
        match shortenedPrefix pre with
        | none => none
        | some shortened =>
          if shortened.isPrefixOf key.toList then
            keyLoop pre delimiter keyMarker versionIdMarker maxKeys scan entries
          else some scan
      else keyLoop pre delimiter keyMarker versionIdMarker maxKeys scan entries
    else
      match commonPrefixOf pre delimiter key with
      | some cp =>
        let commonPrefixes :=
          if cp ∈ scan.commonPrefixes then scan.commonPrefixes else scan.commonPrefixes ++ [cp]
        keyLoop pre delimiter keyMarker versionIdMarker maxKeys { scan with commonPrefixes } entries
      | none =>
        let skipVersions := key == keyMarker && versionIdMarker != ""
        let scan' := versionLoop maxKeys versionIdMarker key skipVersions 0 scan versions
        if scan'.isTruncated then some scan'
        else keyLoop pre delimiter keyMarker versionIdMarker maxKeys scan' entries

def VersionedKeyStore.listObjectVersions (vs : VersionedKeyStore)
    (pre delimiter keyMarker versionIdMarker : String) (maxKeys : ℕ) : Option VersionListResult :=
  let entries :=
    if keyMarker = "" then vs.objects.entries
    else vs.objects.entries.filter fun e => (Bound.included keyMarker).admitsAbove compare e.1
  (keyLoop pre delimiter keyMarker versionIdMarker maxKeys
    { resultVersions := [], commonPrefixes := [], count := 0, isTruncated := false,
      lastKey := none, lastVersionId := none } entries).map fun scan =>
    { versions := scan.resultVersions
      commonPrefixes := scan.commonPrefixes
      isTruncated := scan.isTruncated
      nextKeyMarker := if scan.isTruncated then scan.lastKey else none
      nextVersionIdMarker := if scan.isTruncated then scan.lastVersionId else none }

def ObjectStore.listObjectVersions (store : ObjectStore)
    (pre delimiter keyMarker versionIdMarker : String) (maxKeys : ℕ) : Option VersionListResult :=
  match store with
  | .unversioned ks => some (ks.listObjectVersions pre delimiter keyMarker maxKeys)
  | .versioned vs => vs.listObjectVersions pre delimiter keyMarker versionIdMarker maxKeys

/-! ## The call -/

inductive ObjectVersionStorageClass where
  | standard
  deriving DecidableEq

namespace Model

/-- A version as a listing shows it; the fields that are always empty are left out. -/
structure ObjectVersion where
  eTag : Option String
  isLatest : Option Bool
  key : Option String
  lastModified : Option DateTime
  owner : Option Owner
  size : Option ℤ
  storageClass : Option ObjectVersionStorageClass
  versionId : Option String
  deriving DecidableEq

structure DeleteMarkerEntry where
  isLatest : Option Bool
  key : Option String
  lastModified : Option DateTime
  owner : Option Owner
  versionId : Option String
  deriving DecidableEq

end Model

def toModelVersion (entry : VersionListEntry) : Option Model.ObjectVersion :=
  match entry.version with
  | .object obj => some
    { eTag := some obj.etag
      isLatest := some entry.isLatest
      key := some obj.key
      lastModified := some obj.lastModified
      owner := some (toModelOwner obj.owner)
      size := some (asI64 obj.size)
      storageClass := some .standard
      versionId := some obj.versionId }
  | .deleteMarker _ => none

def toDeleteMarkerEntry (entry : VersionListEntry) : Option Model.DeleteMarkerEntry :=
  match entry.version with
  | .object _ => none
  | .deleteMarker dm => some
    { isLatest := some entry.isLatest
      key := some dm.key
      lastModified := some dm.lastModified
      owner := some (toModelOwner dm.owner)
      versionId := some dm.versionId }

def partitionVersionListEntries (entries : List VersionListEntry) :
    List Model.ObjectVersion × List Model.DeleteMarkerEntry :=
  (entries.filterMap toModelVersion, entries.filterMap toDeleteMarkerEntry)

structure ListObjectVersionsInput where
  bucket : String
  delimiter : Option String
  encodingType : Option String
  keyMarker : Option String
  maxKeys : Option ℤ
  keyPrefix : Option String
  versionIdMarker : Option String

structure ListObjectVersionsOutput where
  commonPrefixes : List String
  deleteMarkers : List Model.DeleteMarkerEntry
  delimiter : Option String
  encodingType : Option String
  isTruncated : Option Bool
  keyMarker : Option String
  maxKeys : Option ℤ
  name : Option String
  nextKeyMarker : Option String
  nextVersionIdMarker : Option String
  keyPrefix : Option String
  versionIdMarker : Option String
  versions : List Model.ObjectVersion

def versionListOutput (input : ListObjectVersionsInput) (maxKeys : ℤ)
    (result : VersionListResult) : ListObjectVersionsOutput :=
  let parts := partitionVersionListEntries result.versions
  { commonPrefixes := result.commonPrefixes
    deleteMarkers := parts.2
    delimiter := input.delimiter
    encodingType := input.encodingType
    isTruncated := some result.isTruncated
    keyMarker := input.keyMarker
    maxKeys := some maxKeys
    name := some input.bucket
    nextKeyMarker := result.nextKeyMarker
    nextVersionIdMarker := result.nextVersionIdMarker
    keyPrefix := input.keyPrefix
    versionIdMarker := input.versionIdMarker
    versions := parts.1 }

def handleListObjectVersions (state : S3ServiceState) (input : ListObjectVersionsInput) :
    Outcome S3Error ListObjectVersionsOutput := do
  if input.versionIdMarker.isSome && input.keyMarker.isNone then
    throw (.invalidArgument "A version-id marker cannot be specified without a key marker")
  let bucket ← Outcome.ofExcept ((state.getBucket input.bucket).mapError S3ServiceError.intoS3Error)
  let maxKeys ← Outcome.ofExcept (validateMaxKeys input.maxKeys)
  match bucket.objects.listObjectVersions (input.keyPrefix.getD "") (input.delimiter.getD "")
      (input.keyMarker.getD "") (input.versionIdMarker.getD "") maxKeys.toNat with
  | none => .panic
  | some result => .ok (versionListOutput input maxKeys result)

end Rustack.S3
