import Rustack.Lib.Base64
import Rustack.Lib.GroupedPages
import Rustack.Lib.Outcome
import Rustack.Lib.Text
import Rustack.S3.Bucket

/-!
# Listing the objects of a bucket

`ListObjects` walks over the current objects in key order, groups those with a
delimiter behind the prefix, and ends a page in front of the object that no
longer fits.  Neither version of the call counts the groups, and the marker is
the key of the last object shown.
-/

namespace Rustack.S3

structure ListResult where
  objects : List S3Object
  commonPrefixes : List String
  isTruncated : Bool
  nextMarker : Option String

/-- The common prefix a key is grouped under: up to the first delimiter behind the prefix. -/
def commonPrefixOf (pre delimiter key : String) : Option String :=
  if delimiter = "" then none
  else (Text.beforeFirst delimiter.toList (key.toList.drop pre.toList.length)).map fun before =>
    pre ++ String.ofList before ++ delimiter

structure ListScan where
  resultObjects : List S3Object
  commonPrefixes : List String
  count : ℕ
  isTruncated : Bool

/-- The loop of `list_from_btree`.  The set of prefixes seen holds what the list of them holds. -/
def listLoop (pre delimiter startAfter : String) (maxKeys : ℕ) (scan : ListScan) :
    List S3Object → ListScan
  | [] => scan
  | obj :: objects =>
    if startAfter ≠ "" ∧ ¬startAfter < obj.key then
      listLoop pre delimiter startAfter maxKeys scan objects
    else if pre ≠ "" ∧ Text.startsWith obj.key pre = false then
      listLoop pre delimiter startAfter maxKeys scan objects
    else
      match commonPrefixOf pre delimiter obj.key with
      | some cp =>
        let commonPrefixes :=
          if cp ∈ scan.commonPrefixes then scan.commonPrefixes else scan.commonPrefixes ++ [cp]
        listLoop pre delimiter startAfter maxKeys { scan with commonPrefixes } objects
      | none =>
        if maxKeys ≤ scan.count then { scan with isTruncated := true }
        else
          listLoop pre delimiter startAfter maxKeys
            { scan with resultObjects := scan.resultObjects ++ [obj], count := scan.count + 1 }
            objects

def listFromBtree (objects : List S3Object) (pre delimiter startAfter : String) (maxKeys : ℕ) :
    ListResult :=
  let scan := listLoop pre delimiter startAfter maxKeys
    { resultObjects := [], commonPrefixes := [], count := 0, isTruncated := false } objects
  { objects := scan.resultObjects
    commonPrefixes := scan.commonPrefixes
    isTruncated := scan.isTruncated
    nextMarker := if scan.isTruncated then scan.resultObjects.getLast?.map S3Object.key else none }

/-- The objects a store shows: the latest version of each key that is not a delete marker. -/
def ObjectStore.currentObjects : ObjectStore → List S3Object
  | .unversioned ks => ks.objects.entries.map Prod.snd
  | .versioned vs => vs.objects.entries.filterMap fun e => e.2.head?.bind ObjectVersion.asObject

def ObjectStore.listObjects (store : ObjectStore) (pre delimiter startAfter : String)
    (maxKeys : ℕ) : ListResult :=
  listFromBtree store.currentObjects pre delimiter startAfter maxKeys

/-! ## The two calls -/

def defaultMaxKeys : ℤ := 1000

def validateMaxKeys (maxKeys : Option ℤ) : Except S3Error ℤ :=
  let value := maxKeys.getD defaultMaxKeys
  if value < 0 then
    .error (S3ServiceError.intoS3Error (.invalidArgument
      ("Argument max-keys must be an integer between 0 and " ++ toString defaultMaxKeys)))
  else .ok value

inductive ObjectStorageClass where
  | deepArchive | expressOnezone | fsxOntap | fsxOpenzfs | glacier | glacierIr
  | intelligentTiering | onezoneIa | outposts | reducedRedundancy | snow | standard | standardIa
  deriving DecidableEq

/-- A name that is not known is taken for the first of the list. -/
def ObjectStorageClass.fromStr : String → ObjectStorageClass
  | "DEEP_ARCHIVE" => deepArchive
  | "EXPRESS_ONEZONE" => expressOnezone
  | "FSX_ONTAP" => fsxOntap
  | "FSX_OPENZFS" => fsxOpenzfs
  | "GLACIER" => glacier
  | "GLACIER_IR" => glacierIr
  | "INTELLIGENT_TIERING" => intelligentTiering
  | "ONEZONE_IA" => onezoneIa
  | "OUTPOSTS" => outposts
  | "REDUCED_REDUNDANCY" => reducedRedundancy
  | "SNOW" => snow
  | "STANDARD" => standard
  | "STANDARD_IA" => standardIa
  | _ => deepArchive

/-- A `u64` read as an `i64`. -/
def asI64 (n : ℕ) : ℤ := Int.bmod n (2 ^ 64)

namespace Model

structure Owner where
  displayName : Option String
  id : Option String
  deriving DecidableEq

/-- An object as a listing shows it; the fields that are always empty are left out. -/
structure Object where
  eTag : Option String
  key : Option String
  lastModified : Option DateTime
  owner : Option Owner
  size : Option ℤ
  storageClass : Option ObjectStorageClass
  deriving DecidableEq

end Model

def toModelOwner (owner : Owner) : Model.Owner where
  displayName := some owner.displayName
  id := some owner.id

def toModelObject (obj : S3Object) : Model.Object where
  eTag := some obj.etag
  key := some obj.key
  lastModified := some obj.lastModified
  owner := some (toModelOwner obj.owner)
  size := some (asI64 obj.size)
  storageClass := some (.fromStr obj.storageClass)

structure ListObjectsInput where
  bucket : String
  delimiter : Option String
  encodingType : Option String
  marker : Option String
  maxKeys : Option ℤ
  keyPrefix : Option String

structure ListObjectsOutput where
  commonPrefixes : List String
  contents : List Model.Object
  delimiter : Option String
  encodingType : Option String
  isTruncated : Option Bool
  marker : Option String
  maxKeys : Option ℤ
  name : Option String
  nextMarker : Option String
  keyPrefix : Option String

def handleListObjects (state : S3ServiceState) (input : ListObjectsInput) :
    Except S3Error ListObjectsOutput := do
  let bucket ← (state.getBucket input.bucket).mapError S3ServiceError.intoS3Error
  let pre := input.keyPrefix.getD ""
  let delimiter := input.delimiter.getD ""
  let marker := input.marker.getD ""
  let maxKeys ← validateMaxKeys input.maxKeys
  let result := bucket.objects.listObjects pre delimiter marker maxKeys.toNat
  return {
    commonPrefixes := result.commonPrefixes
    contents := result.objects.map toModelObject
    delimiter := input.delimiter
    encodingType := input.encodingType
    isTruncated := some result.isTruncated
    marker := input.marker
    maxKeys := some maxKeys
    name := some input.bucket
    nextMarker := if result.isTruncated then result.nextMarker else none
    keyPrefix := input.keyPrefix }

def encodeContinuationToken (key : String) : String :=
  String.ofList (Base64.encode key.toUTF8.data.toList)

def decodeContinuationToken (token : String) : Except S3ServiceError String :=
  match Base64.decode token.toList with
  | none => .error (.invalidArgument "Invalid continuation token")
  | some bytes =>
    match String.fromUTF8? ⟨bytes.toArray⟩ with
    | none => .error (.invalidArgument "Continuation token contains invalid UTF-8")
    | some key => .ok key

structure ListObjectsV2Input where
  bucket : String
  continuationToken : Option String
  delimiter : Option String
  encodingType : Option String
  fetchOwner : Option Bool
  maxKeys : Option ℤ
  keyPrefix : Option String
  startAfter : Option String

structure ListObjectsV2Output where
  commonPrefixes : List String
  contents : List Model.Object
  continuationToken : Option String
  delimiter : Option String
  encodingType : Option String
  isTruncated : Option Bool
  keyCount : Option ℤ
  maxKeys : Option ℤ
  name : Option String
  nextContinuationToken : Option String
  keyPrefix : Option String
  startAfter : Option String

/-- The listing shows no owner unless it is asked for. -/
def toModelObjectV2 (fetchOwner : Bool) (obj : S3Object) : Model.Object :=
  if fetchOwner then toModelObject obj else { toModelObject obj with owner := none }

def decodeOptionalToken : Option String → Except S3ServiceError (Option String)
  | none => .ok none
  | some token => (decodeContinuationToken token).map some

def handleListObjectsV2 (state : S3ServiceState) (input : ListObjectsV2Input) :
    Except S3Error ListObjectsV2Output := do
  let bucket ← (state.getBucket input.bucket).mapError S3ServiceError.intoS3Error
  let pre := input.keyPrefix.getD ""
  let delimiter := input.delimiter.getD ""
  let maxKeys ← validateMaxKeys input.maxKeys
  let fetchOwner := input.fetchOwner.getD false
  let decodedToken ←
    (decodeOptionalToken input.continuationToken).mapError S3ServiceError.intoS3Error
  let startAfter := (decodedToken.or input.startAfter).getD ""
  let result := bucket.objects.listObjects pre delimiter startAfter maxKeys.toNat
  let contents := result.objects.map (toModelObjectV2 fetchOwner)
  return {
    commonPrefixes := result.commonPrefixes
    contents
    continuationToken := input.continuationToken
    delimiter := input.delimiter
    encodingType := input.encodingType
    isTruncated := some result.isTruncated
    keyCount := some contents.length
    maxKeys := some maxKeys
    name := some input.bucket
    nextContinuationToken :=
      if result.isTruncated then result.nextMarker.map encodeContinuationToken else none
    keyPrefix := input.keyPrefix
    startAfter := input.startAfter }

end Rustack.S3
