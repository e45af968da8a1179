import Mathlib.Data.Finset.Card
import Rustack.Lib.SortedMap
import Rustack.SSM.Validation

/-!
# The parameter store

A parameter keeps its versions by number, in order, with the labels of each version.  The
handlers of the provider check a request and then call the store.  A hash set of labels is a
finite set; version numbers are natural numbers, of which no run gets near the 64-bit limit.
-/

namespace Rustack.SSM

/-- A snapshot of a single parameter version. -/
structure ParameterVersion where
  version : ℕ
  value : String
  description : Option String
  allowedPattern : Option String
  dataType : String
  tier : ParameterTier
  labels : Finset String
  policies : List String
  lastModifiedDate : ℤ
  lastModifiedUser : String
  deriving DecidableEq

abbrev Versions := SortedMap ℕ ParameterVersion compare

/-- A parameter with all its versions. -/
structure ParameterRecord where
  name : String
  currentVersion : ℕ
  versions : Versions
  tags : SortedMap String String compare
  parameterType : ParameterType
  keyId : Option String

abbrev ParameterStore := SortedMap String ParameterRecord compare

/-- Determine the effective tier based on intelligent tiering. -/
def effectiveTier (requested : ParameterTier) (value : String) : ParameterTier :=
  match requested with
  | .intelligentTiering => if value.utf8ByteSize > 4096 then .advanced else .standard
  | tier => tier

/-- What a put brings to the store. -/
structure NewParameter where
  name : String
  value : String
  parameterType : ParameterType
  description : Option String
  keyId : Option String
  overwrite : Bool
  allowedPattern : Option String
  tags : List Tag
  tier : ParameterTier
  dataType : String
  policies : List String
  deriving DecidableEq

namespace NewParameter

def snapshot (put : NewParameter) (accountId : String) (now : ℤ) (version : ℕ) :
    ParameterVersion where
  version
  value := put.value
  description := put.description
  allowedPattern := put.allowedPattern
  dataType := put.dataType
  tier := effectiveTier put.tier put.value
  labels := ∅
  policies := put.policies
  lastModifiedDate := now
  lastModifiedUser := "arn:aws:iam::" ++ accountId ++ ":root"

/-- The record of a parameter that is put for the first time. -/
def newRecord (put : NewParameter) (accountId : String) (now : ℤ) : ParameterRecord where
  name := put.name
  currentVersion := 1
  versions := SortedMap.empty.insert 1 (put.snapshot accountId now 1)
  tags := put.tags.foldl (fun tags tag => tags.insert tag.key tag.value) SortedMap.empty
  parameterType := put.parameterType
  keyId := put.keyId

end NewParameter

namespace ParameterRecord

/-- The oldest version that has no labels. -/
def oldestUnlabeled (r : ParameterRecord) : Option ℕ :=
  (r.versions.entries.find? fun e => decide (e.2.labels = ∅)).map Prod.fst

/-- The versions, with room for one more; `none` when all of too many have labels. -/
def makeRoom (r : ParameterRecord) : Option Versions :=
  if r.versions.entries.length ≥ MAX_VERSIONS then r.oldestUnlabeled.map r.versions.erase
  else some r.versions

def maxVersionsReached (name : String) : SsmError :=
  ⟨.parameterMaxVersionLimitExceeded,
    "Parameter " ++ name ++ " has reached the maximum number of 100 versions."⟩

def typeMismatch (put existing : ParameterType) : SsmError :=
  ⟨.hierarchyTypeMismatch, "The parameter type '" ++ put.asStr
    ++ "' does not match the existing type '" ++ existing.asStr ++ "'."⟩

/-- A new version of a parameter that exists. -/
def overwrite (r : ParameterRecord) (put : NewParameter) (accountId : String) (now : ℤ) :
    Except SsmError ParameterRecord :=
  if put.overwrite = false then .error (.parameterAlreadyExists put.name)
  else if r.parameterType ≠ put.parameterType then
    .error (typeMismatch put.parameterType r.parameterType)
  else
    match r.makeRoom with
    | none => .error (maxVersionsReached put.name)
    | some versions =>
      let newVersion := r.currentVersion + 1
      .ok { r with
        currentVersion := newVersion
        keyId := put.keyId.or r.keyId
        versions := versions.insert newVersion (put.snapshot accountId now newVersion) }

/-- Resolve a specific version from a record given an optional selector. -/
def resolveVersion (r : ParameterRecord) (selector : Option ParameterSelector) :
    Except SsmError ParameterVersion :=
  match selector with
  | none =>
    match r.versions.get? r.currentVersion with
    | some v => .ok v
    | none => .error (.parameterNotFound r.name)
  | some (.version number) =>
    match r.versions.get? number with
    | some v => .ok v
    | none => .error ⟨.parameterVersionNotFound,
      "Version " ++ toString number ++ " not found for parameter " ++ r.name⟩
  | some (.label label) =>
    match (r.versions.entries.map Prod.snd).find? fun v => label ∈ v.labels with
    | some v => .ok v
    | none => .error ⟨.parameterVersionNotFound,
      "Label '" ++ label ++ "' not found for parameter " ++ r.name⟩

def versionNotFound (name : String) (version : ℕ) : SsmError :=
  ⟨.parameterVersionNotFound, "Systems Manager could not find version " ++ toString version
    ++ " of " ++ name ++ ". Verify the version and try again."⟩

def labelLimitExceeded : SsmError :=
  ⟨.parameterVersionLabelLimitExceeded, "A parameter version can have a maximum of 10 labels. "
    ++ "Move one or more labels to a different version and try again."⟩

/-- Take labels off every version but one. -/
def detachLabels (versions : Versions) (target : ℕ) (labels : List String) : Versions :=
  versions.mapValues fun _ v =>
    if v.version ≠ target then { v with labels := v.labels \ labels.toFinset } else v

/-- How many labels a request brings to a version; one that it repeats is counted as often as it
is there. -/
def newLabelCount (held : Finset String) (labels : List String) : ℕ :=
  (labels.filter isValidLabel).countP fun label => decide (label ∉ held)

/-- Attach the valid ones of the labels to a version; the invalid ones are returned. -/
def labelVersion (r : ParameterRecord) (name : String) (version : Option ℕ)
    (labels : List String) : Except SsmError (ParameterRecord × List String × ℕ) :=
  let targetVersion := version.getD r.currentVersion
  match r.versions.get? targetVersion with
  | none => .error (versionNotFound name targetVersion)
  | some target =>
    let validLabels := labels.filter isValidLabel
    let invalidLabels := labels.filter fun label => !isValidLabel label
    if target.labels.card + newLabelCount target.labels labels > MAX_LABELS_PER_VERSION then
      .error labelLimitExceeded
    else
      let versions := detachLabels r.versions targetVersion validLabels
      match versions.get? targetVersion with
      | none => .error (.parameterNotFound name)
      | some target =>
        let labeled := { target with labels := target.labels ∪ validLabels.toFinset }
        .ok ({ r with versions := versions.insert targetVersion labeled }, invalidLabels,
          targetVersion)

/-- Take labels off a version one by one: what is left, and which were not there and which were. -/
def removeLabels (held : Finset String) :
    List String → Finset String × List String × List String
  | [] => (held, [], [])
  | label :: labels =>
    let (rest, invalid, removed) := removeLabels (held.erase label) labels
    if label ∈ held then (rest, invalid, label :: removed) else (rest, label :: invalid, removed)

def unlabelVersion (r : ParameterRecord) (name : String) (version : ℕ) (labels : List String) :
    Except SsmError (ParameterRecord × List String × List String) :=
  match r.versions.get? version with
  | none => .error (versionNotFound name version)
  | some target =>
    let (rest, invalid, removed) := removeLabels target.labels labels
    .ok ({ r with versions := r.versions.insert version { target with labels := rest } },
      invalid, removed)

end ParameterRecord

/-! ## Requests -/

structure PutParameterInput where
  name : String
  value : String
  parameterType : Option String
  description : Option String
  keyId : Option String
  overwrite : Option Bool
  allowedPattern : Option String
  tags : List Tag
  tier : Option String
  dataType : Option String
  policies : Option String

/-- What the provider gets from outside: where it runs, and regular expressions. -/
structure Host where
  region : String
  accountId : String
  compile : Regex

namespace PutParameterInput

def checked (input : PutParameterInput) (host : Host) : Except SsmError NewParameter := do
  validateName input.name
  let parameterType ← (input.parameterType.map parseParameterType).getD (.ok .string)
  let tier ← (input.tier.map parseTier).getD (.ok .standard)
  validateValue input.value tier
  input.description.forM validateDescription
  validateTags input.tags
  -- an empty pattern is absent
  let allowedPattern := input.allowedPattern.filter fun pattern => !pattern.isEmpty
  allowedPattern.forM fun pattern => validateAllowedPattern host.compile pattern input.value
  return {
    name := input.name
    value := input.value
    parameterType
    description := input.description
    keyId := input.keyId
    overwrite := input.overwrite.getD false
    allowedPattern
    tags := input.tags
    tier
    dataType := input.dataType.getD "text"
    policies := (input.policies.filter fun policies => !policies.isEmpty).toList }

end PutParameterInput

/-- A signed version number as the unsigned one that the store is asked for. -/
def asU64 (version : ℤ) : ℕ :=
  (version % U64_RANGE).toNat

inductive Call where
  | putParameter (input : PutParameterInput)
  | getParameter (name : String)
  | getParameters (names : List String)
  | deleteParameter (name : String)
  | deleteParameters (names : List String)
  | addTagsToResource (resourceType resourceId : String) (tags : List Tag)
  | removeTagsFromResource (resourceType resourceId : String) (tagKeys : List String)
  | listTagsForResource (resourceType resourceId : String)
  | labelParameterVersion (name : String) (version : Option ℤ) (labels : List String)
  | unlabelParameterVersion (name : String) (version : ℤ) (labels : List String)

/-- A parameter as it is read. -/
structure Parameter where
  name : String
  parameterType : String
  value : String
  version : ℕ
  lastModifiedDate : ℤ
  arn : String
  dataType : String
  deriving DecidableEq

inductive Output where
  | put (version : ℕ) (tier : String)
  | parameter (parameter : Parameter)
  | parameters (found : List Parameter) (invalid : List String)
  | done
  | deleted (names invalid : List String)
  | tags (tags : List Tag)
  | labels (invalid : List String) (version : ℕ)
  | unlabeled (invalid removed : List String)
  deriving DecidableEq

abbrev Answer := Except SsmError Output

/-! ## Reads -/

def buildArn (name : String) (host : Host) : String :=
  let path := if name.toList.head? == some '/' then name else "/" ++ name
  "arn:aws:ssm:" ++ host.region ++ ":" ++ host.accountId ++ ":parameter" ++ path

def buildParameter (host : Host) (r : ParameterRecord) (v : ParameterVersion) : Parameter where
  name := r.name
  parameterType := r.parameterType.asStr
  value := v.value
  version := v.version
  lastModifiedDate := v.lastModifiedDate
  arn := buildArn r.name host
  dataType := v.dataType

def getParameter (host : Host) (store : ParameterStore) (parsed : ParsedName) :
    Except SsmError Parameter :=
  match store.get? parsed.name with
  | none => .error (.parameterNotFound parsed.name)
  | some r => (r.resolveVersion parsed.selector).map (buildParameter host r)

def handleGetParameter (host : Host) (store : ParameterStore) (name : String) :
    Except SsmError Parameter := do
  getParameter host store (← parseNameWithSelector name)

/-- Each name once, in the order of the request. -/
def getParameters (host : Host) (store : ParameterStore) (names : List String) :
    List Parameter × List String :=
  let names := names.foldl (fun seen name => if name ∈ seen then seen else seen ++ [name]) []
  (names.filterMap fun name => (handleGetParameter host store name).toOption,
    names.filter fun name => (handleGetParameter host store name).toOption.isNone)

/-! ## Tags -/

def resourceNotFound (name : String) : SsmError :=
  ⟨.invalidResourceId, "Parameter " ++ name ++ " not found."⟩

def RESOURCE_TYPE_PARAMETER : String := "Parameter"

def validateResourceType (resourceType : String) : Except SsmError Unit :=
  if resourceType ≠ RESOURCE_TYPE_PARAMETER then
    .error ⟨.invalidResourceType, "The resource type '" ++ resourceType
      ++ "' is not valid. Valid resource types: Parameter."⟩
  else .ok ()

def ParameterRecord.addTags (r : ParameterRecord) (tags : List Tag) :
    Except SsmError ParameterRecord :=
  let newKeyCount := tags.countP fun tag => (r.tags.get? tag.key).isNone
  if r.tags.entries.length + newKeyCount > MAX_TAGS then
    .error ⟨.tooManyTagsError, "Adding " ++ toString newKeyCount
      ++ " tag(s) would exceed the maximum of 50 tags."⟩
  else .ok { r with tags := tags.foldl (fun tags tag => tags.insert tag.key tag.value) r.tags }

def ParameterRecord.removeTags (r : ParameterRecord) (tagKeys : List String) : ParameterRecord :=
  { r with tags := tagKeys.foldl SortedMap.erase r.tags }

def ParameterRecord.listTags (r : ParameterRecord) : List Tag :=
  r.tags.entries.map fun e => ⟨e.1, e.2⟩

/-! ## Calls -/

/-- Work on one record in place; a failure leaves it alone. -/
def withRecord {α : Type} (store : ParameterStore) (name : String) (missing : SsmError)
    (edit : ParameterRecord → Except SsmError (ParameterRecord × α)) (answer : α → Output) :
    ParameterStore × Answer :=
  match store.get? name with
  | none => (store, .error missing)
  | some r =>
    match edit r with
    | .error e => (store, .error e)
    | .ok (r, a) => (store.insert name r, .ok (answer a))

def putParameter (host : Host) (store : ParameterStore) (now : ℤ) (put : NewParameter) :
    ParameterStore × Answer :=
  let answer (r : ParameterRecord) : Output :=
    .put r.currentVersion (effectiveTier put.tier put.value).asStr
  match store.get? put.name with
  | some r =>
    match r.overwrite put host.accountId now with
    | .error e => (store, .error e)
    | .ok r => (store.insert put.name r, .ok (answer r))
  | none =>
    let r := put.newRecord host.accountId now
    (store.insert put.name r, .ok (answer r))

def deleteParameter (store : ParameterStore) (name : String) : ParameterStore × Answer :=
  match store.get? name with
  | none => (store, .error (.parameterNotFound name))
  | some _ => (store.erase name, .ok .done)

/-- Delete names one by one: what is left, and which were deleted and which were not there. -/
def deleteParameters (store : ParameterStore) :
    List String → ParameterStore × List String × List String
  | [] => (store, [], [])
  | name :: names =>
    match store.get? name with
    | some _ =>
      let (rest, deleted, invalid) := deleteParameters (store.erase name) names
      (rest, name :: deleted, invalid)
    | none =>
      let (rest, deleted, invalid) := deleteParameters store names
      (rest, deleted, name :: invalid)

def batchTooLarge (operation : String) : SsmError :=
  .validation (operation ++ " request exceeds the maximum batch size of 10.")

/-- One call of the provider. -/
def handle (host : Host) (store : ParameterStore) (now : ℤ) : Call → ParameterStore × Answer
  | .putParameter input =>
    match input.checked host with
    | .error e => (store, .error e)
    | .ok put => putParameter host store now put
  | .getParameter name => (store, (handleGetParameter host store name).map .parameter)
  | .getParameters names =>
    if names.length > MAX_BATCH_SIZE then (store, .error (batchTooLarge "GetParameters"))
    else
      let (found, invalid) := getParameters host store names
      (store, .ok (.parameters found invalid))
  | .deleteParameter name => deleteParameter store name
  | .deleteParameters names =>
    if names.length > MAX_BATCH_SIZE then (store, .error (batchTooLarge "DeleteParameters"))
    else
      let (rest, deleted, invalid) := deleteParameters store names
      (rest, .ok (.deleted deleted invalid))
  | .addTagsToResource resourceType resourceId tags =>
    match (do validateResourceType resourceType; validateTags tags) with
    | .error e => (store, .error e)
    | .ok () => withRecord store resourceId (resourceNotFound resourceId)
      (fun r => (r.addTags tags).map fun r => (r, ())) fun _ => .done
  | .removeTagsFromResource resourceType resourceId tagKeys =>
    match validateResourceType resourceType with
    | .error e => (store, .error e)
    | .ok () => withRecord store resourceId (resourceNotFound resourceId)
      (fun r => .ok (r.removeTags tagKeys, ())) fun _ => .done
  | .listTagsForResource resourceType resourceId =>
    match validateResourceType resourceType with
    | .error e => (store, .error e)
    | .ok () =>
      match store.get? resourceId with
      | none => (store, .error (resourceNotFound resourceId))
      | some r => (store, .ok (.tags r.listTags))
  | .labelParameterVersion name version labels =>
    withRecord store name (.parameterNotFound name)
      (fun r => r.labelVersion name (version.map asU64) labels) fun a => .labels a.1 a.2
  | .unlabelParameterVersion name version labels =>
    withRecord store name (.parameterNotFound name)
      (fun r => r.unlabelVersion name (asU64 version) labels) fun a => .unlabeled a.1 a.2

end Rustack.SSM
