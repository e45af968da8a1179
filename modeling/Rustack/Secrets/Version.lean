import Rustack.Lib.SortedMap

/-!
# Secrets and their versions

A secret keeps its versions by id and, apart from them, the version that each staging label is
attached to.  Labels of a version are also kept with the version, as a cache that is built
again from the map of labels whenever that map changes.

Hash maps are listed by key; wherever the code walks one of them, the walk takes the order that
the moment of the call gives.
-/

namespace Rustack.Secrets

/-- The staging label for the current active version. -/
def AWSCURRENT : String := "AWSCURRENT"

/-- The staging label for the previous version. -/
def AWSPREVIOUS : String := "AWSPREVIOUS"

/-- The staging label for a version pending rotation. -/
def AWSPENDING : String := "AWSPENDING"

/-- Maximum number of versions to keep per secret. -/
def MAX_VERSIONS : ℕ := 100

/-- The error codes of the modelled operations. -/
inductive ErrorCode where
  | invalidParameterException
  | invalidRequestException
  | resourceExistsException
  | resourceNotFoundException
  deriving DecidableEq

structure SecretsManagerError where
  code : ErrorCode
  message : String
  deriving DecidableEq

/-- What a call finds outside the store: the clock, a fresh id, a fresh suffix for an ARN, and
the order in which hash maps are walked. -/
structure Moment where
  now : ℤ
  uuid : String
  suffix : String
  order : List String → List String
  order_perm : ∀ l, (order l).Perm l

def plainMoment (now : ℤ) (uuid : String) : Moment where
  now
  uuid
  suffix := "a1b2c3"
  order := id
  order_perm := fun _ => List.Perm.refl _

structure Tag where
  key : Option String
  value : Option String
  deriving DecidableEq

structure RotationRulesType where
  automaticallyAfterDays : Option ℤ
  duration : Option String
  scheduleExpression : Option String
  deriving DecidableEq

/-- A single version of a secret. -/
structure SecretVersion where
  versionId : String
  secretString : Option String
  secretBinary : Option (List UInt8)
  createdDate : ℤ
  versionStages : List String
  deriving DecidableEq

abbrev Versions := SortedMap String SecretVersion compare

abbrev StagingLabels := SortedMap String String compare

/-- A single secret with its version history and metadata. -/
structure SecretRecord where
  name : String
  arn : String
  description : Option String
  kmsKeyId : Option String
  tags : List Tag
  resourcePolicy : Option String
  versions : Versions
  stagingLabels : StagingLabels
  rotationEnabled : Bool
  rotationLambdaArn : Option String
  rotationRules : Option RotationRulesType
  lastRotatedDate : Option ℤ
  deletedDate : Option ℤ
  recoveryWindowInDays : Option ℤ
  createdDate : ℤ
  lastChangedDate : ℤ
  lastAccessedDate : Option ℤ
  owningService : Option String
  primaryRegion : Option String

namespace SecretRecord

/-- The labels mapped to a version, sorted. -/
def stagesOf (m : Moment) (labels : StagingLabels) (id : String) : List String :=
  ((m.order (labels.entries.map Prod.fst)).filter fun label =>
    labels.get? label == some id).mergeSort fun a b => decide (a ≤ b)

def rebuildVersionStages (r : SecretRecord) (m : Moment) : SecretRecord :=
  { r with versions := r.versions.mapValues fun id v =>
      { v with versionStages := stagesOf m r.stagingLabels id } }

def labeled (labels : StagingLabels) (id : String) : Bool :=
  labels.entries.any fun e => e.2 == id

/-- When a version was created; only asked for ids of versions that exist. -/
def created (versions : Versions) (id : String) : ℤ :=
  ((versions.get? id).map (·.createdDate)).getD 0

def cleanupDeprecatedVersions (r : SecretRecord) (m : Moment) : SecretRecord :=
  let total := r.versions.entries.length
  if total ≤ MAX_VERSIONS then r
  else
    let deprecated := (m.order (r.versions.entries.map Prod.fst)).filter fun id =>
      !labeled r.stagingLabels id
    let oldestFirst := deprecated.mergeSort fun a b =>
      decide (created r.versions a ≤ created r.versions b)
    let toRemove := total - MAX_VERSIONS
    { r with versions := (oldestFirst.take toRemove).foldl SortedMap.erase r.versions }

/-- Attach `AWSPREVIOUS` to the version that holds `AWSCURRENT`, if one does. -/
def demoteCurrent (labels : StagingLabels) : StagingLabels :=
  match labels.get? AWSCURRENT with
  | some oldCurrentId => labels.insert AWSPREVIOUS oldCurrentId
  | none => labels

/-- The version a label must be on, when the caller names one, holds it. -/
def notAttached : SecretsManagerError :=
  ⟨.invalidParameterException,
    "The staging label is not currently attached to the specified version."⟩

/-- Move a staging label from one version to another. -/
def moveStagingLabel (r : SecretRecord) (m : Moment) (label toVersionId : String)
    (fromVersionId : Option String) : Except SecretsManagerError SecretRecord :=
  if (r.versions.get? toVersionId).isNone then
    .error ⟨.resourceNotFoundException,
      "The version ID specified doesn't exist for this secret."⟩
  else if fromVersionId.isSome ∧ r.stagingLabels.get? label ≠ fromVersionId then
    .error notAttached
  else
    let labels := if label = AWSCURRENT then demoteCurrent r.stagingLabels else r.stagingLabels
    .ok (rebuildVersionStages { r with stagingLabels := labels.insert label toVersionId } m)

/-- The stages of a new version: `AWSCURRENT` when none are asked for. -/
def stagesOrCurrent (versionStages : List String) : List String :=
  if versionStages.isEmpty then [AWSCURRENT] else versionStages

/-- The labels after a new version has taken its stages. -/
def promote (labels : StagingLabels) (stages : List String) (versionId : String) :
    StagingLabels :=
  let labels := if AWSCURRENT ∈ stages then demoteCurrent labels else labels
  stages.foldl (fun labels stage => labels.insert stage versionId) labels

/-- The record with a version it did not have, cut down to the version limit. -/
def insertVersion (r : SecretRecord) (m : Moment) (version : SecretVersion)
    (stages : List String) : SecretRecord :=
  let added : SecretRecord :=
    { r with
      stagingLabels := promote r.stagingLabels stages version.versionId
      versions := r.versions.insert version.versionId version }
  { (added.cleanupDeprecatedVersions m).rebuildVersionStages m with
    lastChangedDate := version.createdDate }

/-- Add a new version and assign staging labels to it. -/
def addVersion (r : SecretRecord) (m : Moment) (versionId : String)
    (secretString : Option String) (secretBinary : Option (List UInt8))
    (versionStages : List String) (createdDate : ℤ) : Except SecretsManagerError SecretRecord :=
  let stages := stagesOrCurrent versionStages
  match r.versions.get? versionId with
  | some existing =>
    if existing.secretString = secretString ∧ existing.secretBinary = secretBinary then .ok r
    else .error ⟨.resourceExistsException,
      "A resource with the ID you requested already exists."⟩
  | none =>
    -- the labels of the version itself are filled in when the cache is built again
    .ok (r.insertVersion m
      { versionId, secretString, secretBinary, createdDate, versionStages := [] } stages)

def isPendingDeletion (r : SecretRecord) : Bool :=
  r.deletedDate.isSome

def getCurrentVersion (r : SecretRecord) : Option SecretVersion :=
  (r.stagingLabels.get? AWSCURRENT).bind r.versions.get?

def configureRotation (r : SecretRecord) (lambdaArn : Option String)
    (rules : Option RotationRulesType) : SecretRecord :=
  { r with
    rotationLambdaArn := lambdaArn.or r.rotationLambdaArn
    rotationRules := rules.or r.rotationRules
    rotationEnabled := true }

/-- Start a rotation: the current value goes into a new version. -/
def startRotation (r : SecretRecord) (m : Moment) (versionId : String) (now : ℤ)
    (rotateImmediately : Bool) : Except SecretsManagerError SecretRecord :=
  let current := r.getCurrentVersion
  let ss := current.bind (·.secretString)
  let sb := current.bind (·.secretBinary)
  let stage := if rotateImmediately then AWSCURRENT else AWSPENDING
  match r.addVersion m versionId ss sb [stage] now with
  | .error e => .error e
  | .ok r => .ok { r with lastRotatedDate := some now }

end SecretRecord

end Rustack.Secrets
