import Rustack.Secrets.Version

/-!
# The secret operations

Each handler gets the store and gives the store back with its answer.  A handler writes to the
record in place, so what it has written before an error stays.
-/

namespace Rustack.Secrets

/-! ## Validation -/

def MAX_NAME_LENGTH : ℕ := 512
def MAX_VALUE_SIZE : ℕ := 65536
def MAX_DESCRIPTION_LENGTH : ℕ := 2048
def MAX_TAGS : ℕ := 50
def MAX_TAG_KEY_LENGTH : ℕ := 128
def MAX_TAG_VALUE_LENGTH : ℕ := 256

def invalidParameter (message : String) : SecretsManagerError :=
  ⟨.invalidParameterException, message⟩

def isAsciiAlphanumeric (c : Char) : Bool :=
  c.isAlphanum

def validateSecretName (name : String) : Except SecretsManagerError Unit :=
  if name.isEmpty ∨ name.utf8ByteSize > MAX_NAME_LENGTH then
    .error (invalidParameter "The parameter Name must be between 1 and 512 characters long.")
  else if !name.toList.all fun c => isAsciiAlphanumeric c || "/_+=.@-".toList.contains c then
    .error (invalidParameter ("The parameter Name \"" ++ name ++ "\" contains invalid characters. "
      ++ "Only ASCII letters, digits, and /_+=.@- are allowed."))
  else .ok ()

def validateClientRequestToken (token : String) : Except SecretsManagerError Unit :=
  if token.utf8ByteSize < 32 ∨ token.utf8ByteSize > 64 then
    .error (invalidParameter "ClientRequestToken must be 32-64 characters long.")
  else if !token.toList.all fun c => isAsciiAlphanumeric c || c == '-' then
    .error (invalidParameter
      "ClientRequestToken must contain only alphanumeric characters and hyphens.")
  else .ok ()

def validateTag (tag : Tag) : Except SecretsManagerError Unit :=
  let key := tag.key.getD ""
  let value := tag.value.getD ""
  if key.isEmpty ∨ key.utf8ByteSize > MAX_TAG_KEY_LENGTH then
    .error (invalidParameter "Tag key must be between 1 and 128 characters.")
  else if value.utf8ByteSize > MAX_TAG_VALUE_LENGTH then
    .error (invalidParameter "Tag value must not exceed 256 characters.")
  else .ok ()

def validateTags (tags : List Tag) : Except SecretsManagerError Unit :=
  if tags.length > MAX_TAGS then
    .error (invalidParameter "Number of tags exceeds the maximum of 50.")
  else tags.forM validateTag

def validateDescription (description : String) : Except SecretsManagerError Unit :=
  if description.utf8ByteSize > MAX_DESCRIPTION_LENGTH then
    .error (invalidParameter "Description exceeds the maximum length of 2048 characters.")
  else .ok ()

/-- Exactly one of a string and a binary value is given. -/
def validateSecretValue (secretString : Option String) (secretBinary : Option (List UInt8)) :
    Except SecretsManagerError Unit :=
  match secretString, secretBinary with
  | some _, some _ =>
    .error (invalidParameter "You can't specify both SecretString and SecretBinary.")
  | none, none =>
    .error (invalidParameter "You must specify either SecretString or SecretBinary.")
  | some s, none =>
    if s.utf8ByteSize > MAX_VALUE_SIZE then
      .error (invalidParameter "SecretString length exceeds the maximum of 65536 bytes.")
    else .ok ()
  | none, some b =>
    if b.length > MAX_VALUE_SIZE then
      .error (invalidParameter "SecretBinary length exceeds the maximum of 65536 bytes.")
    else .ok ()

/-- The id of the new version: the request token when there is one, else a fresh id. -/
def versionIdOf (token : Option String) (m : Moment) : Except SecretsManagerError String :=
  match token with
  | some token => (validateClientRequestToken token).map fun _ => token
  | none => .ok m.uuid

/-! ## The store -/

structure SecretsManagerConfig where
  defaultRegion : String
  defaultAccountId : String

abbrev SecretStore := SortedMap String SecretRecord compare

def secretArn (region accountId name suffix : String) : String :=
  "arn:aws:secretsmanager:" ++ region ++ ":" ++ accountId ++ ":secret:" ++ name ++ "-" ++ suffix

def cannotFind : SecretsManagerError :=
  ⟨.resourceNotFoundException, "Secrets Manager can't find the specified secret."⟩

/-- A record that the given ARN, full or partial, points at. -/
def arnMatches (store : SecretStore) (secretId name : String) : Bool :=
  match store.get? name with
  | some record => record.arn == secretId || secretId.toList.isPrefixOf record.arn.toList
  | none => false

/-- Resolve a secret id to a secret name: by name, by full ARN or by partial ARN. -/
def resolveSecretId (store : SecretStore) (m : Moment) (secretId : String) :
    Except SecretsManagerError String :=
  if (store.get? secretId).isSome then .ok secretId
  else if "arn:".toList.isPrefixOf secretId.toList then
    match ((m.order (store.entries.map Prod.fst)).find? (arnMatches store secretId)).bind
      store.get? with
    | some record => .ok record.name
    | none => .error cannotFind
  else .error cannotFind

/-- The record a call works on, with the name it is kept under.  What the call checks before it
reaches for the record is checked after the id is resolved. -/
def getMut (store : SecretStore) (m : Moment) (secretId : String)
    (check : Except SecretsManagerError Unit) :
    Except SecretsManagerError (String × SecretRecord) := do
  let name ← resolveSecretId store m secretId
  check
  match store.get? name with
  | some record => .ok (name, record)
  | none => .error cannotFind

def markedForDeletion : SecretsManagerError :=
  ⟨.invalidRequestException,
    "You can't perform this operation on the secret because it was marked for deletion."⟩

/-- What a call answers; a call that has no version or no stages to tell leaves them out. -/
structure Response where
  arn : Option String
  name : Option String
  versionId : Option String
  versionStages : List String
  deriving DecidableEq

def SecretRecord.response (r : SecretRecord) (versionId : Option String)
    (versionStages : List String) : Response where
  arn := some r.arn
  name := some r.name
  versionId
  versionStages

abbrev Answer := Except SecretsManagerError Response

/-- Work on the record of a secret in place. -/
def withRecord (store : SecretStore) (m : Moment) (secretId : String)
    (check : Except SecretsManagerError Unit) (edit : SecretRecord → SecretRecord × Answer) :
    SecretStore × Answer :=
  match getMut store m secretId check with
  | .error e => (store, .error e)
  | .ok (name, record) => (store.insert name (edit record).1, (edit record).2)

/-! ## The calls -/

structure CreateSecretInput where
  name : String
  clientRequestToken : Option String
  description : Option String
  kmsKeyId : Option String
  secretBinary : Option (List UInt8)
  secretString : Option String
  tags : List Tag

structure PutSecretValueInput where
  secretId : String
  clientRequestToken : Option String
  secretBinary : Option (List UInt8)
  secretString : Option String
  versionStages : List String

structure UpdateSecretInput where
  secretId : String
  clientRequestToken : Option String
  description : Option String
  kmsKeyId : Option String
  secretBinary : Option (List UInt8)
  secretString : Option String

structure UpdateSecretVersionStageInput where
  secretId : String
  versionStage : String
  moveToVersionId : Option String
  removeFromVersionId : Option String

structure RotateSecretInput where
  secretId : String
  clientRequestToken : Option String
  rotateImmediately : Option Bool
  rotationLambdaArn : Option String
  rotationRules : Option RotationRulesType

/-! ### CreateSecret -/

namespace CreateSecretInput

def validate (input : CreateSecretInput) : Except SecretsManagerError Unit := do
  validateSecretName input.name
  input.description.forM validateDescription
  validateTags input.tags
  if input.secretString.isSome ∨ input.secretBinary.isSome then
    validateSecretValue input.secretString input.secretBinary
  input.clientRequestToken.forM validateClientRequestToken

def newRecord (input : CreateSecretInput) (config : SecretsManagerConfig) (m : Moment) :
    SecretRecord where
  name := input.name
  arn := secretArn config.defaultRegion config.defaultAccountId input.name m.suffix
  description := input.description
  kmsKeyId := input.kmsKeyId
  tags := input.tags
  resourcePolicy := none
  versions := SortedMap.empty
  stagingLabels := SortedMap.empty
  rotationEnabled := false
  rotationLambdaArn := none
  rotationRules := none
  lastRotatedDate := none
  deletedDate := none
  recoveryWindowInDays := none
  createdDate := m.now
  lastChangedDate := m.now
  lastAccessedDate := none
  owningService := none
  primaryRegion := some config.defaultRegion

/-- The record a creation stores, and the id of its first version when it has a value. -/
def firstVersion (input : CreateSecretInput) (config : SecretsManagerConfig) (m : Moment) :
    Except SecretsManagerError (SecretRecord × Option String) :=
  let record := input.newRecord config m
  if input.secretString.isSome ∨ input.secretBinary.isSome then
    let vid := input.clientRequestToken.getD m.uuid
    (record.addVersion m vid input.secretString input.secretBinary [AWSCURRENT] m.now).map
      fun record => (record, some vid)
  else .ok (record, none)

end CreateSecretInput

def alreadyExists (name : String) : SecretsManagerError :=
  ⟨.resourceExistsException,
    "The operation failed because the secret " ++ name ++ " already exists."⟩

def handleCreateSecret (config : SecretsManagerConfig) (store : SecretStore) (m : Moment)
    (input : CreateSecretInput) : SecretStore × Answer :=
  match input.validate with
  | .error e => (store, .error e)
  | .ok () =>
    if (store.get? input.name).isSome then (store, .error (alreadyExists input.name))
    else
      match input.firstVersion config m with
      | .error e => (store, .error e)
      | .ok (record, versionId) =>
        (store.insert input.name record, .ok (record.response versionId []))

/-! ### PutSecretValue -/

namespace PutSecretValueInput

def newVersion (input : PutSecretValueInput) (m : Moment) (r : SecretRecord) :
    Except SecretsManagerError (String × SecretRecord) := do
  let versionId ← versionIdOf input.clientRequestToken m
  let r ← r.addVersion m versionId input.secretString input.secretBinary
    (SecretRecord.stagesOrCurrent input.versionStages) m.now
  return (versionId, r)

def edit (input : PutSecretValueInput) (m : Moment) (r : SecretRecord) : SecretRecord × Answer :=
  if r.isPendingDeletion then (r, .error markedForDeletion)
  else
    match input.newVersion m r with
    | .error e => (r, .error e)
    | .ok (versionId, r) =>
      let stages := SecretRecord.stagesOrCurrent input.versionStages
      let actualStages := ((r.versions.get? versionId).map (·.versionStages)).getD stages
      (r, .ok (r.response (some versionId) actualStages))

end PutSecretValueInput

def handlePutSecretValue (store : SecretStore) (m : Moment) (input : PutSecretValueInput) :
    SecretStore × Answer :=
  withRecord store m input.secretId (validateSecretValue input.secretString input.secretBinary)
    (input.edit m)

/-! ### UpdateSecret -/

namespace UpdateSecretInput

def hasValue (input : UpdateSecretInput) : Bool :=
  input.secretString.isSome || input.secretBinary.isSome

/-- The record with the new description and key. -/
def metadata (input : UpdateSecretInput) (r : SecretRecord) : SecretRecord :=
  { r with
    description := input.description.or r.description
    kmsKeyId := input.kmsKeyId.or r.kmsKeyId }

def newVersion (input : UpdateSecretInput) (m : Moment) (r : SecretRecord) :
    Except SecretsManagerError (String × SecretRecord) := do
  validateSecretValue input.secretString input.secretBinary
  let versionId ← versionIdOf input.clientRequestToken m
  let r ← r.addVersion m versionId input.secretString input.secretBinary [AWSCURRENT] m.now
  return (versionId, r)

def edit (input : UpdateSecretInput) (m : Moment) (r : SecretRecord) : SecretRecord × Answer :=
  if r.isPendingDeletion then (r, .error markedForDeletion)
  else
    match input.description.forM validateDescription with
    | .error e => (r, .error e)
    | .ok () =>
      -- the metadata is written before the value is looked at
      let r := input.metadata r
      if input.hasValue then
        match input.newVersion m r with
        | .error e => (r, .error e)
        | .ok (versionId, r) => (r, .ok (r.response (some versionId) []))
      else ({ r with lastChangedDate := m.now }, .ok (r.response none []))

end UpdateSecretInput

def handleUpdateSecret (store : SecretStore) (m : Moment) (input : UpdateSecretInput) :
    SecretStore × Answer :=
  withRecord store m input.secretId (.ok ()) (input.edit m)

/-! ### UpdateSecretVersionStage -/

/-- A secret that is pending deletion is not refused here. -/
def UpdateSecretVersionStageInput.edit (input : UpdateSecretVersionStageInput) (m : Moment)
    (r : SecretRecord) : SecretRecord × Answer :=
  match input.moveToVersionId, input.removeFromVersionId with
  | some toVid, fromVid =>
    match r.moveStagingLabel m input.versionStage toVid fromVid with
    | .error e => (r, .error e)
    | .ok r => (r, .ok (r.response none []))
  | none, some fromVid =>
    if r.stagingLabels.get? input.versionStage ≠ some fromVid then
      (r, .error SecretRecord.notAttached)
    else
      (SecretRecord.rebuildVersionStages
        { r with stagingLabels := r.stagingLabels.erase input.versionStage } m,
        .ok (r.response none []))
  | none, none => (r, .ok (r.response none []))

def handleUpdateSecretVersionStage (store : SecretStore) (m : Moment)
    (input : UpdateSecretVersionStageInput) : SecretStore × Answer :=
  withRecord store m input.secretId (.ok ()) (input.edit m)

/-! ### RotateSecret -/

namespace RotateSecretInput

/-- The record with rotation configured. -/
def configured (input : RotateSecretInput) (r : SecretRecord) : SecretRecord :=
  r.configureRotation input.rotationLambdaArn input.rotationRules

def newVersion (input : RotateSecretInput) (m : Moment) (r : SecretRecord) :
    Except SecretsManagerError (String × SecretRecord) := do
  let versionId ← versionIdOf input.clientRequestToken m
  let r ← r.startRotation m versionId m.now (input.rotateImmediately.getD true)
  return (versionId, r)

def edit (input : RotateSecretInput) (m : Moment) (r : SecretRecord) : SecretRecord × Answer :=
  if r.isPendingDeletion then (r, .error markedForDeletion)
  else
    -- rotation is configured before the request token is looked at
    let r := input.configured r
    match input.newVersion m r with
    | .error e => (r, .error e)
    | .ok (versionId, r) => (r, .ok (r.response (some versionId) []))

end RotateSecretInput

def handleRotateSecret (store : SecretStore) (m : Moment) (input : RotateSecretInput) :
    SecretStore × Answer :=
  withRecord store m input.secretId (.ok ()) (input.edit m)

/-! ## Runs -/

inductive Call where
  | createSecret (input : CreateSecretInput)
  | putSecretValue (input : PutSecretValueInput)
  | updateSecret (input : UpdateSecretInput)
  | updateSecretVersionStage (input : UpdateSecretVersionStageInput)
  | rotateSecret (input : RotateSecretInput)

/-- One call of the provider. -/
def handle (config : SecretsManagerConfig) (store : SecretStore) (m : Moment) :
    Call → SecretStore × Answer
  | .createSecret input => handleCreateSecret config store m input
  | .putSecretValue input => handlePutSecretValue store m input
  | .updateSecret input => handleUpdateSecret store m input
  | .updateSecretVersionStage input => handleUpdateSecretVersionStage store m input
  | .rotateSecret input => handleRotateSecret store m input

end Rustack.Secrets
