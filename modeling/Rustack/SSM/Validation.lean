import Mathlib.Data.List.Basic

/-!
# Checks on parameter requests

Types of the parameter store, the checks that requests go through before the store sees them,
and the selector at the end of a parameter name.  Regular expressions are a parameter: `compile`
says whether a pattern is one, and which values it is found in.
-/

namespace Rustack.SSM

inductive ErrorCode where
  | parameterNotFound
  | parameterAlreadyExists
  | parameterMaxVersionLimitExceeded
  | parameterVersionNotFound
  | parameterVersionLabelLimitExceeded
  | hierarchyLevelLimitExceeded
  | hierarchyTypeMismatch
  | invalidAllowedPatternException
  | parameterPatternMismatchException
  | invalidResourceId
  | invalidResourceType
  | unsupportedParameterType
  | tooManyTagsError
  | validationException
  deriving DecidableEq

structure SsmError where
  code : ErrorCode
  message : String
  deriving DecidableEq

def SsmError.validation (message : String) : SsmError :=
  ⟨.validationException, message⟩

def SsmError.parameterNotFound (name : String) : SsmError :=
  ⟨.parameterNotFound, name⟩

def SsmError.parameterAlreadyExists (name : String) : SsmError :=
  ⟨.parameterAlreadyExists, "The parameter " ++ name ++ " already exists. To overwrite this value, "
    ++ "set the overwrite option in the request to true."⟩

inductive ParameterType where
  | string
  | stringList
  | secureString
  deriving DecidableEq

def ParameterType.asStr : ParameterType → String
  | string => "String"
  | stringList => "StringList"
  | secureString => "SecureString"

inductive ParameterTier where
  | standard
  | advanced
  | intelligentTiering
  deriving DecidableEq

def ParameterTier.asStr : ParameterTier → String
  | standard => "Standard"
  | advanced => "Advanced"
  | intelligentTiering => "Intelligent-Tiering"

structure Tag where
  key : String
  value : String
  deriving DecidableEq

/-- A regular expression engine: `none` when a pattern does not compile. -/
abbrev Regex := String → Option (String → Bool)

def MAX_NAME_LENGTH : ℕ := 2048
def MAX_HIERARCHY_DEPTH : ℕ := 15
def MAX_DESCRIPTION_LENGTH : ℕ := 1024
def MAX_STANDARD_VALUE_SIZE : ℕ := 4096
def MAX_ADVANCED_VALUE_SIZE : ℕ := 8192
def MAX_TAGS : ℕ := 50
def MAX_TAG_KEY_LENGTH : ℕ := 128
def MAX_TAG_VALUE_LENGTH : ℕ := 256
def MAX_LABEL_LENGTH : ℕ := 100

/-- Maximum number of versions per parameter. -/
def MAX_VERSIONS : ℕ := 100

/-- Maximum number of labels per parameter version. -/
def MAX_LABELS_PER_VERSION : ℕ := 10

/-- Maximum number of parameters in a batch get or delete. -/
def MAX_BATCH_SIZE : ℕ := 10

/-- Lower case of a text that holds ASCII only, which is all that it is asked for. -/
def toLowercase (text : List Char) : List Char :=
  text.map Char.toLower

def isReserved (text : List Char) : Bool :=
  "aws".toList.isPrefixOf text || "ssm".toList.isPrefixOf text

def validateName (name : String) : Except SsmError Unit :=
  if name.isEmpty ∨ name.utf8ByteSize > MAX_NAME_LENGTH then
    .error (.validation "Parameter name must be between 1 and 2048 characters.")
  else if !name.toList.all fun c => c.isAlphanum || "_./-".toList.contains c then
    .error (.validation ("Parameter name '" ++ name ++ "' contains invalid characters. "
      ++ "Only [a-zA-Z0-9_./-] are allowed."))
  else if isReserved ((toLowercase name.toList).dropWhile (· == '/')) then
    .error (.validation ("Parameter name '" ++ name ++ "' is not allowed. Names beginning with "
      ++ "'aws' or 'ssm' (case-insensitive) are reserved."))
  else if name.toList.countP (· == '/') > MAX_HIERARCHY_DEPTH then
    .error ⟨.hierarchyLevelLimitExceeded, "Parameter name '" ++ name
      ++ "' exceeds the maximum hierarchy depth of 15 levels."⟩
  else .ok ()

def maxValueSize : ParameterTier → ℕ
  | .standard => MAX_STANDARD_VALUE_SIZE
  | .advanced | .intelligentTiering => MAX_ADVANCED_VALUE_SIZE

def validateValue (value : String) (tier : ParameterTier) : Except SsmError Unit :=
  if value.utf8ByteSize > maxValueSize tier then
    .error (.validation ("Parameter value exceeds the maximum size of " ++
      toString (maxValueSize tier) ++ " bytes for " ++ tier.asStr ++ " tier."))
  else if value.isEmpty then .error (.validation "Parameter value must not be empty.")
  else .ok ()

def validateDescription (description : String) : Except SsmError Unit :=
  if description.utf8ByteSize > MAX_DESCRIPTION_LENGTH then
    .error (.validation "Description exceeds the maximum length of 1024 characters.")
  else .ok ()

def validateTag (tag : Tag) : Except SsmError Unit :=
  if tag.key.isEmpty ∨ tag.key.utf8ByteSize > MAX_TAG_KEY_LENGTH then
    .error (.validation "Tag key must be between 1 and 128 characters.")
  else if tag.value.utf8ByteSize > MAX_TAG_VALUE_LENGTH then
    .error (.validation "Tag value must not exceed 256 characters.")
  else .ok ()

def validateTags (tags : List Tag) : Except SsmError Unit :=
  if tags.length > MAX_TAGS then
    .error ⟨.tooManyTagsError, "Number of tags exceeds the maximum of 50."⟩
  else tags.forM validateTag

def invalidAllowedPattern (pattern : String) : SsmError :=
  ⟨.invalidAllowedPatternException, "Invalid AllowedPattern: " ++ pattern⟩

/-- The whole value has to match, whether the pattern is anchored or not. -/
def validateAllowedPattern (compile : Regex) (pattern value : String) : Except SsmError Unit :=
  if pattern.isEmpty then
    .error ⟨.invalidAllowedPatternException, "AllowedPattern must not be empty."⟩
  else
    let anchored := pattern.toList.head? == some '^' && pattern.toList.getLast? == some '$'
    let fullMatch : Option Bool := do
      let re ← compile pattern
      if anchored then return re value
      let reFull ← compile ("^(?:" ++ pattern ++ ")$")
      return reFull value
    match fullMatch with
    | none => .error (invalidAllowedPattern pattern)
    | some false => .error ⟨.parameterPatternMismatchException,
      "Parameter value failed to satisfy the AllowedPattern: " ++ pattern⟩
    | some true => .ok ()

/-- Labels that may be attached to a version. -/
def isValidLabel (label : String) : Bool :=
  !label.isEmpty && decide (label.utf8ByteSize ≤ MAX_LABEL_LENGTH) &&
    (label.toList.all fun c => c.isAlphanum || c == '_' || c == '.' || c == '-') &&
    !(label.toList.head?.any Char.isDigit) && !isReserved (toLowercase label.toList)

def parseTier : String → Except SsmError ParameterTier
  | "Standard" => .ok .standard
  | "Advanced" => .ok .advanced
  | "Intelligent-Tiering" => .ok .intelligentTiering
  | tier => .error (.validation ("Unsupported tier: " ++ tier ++
    ". Valid values: Standard, Advanced, Intelligent-Tiering."))

def parseParameterType : String → Except SsmError ParameterType
  | "String" => .ok .string
  | "StringList" => .ok .stringList
  | "SecureString" => .ok .secureString
  | type => .error ⟨.unsupportedParameterType, "Unsupported parameter type: " ++ type⟩

/-! ## Selectors -/

inductive ParameterSelector where
  | version (number : ℕ)
  | label (label : String)
  deriving DecidableEq

structure ParsedName where
  name : String
  selector : Option ParameterSelector
  deriving DecidableEq

/-- The first number that a version selector cannot hold. -/
def U64_RANGE : ℕ := 18446744073709551616

/-- The value of a run of decimal digits. -/
def decimal (digits : List Char) : ℕ :=
  digits.foldl (fun n c => 10 * n + (c.toNat - '0'.toNat)) 0

/-- The text before and after the last colon. -/
def splitSelector (name : List Char) : Option (List Char × List Char) :=
  let selector := (name.reverse.takeWhile (· != ':')).reverse
  if selector.length = name.length then none
  else some (name.take (name.length - selector.length - 1), selector)

def parseNameWithSelector (name : String) : Except SsmError ParsedName :=
  match splitSelector name.toList with
  | none => .ok ⟨name, none⟩
  | some (base, selector) =>
    if selector.isEmpty then
      .error (.validation ("Invalid parameter name: " ++ name ++
        ". Parameter name must not end with ':'."))
    else if selector.all Char.isDigit then
      if decimal selector ≥ U64_RANGE then
        .error (.validation ("Invalid version selector in: " ++ name))
      else if decimal selector = 0 then
        .error ⟨.parameterVersionNotFound,
          "Version 0 not found for parameter " ++ String.ofList base⟩
      else .ok ⟨String.ofList base, some (.version (decimal selector))⟩
    else .ok ⟨String.ofList base, some (.label (String.ofList selector))⟩

end Rustack.SSM
