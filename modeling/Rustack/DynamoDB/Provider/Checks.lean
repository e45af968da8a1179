import Rustack.DynamoDB.KeyCondition
import Rustack.DynamoDB.Expression.Update
import Rustack.DynamoDB.Provider.Types

/-!
# Checks of a request

What the handlers check before they touch a table: names, numbers, keys, sizes,
and the placeholders of expressions.
-/

namespace Rustack.DynamoDB

def maxSignificantDigits : ℕ := 38

/-- A check for every element, in order. -/
def checkAll {α : Type} (check : α → Except DynamoDBError Unit) : List α → Except DynamoDBError Unit
  | [] => .ok ()
  | x :: xs => do
    check x
    checkAll check xs

theorem checkAll_eq_ok {α : Type} {check : α → Except DynamoDBError Unit} {xs : List α} :
    checkAll check xs = .ok () ↔ ∀ x ∈ xs, check x = .ok () := by
  induction xs with
  | nil => simp [checkAll]
  | cons x xs ih =>
      rw [checkAll, Except.bind_eq_ok, List.forall_mem_cons, ← ih]
      constructor
      · rintro ⟨_, hx, hxs⟩
        exact ⟨hx, hxs⟩
      · rintro ⟨hx, hxs⟩
        exact ⟨(), hx, hxs⟩

/-! ## Numbers -/

def notNumeric : DynamoDBError :=
  .validation "The parameter cannot be converted to a numeric value: numeric value is not valid"

/-- One dot at most, and digits otherwise. -/
def checkMantissa (hasDot : Bool) : List Char → Except DynamoDBError Unit
  | [] => .ok ()
  | c :: cs =>
    if c = '.' then if hasDot then .error notNumeric else checkMantissa true cs
    else if isAsciiDigit c then checkMantissa hasDot cs
    else .error notNumeric

/-- `saturating_add` and `saturating_sub`. -/
def saturate (x : ℤ) : ℤ := max (-(2 ^ 63)) (min x (2 ^ 63 - 1))

def validateNumberString (s : String) : Except DynamoDBError Unit :=
  let cs := s.toList
  if cs ≠ trim cs then .error notNumeric
  else if cs.isEmpty then
    .error (.validation "The parameter cannot be converted to a numeric value")
  else do
    let rest := (stripSign cs).2
    if rest.isEmpty then .error notNumeric else .ok ()
    let (mantissa, exponentPart) := splitAtFirst isExponentMark rest
    let explicitExp : ℤ ← match exponentPart with
      | some text =>
        match parseI64 text with
        | some exp => .ok exp
        | none => .error notNumeric
      | none => .ok 0
    if mantissa.isEmpty then .error notNumeric else .ok ()
    checkMantissa false mantissa
    if !mantissa.any isAsciiDigit then .error notNumeric else .ok ()
    let allDigits := mantissa.filter isAsciiDigit
    let trimmedLeading := allDigits.dropWhile (· = '0')
    let significant := trimmedLeading.rdropWhile (· = '0')
    if significant.isEmpty then .ok ()
    else if maxSignificantDigits < significant.length then
      .error (.validation ("Attempting to store more than " ++ toString maxSignificantDigits ++
        " significant digits in a Number"))
    else
      let fracDigits := ((splitAtFirst (· = '.') mantissa).2.getD []).length
      let leadingZeros := allDigits.length - trimmedLeading.length
      let magnitude := saturate (saturate (saturate (saturate (explicitExp - fracDigits) +
        allDigits.length) - leadingZeros) - 1)
      if 125 < magnitude then .error (.validation overflowMessage)
      else if magnitude < -130 then .error (.validation underflowMessage)
      else .ok ()

/-! ## Tables and keys -/

def isTableNameChar (c : Char) : Bool := c.isAlphanum || c = '.' || c = '_' || c = '-'

def validateTableName (name : String) : Except DynamoDBError Unit :=
  if byteLen name < 3 ∨ 255 < byteLen name then
    .error (.validation ("TableName must be at least 3 characters long and at most 255 " ++
      "characters long, but was " ++ toString (byteLen name) ++ " characters"))
  else if !name.toList.all isTableNameChar then
    .error (.validation ("1 validation error detected: Value '" ++ name ++ "' at 'tableName' " ++
      "failed to satisfy constraint: Member must satisfy regular expression pattern: " ++
      "[a-zA-Z0-9_.-]+"))
  else .ok ()

/-- The partition key and, if there is one, the sort key. -/
def KeySchema.attributes (keySchema : KeySchema) : List KeyAttribute :=
  keySchema.partitionKey :: keySchema.sortKey.toList

/-- The length of a key value that has to be within the limit. -/
def keyLength : AttributeValue → ℕ
  | .s value => byteLen value
  | .b value => value.length
  | _ => 0

def isEmptyKeyValue : AttributeValue → Bool
  | .s value => value.isEmpty
  | .b value => value.isEmpty
  | _ => false

def validateKeyNotEmpty (keySchema : KeySchema) (item : Item) : Except DynamoDBError Unit :=
  checkAll (fun ka => match item.lookup ka.name with
    | some val =>
      if (if ka.name = keySchema.partitionKey.name then 2048 else 1024) < keyLength val then
        .error (.validation "Key exceeds maximum byte length")
      else if isEmptyKeyValue val then
        .error (.validation ("One or more parameter values are not valid. The AttributeValue " ++
          "for a key attribute cannot contain an empty string value. Key: " ++ ka.name))
      else .ok ()
    | none => .ok ()) keySchema.attributes

/-- The names of the attributes of a map, sorted. -/
def formatKeyNames (key : Item) : String :=
  ", ".intercalate ((key.map Prod.fst).insertionSort (· ≤ ·))

def formatSchemaKeyNames (keySchema : KeySchema) : String :=
  ", ".intercalate keySchema.attrNames

def validateKeyOnlyHasKeyAttrs (keySchema : KeySchema) (key : Item) : Except DynamoDBError Unit :=
  checkAll (fun e => if !isKeyAttribute e.1 keySchema then
      .error (.validation ("One or more parameter values are not valid. Number of user supplied " ++
        "keys don't match number of table schema keys. Keys provided: [" ++ formatKeyNames key ++
        "], schema keys: [" ++ formatSchemaKeyNames keySchema ++ "]"))
    else .ok ()) key

def typeMatches : ScalarAttributeType → AttributeValue → Bool
  | .s, .s _ => true
  | .n, .n _ => true
  | .b, .b _ => true
  | _, _ => false

def validateKeyTypes (keySchema : KeySchema) (key : Item) : Except DynamoDBError Unit :=
  checkAll (fun ka => match key.lookup ka.name with
    | some val =>
      if !typeMatches ka.attrType val then
        .error (.validation ("The provided key element does not match the schema. Expected type " ++
          ka.attrType.asStr ++ " for key column " ++ ka.name ++ ", got type " ++
          val.typeDescriptor))
      else .ok ()
    | none => .ok ()) keySchema.attributes

/-- `extract_primary_key` with the error of the service. -/
def primaryKeyOf (keySchema : KeySchema) (item : Item) : Except DynamoDBError PrimaryKey :=
  (extractPrimaryKey keySchema item).mapError storageErrorToDynamodb

theorem primaryKeyOf_eq_ok {keySchema : KeySchema} {item : Item} {key : PrimaryKey} :
    primaryKeyOf keySchema item = .ok key ↔ extractPrimaryKey keySchema item = .ok key := by
  unfold primaryKeyOf
  cases extractPrimaryKey keySchema item <;> simp [Except.mapError]

/-! ## Parameters and placeholders -/

def validateNoUnusedNames (provided : List (String × String)) (used : List String) :
    Except DynamoDBError Unit :=
  let unused := (provided.map Prod.fst).filter fun k => !used.contains k
  if unused.isEmpty then .ok ()
  else .error (.validation ("Value provided in ExpressionAttributeNames unused in expressions: " ++
    "keys: \x7b" ++ ", ".intercalate unused ++ "\x7d"))

/-! ## Update paths -/

/-- Two resolved paths agree as far as both go. -/
def pathsOverlap : List PathElement → List PathElement → Bool
  | x :: xs, y :: ys => x == y && pathsOverlap xs ys
  | _, _ => true

/-- One path goes on with a name where the other has an index. -/
def pathsConflict : List PathElement → List PathElement → Bool
  | .attribute x :: xs, .attribute y :: ys => x == y && pathsConflict xs ys
  | .index x :: xs, .index y :: ys => x == y && pathsConflict xs ys
  | .attribute _ :: _, .index _ :: _ => true
  | .index _ :: _, .attribute _ :: _ => true
  | _, _ => false

def resolvePathTopName (names : List (String × String)) (path : AttributePath) : Option String :=
  match path.elements with
  | .attribute name :: _ => resolveName names name
  | _ => none

def resolvePathElements (names : List (String × String)) (path : AttributePath) :
    List PathElement :=
  path.elements.map fun
    | .attribute name => .attribute (resolveNameRef names name)
    | .index idx => .index idx

/-- The paths of all actions, by section. -/
def allTargetPaths (update : UpdateExpr) : List AttributePath :=
  update.setActions.map SetAction.path ++ update.removePaths ++
    update.addActions.map AddAction.path ++ update.deleteActions.map DeleteAction.path

def checkNotKeyPath (keySchema : KeySchema) (names : List (String × String))
    (path : AttributePath) : Except DynamoDBError Unit :=
  match resolvePathTopName names path with
  | some topName =>
    if path.elements.length = 1 ∧ topName ∈ keySchema.attrNames then
      .error (.validation ("Cannot update attribute (" ++ topName ++
        "). This attribute is part of the key"))
    else .ok ()
  | none => .ok ()

def checkPathPair (a b : List PathElement) : Except DynamoDBError Unit :=
  if pathsOverlap a b then
    .error (.validation ("Invalid UpdateExpression: Two document paths overlap with each other; " ++
      "must remove or rewrite one of these paths"))
  else if pathsConflict a b then
    .error (.validation (
      "Invalid UpdateExpression: Two document paths conflict with each other; " ++
      "must remove or rewrite one of these paths"))
  else .ok ()

def checkPathPairs : List (List PathElement) → Except DynamoDBError Unit
  | [] => .ok ()
  | path :: rest => do
    checkAll (checkPathPair path) rest
    checkPathPairs rest

def validateUpdatePaths (update : UpdateExpr) (keySchema : KeySchema)
    (names : List (String × String)) : Except DynamoDBError Unit := do
  checkAll (checkNotKeyPath keySchema names) (allTargetPaths update)
  checkPathPairs ((allTargetPaths update).map (resolvePathElements names))

end Rustack.DynamoDB
