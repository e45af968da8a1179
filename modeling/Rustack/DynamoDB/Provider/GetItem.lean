import Rustack.DynamoDB.Projection

/-!
# Reading single items

`GetItem`: the checks in the order they are made, the item under the key, and what a projection
keeps of it.  A list of attribute names becomes a projection expression.
-/

namespace Rustack.DynamoDB

structure GetItemInput where
  tableName : String
  key : Item
  attributesToGet : Option (List String)
  projectionExpression : Option String
  expressionAttributeNames : List (String × String)

structure GetItemOutput where
  item : Option Item
  deriving DecidableEq

def projectionErrorToDynamodb (e : ExpressionError) : DynamoDBError :=
  .validation ("Invalid ProjectionExpression: " ++ e.display)

def parseProjectionText (text : String) : Except DynamoDBError (List AttributePath) :=
  (parseProjection text).mapError projectionErrorToDynamodb

def validateNoDuplicateAttributesToGet (seen : List String) :
    List String → Except DynamoDBError Unit
  | [] => .ok ()
  | attr :: attrs =>
    if seen.contains attr then
      .error (.validation ("One or more parameter values are not valid. Duplicate value in " ++
        "AttributesToGet: " ++ attr))
    else validateNoDuplicateAttributesToGet (attr :: seen) attrs

def convertAttributesToGet (attrs : List String) : String := ", ".intercalate attrs

/-- The names to get become the projection where there is no other. -/
def useAttributesToGet (input : GetItemInput) : Except DynamoDBError (Option String) :=
  match input.attributesToGet with
  | none => .ok input.projectionExpression
  | some atg => do
    if atg.isEmpty then
      .error (.validation ("One or more parameter values are not valid. The AttributesToGet " ++
        "parameter must contain at least one element"))
    else .ok ()
    validateNoDuplicateAttributesToGet [] atg
    .ok (input.projectionExpression.or (some (convertAttributesToGet atg)))

/-- The names that a projection refers to. -/
def namesOfProjection : Option String → Except DynamoDBError (List String)
  | none => .ok []
  | some text => do
    let paths ← parseProjectionText text
    .ok (collectNamesFromProjection paths)

/-- What is returned of an item. -/
def projectItem (names : List (String × String)) (item : Option Item) (projection : Option String) :
    Except DynamoDBError (Option Item) :=
  match item, projection with
  | some item, some text => do
    let paths ← parseProjectionText text
    .ok (some (EvalContext.applyProjection ⟨item, names, []⟩ paths))
  | some item, none => .ok (some item)
  | none, _ => .ok none

namespace RustackDynamoDB

def getItem (p : RustackDynamoDB) (input : GetItemInput) : Except DynamoDBError GetItemOutput := do
  validateTableName input.tableName
  let table ← p.requireTable input.tableName
  if input.projectionExpression.isSome && input.attributesToGet.any fun v => !v.isEmpty then
    .error (.validation "Cannot have both AttributesToGet and ProjectionExpression")
  else .ok ()
  validateKeyOnlyHasKeyAttrs table.keySchema input.key
  validateKeyTypes table.keySchema input.key
  validateKeyNotEmpty table.keySchema input.key
  let pk ← primaryKeyOf table.keySchema input.key
  let projection ← useAttributesToGet input
  let used ← namesOfProjection projection
  validateNoUnusedNames input.expressionAttributeNames used
  let item ← projectItem input.expressionAttributeNames (table.storage.getItem pk) projection
  .ok ⟨item⟩

def handleGetItem (p : RustackDynamoDB) (input : GetItemInput) :
    Except DynamoDBError GetItemOutput :=
  if p.closed then .error unavailable else p.getItem input

end RustackDynamoDB

end Rustack.DynamoDB
