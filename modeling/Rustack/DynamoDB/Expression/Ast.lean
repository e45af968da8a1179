import Mathlib.Algebra.Order.Ring.Int

/-!
# Syntax trees of expressions

The trees the parser builds and the evaluator walks: conditions, update
expressions and document paths, with the text form the source gives to
operators and paths and the references each tree mentions.
-/

namespace Rustack.DynamoDB

inductive CompareOp where
  | eq | ne | lt | le | gt | ge
  deriving DecidableEq

def CompareOp.display : CompareOp → String
  | .eq => "="
  | .ne => "<>"
  | .lt => "<"
  | .le => "<="
  | .gt => ">"
  | .ge => ">="

inductive LogicalOp where
  | and | or
  deriving DecidableEq

def LogicalOp.display : LogicalOp → String
  | .and => "AND"
  | .or => "OR"

inductive FunctionName where
  | attributeExists | attributeNotExists | attributeType | beginsWith | contains | size
  deriving DecidableEq

def FunctionName.display : FunctionName → String
  | .attributeExists => "attribute_exists"
  | .attributeNotExists => "attribute_not_exists"
  | .attributeType => "attribute_type"
  | .beginsWith => "begins_with"
  | .contains => "contains"
  | .size => "size"

inductive PathElement where
  | attribute (name : String)
  | index (idx : ℕ)
  deriving DecidableEq

/-- A document path, its elements in order. -/
structure AttributePath where
  elements : List PathElement
  deriving DecidableEq

/-- One element as it is written behind the first. -/
def PathElement.display : PathElement → String
  | .attribute name => "." ++ name
  | .index idx => "[" ++ toString idx ++ "]"

def AttributePath.display (path : AttributePath) : String :=
  match path.elements with
  | .attribute name :: rest => name ++ String.join (rest.map PathElement.display)
  | elements => String.join (elements.map PathElement.display)

inductive Operand where
  | path (path : AttributePath)
  | value (name : String)
  | size (inner : Operand)
  deriving DecidableEq

inductive Expr where
  | compare (left : Operand) (op : CompareOp) (right : Operand)
  | between (value low high : Operand)
  | inList (value : Operand) (list : List Operand)
  | logical (op : LogicalOp) (left right : Expr)
  | not (inner : Expr)
  | function (name : FunctionName) (args : List Operand)
  deriving DecidableEq

inductive SetValue where
  | operand (operand : Operand)
  | plus (left right : SetValue)
  | minus (left right : SetValue)
  | ifNotExists (path : AttributePath) (default : Operand)
  | listAppend (first second : Operand)
  deriving DecidableEq

structure SetAction where
  path : AttributePath
  value : SetValue
  deriving DecidableEq

structure AddAction where
  path : AttributePath
  value : Operand
  deriving DecidableEq

structure DeleteAction where
  path : AttributePath
  value : Operand
  deriving DecidableEq

structure UpdateExpr where
  setActions : List SetAction
  removePaths : List AttributePath
  addActions : List AddAction
  deleteActions : List DeleteAction
  deriving DecidableEq

/-! ### References a tree mentions

The source inserts into a hash set; only membership is ever asked, so a list does. -/

/-- Whether a path element was written as `#name`. -/
def isReference (name : String) : Bool := name.toList.head? == some '#'

def collectNamesFromPath (path : AttributePath) : List String :=
  path.elements.filterMap fun
    | .attribute name => if isReference name then some name else none
    | .index _ => none

def collectNamesFromProjection (paths : List AttributePath) : List String :=
  paths.flatMap collectNamesFromPath

end Rustack.DynamoDB
