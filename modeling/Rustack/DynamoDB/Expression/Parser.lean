import Rustack.Lib.Parser
import Rustack.DynamoDB.Expression.Lexer

/-!
# The recursive descent parser

Conditions and update expressions.  Each function takes the tokens from the
current position on; past the last token the position reads as the end of the
input.
-/

namespace Rustack.DynamoDB

open Parser (fail done loop sepLoop recursive)

abbrev TokenParser (α : Type) := Parser Token ExpressionError α

def peek : List Token → Token
  | [] => .eof
  | t :: _ => t

def atEnd (tokens : List Token) : Bool := peek tokens == .eof

def unexpected {α : Type} (expected found : String) : TokenParser α :=
  fail (.unexpectedToken expected found)

/-- Use up one token, which has to be `expected`. -/
def expect (expected : Token) : TokenParser Unit
  | t :: ts => if t = expected then done () ts else unexpected expected.display t.display ts
  | [] => unexpected expected.display Token.eof.display []

/-! ### Paths and operands -/

def parsePathHead : TokenParser PathElement
  | .identifier name :: ts => done (.attribute name) ts
  | .exprAttrName name :: ts => done (.attribute ("#" ++ name)) ts
  | ts => unexpected "attribute name or #name" (peek ts).display ts

def closeBracket (idx : ℕ) : TokenParser ℕ := do
  expect .rBracket
  pure idx

/-- Behind a `[`: the index and the closing bracket. -/
def parseIndex : TokenParser ℕ
  | .minus :: ts =>
    unexpected "non-negative index" "Syntax error; negative index is not allowed" ts
  | .number idx :: ts => closeBracket idx ts
  | ts => unexpected "number" "Syntax error; expected a non-negative integer index" ts

def continuesPath (t : Token) : Bool := t = .dot || t = .lBracket

def parsePathElement (elements : List PathElement) (t : Token) :
    TokenParser (List PathElement) :=
  if t = .dot then do
    let elem ← parsePathHead
    pure (elements ++ [elem])
  else do
    let idx ← parseIndex
    pure (elements ++ [.index idx])

def parseAttributePath : TokenParser AttributePath := do
  let first ← parsePathHead
  let elements ← loop continuesPath parsePathElement [first]
  pure ⟨elements⟩

def parsePathOperand : TokenParser Operand := do
  let path ← parseAttributePath
  pure (.path path)

/-- `size` takes one argument: read on to count the others, and refuse. -/
def countSizeArguments (operand : TokenParser Operand) : TokenParser Unit := do
  let count ← sepLoop .comma operand (fun count _ => count + 1) (1 : ℕ)
  fail (.invalidOperand "size"
    ("Incorrect number of operands for operator or function; operator or function: size, " ++
      "number of operands: " ++ toString count))

def rejectSizeArguments (operand : TokenParser Operand) : TokenParser Unit := fun ts =>
  if peek ts = .comma then countSizeArguments operand ts else done () ts

/-- Behind `size`: its argument in parentheses. -/
def parseSizeOperand (operand : TokenParser Operand) : TokenParser Operand := do
  expect .lParen
  let inner ← operand
  rejectSizeArguments operand
  expect .rParen
  pure (.size inner)

def parseOperandStep (operand : TokenParser Operand) : TokenParser Operand
  | .exprAttrValue name :: ts => done (.value name) ts
  | .size :: ts => parseSizeOperand operand ts
  | ts => parsePathOperand ts

def parseOperand : TokenParser Operand := recursive parseOperandStep

def parseOperandList : TokenParser (List Operand) := do
  let first ← parseOperand
  sepLoop .comma parseOperand (fun list operand => list ++ [operand]) [first]

/-! ### Conditions -/

def peekFunctionName : Token → Option FunctionName
  | .attributeExists => some .attributeExists
  | .attributeNotExists => some .attributeNotExists
  | .attributeType => some .attributeType
  | .beginsWith => some .beginsWith
  | .contains => some .contains
  | _ => none

def parseFunctionExpr (name : FunctionName) : TokenParser Expr := do
  expect .lParen
  let args ← parseOperandList
  expect .rParen
  pure (.function name args)

def parseCompareOp : Token → Option CompareOp
  | .eq => some .eq
  | .ne => some .ne
  | .lt => some .lt
  | .le => some .le
  | .gt => some .gt
  | .ge => some .ge
  | _ => none

/-- The derived debug form of an operand; the names in it need no escapes. -/
def Operand.debug : Operand → String
  | .path p =>
    "Path(AttributePath \x7b elements: [" ++ ", ".intercalate (p.elements.map fun
      | .attribute name => "Attribute(\"" ++ name ++ "\")"
      | .index idx => "Index(" ++ toString idx ++ ")") ++ "] \x7d)"
  | .value name => "Value(\"" ++ name ++ "\")"
  | .size inner => "Size(" ++ inner.debug ++ ")"

def rejectEmptyList : TokenParser Unit := fun ts =>
  if peek ts = .rParen then
    unexpected "operand" "Syntax error; IN list must have at least one element" ts
  else done () ts

def parseBetween (left : Operand) : TokenParser Expr := do
  let low ← parseOperand
  expect .and
  let high ← parseOperand
  pure (.between left low high)

def parseInList (left : Operand) : TokenParser Expr := do
  expect .lParen
  rejectEmptyList
  let list ← parseOperandList
  expect .rParen
  pure (.inList left list)

def parseComparison (left : Operand) (op : CompareOp) : TokenParser Expr := do
  let right ← parseOperand
  pure (.compare left op right)

def rejectCall (left : Operand) : TokenParser Expr :=
  let funcName := match left with
    | .path p => p.display
    | other => other.debug
  unexpected "valid function name"
    ("'" ++ funcName ++ "' is not a valid function; valid functions are: attribute_exists, " ++
      "attribute_not_exists, attribute_type, begins_with, contains, size")

/-- What follows an operand: a comparison, `BETWEEN` or `IN`. -/
def parsePostfixExpr (left : Operand) : TokenParser Expr
  | .between :: ts => parseBetween left ts
  | .in_ :: ts => parseInList left ts
  | .lParen :: ts => rejectCall left ts
  | ts =>
    match parseCompareOp (peek ts) with
    | some op => parseComparison left op ts.tail
    | none =>
      unexpected "comparison operator, BETWEEN, or IN after operand"
        ("Syntax error; a standalone value or path is not a valid condition; found: " ++
          (peek ts).display) ts

/-- Skip to the parenthesis that closes the `depth` open ones, or to the end. -/
def skipGroup : ℕ → List Token → List Token
  | 0, ts => ts
  | _ + 1, [] => []
  | depth + 1, t :: ts =>
    if t = .eof then t :: ts
    else if t = .lParen then skipGroup (depth + 2) ts
    else if t = .rParen then skipGroup depth ts
    else skipGroup (depth + 1) ts

/-- Functions of update expressions are refused, behind their arguments. -/
def rejectUpdateFunction (name : String) : TokenParser Expr := fun ts =>
  fail (.invalidOperand name
    ("The function is not allowed to be used this way in an expression; function: " ++ name))
    (if peek ts = .lParen then skipGroup 1 ts.tail else ts)

def parseGroup (group : TokenParser Expr) : TokenParser Expr := do
  let expr ← group
  expect .rParen
  pure expr

def parseOperandExpr : TokenParser Expr := do
  let operand ← parseOperand
  parsePostfixExpr operand

def parsePrimaryExpr (group : TokenParser Expr) : TokenParser Expr
  | .lParen :: ts => parseGroup group ts
  | .ifNotExists :: ts => rejectUpdateFunction "if_not_exists" ts
  | .listAppend :: ts => rejectUpdateFunction "list_append" ts
  | ts =>
    match peekFunctionName (peek ts) with
    | some name => parseFunctionExpr name ts.tail
    | none => parseOperandExpr ts

def parseNotExpr (group : TokenParser Expr) : TokenParser Expr
  | .not :: ts => Parser.mapDone .not (parseNotExpr group ts)
  | ts => parsePrimaryExpr group ts

def parseAndExpr (group : TokenParser Expr) : TokenParser Expr := do
  let left ← parseNotExpr group
  sepLoop .and (parseNotExpr group) (.logical .and) left

def parseOrStep (group : TokenParser Expr) : TokenParser Expr := do
  let left ← parseAndExpr group
  sepLoop .or (parseAndExpr group) (.logical .or) left

def parseOrExpr : TokenParser Expr := recursive parseOrStep

/-! ### Update expressions -/

/-- One action, and more behind commas. -/
def parseClause {α : Type} (action : TokenParser α) : TokenParser (List α) := do
  let first ← action
  sepLoop .comma action (fun actions a => actions ++ [a]) [first]

/-! ### Whole inputs -/

/-- Tokenize, parse, and hand the rest to `finish`; `none` when a bound runs out. -/
def runParser {α : Type} (p : TokenParser α)
    (finish : α → List Token → Except ExpressionError α) (input : String) :
    Option (Except ExpressionError α) :=
  match tokenize input with
  | none => none
  | some (.error e) => some (.error e)
  | some (.ok tokens) =>
    match p tokens with
    | none => none
    | some (.error e) => some (.error e)
    | some (.ok (value, rest)) => some (finish value rest)

def endOfExpression {α : Type} (value : α) (rest : List Token) : Except ExpressionError α :=
  if atEnd rest then .ok value
  else .error (.unexpectedToken "end of expression" (peek rest).display)

def runCondition (input : String) : Option (Except ExpressionError Expr) :=
  runParser parseOrExpr endOfExpression input

end Rustack.DynamoDB
