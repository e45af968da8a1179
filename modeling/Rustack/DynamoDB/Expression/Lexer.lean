import Rustack.DynamoDB.Number
import Rustack.DynamoDB.Expression.Ast

/-!
# Tokens

The tokenizer of expression strings.  Keywords are recognised in any case,
function names only as they are spelled, and a list index must fit an `i32`.
-/

namespace Rustack.DynamoDB

/-- Errors of parsing and of evaluation. -/
inductive ExpressionError where
  | unexpectedToken (expected found : String)
  | unexpectedEof
  | unresolvedName (name : String)
  | unresolvedValue (name : String)
  | invalidOperand (operation message : String)
  | typeMismatch (message : String)
  | validation (message : String)
  deriving DecidableEq

def ExpressionError.display : ExpressionError → String
  | .unexpectedToken expected found =>
    "Unexpected token: expected " ++ expected ++ ", found " ++ found
  | .unexpectedEof => "Unexpected end of expression"
  | .unresolvedName name => "Unresolved expression attribute name: " ++ name
  | .unresolvedValue name => "Unresolved expression attribute value: " ++ name
  | .invalidOperand operation message => "Invalid operand for " ++ operation ++ ": " ++ message
  | .typeMismatch message => "Type mismatch: " ++ message
  | .validation message => message

inductive Token where
  | identifier (name : String)
  | exprAttrName (name : String)
  | exprAttrValue (name : String)
  | eq | ne | lt | le | gt | ge
  | plus | minus | dot | comma | lParen | rParen | lBracket | rBracket
  | and | or | not | between | in_ | set | remove | add | delete
  | attributeExists | attributeNotExists | attributeType | beginsWith | contains | size
  | ifNotExists | listAppend
  | number (value : ℕ)
  | eof
  deriving DecidableEq

def Token.display : Token → String
  | .identifier s => "identifier '" ++ s ++ "'"
  | .exprAttrName s => "#" ++ s
  | .exprAttrValue s => ":" ++ s
  | .eq => "'='"
  | .ne => "'<>'"
  | .lt => "'<'"
  | .le => "'<='"
  | .gt => "'>'"
  | .ge => "'>='"
  | .plus => "'+'"
  | .minus => "'-'"
  | .dot => "'.'"
  | .comma => "','"
  | .lParen => "'('"
  | .rParen => "')'"
  | .lBracket => "'['"
  | .rBracket => "']'"
  | .and => "AND"
  | .or => "OR"
  | .not => "NOT"
  | .between => "BETWEEN"
  | .in_ => "IN"
  | .set => "SET"
  | .remove => "REMOVE"
  | .add => "ADD"
  | .delete => "DELETE"
  | .attributeExists => "attribute_exists"
  | .attributeNotExists => "attribute_not_exists"
  | .attributeType => "attribute_type"
  | .beginsWith => "begins_with"
  | .contains => "contains"
  | .size => "size"
  | .ifNotExists => "if_not_exists"
  | .listAppend => "list_append"
  | .number n => toString n
  | .eof => "EOF"

/-! ### Character classes -/

def isAsciiWhitespace (c : Char) : Bool :=
  c == ' ' || c == '\t' || c == '\n' || c == '\x0c' || c == '\r'

def isAsciiUppercase (c : Char) : Bool := 'A' ≤ c && c ≤ 'Z'

def isAsciiLowercase (c : Char) : Bool := 'a' ≤ c && c ≤ 'z'

/-- An identifier starts with a letter; underscores and digits only continue one. -/
def isIdentStart (c : Char) : Bool := isAsciiUppercase c || isAsciiLowercase c

def isIdentContinue (c : Char) : Bool := isIdentStart c || isAsciiDigit c || c == '_'

def toAsciiLowercase (c : Char) : Char :=
  if isAsciiUppercase c then Char.ofNat (c.toNat + 32) else c

/-! ### The tokenizer -/

def readExprAttrName (rest : List Char) : Except ExpressionError (Token × List Char) :=
  let name := rest.takeWhile isIdentContinue
  if name.isEmpty then .error (.unexpectedToken "attribute name after '#'" "empty")
  else .ok (.exprAttrName (String.ofList name), rest.dropWhile isIdentContinue)

def readExprAttrValue (rest : List Char) : Except ExpressionError (Token × List Char) :=
  let name := rest.takeWhile isIdentContinue
  if name.isEmpty then .error (.unexpectedToken "value name after ':'" "empty")
  else .ok (.exprAttrValue (String.ofList name), rest.dropWhile isIdentContinue)

def readLtFamily : List Char → Token × List Char
  | '=' :: rest => (.le, rest)
  | '>' :: rest => (.ne, rest)
  | rest => (.lt, rest)

def readGtFamily : List Char → Token × List Char
  | '=' :: rest => (.ge, rest)
  | rest => (.gt, rest)

def i32Max : ℕ := 2147483647

/-- A number past `usize` and one past `i32` end in the same error. -/
def readNumber (chars : List Char) : Except ExpressionError (Token × List Char) :=
  let digits := chars.takeWhile isAsciiDigit
  let value := Nat.ofDigitChars 10 digits 0
  if value > i32Max then
    .error (.validation ("List index is not within the allowable range; index: [" ++
      String.ofList digits ++ "]"))
  else .ok (.number value, chars.dropWhile isAsciiDigit)

def keyword (lower : String) : Option Token :=
  if lower = "and" then some .and
  else if lower = "or" then some .or
  else if lower = "not" then some .not
  else if lower = "between" then some .between
  else if lower = "in" then some .in_
  else if lower = "set" then some .set
  else if lower = "remove" then some .remove
  else if lower = "add" then some .add
  else if lower = "delete" then some .delete
  else none

def functionToken (ident : String) : Option Token :=
  if ident = "attribute_exists" then some .attributeExists
  else if ident = "attribute_not_exists" then some .attributeNotExists
  else if ident = "attribute_type" then some .attributeType
  else if ident = "begins_with" then some .beginsWith
  else if ident = "contains" then some .contains
  else if ident = "size" then some .size
  else if ident = "if_not_exists" then some .ifNotExists
  else if ident = "list_append" then some .listAppend
  else none

/-- Keywords in any case first, then function names, then plain identifiers. -/
def identifierToken (ident : List Char) : Token :=
  match keyword (String.ofList (ident.map toAsciiLowercase)) with
  | some tok => tok
  | none => (functionToken (String.ofList ident)).getD (.identifier (String.ofList ident))

def readIdentifierOrKeyword (chars : List Char) : Token × List Char :=
  (identifierToken (chars.takeWhile isIdentContinue), chars.dropWhile isIdentContinue)

/-- The tokens that are one character whatever follows it. -/
def punctuation : Char → Option Token
  | '=' => some .eq
  | '+' => some .plus
  | '-' => some .minus
  | '.' => some .dot
  | ',' => some .comma
  | '(' => some .lParen
  | ')' => some .rParen
  | '[' => some .lBracket
  | ']' => some .rBracket
  | _ => none

/-- Numbers and words; no token starts with any other character. -/
def readWord (ch : Char) (rest : List Char) : Except ExpressionError (Token × List Char) :=
  if isAsciiDigit ch then readNumber (ch :: rest)
  else if isIdentStart ch then .ok (readIdentifierOrKeyword (ch :: rest))
  else .error (.unexpectedToken "valid token"
    ("'" ++ ch.toString ++ "'; syntax error near '" ++ ch.toString ++ "'"))

def nextToken (chars : List Char) : Except ExpressionError (Token × List Char) :=
  match chars.dropWhile isAsciiWhitespace with
  | [] => .ok (.eof, [])
  | ch :: rest =>
    if ch = '#' then readExprAttrName rest
    else if ch = ':' then readExprAttrValue rest
    else if ch = '<' then .ok (readLtFamily rest)
    else if ch = '>' then .ok (readGtFamily rest)
    else match punctuation ch with
      | some tok => .ok (tok, rest)
      | none => readWord ch rest

/-- The tokenizer's loop with at most `fuel` rounds; `none` when they run out. -/
def tokenizeWith : ℕ → List Char → Option (Except ExpressionError (List Token))
  | 0, _ => none
  | fuel + 1, chars =>
    match nextToken chars with
    | .error e => some (.error e)
    | .ok (.eof, _) => some (.ok [.eof])
    | .ok (tok, rest) => (tokenizeWith fuel rest).map fun toks => toks.map (tok :: ·)

def tokenize (input : String) : Option (Except ExpressionError (List Token)) :=
  tokenizeWith (input.toList.length + 1) input.toList

end Rustack.DynamoDB
