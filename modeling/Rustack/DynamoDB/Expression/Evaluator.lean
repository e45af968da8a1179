import Rustack.Lib.Outcome
import Rustack.DynamoDB.SortKey
import Rustack.DynamoDB.Expression.Lexer

/-!
# Evaluating conditions

A condition against one item.  Numbers compare as binary floating point, which
the evaluator takes as a parameter; an argument index past the end of the
argument list and a window of size zero panic.
-/

namespace Rustack.DynamoDB

/-- The floating point operations the evaluator uses. -/
class F64 (F : Type) where
  parse : String → Option F
  sub : F → F → F
  abs : F → F
  lt : F → F → Bool
  le : F → F → Bool
  epsilon : F

/-- Natural numbers without sign or fraction, exact; enough to run a condition on. -/
instance wholeNumbers : F64 ℤ where
  parse s :=
    if !s.toList.isEmpty && s.toList.all isAsciiDigit then
      some (Nat.ofDigitChars 10 s.toList 0)
    else none
  sub x y := x - y
  abs x := x.natAbs
  lt x y := decide (x < y)
  le x y := decide (x ≤ y)
  epsilon := 1

/-- An item with the substitutions for `#name` and `:value`. -/
structure EvalContext where
  item : Item
  names : List (String × String)
  values : List (String × AttributeValue)

/-! ### Paths and operands -/

def AttributeValue.asM : AttributeValue → Option (List (String × AttributeValue))
  | .m entries => some entries
  | _ => none

def AttributeValue.asL : AttributeValue → Option (List AttributeValue)
  | .l values => some values
  | _ => none

/-- The attribute a path element names, through the substitutions when it is a `#name`. -/
def resolveName (names : List (String × String)) (name : String) : Option String :=
  if isReference name then names.lookup name else some name

/-- The same where a `#name` without a substitution stands for itself. -/
def resolveNameRef (names : List (String × String)) (name : String) : String :=
  if isReference name then (names.lookup name).getD name else name

def walkPath (names : List (String × String)) :
    List PathElement → Option AttributeValue → Option AttributeValue
  | [], current => current
  | .attribute name :: rest, current => do
    let resolved ← resolveName names name
    let map ← current >>= AttributeValue.asM
    walkPath names rest (map.lookup resolved)
  | .index idx :: rest, current => do
    let list ← current >>= AttributeValue.asL
    walkPath names rest list[idx]?

def EvalContext.resolvePath (ctx : EvalContext) (path : AttributePath) :
    Option AttributeValue :=
  match path.elements with
  | [] => none
  | .attribute name :: rest => do
    let resolved ← resolveName ctx.names name
    walkPath ctx.names rest (ctx.item.lookup resolved)
  | .index _ :: _ => none

/-- A constant of the query, as opposed to something read from the item. -/
def isQueryConstant : Operand → Bool
  | .value _ => true
  | .size _ => true
  | .path _ => false

def attributeSize : AttributeValue → ℕ
  | .s v => byteLen v
  | .n v => byteLen v
  | .b v => v.length
  | .ss v => v.length
  | .ns v => v.length
  | .bs v => v.length
  | .bool _ => 1
  | .null _ => 1
  | .l v => v.length
  | .m v => v.length

/-- What `size` makes of a value; numbers, booleans and nulls have none. -/
def sizeOf (inner : Operand) (v : AttributeValue) :
    Except ExpressionError (Option AttributeValue) :=
  match v with
  | .n _ | .bool _ | .null _ =>
    if isQueryConstant inner then
      .error (.invalidOperand "size"
        ("Incorrect operand type for operator or function; operator or function: size, " ++
          "operand type: " ++ v.typeDescriptor))
    else .ok none
  | _ => .ok (some (.n (toString (attributeSize v))))

def EvalContext.resolveOperand (ctx : EvalContext) :
    Operand → Except ExpressionError (Option AttributeValue)
  | .path p => .ok (ctx.resolvePath p)
  | .value name =>
    match ctx.values.lookup (":" ++ name) with
    | some v => .ok (some v)
    | none => .error (.unresolvedValue (":" ++ name))
  | .size inner => do
    match ← ctx.resolveOperand inner with
    | some v => sizeOf inner v
    | none => .ok none

/-! ### Comparing values -/

def isOrderingOp : CompareOp → Bool
  | .lt | .le | .gt | .ge => true
  | _ => false

def isOrderingUnsupportedType : AttributeValue → Bool
  | .l _ | .m _ | .ss _ | .ns _ | .bs _ | .null _ => true
  | _ => false

def validateOrderingOperandType (operand : Operand) (resolved : AttributeValue)
    (operatorName : String) : Except ExpressionError Unit :=
  if isQueryConstant operand && isOrderingUnsupportedType resolved then
    .error (.invalidOperand "operator"
      ("Incorrect operand type for operator or function; operator: " ++ operatorName ++
        ", operand type: " ++ resolved.typeDescriptor))
  else .ok ()

/-- A comparison sign against the outcome of a three-way comparison. -/
def compareOrd (ord : Ordering) : CompareOp → Bool
  | .eq => ord == .eq
  | .ne => ord != .eq
  | .lt => ord == .lt
  | .le => ord != .gt
  | .gt => ord == .gt
  | .ge => ord != .lt

/-- Types with equality only: equal values are also `<=` and `>=`. -/
def applyEqualityOp (eq : Bool) : CompareOp → Bool
  | .eq => eq
  | .ne => !eq
  | .le => eq
  | .ge => eq
  | _ => false

def setsEqual {α : Type} [BEq α] (a b : List α) : Bool :=
  a.length == b.length && a.all fun item => b.contains item

section Numbers

variable (F : Type) [F64 F]

def compareF64 (a b : F) : CompareOp → Bool
  | .eq => F64.lt (F64.abs (F64.sub a b)) F64.epsilon
  | .ne => F64.le F64.epsilon (F64.abs (F64.sub a b))
  | .lt => F64.lt a b
  | .le => F64.le a b
  | .gt => F64.lt b a
  | .ge => F64.le b a

def parseNumber (s : String) : Except ExpressionError F :=
  match F64.parse s with
  | some f => .ok f
  | none => .error (.typeMismatch ("'" ++ s ++ "' is not a valid number"))

mutual

/-- Equality inside lists and maps: numbers by value, sets in any order. -/
def deepEqualValues : AttributeValue → AttributeValue → Bool
  | .s x, .s y => x == y
  | .n x, .n y =>
    match (F64.parse x : Option F), (F64.parse y : Option F) with
    | some fx, some fy => F64.lt (F64.abs (F64.sub fx fy)) F64.epsilon
    | _, _ => x == y
  | .b x, .b y => x == y
  | .bool x, .bool y => x == y
  | .null x, .null y => x == y
  | .ss x, .ss y => setsEqual x y
  | .ns x, .ns y => setsEqual x y
  | .bs x, .bs y => setsEqual x y
  | .l x, .l y => deepEqualLists x y
  | .m x, .m y => x.length == y.length && deepEqualEntries x y
  | _, _ => false

def deepEqualLists : List AttributeValue → List AttributeValue → Bool
  | [], [] => true
  | x :: xs, y :: ys => deepEqualValues x y && deepEqualLists xs ys
  | _, _ => false

/-- Every entry of the first map has an equal one in the second. -/
def deepEqualEntries :
    List (String × AttributeValue) → List (String × AttributeValue) → Bool
  | [], _ => true
  | (k, x) :: xs, ys =>
    (match ys.lookup k with
      | some y => deepEqualValues x y
      | none => false) && deepEqualEntries xs ys

end

def compareValues (left right : AttributeValue) (op : CompareOp) :
    Except ExpressionError Bool :=
  match left, right with
  | .s a, .s b => .ok (compareOrd (Utf8.compareBytes (asBytes a) (asBytes b)) op)
  | .n a, .n b => do
    let fa ← parseNumber F a
    let fb ← parseNumber F b
    .ok (compareF64 F fa fb op)
  | .b a, .b b => .ok (compareOrd (Utf8.compareBytes a b) op)
  | .bool a, .bool b => .ok (compareOrd (compare a b) op)
  | .null true, .null true => .ok (op == .eq || op == .le || op == .ge)
  | .ss a, .ss b => .ok (applyEqualityOp (setsEqual a b) op)
  | .ns a, .ns b => .ok (applyEqualityOp (setsEqual a b) op)
  | .bs a, .bs b => .ok (applyEqualityOp (setsEqual a b) op)
  | .l a, .l b => .ok (applyEqualityOp (deepEqualLists F a b) op)
  | .m a, .m b => .ok (applyEqualityOp (a.length == b.length && deepEqualEntries F a b) op)
  | _, _ => .ok (op == .ne)

end Numbers

/-! ### Functions -/

/-- `args[i]`. -/
def argument (args : List Operand) (i : ℕ) : Outcome ExpressionError Operand :=
  match args[i]? with
  | some operand => .ok operand
  | none => .panic

def operandAsPath (operand : Operand) (functionName : String) :
    Except ExpressionError AttributePath :=
  match operand with
  | .path p => .ok p
  | _ => .error (.invalidOperand functionName "argument must be an attribute path")

def isValidTypeDescriptor (s : String) : Bool :=
  ["S", "SS", "N", "NS", "B", "BS", "BOOL", "NULL", "L", "M"].contains s

def isInfix {α : Type} [BEq α] (sub : List α) (whole : List α) : Bool :=
  whole.tails.any fun tail => sub.isPrefixOf tail

/-- `windows(sub.len()).any(..)`: a window has to have a size. -/
def windowsContain (whole sub : List UInt8) : Outcome ExpressionError Bool :=
  if sub.length = 0 then .panic else .ok (isInfix sub whole)

namespace EvalContext

variable (ctx : EvalContext)

def evalExists (args : List Operand) (functionName : String) :
    Outcome ExpressionError Bool := do
  let path ← operandAsPath (← argument args 0) functionName
  pure (ctx.resolvePath path).isSome

/-- The second argument of `attribute_type` has to be a `:value`. -/
def typeArgument (operand : Operand) : Except ExpressionError (Option AttributeValue) :=
  match operand with
  | .value _ => ctx.resolveOperand operand
  | _ => .error (.invalidOperand "attribute_type"
      "second argument must be an expression attribute value")

def evalAttributeType (args : List Operand) : Outcome ExpressionError Bool := do
  match ← (ctx.typeArgument (← argument args 1) : Except _ _) with
  | some (.s expected) =>
    if !isValidTypeDescriptor expected then
      throw (.typeMismatch ("Invalid type: " ++ expected ++
        ". Valid types: S, SS, N, NS, B, BS, BOOL, NULL, L, M"))
    match ← (ctx.resolveOperand (← argument args 0) : Except _ _) with
    | some v => pure (v.typeDescriptor == expected)
    | none => pure false
  | _ => throw (.typeMismatch "attribute_type second argument must be a string")

def validateBeginsWithOperand (operand : Operand) (resolved : Option AttributeValue) :
    Except ExpressionError Unit :=
  match resolved with
  | none | some (.s _) | some (.b _) => .ok ()
  | some v =>
    if isQueryConstant operand then
      .error (.invalidOperand "begins_with"
        ("Incorrect operand type for operator or function; operator or function: begins_with, " ++
          "operand type: " ++ v.typeDescriptor))
    else .ok ()

def evalBeginsWith (args : List Operand) : Outcome ExpressionError Bool := do
  let first ← argument args 0
  let lval ← (ctx.resolveOperand first : Except _ _)
  let second ← argument args 1
  let rval ← (ctx.resolveOperand second : Except _ _)
  let _ ← (validateBeginsWithOperand first lval : Except _ _)
  let _ ← (validateBeginsWithOperand second rval : Except _ _)
  match lval, rval with
  | some (.s text), some (.s pre) => pure (startsWith text pre)
  | some (.b bytes), some (.b pre) => pure (pre.isPrefixOf bytes)
  | _, _ => pure false

def containsValue (attr search : AttributeValue) : Outcome ExpressionError Bool :=
  match attr, search with
  | .s text, .s sub => .ok (isInfix sub.toList text.toList)
  | .b bytes, .b sub => windowsContain bytes sub
  | .ss set, .s v => .ok (set.contains v)
  | .ns set, .n v => .ok (set.contains v)
  | .bs set, .b v => .ok (set.contains v)
  | .l list, v => .ok (list.any fun x => x == v)
  | _, _ => .ok false

def evalContains (args : List Operand) : Outcome ExpressionError Bool := do
  let path ← (operandAsPath (← argument args 0) "contains" : Except _ _)
  let searchVal ← (ctx.resolveOperand (← argument args 1) : Except _ _)
  match ctx.resolvePath path, searchVal with
  | some attr, some search => containsValue attr search
  | _, _ => pure false

def evalFunction (name : FunctionName) (args : List Operand) : Outcome ExpressionError Bool :=
  match name with
  | .attributeExists => ctx.evalExists args "attribute_exists"
  | .attributeNotExists => do
    let exists_ ← ctx.evalExists args "attribute_not_exists"
    pure (!exists_)
  | .attributeType => ctx.evalAttributeType args
  | .beginsWith => ctx.evalBeginsWith args
  | .contains => ctx.evalContains args
  | .size => throw (.invalidOperand "condition"
      "size() cannot be used as a standalone condition; use it in a comparison")

/-! ### Conditions -/

section Conditions

variable (F : Type) [F64 F]

/-- An operand that is missing equals nothing and differs from everything. -/
def evalCompare (left : Operand) (op : CompareOp) (right : Operand) :
    Except ExpressionError Bool := do
  let lval ← ctx.resolveOperand left
  let rval ← ctx.resolveOperand right
  match lval, rval with
  | some lv, some rv =>
    if isOrderingOp op then
      validateOrderingOperandType left lv op.display
      validateOrderingOperandType right rv op.display
    compareValues F lv rv op
  | _, _ => .ok (op == .ne)

/-- Two constants as bounds have to have one type and be in order. -/
def validateBounds (low high : Operand) (lo hi : AttributeValue) :
    Except ExpressionError Unit :=
  if isQueryConstant low && isQueryConstant high then
    if lo.typeDescriptor != hi.typeDescriptor then
      .error (.typeMismatch
        "BETWEEN bounds must have the same type when both are expression attribute values")
    else do
      if ← compareValues F lo hi .gt then
        .error (.typeMismatch ("BETWEEN bounds are in wrong order; low bound must be less than " ++
          "or equal to high bound"))
      else .ok ()
  else .ok ()

def evalBetween (value low high : Operand) : Except ExpressionError Bool := do
  let v ← ctx.resolveOperand value
  let lo ← ctx.resolveOperand low
  let hi ← ctx.resolveOperand high
  match v, lo, hi with
  | some v, some lo, some hi =>
    validateOrderingOperandType value v "BETWEEN"
    validateOrderingOperandType low lo "BETWEEN"
    validateOrderingOperandType high hi "BETWEEN"
    validateBounds F low high lo hi
    let geLow ← compareValues F v lo .ge
    let leHigh ← compareValues F v hi .le
    .ok (geLow && leHigh)
  | _, _, _ => .ok false

def evalInItems (v : AttributeValue) : List Operand → Except ExpressionError Bool
  | [] => .ok false
  | item :: rest => do
    match ← ctx.resolveOperand item with
    | some iv => if ← compareValues F v iv .eq then .ok true else evalInItems v rest
    | none => evalInItems v rest

def evalIn (value : Operand) (list : List Operand) : Except ExpressionError Bool := do
  match ← ctx.resolveOperand value with
  | some v => ctx.evalInItems F v list
  | none => .ok false

/-- The right side is evaluated only when the left one does not decide. -/
def evaluate : Expr → Outcome ExpressionError Bool
  | .compare left op right => .ofExcept (ctx.evalCompare F left op right)
  | .between value low high => .ofExcept (ctx.evalBetween F value low high)
  | .inList value list => .ofExcept (ctx.evalIn F value list)
  | .logical .and left right => do
    if !(← evaluate left) then pure false else evaluate right
  | .logical .or left right => do
    if ← evaluate left then pure true else evaluate right
  | .not inner => do
    let b ← evaluate inner
    pure (!b)
  | .function name args => ctx.evalFunction name args

end Conditions

end EvalContext

end Rustack.DynamoDB
