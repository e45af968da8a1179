import Mathlib.Data.List.Basic

/-!
# Payloads of state machines

JSON values with their compact encoding, and the limits within which a value can be
the payload of a state or the context of an execution.  Numbers that are not integers
are kept as they are printed.
-/

namespace Rustack.StepFunctions

inductive JsonError where
  | invalidLimits
  | bytes
  | depth
  | members
  | string
  | key
  | duplicate
  | malformed
  | schema
  deriving DecidableEq

inductive AslError where
  | invalidCallbackContext
  | invalidMap
  | invalidFanoutResult
  | structuredExecutionRequired
  | invalidExecution
  | invalidFailure
  | invalidScope
  | invalidStateId
  | invalidTemplate
  | invalidDataFlow
  | invalidExpression
  | intrinsicValue
  | entropy
  | allocation
  | invalidWait
  | waitValue
  | invalidPredicate
  | numericRange
  | invalidPath
  | invalidReference
  | invalidResultTarget
  | missing
  | merge
  | workLimit
  | dataLimit
  | json (error : JsonError)
  | encoding
  deriving DecidableEq

inductive Number where
  | natural (n : ℕ)
  | negative (n : ℕ)
  | float (text : String)
  deriving DecidableEq

inductive Value where
  | null
  | bool (b : Bool)
  | number (n : Number)
  | string (text : String)
  | array (values : List Value)
  | object (fields : List (String × Value))

namespace Number

def encode : Number → String
  | natural n => toString n
  | negative n => "-" ++ toString n
  | float text => text

end Number

namespace Value

def isObject : Value → Bool
  | object _ => true
  | _ => false

def asObject : Value → Option (List (String × Value))
  | object fields => some fields
  | _ => none

def asArray : Value → Option (List Value)
  | array values => some values
  | _ => none

def asStr : Value → Option String
  | string text => some text
  | _ => none

def asU64 : Value → Option ℕ
  | number (.natural n) => some n
  | _ => none

/-- Set a member of an object, whose members are ordered by their keys. -/
def insertField (key : String) (value : Value) : List (String × Value) → List (String × Value)
  | [] => [(key, value)]
  | (key', value') :: fields =>
    if key < key' then (key, value) :: (key', value') :: fields
    else if key = key' then (key, value) :: fields
    else (key', value') :: insertField key value fields

def removeField (key : String) (fields : List (String × Value)) : List (String × Value) :=
  fields.filter fun field => field.1 ≠ key

def getField (key : String) (fields : List (String × Value)) : Option Value :=
  fields.lookup key

/-! ## Encoding -/

def hexDigit (n : ℕ) : Char :=
  if n < 10 then Char.ofNat (48 + n) else Char.ofNat (87 + n)

def escapeChar (c : Char) : String :=
  if c = '"' then "\\\""
  else if c = '\\' then "\\\\"
  else if c = '\n' then "\\n"
  else if c = '\r' then "\\r"
  else if c = '\t' then "\\t"
  else if c.toNat = 8 then "\\b"
  else if c.toNat = 12 then "\\f"
  else if c.toNat < 32 then
    "\\u00" ++ String.ofList [hexDigit (c.toNat / 16), hexDigit (c.toNat % 16)]
  else String.singleton c

def encodeString (text : String) : String :=
  "\"" ++ String.join (text.toList.map escapeChar) ++ "\""

mutual

def encode : Value → String
  | null => "null"
  | bool b => if b then "true" else "false"
  | number n => n.encode
  | string text => encodeString text
  | array values => "[" ++ ",".intercalate (encodeValues values) ++ "]"
  | object fields => "\x7b" ++ ",".intercalate (encodeFields fields) ++ "\x7d"
termination_by structural value => value

def encodeValues : List Value → List String
  | [] => []
  | value :: values => value.encode :: encodeValues values
termination_by structural values => values

def encodeFields : List (String × Value) → List String
  | [] => []
  | field :: fields => encodeField field :: encodeFields fields
termination_by structural fields => fields

def encodeField : String × Value → String
  | (key, value) => encodeString key ++ ":" ++ value.encode
termination_by structural field => field

end

end Value

/-! ## Limits -/

def MAX_PAYLOAD_BYTES : ℕ := 262144

structure TreeLimits where
  bytes : ℕ
  depth : ℕ
  members : ℕ
  deriving DecidableEq

def PAYLOAD_LIMITS : TreeLimits := ⟨MAX_PAYLOAD_BYTES, 64, 65536⟩

def CONTEXT_LIMITS : TreeLimits := ⟨4 * 1024 * 1024, 68, 2 * 65536 + 512⟩

def checkString (text : String) : Except AslError Unit :=
  if MAX_PAYLOAD_BYTES < text.utf8ByteSize then .error (.json .string) else .ok ()

/-- Take the members of a container off those that are left. -/
def checkContainer (depth length remaining maxDepth : ℕ) : Except AslError ℕ :=
  if maxDepth ≤ depth then .error (.json .depth)
  else if remaining < length then .error (.json .members)
  else .ok (remaining - length)

namespace Value

mutual

/-- Check a value at some depth.  The source keeps what is left to check on a stack, so that the
members of a container are checked from the last to the first. -/
def check (maxDepth depth : ℕ) : Value → ℕ → Except AslError ℕ
  | array values, remaining => do
    let remaining ← checkContainer depth values.length remaining maxDepth
    checkValues maxDepth (depth + 1) values remaining
  | object fields, remaining => do
    let remaining ← checkContainer depth fields.length remaining maxDepth
    fields.forM fun field => checkString field.1
    checkFields maxDepth (depth + 1) fields remaining
  | string text, remaining => do
    checkString text
    pure remaining
  | _, remaining => pure remaining
termination_by structural value => value

def checkValues (maxDepth depth : ℕ) : List Value → ℕ → Except AslError ℕ
  | [], remaining => pure remaining
  | value :: values, remaining => do
    let remaining ← checkValues maxDepth depth values remaining
    check maxDepth depth value remaining
termination_by structural values => values

def checkFields (maxDepth depth : ℕ) : List (String × Value) → ℕ → Except AslError ℕ
  | [], remaining => pure remaining
  | field :: fields, remaining => do
    let remaining ← checkFields maxDepth depth fields remaining
    checkField maxDepth depth field remaining
termination_by structural fields => fields

def checkField (maxDepth depth : ℕ) : String × Value → ℕ → Except AslError ℕ
  | (_, value), remaining => check maxDepth depth value remaining
termination_by structural field => field

end

def validate (value : Value) (limits : TreeLimits) : Except AslError Unit := do
  let _ ← value.check limits.depth 0 limits.members
  pure ()

def encodeWithLimit (value : Value) (limit : ℕ) : Except AslError String :=
  if limit < value.encode.utf8ByteSize then .error .dataLimit else .ok value.encode

end Value

/-- A checked value with the bytes it came in or was encoded to. -/
structure Payload where
  value : Value
  bytes : String

def Payload.fromValue (value : Value) : Except AslError Payload := do
  value.validate PAYLOAD_LIMITS
  let bytes ← value.encodeWithLimit MAX_PAYLOAD_BYTES
  pure ⟨value, bytes⟩

structure EvaluationContext where
  value : Value

def EvaluationContext.fromValue (value : Value) : Except AslError EvaluationContext := do
  value.validate CONTEXT_LIMITS
  let _ ← value.encodeWithLimit CONTEXT_LIMITS.bytes
  pure ⟨value⟩

end Rustack.StepFunctions
