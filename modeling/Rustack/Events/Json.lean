import Rustack.Lib.Binary64

/-!
# JSON values

The values that patterns and events are parsed to.  The members of an object have distinct
keys, and `Json` is a value that has this at every depth.
-/

namespace Rustack.Events

open Lib (Binary64 Finite64)

inductive Number where
  | posInt (n : UInt64)
  | negInt (n : Int64)
  | float (f : Finite64)

namespace Number

/-- The number itself, before any rounding. -/
def exact : Number → ℚ
  | posInt n => n.toNat
  | negInt n => n.toInt
  | float f => f.value

def asF64 : Number → Binary64
  | posInt n => .round n.toNat
  | negInt n => .round n.toInt
  | float f => .finite f.value

end Number

inductive Value where
  | null
  | bool (b : Bool)
  | number (n : Number)
  | string (text : String)
  | array (values : List Value)
  | object (fields : List (String × Value))

namespace Value

def asArray : Value → Option (List Value)
  | array values => some values
  | _ => none

def asObject : Value → Option (List (String × Value))
  | object fields => some fields
  | _ => none

def asStr : Value → Option String
  | string text => some text
  | _ => none

def asBool : Value → Option Bool
  | bool b => some b
  | _ => none

def asF64 : Value → Option Binary64
  | number n => some n.asF64
  | _ => none

def isNull : Value → Bool
  | null => true
  | _ => false

def isString : Value → Bool
  | string _ => true
  | _ => false

def isNumber : Value → Bool
  | number _ => true
  | _ => false

def get (value : Value) (key : String) : Option Value :=
  match value with
  | object fields => fields.lookup key
  | _ => none

/-- Every object of a value has distinct keys. -/
inductive Distinct : Value → Prop
  | null : Distinct null
  | bool (b : Bool) : Distinct (bool b)
  | number (n : Number) : Distinct (number n)
  | string (text : String) : Distinct (string text)
  | array {values : List Value} (hvalues : ∀ value ∈ values, Distinct value) :
      Distinct (array values)
  | object {fields : List (String × Value)} (hkeys : (fields.map Prod.fst).Nodup)
      (hvalues : ∀ field ∈ fields, Distinct field.2) : Distinct (object fields)

end Value

structure Json where
  value : Value
  distinct : value.Distinct

end Rustack.Events
