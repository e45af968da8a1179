import Rustack.Events.Pattern.Operators

/-!
# The matching engine

Fields are looked up in the event along their paths.  When the object of a nested pattern is not
there, the pattern matches if all that it asks for is the absence of single fields.
-/

namespace Rustack.Events

variable {Net : Type}

def navigatePath (event : Value) : List String → Option Value
  | [] => some event
  | segment :: path => (event.get segment).bind fun current => navigatePath current path

mutual

/-- All matchers are absence checks of a single field. -/
def allFieldsAreExistsFalse : List (FieldMatcher Net) → Bool
  | [] => true
  | matcher :: fields => fieldIsExistsFalse matcher && allFieldsAreExistsFalse fields

def fieldIsExistsFalse : FieldMatcher Net → Bool
  | .mk _ node => nodeIsExistsFalse node

def nodeIsExistsFalse : PatternNode Net → Bool
  | .leaf [.exists false] => true
  | .leaf _ => false
  | .object fields orConditions => allFieldsAreExistsFalse fields && orConditions.isEmpty

end

variable (host : Host Net)

def matchValueOrArray (condition : MatchCondition Net) (value : Value) : Bool :=
  match value with
  | .array arr => arr.any (matchSingleValue host condition)
  | _ => matchSingleValue host condition value

def matchLeaf (conditions : List (MatchCondition Net)) (fieldValue : Option Value) : Bool :=
  if conditions.any MatchCondition.isExists then
    conditions.any fun c =>
      match c with
      | .exists expected => expected == fieldValue.isSome
      | other => fieldValue.any (matchValueOrArray host other)
  else
    match fieldValue with
    | none => false
    | some val => conditions.any fun c => matchValueOrArray host c val

mutual

def matchField : FieldMatcher Net → Value → Bool
  | .mk path node, event => matchNode node (navigatePath event path)

def matchNode : PatternNode Net → Option Value → Bool
  | .leaf conditions, fieldValue => matchLeaf host conditions fieldValue
  | .object fields orConditions, some nested =>
    matchAll fields nested && (orConditions.isEmpty || matchAny orConditions nested)
  | .object fields orConditions, none =>
    allFieldsAreExistsFalse fields && orConditions.isEmpty

/-- Every matcher matches. -/
def matchAll : List (FieldMatcher Net) → Value → Bool
  | [], _ => true
  | matcher :: fields, event => matchField matcher event && matchAll fields event

/-- Every matcher of some group matches. -/
def matchAny : List (List (FieldMatcher Net)) → Value → Bool
  | [], _ => false
  | group :: orConditions, event => matchAll group event || matchAny orConditions event

end

def matchPatternFields (fields : List (FieldMatcher Net))
    (orConditions : List (List (FieldMatcher Net))) (event : Value) : Bool :=
  matchAll host fields event && (orConditions.isEmpty || matchAny host orConditions event)

def EventPattern.matches (pattern : EventPattern Net) (event : Value) : Bool :=
  matchPatternFields host pattern.fields pattern.orConditions event

end Rustack.Events
