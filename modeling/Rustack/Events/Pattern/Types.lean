import Rustack.Events.Json

/-!
# Parsed patterns

A pattern is a list of field matchers that must all match, with branches of which one must
match when there is any.  `Net` is the type of the parsed address blocks.
-/

namespace Rustack.Events

open Lib (Binary64)

inductive AnythingButCondition where
  | strings (strings : List String)
  | numbers (numbers : List Binary64)
  | hasPrefix (text : String)
  | hasSuffix (text : String)
  | equalsIgnoreCase (text : String)
  | equalsIgnoreCaseList (texts : List String)
  | wildcard (pattern : String)

structure NumericBound where
  value : Binary64
  inclusive : Bool

structure NumericCondition where
  lower : Option NumericBound
  upper : Option NumericBound
  equals : Option Binary64

inductive MatchCondition (Net : Type) where
  | exactString (text : String)
  | exactNumeric (n : Binary64)
  | exactNull
  | hasPrefix (text : String)
  | prefixIgnoreCase (text : String)
  | hasSuffix (text : String)
  | suffixIgnoreCase (text : String)
  | equalsIgnoreCase (text : String)
  | wildcard (pattern : String)
  | anythingBut (condition : AnythingButCondition)
  | numeric (condition : NumericCondition)
  | exists (expected : Bool)
  | cidr (net : Net)

/-- The condition is about the presence of a field. -/
def MatchCondition.isExists {Net : Type} : MatchCondition Net → Bool
  | .exists _ => true
  | _ => false

mutual

inductive FieldMatcher (Net : Type) where
  | mk (path : List String) (node : PatternNode Net)

inductive PatternNode (Net : Type) where
  | leaf (conditions : List (MatchCondition Net))
  | object (fields : List (FieldMatcher Net)) (orConditions : List (List (FieldMatcher Net)))

end

structure EventPattern (Net : Type) where
  fields : List (FieldMatcher Net)
  orConditions : List (List (FieldMatcher Net))

/-- What the patterns take from the libraries: address blocks and the lower case of a text. -/
structure Host (Net : Type) where
  parseNet : String → Except String Net
  contains : Net → String → Bool
  toLowercase : String → String

end Rustack.Events
