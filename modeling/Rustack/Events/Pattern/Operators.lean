import Rustack.Events.Pattern.Types

/-!
# Operators

A single condition against a single value.  Conditions on the presence of a field are decided
by the engine and hold of no value here.
-/

namespace Rustack.Events

open Lib (Binary64)

inductive WildcardSegment where
  | literal (text : List Char)
  | star

namespace WildcardSegment

/-- The literal that was collected so far, when there is one. -/
def flush (currentLiteral : List Char) : List WildcardSegment :=
  if currentLiteral.isEmpty then [] else [.literal currentLiteral]

/-- Split a pattern into segments.  A backslash makes the next character literal. -/
def split (currentLiteral : List Char) : List Char → List WildcardSegment
  | [] => flush currentLiteral
  | '\\' :: next :: chars => split (currentLiteral ++ [next]) chars
  | '\\' :: [] => flush (currentLiteral ++ ['\\'])
  | '*' :: chars => flush currentLiteral ++ .star :: split [] chars
  | ch :: chars => split (currentLiteral ++ [ch]) chars

def matchSegments : List WildcardSegment → List Char → Bool
  | [], text => text.isEmpty
  | .literal lit :: segments, text =>
    lit.isPrefixOf text && matchSegments segments (text.drop lit.length)
  | [.star], _ => true
  | .star :: segments, text => text.tails.any fun rest => matchSegments segments rest

end WildcardSegment

def splitWildcardPattern (pattern : String) : List WildcardSegment :=
  WildcardSegment.split [] pattern.toList

def wildcardMatch (pattern text : String) : Bool :=
  WildcardSegment.matchSegments (splitWildcardPattern pattern) text.toList

def startsWith (text start : String) : Bool := start.toList.isPrefixOf text.toList

def endsWith (text ending : String) : Bool := ending.toList.isSuffixOf text.toList

def eqIgnoreAsciiCase (a b : String) : Bool := a.toLower == b.toLower

/-- The difference between one and the next number. -/
def epsilon : Binary64 := .finite (1 / 2 ^ 52)

def nearlyEqual (a b : Binary64) : Bool := (a.sub b).abs.lt epsilon

def matchAnythingBut (ab : AnythingButCondition) (value : Value) : Bool :=
  match ab with
  | .strings strings => value.asStr.all fun s => !strings.any (· == s)
  | .numbers numbers => value.asF64.all fun n => !numbers.any (nearlyEqual · n)
  | .hasPrefix text => value.asStr.all fun s => !startsWith s text
  | .hasSuffix text => value.asStr.all fun s => !endsWith s text
  | .equalsIgnoreCase target => value.asStr.all fun s => !eqIgnoreAsciiCase s target
  | .equalsIgnoreCaseList targets =>
    value.asStr.all fun s => !targets.any (eqIgnoreAsciiCase s ·)
  | .wildcard pattern => value.asStr.all fun s => !wildcardMatch pattern s

def matchNumeric (nc : NumericCondition) (value : Binary64) : Bool :=
  (nc.equals.all fun eq => !epsilon.le (eq.sub value).abs) &&
    (nc.lower.all fun lower =>
      !(if lower.inclusive then value.lt lower.value else value.le lower.value)) &&
    nc.upper.all fun upper =>
      !(if upper.inclusive then upper.value.lt value else upper.value.le value)

variable {Net : Type} (host : Host Net)

def matchSingleValue (condition : MatchCondition Net) (value : Value) : Bool :=
  match condition with
  | .exactString expected => value.asStr.any (· == expected)
  | .exactNumeric expected => value.asF64.any (nearlyEqual · expected)
  | .exactNull => value.isNull
  | .hasPrefix text => value.asStr.any (startsWith · text)
  | .prefixIgnoreCase text =>
    value.asStr.any fun s => startsWith (host.toLowercase s) (host.toLowercase text)
  | .hasSuffix text => value.asStr.any (endsWith · text)
  | .suffixIgnoreCase text =>
    value.asStr.any fun s => endsWith (host.toLowercase s) (host.toLowercase text)
  | .equalsIgnoreCase expected => value.asStr.any (eqIgnoreAsciiCase · expected)
  | .wildcard pattern => value.asStr.any (wildcardMatch pattern ·)
  | .anythingBut ab => matchAnythingBut ab value
  | .numeric nc => value.asF64.any (matchNumeric nc ·)
  | .exists _ => false
  | .cidr net => value.asStr.any (host.contains net ·)

end Rustack.Events
