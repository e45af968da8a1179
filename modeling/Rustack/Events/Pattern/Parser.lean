import Rustack.Events.Pattern.Types
import Rustack.Lib.Outcome

/-!
# The parser of patterns

Objects are parsed member by member.  A branch of `$or` that has branches itself is expanded:
each of them is joined with the fields of the branch.
-/

namespace Rustack.Events

open Lib (Binary64)
open Except (bind_eq_ok)

inductive PatternParseError where
  | invalidJson (text : String)
  | notAnObject
  | orNotArray
  | orItemNotObject
  | invalidFieldValue (field : String)
  | unknownOperator (operator : String)
  | invalidOperatorValue (operator reason : String)
  | invalidNumericCondition (text : String)
  | consecutiveWildcardStars
  | invalidCidr (text : String)
  deriving DecidableEq

variable {Net : Type}

/-! ## Conditions -/

/-- The string of a value, or the error that the operator gives. -/
def stringOr (operator reason : String) (value : Value) : Except PatternParseError String :=
  match value.asStr with
  | some s => .ok s
  | none => .error (.invalidOperatorValue operator reason)

def validateStars (prevWasStar : Bool) : List Char → Except PatternParseError Unit
  | [] => .ok ()
  | '\\' :: _ :: chars => validateStars false chars
  | '\\' :: [] => .ok ()
  | '*' :: chars =>
    if prevWasStar then .error .consecutiveWildcardStars else validateStars true chars
  | _ :: chars => validateStars false chars

def validateWildcardPattern (pattern : String) : Except PatternParseError Unit :=
  validateStars false pattern.toList

def parsePrefixOrSuffix (value : Value) (isPrefix : Bool) :
    Except PatternParseError (MatchCondition Net) :=
  let opName := if isPrefix then "prefix" else "suffix"
  match value with
  | .string s => .ok (if isPrefix then .hasPrefix s else .hasSuffix s)
  | .object obj =>
    match obj.lookup "equals-ignore-case" with
    | some icValue => do
      let s ← stringOr opName "equals-ignore-case value must be a string" icValue
      .ok (if isPrefix then .prefixIgnoreCase s else .suffixIgnoreCase s)
    | none =>
      .error (.invalidOperatorValue opName "object value must have 'equals-ignore-case' key")
  | _ =>
    .error (.invalidOperatorValue opName
      "value must be a string or object with 'equals-ignore-case'")

def parseAnythingButArray (arr : List Value) : Except PatternParseError (MatchCondition Net) :=
  match arr with
  | [] => .error (.invalidOperatorValue "anything-but" "array must not be empty")
  | first :: _ =>
    if first.isString then do
      let strings ← arr.mapM (stringOr "anything-but"
        "all array elements must be the same type (expected string)")
      .ok (.anythingBut (.strings strings))
    else if first.isNumber then do
      let numbers ← arr.mapM fun item =>
        match item.asF64 with
        | some n => .ok n
        | none => .error (.invalidOperatorValue "anything-but"
            "all array elements must be the same type (expected number)")
      .ok (.anythingBut (.numbers numbers))
    else
      .error (.invalidOperatorValue "anything-but" "array elements must be strings or numbers")

def parseAnythingButObject (obj : List (String × Value)) :
    Except PatternParseError (MatchCondition Net) :=
  match obj with
  | [("prefix", value)] => do
    let s ← stringOr "anything-but.prefix" "value must be a string" value
    .ok (.anythingBut (.hasPrefix s))
  | [("suffix", value)] => do
    let s ← stringOr "anything-but.suffix" "value must be a string" value
    .ok (.anythingBut (.hasSuffix s))
  | [("equals-ignore-case", value)] =>
    match value with
    | .string s => .ok (.anythingBut (.equalsIgnoreCase s))
    | .array arr => do
      let strings ← arr.mapM (stringOr "anything-but.equals-ignore-case"
        "all array elements must be strings")
      .ok (.anythingBut (.equalsIgnoreCaseList strings))
    | _ => .error (.invalidOperatorValue "anything-but.equals-ignore-case"
        "value must be a string or array of strings")
  | [("wildcard", value)] => do
    let s ← stringOr "anything-but.wildcard" "value must be a string" value
    validateWildcardPattern s
    .ok (.anythingBut (.wildcard s))
  | [(other, _)] => .error (.unknownOperator ("anything-but." ++ other))
  | _ => .error (.invalidOperatorValue "anything-but" "inner object must have exactly one key")

def parseAnythingBut (value : Value) : Except PatternParseError (MatchCondition Net) :=
  match value with
  | .string s => .ok (.anythingBut (.strings [s]))
  | .number n => .ok (.anythingBut (.numbers [n.asF64]))
  | .array arr => parseAnythingButArray arr
  | .object obj => parseAnythingButObject obj
  | _ => .error (.invalidOperatorValue "anything-but"
      "value must be a string, number, array, or object")

/-- The condition with one more pair of an operator and an operand. -/
def NumericCondition.add (condition : NumericCondition) (op : String) (num : Binary64) :
    Except PatternParseError NumericCondition :=
  match op with
  | ">" => .ok { condition with lower := some { value := num, inclusive := false } }
  | ">=" => .ok { condition with lower := some { value := num, inclusive := true } }
  | "<" => .ok { condition with upper := some { value := num, inclusive := false } }
  | "<=" => .ok { condition with upper := some { value := num, inclusive := true } }
  | "=" => .ok { condition with equals := some num }
  | other => .error (.invalidNumericCondition ("unknown numeric operator: \"" ++ other ++ "\""))

def parsePairs (condition : NumericCondition) : List Value →
    Except PatternParseError NumericCondition
  | operator :: operand :: arr =>
    match operator.asStr with
    | none => .error (.invalidNumericCondition "operator must be a string")
    | some op =>
      match operand.asF64 with
      | none => .error (.invalidNumericCondition "operand must be a number")
      | some num => do
        let condition ← condition.add op num
        parsePairs condition arr
  | _ => .ok condition

def parseNumeric (value : Value) : Except PatternParseError (MatchCondition Net) :=
  match value.asArray with
  | none => .error (.invalidNumericCondition "numeric value must be an array")
  | some arr =>
    if arr.isEmpty ∨ arr.length % 2 ≠ 0 ∨ 4 < arr.length then
      .error (.invalidNumericCondition
        "numeric array must have 2 or 4 elements (operator-value pairs)")
    else do
      let condition ← parsePairs { lower := none, upper := none, equals := none } arr
      .ok (.numeric condition)

variable (host : Host Net)

def parseOperatorCondition (obj : List (String × Value)) :
    Except PatternParseError (MatchCondition Net) :=
  match obj with
  | [("prefix", opValue)] => parsePrefixOrSuffix opValue true
  | [("suffix", opValue)] => parsePrefixOrSuffix opValue false
  | [("equals-ignore-case", opValue)] => do
    let s ← stringOr "equals-ignore-case" "value must be a string" opValue
    .ok (.equalsIgnoreCase s)
  | [("wildcard", opValue)] => do
    let s ← stringOr "wildcard" "value must be a string" opValue
    validateWildcardPattern s
    .ok (.wildcard s)
  | [("anything-but", opValue)] => parseAnythingBut opValue
  | [("numeric", opValue)] => parseNumeric opValue
  | [("exists", opValue)] =>
    match opValue.asBool with
    | some b => .ok (.exists b)
    | none => .error (.invalidOperatorValue "exists" "value must be a boolean")
  | [("cidr", opValue)] => do
    let s ← stringOr "cidr" "value must be a string" opValue
    match host.parseNet s with
    | .ok net => .ok (.cidr net)
    | .error e => .error (.invalidCidr e)
  | [(other, _)] => .error (.unknownOperator other)
  | _ => .error (.invalidOperatorValue "operator" "operator object must have exactly one key")

def parseSingleCondition (value : Value) : Except PatternParseError (MatchCondition Net) :=
  match value with
  | .string s => .ok (.exactString s)
  | .number n => .ok (.exactNumeric n.asF64)
  | .null => .ok .exactNull
  | .object obj => parseOperatorCondition host obj
  | _ => .error (.invalidOperatorValue "condition"
      "condition must be a string, number, null, or operator object")

def parseConditions (arr : List Value) : Except PatternParseError (List (MatchCondition Net)) :=
  arr.mapM (parseSingleCondition host)

/-! ## Objects -/

/-- The branches that an item of `$or` adds. -/
def EventPattern.branches (subPattern : EventPattern Net) : List (List (FieldMatcher Net)) :=
  if subPattern.orConditions.isEmpty then [subPattern.fields]
  else subPattern.orConditions.map fun nestedBranch => subPattern.fields ++ nestedBranch

mutual

def parseObject : List (String × Value) → Except PatternParseError (EventPattern Net)
  | [] => .ok { fields := [], orConditions := [] }
  | (key, value) :: obj =>
    if key = "$or" then do
      let branches ← parseOr value
      let rest ← parseObject obj
      .ok { rest with orConditions := branches ++ rest.orConditions }
    else do
      let node ← parseNode key value
      let rest ← parseObject obj
      .ok { rest with fields := .mk [key] node :: rest.fields }

def parseOr : Value → Except PatternParseError (List (List (FieldMatcher Net)))
  | .array orArray => parseOrItems orArray
  | _ => .error .orNotArray

def parseOrItems : List Value → Except PatternParseError (List (List (FieldMatcher Net)))
  | [] => .ok []
  | .object orObj :: orArray => do
    let subPattern ← parseObject orObj
    let rest ← parseOrItems orArray
    .ok (subPattern.branches ++ rest)
  | _ :: _ => .error .orItemNotObject

def parseNode (fieldName : String) : Value → Except PatternParseError (PatternNode Net)
  | .array arr => do
    let conditions ← parseConditions host arr
    .ok (.leaf conditions)
  | .object obj => do
    let subPattern ← parseObject obj
    .ok (.object subPattern.fields subPattern.orConditions)
  | _ => .error (.invalidFieldValue fieldName)

end

/-! ## What the parser accepts -/

variable {host}

theorem parseObject_cons {key : String} {value : Value} {obj : List (String × Value)}
    {pattern : EventPattern Net} (h : parseObject host ((key, value) :: obj) = .ok pattern) :
    ∃ first rest, parseObject host [(key, value)] = .ok first ∧ parseObject host obj = .ok rest ∧
      pattern.fields = first.fields ++ rest.fields ∧
      pattern.orConditions = first.orConditions ++ rest.orConditions := by
  rw [parseObject] at h
  by_cases hkey : key = "$or"
  · rw [if_pos hkey] at h
    obtain ⟨branches, hbranches, h⟩ := bind_eq_ok.mp h
    obtain ⟨rest, hrest, h⟩ := bind_eq_ok.mp h
    refine ⟨{ fields := [], orConditions := branches }, rest, ?_, hrest, ?_⟩
    · rw [parseObject, if_pos hkey, hbranches]
      exact congrArg (fun branches => Except.ok (EventPattern.mk [] branches))
        (List.append_nil branches)
    · cases h
      exact ⟨rfl, rfl⟩
  · rw [if_neg hkey] at h
    obtain ⟨node, hnode, h⟩ := bind_eq_ok.mp h
    obtain ⟨rest, hrest, h⟩ := bind_eq_ok.mp h
    refine ⟨{ fields := [.mk [key] node], orConditions := [] }, rest, ?_, hrest, ?_⟩
    · rw [parseObject, if_neg hkey, hnode]
      rfl
    · cases h
      exact ⟨rfl, rfl⟩

theorem parseObject_or {value : Value} {pattern : EventPattern Net}
    (h : parseObject host [("$or", value)] = .ok pattern) :
    ∃ items, value = .array items ∧ parseOrItems host items = .ok pattern.orConditions ∧
      pattern.fields = [] := by
  rw [parseObject, if_pos rfl] at h
  obtain ⟨branches, hbranches, h⟩ := bind_eq_ok.mp h
  cases h
  cases value with
  | array items =>
      refine ⟨items, rfl, ?_, rfl⟩
      rw [List.append_nil]
      exact hbranches
  | _ => cases hbranches

theorem parseObject_field {key : String} {value : Value} {pattern : EventPattern Net}
    (hkey : key ≠ "$or") (h : parseObject host [(key, value)] = .ok pattern) :
    ∃ node, parseNode host key value = .ok node ∧ pattern = ⟨[.mk [key] node], []⟩ := by
  rw [parseObject, if_neg hkey] at h
  obtain ⟨node, hnode, h⟩ := bind_eq_ok.mp h
  cases h
  exact ⟨node, hnode, rfl⟩

theorem parseNode_object {key : String} {obj : List (String × Value)} {node : PatternNode Net}
    (h : parseNode host key (.object obj) = .ok node) :
    ∃ pattern, parseObject host obj = .ok pattern ∧
      node = .object pattern.fields pattern.orConditions := by
  rw [parseNode] at h
  obtain ⟨pattern, hpattern, h⟩ := bind_eq_ok.mp h
  cases h
  exact ⟨pattern, hpattern, rfl⟩

theorem parseNode_array {key : String} {arr : List Value} {node : PatternNode Net}
    (h : parseNode host key (.array arr) = .ok node) :
    ∃ conditions, parseConditions host arr = .ok conditions ∧ node = .leaf conditions := by
  rw [parseNode] at h
  obtain ⟨conditions, hconditions, h⟩ := bind_eq_ok.mp h
  cases h
  exact ⟨conditions, hconditions, rfl⟩

/-- Only a member named `$or` adds branches. -/
theorem orConditions_nil {obj : List (String × Value)} {pattern : EventPattern Net}
    (h : parseObject host obj = .ok pattern) (hkeys : "$or" ∉ obj.map Prod.fst) :
    pattern.orConditions = [] := by
  induction obj generalizing pattern with
  | nil =>
      cases h
      rfl
  | cons field obj ih =>
      obtain ⟨key, value⟩ := field
      obtain ⟨first, rest, hfirst, hrest, -, hors⟩ := parseObject_cons h
      obtain ⟨hkey, hkeys⟩ := not_or.mp (mt List.mem_cons.mpr hkeys)
      obtain ⟨node, -, rfl⟩ := parseObject_field (Ne.symm hkey) hfirst
      rw [hors, ih hrest hkeys]
      rfl

theorem parseOrItems_cons {item : Value} {items : List Value}
    {orConditions : List (List (FieldMatcher Net))}
    (h : parseOrItems host (item :: items) = .ok orConditions) :
    ∃ obj subPattern rest, item = .object obj ∧ parseObject host obj = .ok subPattern ∧
      parseOrItems host items = .ok rest ∧ orConditions = subPattern.branches ++ rest := by
  cases item with
  | object obj =>
      rw [parseOrItems] at h
      obtain ⟨subPattern, hsub, h⟩ := bind_eq_ok.mp h
      obtain ⟨rest, hrest, h⟩ := bind_eq_ok.mp h
      cases h
      exact ⟨obj, subPattern, rest, rfl, hsub, hrest, rfl⟩
  | _ => cases h

theorem branches_ne_nil (subPattern : EventPattern Net) : subPattern.branches ≠ [] := by
  unfold EventPattern.branches
  cases hors : subPattern.orConditions with
  | nil | cons => exact List.cons_ne_nil _ _

/-- A list of branches is empty only when it is parsed from an empty array. -/
theorem orConditions_isEmpty {items : List Value} {orConditions : List (List (FieldMatcher Net))}
    (h : parseOrItems host items = .ok orConditions) : orConditions.isEmpty = items.isEmpty := by
  cases items with
  | nil =>
      cases h
      rfl
  | cons item items =>
      obtain ⟨obj, subPattern, rest, -, -, -, rfl⟩ := parseOrItems_cons h
      cases hbranches : subPattern.branches with
      | nil => exact absurd hbranches (branches_ne_nil subPattern)
      | cons branch branches => rfl

/-! ## Presence -/

theorem parsePrefixOrSuffix_isExists {value : Value} {isPrefix : Bool} {c : MatchCondition Net}
    (h : parsePrefixOrSuffix value isPrefix = .ok c) : c.isExists = false := by
  unfold parsePrefixOrSuffix at h
  dsimp only at h
  split at h
  · cases h
    cases isPrefix <;> rfl
  · split at h
    · obtain ⟨s, -, h⟩ := bind_eq_ok.mp h
      cases h
      cases isPrefix <;> rfl
    · cases h
  · cases h

theorem parseAnythingBut_isExists {value : Value} {c : MatchCondition Net}
    (h : parseAnythingBut value = .ok c) : c.isExists = false := by
  unfold parseAnythingBut at h
  split at h
  · cases h
    rfl
  · cases h
    rfl
  · unfold parseAnythingButArray at h
    split at h
    · cases h
    · split at h
      · obtain ⟨strings, -, h⟩ := bind_eq_ok.mp h
        cases h
        rfl
      · split at h
        · obtain ⟨numbers, -, h⟩ := bind_eq_ok.mp h
          cases h
          rfl
        · cases h
  · unfold parseAnythingButObject at h
    split at h
    · obtain ⟨s, -, h⟩ := bind_eq_ok.mp h
      cases h
      rfl
    · obtain ⟨s, -, h⟩ := bind_eq_ok.mp h
      cases h
      rfl
    · split at h
      · cases h
        rfl
      · obtain ⟨strings, -, h⟩ := bind_eq_ok.mp h
        cases h
        rfl
      · cases h
    · obtain ⟨s, -, h⟩ := bind_eq_ok.mp h
      obtain ⟨-, -, h⟩ := bind_eq_ok.mp h
      cases h
      rfl
    · cases h
    · cases h
  · cases h

theorem parseNumeric_isExists {value : Value} {c : MatchCondition Net}
    (h : parseNumeric value = .ok c) : c.isExists = false := by
  unfold parseNumeric at h
  split at h
  · cases h
  · split at h
    · cases h
    · obtain ⟨condition, -, h⟩ := bind_eq_ok.mp h
      cases h
      rfl

/-- A check of presence is parsed from an object with the key `exists` and a truth value. -/
theorem parseSingleCondition_exists {value : Value} {expected : Bool} :
    parseSingleCondition host value = .ok (.exists expected) ↔
      value = .object [("exists", .bool expected)] := by
  constructor
  · intro h
    unfold parseSingleCondition at h
    split at h
    · cases h
    · cases h
    · cases h
    · unfold parseOperatorCondition at h
      split at h
      · cases parsePrefixOrSuffix_isExists h
      · cases parsePrefixOrSuffix_isExists h
      · obtain ⟨s, -, h⟩ := bind_eq_ok.mp h
        cases h
      · obtain ⟨s, -, h⟩ := bind_eq_ok.mp h
        obtain ⟨-, -, h⟩ := bind_eq_ok.mp h
        cases h
      · cases parseAnythingBut_isExists h
      · cases parseNumeric_isExists h
      · next opValue =>
          cases opValue with
          | bool b =>
              cases h
              rfl
          | _ => cases h
      · obtain ⟨s, -, h⟩ := bind_eq_ok.mp h
        split at h
        · cases h
        · cases h
      · cases h
      · cases h
    · cases h
  · rintro rfl
    rfl

variable (host)

def parseEventPattern (fromStr : String → Except String Json) (patternJson : String) :
    Except PatternParseError (EventPattern Net) :=
  match fromStr patternJson with
  | .error e => .error (.invalidJson e)
  | .ok json =>
    match json.value.asObject with
    | none => .error .notAnObject
    | some obj => parseObject host obj

end Rustack.Events
