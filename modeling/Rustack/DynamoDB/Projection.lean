import Rustack.DynamoDB.Provider.Checks

/-!
# Projections

A projection expression is a list of paths.  The values at them are put into a new item one after
the other.  Keys of maps are kept; of an index only that there was one is kept, and a value goes to
the end of the list or into its last element.
-/

namespace Rustack.DynamoDB

open Parser (Sound Total Forward andThen_eq_done done_inj)

/-! ## Projection expressions -/

def parseProjectionExpr : TokenParser (List AttributePath) := parseClause parseAttributePath

def runProjection (input : String) : Option (Except ExpressionError (List AttributePath)) :=
  runParser parseProjectionExpr endOfExpression input

theorem runProjection_isSome (input : String) : (runProjection input).isSome :=
  runParser_isSome (fun n => parseClause_total parseAttributePath_sound.forward
    (parseAttributePath_total n)) _ input

/-- Two commas with nothing but blanks between them. -/
def emptySegment : Bool → List Char → Bool
  | _, [] => false
  | sawComma, c :: cs =>
    if c = ',' then sawComma || emptySegment true cs
    else if isAsciiWhitespace c then emptySegment sawComma cs
    else emptySegment false cs

def invalidProjection (message : String) : ExpressionError :=
  .validation ("Invalid ProjectionExpression: " ++ message)

def checkProjectionText (input : String) : Except ExpressionError Unit :=
  let trimmed := trim input.toList
  if trimmed.isEmpty then .error (invalidProjection "The expression can not be empty;")
  else if trimmed.head? = some ',' then
    .error (invalidProjection "Syntax error; unexpected comma at start")
  else if trimmed.getLast? = some ',' then
    .error (invalidProjection "Syntax error; unexpected comma at end")
  else if emptySegment false trimmed then
    .error (invalidProjection "Syntax error; empty segment between commas")
  else .ok ()

/-- At most 32 levels. -/
def checkProjectionDepths : List AttributePath → Except ExpressionError Unit
  | [] => .ok ()
  | path :: rest =>
    if 32 < path.elements.length then
      .error (invalidProjection
        ("The document path has too many nesting levels; nesting levels: " ++
        toString path.elements.length))
    else checkProjectionDepths rest

def projectionClash (verb : String) (one two : String) : ExpressionError :=
  invalidProjection ("Two document paths " ++ verb ++ " with each other; must remove or rewrite " ++
    "one of these paths; path one: [" ++ one ++ "], path two: [" ++ two ++ "]")

def checkProjectionRepeats (seen : List String) :
    List AttributePath → Except ExpressionError Unit
  | [] => .ok ()
  | path :: rest =>
    if seen.contains path.display then
      .error (projectionClash "overlap" path.display path.display)
    else checkProjectionRepeats (path.display :: seen) rest

/-- Paths are compared as they are written. -/
def checkProjectionPair (a b : AttributePath) : Except ExpressionError Unit :=
  if pathsConflict a.elements b.elements then
    .error (projectionClash "conflict" a.display b.display)
  else if pathsOverlap a.elements b.elements ∧ a.elements.length ≠ b.elements.length then
    .error (projectionClash "overlap" a.display b.display)
  else .ok ()

def checkProjectionAgainst (a : AttributePath) : List AttributePath → Except ExpressionError Unit
  | [] => .ok ()
  | b :: rest => do
    checkProjectionPair a b
    checkProjectionAgainst a rest

def validateProjectionPaths : List AttributePath → Except ExpressionError Unit
  | [] => .ok ()
  | path :: rest => do
    checkProjectionAgainst path rest
    validateProjectionPaths rest

def parseProjection (input : String) : Except ExpressionError (List AttributePath) := do
  checkProjectionText input
  let paths ← (runProjection input).get (runProjection_isSome input)
  checkProjectionDepths paths
  checkProjectionRepeats [] paths
  validateProjectionPaths paths
  .ok paths

/-- An accepted path starts with an attribute. -/
theorem PathTokens.starts {ts : List Token} {es : List PathElement} (h : PathTokens ts es) :
    ∃ name rest, es = .attribute name :: rest := by
  induction h with
  | head h => cases h <;> exact ⟨_, [], rfl⟩
  | dot _ _ ih =>
      obtain ⟨name, rest, rfl⟩ := ih
      exact ⟨name, _, rfl⟩
  | index _ _ ih =>
      obtain ⟨name, rest, rfl⟩ := ih
      exact ⟨name, _, rfl⟩

/-- Each action of a clause is one of the grammar. -/
theorem parseClause_sound {α : Type} {action : TokenParser α} {derives : List Token → α → Prop}
    (h : Sound action derives) :
    Sound (parseClause action) fun _ actions => ∀ a ∈ actions, ∃ us, derives us a := by
  intro ts actions rest hdone
  obtain ⟨first, mid, hfirst, hloop⟩ := andThen_eq_done.mp hdone
  obtain ⟨used, rfl, hused⟩ := h ts first mid hfirst
  obtain ⟨read, rfl, hread⟩ := @Parser.sepLoop_sound _ _ _ _ _ .comma action
    (fun actions a => actions ++ [a]) (fun _ actions => ∀ a ∈ actions, ∃ us, derives us a) derives
    h (fun _ actions vs b hactions hb a ha => by
      rcases List.mem_append.mp ha with hmem | hlast
      · exact hactions a hmem
      · obtain rfl := List.mem_singleton.mp hlast
        exact ⟨vs, hb⟩) [first] _ used _ _
    (fun a ha => by
      obtain rfl := List.mem_singleton.mp ha
      exact ⟨used, hused⟩) hloop
  exact ⟨used ++ read, by simp, hread⟩

/-- Every accepted path starts with an attribute. -/
theorem parseProjection_starts {input : String} {paths : List AttributePath}
    (h : parseProjection input = .ok paths) :
    ∀ path ∈ paths, ∃ name rest, path.elements = .attribute name :: rest := by
  obtain ⟨_, -, h⟩ := Except.bind_eq_ok.mp h
  obtain ⟨parsed, hparsed, h⟩ := Except.bind_eq_ok.mp h
  obtain ⟨_, -, h⟩ := Except.bind_eq_ok.mp h
  obtain ⟨_, -, h⟩ := Except.bind_eq_ok.mp h
  obtain ⟨_, -, h⟩ := Except.bind_eq_ok.mp h
  cases h
  have hrun : runProjection input = some (.ok paths) := by
    rw [← hparsed, Option.some_get]
  unfold runProjection runParser at hrun
  cases htokens : tokenize input with
  | none => rw [htokens] at hrun; cases hrun
  | some tokens =>
      rw [htokens] at hrun
      cases tokens with
      | error e => cases hrun
      | ok tokens =>
          dsimp only at hrun
          rcases hparse : parseProjectionExpr tokens with _ | _ | ⟨value, rest⟩
          · rw [hparse] at hrun
            cases hrun
          · rw [hparse] at hrun
            cases hrun
          · rw [hparse] at hrun
            have hvalue : value = paths := by
              have hfinish := Option.some.inj hrun
              unfold endOfExpression at hfinish
              split_ifs at hfinish
              exact Except.ok.inj hfinish
            obtain ⟨_, -, hpaths⟩ := parseClause_sound parseAttributePath_sound _ _ _ hparse
            intro path hpath
            rw [← hvalue] at hpath
            obtain ⟨_, htokens⟩ := hpaths path hpath
            exact htokens.starts

/-! ## Building the projected item -/

inductive ResolvedElement where
  | mapKey (key : String)
  | listIndex
  deriving DecidableEq

section Insert

variable (names : List (String × String))

def resolveElement : PathElement → ResolvedElement
  | .attribute name => .mapKey (resolveNameRef names name)
  | .index _ => .listIndex

/-- What an element that is not there yet is created as, by what comes next. -/
def emptyContainer : ResolvedElement → AttributeValue
  | .mapKey _ => .m []
  | .listIndex => .l []

def deepInsertIntoAv (value : AttributeValue) :
    List ResolvedElement → AttributeValue → AttributeValue
  | [.mapKey key], .m map => .m (insertAttr key value map)
  | [.listIndex], .l list => .l (list ++ [value])
  | .mapKey key :: next :: rest, .m map =>
    .m (insertAttr key (deepInsertIntoAv value (next :: rest)
      ((map.lookup key).getD (emptyContainer next))) map)
  | .listIndex :: next :: rest, .l list =>
    .l (list.dropLast ++ [deepInsertIntoAv value (next :: rest)
      (list.getLast?.getD (emptyContainer next))])
  | _, target => target

def deepInsert (result : Item) (path : AttributePath) (value : AttributeValue) : Item :=
  match path.elements.map (resolveElement names) with
  | [.mapKey top] => insertAttr top value result
  | .mapKey top :: next :: rest =>
    insertAttr top (deepInsertIntoAv value (next :: rest)
      ((result.lookup top).getD (emptyContainer next))) result
  | _ => result

def resolveTopLevelNameOpt (path : AttributePath) : Option String :=
  match path.elements with
  | .attribute name :: _ => resolveName names name
  | _ => none

end Insert

namespace EvalContext

variable (ctx : EvalContext)

/-- One path of a projection; what it leads to has to be there. -/
def projectPath (result : Item) (path : AttributePath) : Item :=
  match ctx.resolvePath path with
  | none => result
  | some value =>
    match resolveTopLevelNameOpt ctx.names path with
    | none => result
    | some topName =>
      if path.elements.length = 1 then insertAttr topName value result
      else deepInsert ctx.names result path value

def applyProjection (paths : List AttributePath) : Item :=
  paths.foldl ctx.projectPath []

end EvalContext

end Rustack.DynamoDB
