import Mathlib.Data.List.Sort
import Rustack.DynamoDB.Expression.Arithmetic
import Rustack.DynamoDB.Expression.Evaluator

/-!
# Applying updates

The actions of an update expression in the order they are carried out: `SET`
by list index, then `REMOVE`, `ADD` and `DELETE`.  Values are computed from the
item as it was, positions are looked up in the item as it becomes.
-/

namespace Rustack.DynamoDB

open Outcome

/-! ## Positions in an item -/

def invalidDocumentPath (operation : String) : ExpressionError :=
  .invalidOperand operation
    "The document path provided in the update expression is invalid for update"

section Paths

variable (names : List (String × String))

/-- The path fits the containers there are; an error names `SET` for a removal too. -/
def validatePathType : List PathElement → AttributeValue → Except ExpressionError Unit
  | [], _ => .ok ()
  | .attribute name :: rest, .m map =>
    match rest, map.lookup (resolveNameRef names name) with
    | _ :: _, some child => validatePathType rest child
    | _, _ => .ok ()
  | .index idx :: rest, .l list =>
    match rest, list[idx]? with
    | _ :: _, some child => validatePathType rest child
    | _, _ => .ok ()
  | _ :: _, _ => .error (invalidDocumentPath "SET")

def setValueInContainer (value : AttributeValue) :
    List PathElement → AttributeValue → AttributeValue
  | [], container => container
  | .attribute name :: rest, .m map =>
    let resolved := resolveNameRef names name
    match rest with
    | [] => .m (insertAttr resolved value map)
    | _ :: _ => .m (insertAttr resolved
      (setValueInContainer value rest ((map.lookup resolved).getD (.m []))) map)
  | .index idx :: rest, .l list =>
    match rest, list[idx]? with
    -- behind the end of the list a value is appended, and a longer path ignored
    | [], none => .l (list ++ [value])
    | [], some _ => .l (list.set idx value)
    | _ :: _, none => .l list
    | _ :: _, some child => .l (list.set idx (setValueInContainer value rest child))
  | _ :: _, container => container

def setPathValue (item : Item) (path : AttributePath) (value : AttributeValue) :
    Except ExpressionError Item :=
  match path.elements with
  | [.attribute top] => .ok (insertAttr (resolveNameRef names top) value item)
  | .attribute top :: rest =>
    match item.lookup (resolveNameRef names top) with
    | none => .error (invalidDocumentPath "SET")
    | some current => do
      validatePathType names rest current
      .ok (insertAttr (resolveNameRef names top)
        (setValueInContainer names value rest current) item)
  | _ => .ok item

def removeAtPath : List PathElement → AttributeValue → AttributeValue
  | [], container => container
  | .attribute name :: rest, .m map =>
    let resolved := resolveNameRef names name
    match rest, map.lookup resolved with
    | [], _ => .m (removeAttr resolved map)
    | _ :: _, some child => .m (insertAttr resolved (removeAtPath rest child) map)
    | _ :: _, none => .m map
  | .index idx :: rest, .l list =>
    match rest, list[idx]? with
    | [], _ => .l (list.eraseIdx idx)
    | _ :: _, some child => .l (list.set idx (removeAtPath rest child))
    | _ :: _, none => .l list
  | _ :: _, container => container

def applyRemove (item : Item) (path : AttributePath) : Except ExpressionError Item :=
  match path.elements with
  | [.attribute top] => .ok (removeAttr (resolveNameRef names top) item)
  | .attribute top :: rest =>
    match item.lookup (resolveNameRef names top) with
    | none => .error (invalidDocumentPath "REMOVE")
    | some existing => do
      validatePathType names rest existing
      .ok (insertAttr (resolveNameRef names top) (removeAtPath names rest existing) item)
  | _ => .ok item

def resolvePathInItem (item : Item) (path : AttributePath) : Option AttributeValue :=
  EvalContext.resolvePath ⟨item, names, []⟩ path

def resolveTopLevelName (path : AttributePath) : Except ExpressionError String :=
  match path.elements with
  | .attribute name :: _ =>
    match resolveName names name with
    | some resolved => .ok resolved
    | none => .error (.unresolvedName name)
  | _ => .error (.invalidOperand "path resolution" "path must start with an attribute name")

end Paths

/-! ## Values -/

/-- The elements that are new come behind those there are. -/
def mergeSets {α : Type} [BEq α] (existing new : List α) : List α :=
  new.foldl (fun merged x => if merged.contains x then merged else merged ++ [x]) existing

def addTypeMismatch (operation : String) (value existing : AttributeValue) : ExpressionError :=
  .invalidOperand operation ("Type mismatch for " ++ operation ++ "; operator type: " ++
    value.typeDescriptor ++ ", existing type: " ++ existing.typeDescriptor)

def computeAddResult (addVal : AttributeValue) (existing : Option AttributeValue) :
    Outcome ExpressionError AttributeValue :=
  match addVal, existing with
  | .n _, some (.n existing) => numericArithmetic (.n existing) addVal true
  | .ss new, some (.ss existing) => pure (.ss (mergeSets existing new))
  | .ns new, some (.ns existing) => pure (.ns (mergeSets existing new))
  | .bs new, some (.bs existing) => pure (.bs (mergeSets existing new))
  | _, none => pure addVal
  | _, some existing => throw (addTypeMismatch "ADD" addVal existing)

def incorrectOperandType (operator : String) (value : AttributeValue) : ExpressionError :=
  .invalidOperand operator
    ("Incorrect operand type for operator or function; operator: " ++ operator ++
      ", operand type: " ++ value.typeDescriptor)

/-- Where a `SET` action ends in a list; the others come last. -/
def extractLastIndex (path : AttributePath) : ℕ :=
  match path.elements.getLast? with
  | some (.index idx) => idx
  | _ => 2 ^ 64 - 1

namespace EvalContext

variable (ctx : EvalContext)

/-- The value of an operand that has to have one. -/
def requireOperand (operand : Operand) (operation message : String) :
    Except ExpressionError AttributeValue := do
  match ← ctx.resolveOperand operand with
  | some value => .ok value
  | none => .error (.invalidOperand operation message)

def resolveSetValue : SetValue → Outcome ExpressionError AttributeValue
  | .operand op => .ofExcept (ctx.requireOperand op "SET" "operand resolved to None")
  | .plus a b => do
    let av ← resolveSetValue a
    let bv ← resolveSetValue b
    numericArithmetic av bv true
  | .minus a b => do
    let av ← resolveSetValue a
    let bv ← resolveSetValue b
    numericArithmetic av bv false
  | .ifNotExists path default =>
    match ctx.resolvePath path with
    | some existing => pure existing
    | none => .ofExcept
      (ctx.requireOperand default "if_not_exists" "default operand resolved to None")
  | .listAppend a b => do
    let av ← (ctx.requireOperand a "list_append" "first operand resolved to None" : Except _ _)
    let bv ← (ctx.requireOperand b "list_append" "second operand resolved to None" : Except _ _)
    match av, bv with
    | .l listA, .l listB => pure (.l (listA ++ listB))
    | _, _ => throw (.typeMismatch "list_append requires two list operands")

def applySetAction (item : Item) (action : SetAction) : Outcome ExpressionError Item := do
  let value ← ctx.resolveSetValue action.value
  (setPathValue ctx.names item action.path value : Except _ _)

def applyAddAction (item : Item) (action : AddAction) : Outcome ExpressionError Item := do
  let addVal ← (ctx.requireOperand action.value "ADD" "value operand resolved to None" : Except _ _)
  match addVal with
  | .n _ | .ss _ | .ns _ | .bs _ =>
    let result ← computeAddResult addVal (resolvePathInItem ctx.names item action.path)
    (setPathValue ctx.names item action.path result : Except _ _)
  | _ => throw (incorrectOperandType "ADD" addVal)

/-- What is left of a set; nothing is left of it when it comes out empty. -/
def subtractSet (delVal existing : AttributeValue) :
    Except ExpressionError (Option AttributeValue) :=
  match delVal, existing with
  | .ss toRemove, .ss set =>
    let filtered := set.filter fun x => !toRemove.contains x
    .ok (if filtered.isEmpty then none else some (.ss filtered))
  | .ns toRemove, .ns set =>
    let filtered := set.filter fun x => !toRemove.contains x
    .ok (if filtered.isEmpty then none else some (.ns filtered))
  | .bs toRemove, .bs set =>
    let filtered := set.filter fun x => !toRemove.contains x
    .ok (if filtered.isEmpty then none else some (.bs filtered))
  | _, _ => .error (addTypeMismatch "DELETE" delVal existing)

/-- A deeper path deletes from the top-level attribute all the same. -/
def deleteFromAttribute (item : Item) (delVal : AttributeValue) (attrName : String) :
    Except ExpressionError Item :=
  match item.lookup attrName with
  | none => .ok item
  | some existing => do
    match ← subtractSet delVal existing with
    | some left => .ok (insertAttr attrName left item)
    | none => .ok (removeAttr attrName item)

def applyDeleteAction (item : Item) (action : DeleteAction) : Except ExpressionError Item := do
  let delVal ← ctx.requireOperand action.value "DELETE" "value operand resolved to None"
  match delVal with
  | .ss _ | .ns _ | .bs _ => do
    let attrName ← resolveTopLevelName ctx.names action.path
    deleteFromAttribute item delVal attrName
  | _ => .error (incorrectOperandType "DELETE" delVal)

def applyUpdate (update : UpdateExpr) : Outcome ExpressionError Item := do
  let sortedSetActions := update.setActions.insertionSort fun a b =>
    extractLastIndex a.path ≤ extractLastIndex b.path
  let item ← sortedSetActions.foldlM ctx.applySetAction ctx.item
  let item ← update.removePaths.foldlM
    (fun item path => Outcome.ofExcept (applyRemove ctx.names item path)) item
  let item ← update.addActions.foldlM ctx.applyAddAction item
  update.deleteActions.foldlM
    (fun item action => Outcome.ofExcept (ctx.applyDeleteAction item action)) item

end EvalContext

/-! ## Attributes an update does not touch -/

/-- A value a key attribute can have. -/
def AttributeValue.isScalar : AttributeValue → Bool
  | .s _ | .n _ | .b _ => true
  | _ => false

section Frame

variable {names : List (String × String)} {item item' : Item} {name : String}
  {v : AttributeValue}

/-- The path is that of a top-level attribute, and the attribute is `name`. -/
def targets (names : List (String × String)) (name : String) (path : AttributePath) : Prop :=
  ∃ top, path.elements = [.attribute top] ∧ resolveNameRef names top = name

theorem validatePathType_scalar (hv : v.isScalar = true) {element : PathElement}
    {rest : List PathElement} : validatePathType names (element :: rest) v ≠ .ok () := by
  cases v <;> simp_all [AttributeValue.isScalar] <;> cases element <;> simp [validatePathType]

theorem lookup_setPathValue {path : AttributePath} {value : AttributeValue}
    (h : setPathValue names item path value = .ok item') (hpath : ¬targets names name path)
    (hlookup : item.lookup name = some v) (hv : v.isScalar = true) :
    item'.lookup name = some v := by
  unfold setPathValue at h
  split at h
  · next top helements =>
      cases h
      have hne : name ≠ resolveNameRef names top := fun heq => hpath ⟨top, helements, heq.symm⟩
      rw [lookup_insertAttr, if_neg hne, hlookup]
  · next top rest hrest helements =>
      split at h
      · cases h
      · next current hcurrent =>
          obtain ⟨_, hvalid, h⟩ := Except.bind_eq_ok.mp h
          cases h
          have hne : name ≠ resolveNameRef names top := by
            rintro rfl
            obtain rfl : current = v := Option.some.inj (hcurrent.symm.trans hlookup)
            cases rest with
            | nil => exact hrest rfl
            | cons element rest => exact validatePathType_scalar hv hvalid
          rw [lookup_insertAttr, if_neg hne, hlookup]
  · cases h
    exact hlookup

theorem lookup_applyRemove {path : AttributePath} (h : applyRemove names item path = .ok item')
    (hpath : ¬targets names name path) (hlookup : item.lookup name = some v)
    (hv : v.isScalar = true) : item'.lookup name = some v := by
  unfold applyRemove at h
  split at h
  · next top helements =>
      cases h
      have hne : name ≠ resolveNameRef names top := fun heq => hpath ⟨top, helements, heq.symm⟩
      rw [lookup_removeAttr, if_neg hne, hlookup]
  · next top rest hrest helements =>
      split at h
      · cases h
      · next existing hexisting =>
          obtain ⟨_, hvalid, h⟩ := Except.bind_eq_ok.mp h
          cases h
          have hne : name ≠ resolveNameRef names top := by
            rintro rfl
            obtain rfl : existing = v := Option.some.inj (hexisting.symm.trans hlookup)
            cases rest with
            | nil => exact hrest rfl
            | cons element rest => exact validatePathType_scalar hv hvalid
          rw [lookup_insertAttr, if_neg hne, hlookup]
  · cases h
    exact hlookup

namespace EvalContext

variable {ctx : EvalContext}

theorem lookup_applySetAction {action : SetAction}
    (h : ctx.applySetAction item action = .ok item') (hpath : ¬targets ctx.names name action.path)
    (hlookup : item.lookup name = some v) (hv : v.isScalar = true) :
    item'.lookup name = some v := by
  obtain ⟨value, -, h⟩ := bind_eq_ok.mp h
  exact lookup_setPathValue (ofExcept_eq_ok.mp h) hpath hlookup hv

theorem lookup_applyAddAction {action : AddAction}
    (h : ctx.applyAddAction item action = .ok item') (hpath : ¬targets ctx.names name action.path)
    (hlookup : item.lookup name = some v) (hv : v.isScalar = true) :
    item'.lookup name = some v := by
  obtain ⟨addVal, -, h⟩ := bind_eq_ok.mp h
  split at h
  all_goals first
    | obtain ⟨result, -, h⟩ := bind_eq_ok.mp h
      exact lookup_setPathValue (ofExcept_eq_ok.mp h) hpath hlookup hv
    | cases h

/-- Nothing can be subtracted from a key value. -/
theorem subtractSet_scalar (hv : v.isScalar = true) (delVal : AttributeValue)
    (left : Option AttributeValue) : subtractSet delVal v ≠ .ok left := by
  cases v <;> simp_all [AttributeValue.isScalar] <;> cases delVal <;> simp [subtractSet]

theorem lookup_applyDeleteAction {action : DeleteAction}
    (h : ctx.applyDeleteAction item action = .ok item') (hlookup : item.lookup name = some v)
    (hv : v.isScalar = true) : item'.lookup name = some v := by
  have hdelete : ∀ delVal attrName, deleteFromAttribute item delVal attrName = .ok item' →
      item'.lookup name = some v := by
    intro delVal attrName h
    unfold deleteFromAttribute at h
    split at h
    · cases h
      exact hlookup
    · next existing hexisting =>
        obtain ⟨left, hleft, h⟩ := Except.bind_eq_ok.mp h
        have hne : name ≠ attrName := by
          rintro rfl
          obtain rfl : existing = v := Option.some.inj (hexisting.symm.trans hlookup)
          exact subtractSet_scalar hv delVal left hleft
        cases left <;> cases h
        · rw [lookup_removeAttr, if_neg hne, hlookup]
        · rw [lookup_insertAttr, if_neg hne, hlookup]
  obtain ⟨delVal, -, h⟩ := Except.bind_eq_ok.mp h
  split at h
  all_goals first
    | obtain ⟨attrName, -, h⟩ := Except.bind_eq_ok.mp h
      exact hdelete _ _ h
    | cases h

/-- What every step of a fold preserves, the fold preserves. -/
theorem foldlM_lookup {α : Type} {f : Item → α → Outcome ExpressionError Item} {actions : List α}
    (hstep : ∀ a ∈ actions, ∀ item item', f item a = .ok item' →
      item.lookup name = some v → item'.lookup name = some v)
    (h : actions.foldlM f item = .ok item') (hlookup : item.lookup name = some v) :
    item'.lookup name = some v := by
  induction actions generalizing item with
  | nil =>
      cases h
      exact hlookup
  | cons a actions ih =>
      rw [List.foldlM_cons] at h
      obtain ⟨next, hnext, h⟩ := bind_eq_ok.mp h
      exact ih (fun b hb => hstep b (List.mem_cons_of_mem a hb)) h
        (hstep a (.head _) item next hnext hlookup)

/-- The paths an update sets, removes or adds to. -/
def targetPaths (update : UpdateExpr) : List AttributePath :=
  update.setActions.map SetAction.path ++ update.removePaths ++ update.addActions.map AddAction.path

/-- A key attribute stays as it is unless an action names it at the top level. -/
theorem lookup_applyUpdate {update : UpdateExpr}
    (h : ctx.applyUpdate update = .ok item')
    (hpaths : ∀ path ∈ targetPaths update, ¬targets ctx.names name path)
    (hlookup : ctx.item.lookup name = some v) (hv : v.isScalar = true) :
    item'.lookup name = some v := by
  simp only [targetPaths, List.mem_append, List.mem_map, or_imp, forall_and,
    forall_exists_index, and_imp, forall_apply_eq_imp_iff₂] at hpaths
  obtain ⟨⟨hset, hremove⟩, hadd⟩ := hpaths
  obtain ⟨item₁, h₁, h⟩ := bind_eq_ok.mp h
  obtain ⟨item₂, h₂, h⟩ := bind_eq_ok.mp h
  obtain ⟨item₃, h₃, h⟩ := bind_eq_ok.mp h
  have hl₁ := foldlM_lookup (fun a ha _ _ hstep hl => lookup_applySetAction hstep
    (hset a ((List.mem_insertionSort _).mp ha)) hl hv) h₁ hlookup
  have hl₂ := foldlM_lookup (fun path hp _ _ hstep hl =>
    lookup_applyRemove (ofExcept_eq_ok.mp hstep) (hremove path hp) hl hv) h₂ hl₁
  have hl₃ := foldlM_lookup (fun a ha _ _ hstep hl =>
    lookup_applyAddAction hstep (hadd a ha) hl hv) h₃ hl₂
  exact foldlM_lookup (fun a _ _ _ hstep hl =>
    lookup_applyDeleteAction (ofExcept_eq_ok.mp hstep) hl hv) h hl₃

end EvalContext

end Frame

end Rustack.DynamoDB
