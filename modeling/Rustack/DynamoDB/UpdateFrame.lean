import Rustack.DynamoDB.Documents
import Rustack.DynamoDB.Provider.Checks

/-!
# What an update touches

An action works on the top-level attribute its path starts with, and inside a map it sets no
other value than the one at its path.  A removal of set elements does not follow its path: it
works on the top-level attribute, whatever the rest of the path says.
-/

namespace Rustack.DynamoDB

open List Outcome

/-! ## The heads of paths -/

/-- The top-level attribute a path starts with. -/
def headName (names : List (String × String)) (path : AttributePath) : Option String :=
  match path.elements with
  | .attribute top :: _ => some (resolveNameRef names top)
  | _ => none

section Heads

variable {names : List (String × String)} {item item' : Item} {name : String}

theorem headName_of_elements {path : AttributePath} {top : String} {rest : List PathElement}
    (h : path.elements = .attribute top :: rest) :
    headName names path = some (resolveNameRef names top) := by
  rw [headName, h]

theorem lookup_setPathValue_of_ne {path : AttributePath} {value : AttributeValue}
    (h : setPathValue names item path value = .ok item') (hne : headName names path ≠ some name) :
    item'.lookup name = item.lookup name := by
  have happly : ∀ top rest v, path.elements = .attribute top :: rest →
      (insertAttr (resolveNameRef names top) v item).lookup name = item.lookup name := by
    intro top rest v helements
    rw [headName_of_elements helements] at hne
    rw [lookup_insertAttr, if_neg fun heq => hne (congrArg some heq.symm)]
  unfold setPathValue at h
  split at h
  · next top helements =>
      cases h
      exact happly top [] value helements
  · next top rest _ helements =>
      split at h
      · cases h
      · obtain ⟨_, -, h⟩ := Except.bind_eq_ok.mp h
        cases h
        exact happly top rest _ helements
  · cases h
    rfl

theorem lookup_applyRemove_of_ne {path : AttributePath}
    (h : applyRemove names item path = .ok item') (hne : headName names path ≠ some name) :
    item'.lookup name = item.lookup name := by
  unfold applyRemove at h
  split at h
  · next top helements =>
      cases h
      rw [headName_of_elements helements] at hne
      rw [lookup_removeAttr, if_neg fun heq => hne (congrArg some heq.symm)]
  · next top rest _ helements =>
      split at h
      · cases h
      · obtain ⟨_, -, h⟩ := Except.bind_eq_ok.mp h
        cases h
        rw [headName_of_elements helements] at hne
        rw [lookup_insertAttr, if_neg fun heq => hne (congrArg some heq.symm)]
  · cases h
    rfl

theorem resolveName_eq_some {top resolved : String} (h : resolveName names top = some resolved) :
    resolveNameRef names top = resolved := by
  unfold resolveName at h
  unfold resolveNameRef
  split_ifs at h ⊢
  · rw [h]
    rfl
  · exact Option.some.inj h

theorem resolveTopLevelName_eq_ok {path : AttributePath} {head : String}
    (h : resolveTopLevelName names path = .ok head) :
    ∃ top rest, path.elements = .attribute top :: rest ∧ resolveNameRef names top = head := by
  unfold resolveTopLevelName at h
  split at h
  · next top rest helements =>
      split at h
      · next resolved hresolved =>
          cases h
          exact ⟨top, rest, helements, resolveName_eq_some hresolved⟩
      · cases h
  · cases h

namespace EvalContext

variable {ctx : EvalContext}

theorem lookup_applySetAction_of_ne {action : SetAction}
    (h : ctx.applySetAction item action = .ok item')
    (hne : headName ctx.names action.path ≠ some name) :
    item'.lookup name = item.lookup name := by
  obtain ⟨value, -, h⟩ := bind_eq_ok.mp h
  exact lookup_setPathValue_of_ne (ofExcept_eq_ok.mp h) hne

/-- What a sum writes: the operand, or what it makes of the value there. -/
theorem applyAddAction_eq_ok {action : AddAction}
    (h : ctx.applyAddAction item action = .ok item') :
    ∃ addVal result,
      ctx.requireOperand action.value "ADD" "value operand resolved to None" = .ok addVal ∧
      computeAddResult addVal (resolvePathInItem ctx.names item action.path) = .ok result ∧
      setPathValue ctx.names item action.path result = .ok item' := by
  obtain ⟨addVal, hadd, h⟩ := bind_eq_ok.mp h
  refine ⟨addVal, ?_⟩
  split at h
  all_goals first
    | obtain ⟨result, hresult, h⟩ := bind_eq_ok.mp h
      exact ⟨result, ofExcept_eq_ok.mp hadd, hresult, ofExcept_eq_ok.mp h⟩
    | cases h

theorem lookup_applyAddAction_of_ne {action : AddAction}
    (h : ctx.applyAddAction item action = .ok item')
    (hne : headName ctx.names action.path ≠ some name) :
    item'.lookup name = item.lookup name := by
  obtain ⟨_, _, -, -, hset⟩ := applyAddAction_eq_ok h
  exact lookup_setPathValue_of_ne hset hne

theorem lookup_deleteFromAttribute_of_ne {delVal : AttributeValue} {head : String}
    (h : deleteFromAttribute item delVal head = .ok item') (hne : name ≠ head) :
    item'.lookup name = item.lookup name := by
  unfold deleteFromAttribute at h
  split at h
  · cases h
    rfl
  · obtain ⟨left, -, h⟩ := Except.bind_eq_ok.mp h
    cases left with
    | none =>
        cases h
        rw [lookup_removeAttr, if_neg hne]
    | some left =>
        cases h
        rw [lookup_insertAttr, if_neg hne]

/-- A removal of set elements goes through when its operand is a set and its head is known. -/
theorem applyDeleteAction_eq_ok {action : DeleteAction}
    (h : ctx.applyDeleteAction item action = .ok item') :
    ∃ delVal head, resolveTopLevelName ctx.names action.path = .ok head ∧
      deleteFromAttribute item delVal head = .ok item' := by
  obtain ⟨delVal, -, h⟩ := Except.bind_eq_ok.mp h
  split at h
  all_goals first
    | obtain ⟨head, hhead, h⟩ := Except.bind_eq_ok.mp h
      exact ⟨_, head, hhead, h⟩
    | cases h

theorem lookup_applyDeleteAction_of_ne {action : DeleteAction}
    (h : ctx.applyDeleteAction item action = .ok item')
    (hne : headName ctx.names action.path ≠ some name) :
    item'.lookup name = item.lookup name := by
  obtain ⟨delVal, head, hhead, hdelete⟩ := applyDeleteAction_eq_ok h
  obtain ⟨top, rest, helements, rfl⟩ := resolveTopLevelName_eq_ok hhead
  rw [headName_of_elements helements] at hne
  exact lookup_deleteFromAttribute_of_ne hdelete fun heq => hne (congrArg some heq.symm)

/-- A fold whose turns keep an attribute keeps it. -/
theorem foldlM_lookup_eq {α : Type} {f : Item → α → Outcome ExpressionError Item}
    {actions : List α}
    (hstep : ∀ a ∈ actions, ∀ item item', f item a = .ok item' →
      item'.lookup name = item.lookup name)
    (h : actions.foldlM f item = .ok item') : item'.lookup name = item.lookup name := by
  induction actions generalizing item with
  | nil =>
      cases h
      rfl
  | cons a actions ih =>
      rw [foldlM_cons] at h
      obtain ⟨next, hnext, h⟩ := bind_eq_ok.mp h
      rw [ih (fun b hb => hstep b (mem_cons_of_mem a hb)) h]
      exact hstep a (.head _) item next hnext

/-- Attributes that are the head of no path stay as they are. -/
theorem lookup_applyUpdate_of_ne {update : UpdateExpr} (h : ctx.applyUpdate update = .ok item')
    (hne : ∀ path ∈ allTargetPaths update, headName ctx.names path ≠ some name) :
    item'.lookup name = ctx.item.lookup name := by
  simp only [allTargetPaths, mem_append, mem_map, or_imp, forall_and,
    forall_exists_index, and_imp, forall_apply_eq_imp_iff₂] at hne
  obtain ⟨⟨⟨hset, hremove⟩, hadd⟩, hdelete⟩ := hne
  obtain ⟨item₁, h₁, h⟩ := bind_eq_ok.mp h
  obtain ⟨item₂, h₂, h⟩ := bind_eq_ok.mp h
  obtain ⟨item₃, h₃, h⟩ := bind_eq_ok.mp h
  have hkept₁ := foldlM_lookup_eq (fun a ha _ _ hstep => lookup_applySetAction_of_ne hstep
    (hset a ((mem_insertionSort _).mp ha))) h₁
  have hkept₂ := foldlM_lookup_eq (fun path hpath _ _ hstep =>
    lookup_applyRemove_of_ne (ofExcept_eq_ok.mp hstep) (hremove path hpath)) h₂
  have hkept₃ := foldlM_lookup_eq (fun a ha _ _ hstep =>
    lookup_applyAddAction_of_ne hstep (hadd a ha)) h₃
  have hkept₄ := foldlM_lookup_eq (fun a ha _ _ hstep =>
    lookup_applyDeleteAction_of_ne (ofExcept_eq_ok.mp hstep) (hdelete a ha)) h
  rw [hkept₄, hkept₃, hkept₂, hkept₁]

end EvalContext

end Heads

/-! ## The key -/

/-- A path that is one undefined placeholder spelled like a key attribute. -/
def UndefinedKey (names : List (String × String)) (keySchema : KeySchema) (path : AttributePath) :
    Prop :=
  ∃ top ∈ keySchema.attrNames, path.elements = [.attribute top] ∧ isReference top = true ∧
    names.lookup top = none

/-- A path that is accepted does not name a key attribute, except by such a placeholder. -/
theorem undefinedKey_of_targets {names : List (String × String)} {keySchema : KeySchema}
    {path : AttributePath} {name : String} (hvalid : checkNotKeyPath keySchema names path = .ok ())
    (hname : name ∈ keySchema.attrNames) (htargets : targets names name path) :
    UndefinedKey names keySchema path := by
  obtain ⟨top, helements, hresolve⟩ := htargets
  unfold checkNotKeyPath resolvePathTopName at hvalid
  rw [helements] at hvalid
  dsimp only at hvalid
  cases hresolved : resolveName names top with
  | some resolved =>
      rw [hresolved, ← resolveName_eq_some hresolved, hresolve] at hvalid
      simp [hname] at hvalid
  | none =>
      have hreference : isReference top = true ∧ names.lookup top = none := by
        unfold resolveName at hresolved
        split_ifs at hresolved with href
        exact ⟨href, hresolved⟩
      have htop : resolveNameRef names top = top := by
        rw [resolveNameRef, if_pos hreference.1, hreference.2]
        rfl
      refine ⟨top, ?_, helements, hreference⟩
      rw [← htop, hresolve]
      exact hname

/-- A key attribute has a scalar value. -/
theorem isScalar_of_extractPrimaryKey {keySchema : KeySchema} {item : Item} {key : PrimaryKey}
    (h : extractPrimaryKey keySchema item = .ok key) {name : String}
    (hname : name ∈ keySchema.attrNames) :
    ∃ v, item.lookup name = some v ∧ v.isScalar = true := by
  have hscalar : ∀ attrName expected v, validateKeyType attrName expected v = .ok () →
      v.isScalar = true := by
    intro attrName expected v hv
    cases v with
    | s _ | n _ | b _ => rfl
    | _ => cases expected <;> cases hv
  obtain ⟨pk, hpk, h⟩ := Except.bind_eq_ok.mp h
  obtain ⟨_, hpkType, h⟩ := Except.bind_eq_ok.mp h
  rcases mem_cons.mp hname with rfl | hsort
  · exact ⟨pk, requireAttr_eq_ok.mp hpk, hscalar _ _ _ hpkType⟩
  · cases hsk : keySchema.sortKey with
    | none => simp [hsk] at hsort
    | some skDef =>
        obtain rfl : name = skDef.name := by simpa [hsk] using hsort
        simp only [hsk] at h
        obtain ⟨sk, hskValue, h⟩ := Except.bind_eq_ok.mp h
        obtain ⟨_, hskType, -⟩ := Except.bind_eq_ok.mp h
        exact ⟨sk, requireAttr_eq_ok.mp hskValue, hscalar _ _ _ hskType⟩

/-- Accepted updates leave the key as it is unless an undefined placeholder is spelled like it. -/
theorem extractPrimaryKey_applyUpdate {ctx : EvalContext} {update : UpdateExpr}
    {keySchema : KeySchema} {item' : Item} {key : PrimaryKey}
    (hvalid : validateUpdatePaths update keySchema ctx.names = .ok ())
    (hdefined : ∀ path ∈ allTargetPaths update, ¬UndefinedKey ctx.names keySchema path)
    (h : ctx.applyUpdate update = .ok item')
    (hkey : extractPrimaryKey keySchema ctx.item = .ok key) :
    extractPrimaryKey keySchema item' = .ok key := by
  obtain ⟨_, hpaths, -⟩ := Except.bind_eq_ok.mp hvalid
  rw [← hkey]
  apply extractPrimaryKey_congr
  intro name hname
  obtain ⟨v, hlookup, hscalar⟩ := isScalar_of_extractPrimaryKey hkey hname
  rw [hlookup]
  refine EvalContext.lookup_applyUpdate h ?_ hlookup hscalar
  intro path hpath htargets
  have hmem : path ∈ allTargetPaths update := mem_append_left _ hpath
  exact hdefined path hmem
    (undefinedKey_of_targets (checkAll_eq_ok.mp hpaths path hmem) hname htargets)

/-! ## Removing set elements -/

/-- Two sets of one type. -/
def sameSetType : AttributeValue → AttributeValue → Bool
  | .ss _, .ss _ | .ns _, .ns _ | .bs _, .bs _ => true
  | _, _ => false

def AttributeValue.isSet (v : AttributeValue) : Bool := sameSetType v v

/-- The elements of a set, each as a value. -/
def AttributeValue.setElements : AttributeValue → List AttributeValue
  | .ss values => values.map .s
  | .ns values => values.map .n
  | .bs values => values.map .b
  | _ => []

/-- What is left of a set without the elements of another one. -/
def Leaves (delVal v : AttributeValue) : Option AttributeValue → Prop
  | none => ∀ x ∈ v.setElements, x ∈ delVal.setElements
  | some w => sameSetType v w = true ∧ w.setElements ≠ [] ∧
    w.setElements = v.setElements.filter fun x => x ∉ delVal.setElements

namespace EvalContext

theorem subtractSet_error {delVal v : AttributeValue} (h : sameSetType delVal v = false) :
    subtractSet delVal v = .error (addTypeMismatch "DELETE" delVal v) := by
  cases delVal <;> cases v <;> first | rfl | cases h

theorem exists_subtractSet {delVal v : AttributeValue} (h : sameSetType delVal v = true) :
    ∃ left, subtractSet delVal v = .ok left := by
  cases delVal <;> cases v <;> first | exact ⟨_, rfl⟩ | cases h

/-- One type of set, with `f` for its elements and `g` for the whole. -/
theorem leaves_iff {α : Type} [BEq α] [LawfulBEq α] {f : α → AttributeValue}
    (hf : f.Injective) {g : List α → AttributeValue}
    (helements : ∀ xs, (g xs).setElements = xs.map f)
    (hsame : ∀ xs w, sameSetType (g xs) w = true ↔ ∃ ys, w = g ys) (toRemove xs : List α)
    (left : Option AttributeValue) :
    (if (xs.filter fun x => !toRemove.contains x).isEmpty then none
      else some (g (xs.filter fun x => !toRemove.contains x))) = left ↔
        Leaves (g toRemove) (g xs) left := by
  have hmap : (xs.filter fun x => !toRemove.contains x).map f =
      (xs.map f).filter fun x => x ∉ toRemove.map f := by
    rw [filter_map]
    refine congrArg _ (filter_congr fun x _ => ?_)
    simp only [Function.comp, mem_map_of_injective hf, contains_eq_mem, decide_not]
  cases left with
  | none =>
      have hempty : (xs.filter fun x => !toRemove.contains x) = [] ↔
          ∀ x ∈ xs.map f, x ∈ toRemove.map f := by
        rw [← map_eq_nil_iff (f := f), hmap, filter_eq_nil_iff]
        simp only [decide_eq_true_eq, not_not]
      simp only [Leaves, helements]
      rw [← hempty, ← List.isEmpty_iff, ite_eq_left_iff]
      exact ⟨fun h => by_contra fun hne => (nomatch h hne), fun h hne => absurd h hne⟩
  | some w =>
      simp only [Leaves, helements]
      rw [hsame, ← hmap]
      constructor
      · intro h
        split at h
        · cases h
        · next hne =>
            cases h
            rw [List.isEmpty_iff] at hne
            refine ⟨⟨_, rfl⟩, ?_, helements _⟩
            rw [helements]
            exact mt map_eq_nil_iff.mp hne
      · rintro ⟨⟨ys, rfl⟩, hne, heq⟩
        rw [helements] at hne heq
        obtain rfl := map_injective_iff.mpr hf heq
        rw [if_neg fun h => hne (map_eq_nil_iff.mpr (List.isEmpty_iff.mp h))]

/-- What the removal computes. -/
theorem subtractSet_eq_ok {delVal v : AttributeValue} {left : Option AttributeValue}
    (h : sameSetType delVal v = true) : subtractSet delVal v = .ok left ↔ Leaves delVal v left := by
  have hok : ∀ r, (Except.ok r : Except ExpressionError _) = .ok left ↔ r = left :=
    fun r => ⟨Except.ok.inj, congrArg _⟩
  cases delVal with
  | ss toRemove =>
      cases v with
      | ss values =>
          exact (hok _).trans (leaves_iff (fun _ _ => AttributeValue.s.inj) (fun _ => rfl)
            (fun _ w => by cases w <;> simp [sameSetType]) toRemove values left)
      | _ => cases h
  | ns toRemove =>
      cases v with
      | ns values =>
          exact (hok _).trans (leaves_iff (fun _ _ => AttributeValue.n.inj) (fun _ => rfl)
            (fun _ w => by cases w <;> simp [sameSetType]) toRemove values left)
      | _ => cases h
  | bs toRemove =>
      cases v with
      | bs values =>
          exact (hok _).trans (leaves_iff (fun _ _ => AttributeValue.b.inj) (fun _ => rfl)
            (fun _ w => by cases w <;> simp [sameSetType]) toRemove values left)
      | _ => cases h
  | _ => cases h

theorem leaves_self {delVal v : AttributeValue} (h : sameSetType delVal v = true) :
    Leaves delVal v (some v) ↔
      v.setElements ≠ [] ∧ ∀ x ∈ v.setElements, x ∉ delVal.setElements := by
  have hself : sameSetType v v = true := by
    cases delVal <;> cases v <;> first | rfl | cases h
  simp only [Leaves, hself, true_and]
  rw [eq_comm (a := v.setElements), filter_eq_self]
  simp only [decide_eq_true_eq]

/-- Nothing lies below a set. -/
theorem valueAt_sameSetType {delVal v : AttributeValue} (h : sameSetType delVal v = true)
    (e : PathElement) (rest : List PathElement) : valueAt (e :: rest) v = none := by
  cases v with
  | m | l => cases delVal <;> cases h
  | _ => rcases e with name | idx <;> rfl

/-- What removing elements from the set at a path means: the set there loses them, or goes when
none is left, nothing else changes, and a value that is no such set is the only error. -/
structure DeletesAt (ctx : EvalContext) (item : Item) (action : DeleteAction)
    (delVal : AttributeValue) : Prop where
  error_iff : (∃ e, ctx.applyDeleteAction item action = .error e) ↔
    ∃ v, valueAt (action.path.resolve ctx.names) (.m item) = some v ∧ sameSetType delVal v = false
  missing : ∀ item', ctx.applyDeleteAction item action = .ok item' →
    valueAt (action.path.resolve ctx.names) (.m item) = none →
    ∀ q ≠ [], valueAt q (.m item') = valueAt q (.m item)
  removed : ∀ item' v, ctx.applyDeleteAction item action = .ok item' →
    valueAt (action.path.resolve ctx.names) (.m item) = some v →
    Leaves delVal v (valueAt (action.path.resolve ctx.names) (.m item'))
  elsewhere : ∀ item', ctx.applyDeleteAction item action = .ok item' →
    SameElsewhere (action.path.resolve ctx.names) (.m item) (.m item')

/-- The path is a top-level attribute; or there is no attribute it starts with; or that attribute
is a set of the type that loses nothing; or it is none, and neither is the value at the path. -/
def DeleteReaches (item : Item) (delVal : AttributeValue) (path : List PathElement) : Prop :=
  ∀ head e rest v, path = .attribute head :: e :: rest → item.lookup head = some v →
    if sameSetType delVal v = true then
      v.setElements ≠ [] ∧ ∀ x ∈ v.setElements, x ∉ delVal.setElements
    else ∃ w, valueAt path (.m item) = some w ∧ sameSetType delVal w = false

variable {ctx : EvalContext} {item : Item} {action : DeleteAction} {delVal : AttributeValue}
  {head : String}

theorem applyDeleteAction_eq
    (hoperand : ctx.requireOperand action.value "DELETE" "value operand resolved to None" =
      .ok delVal) (hset : delVal.isSet = true)
    (hhead : resolveTopLevelName ctx.names action.path = .ok head) :
    ctx.applyDeleteAction item action = deleteFromAttribute item delVal head := by
  rw [applyDeleteAction, hoperand]
  cases delVal with
  | ss _ | ns _ | bs _ =>
      dsimp only [bind, Except.bind]
      rw [hhead]
  | _ => cases hset

theorem deleteFromAttribute_none (hlookup : item.lookup head = none) :
    deleteFromAttribute item delVal head = .ok item := by
  rw [deleteFromAttribute, hlookup]

theorem deleteFromAttribute_ok {v : AttributeValue} (hlookup : item.lookup head = some v)
    (hsame : sameSetType delVal v = true) :
    ∃ left item', subtractSet delVal v = .ok left ∧
      deleteFromAttribute item delVal head = .ok item' ∧ item'.lookup head = left := by
  obtain ⟨left, hleft⟩ := exists_subtractSet hsame
  cases left with
  | none =>
      refine ⟨none, removeAttr head item, hleft, ?_, ?_⟩
      · rw [deleteFromAttribute, hlookup]
        simp only [hleft, bind, Except.bind]
      · rw [lookup_removeAttr, if_pos rfl]
  | some left =>
      refine ⟨some left, insertAttr head left item, hleft, ?_, ?_⟩
      · rw [deleteFromAttribute, hlookup]
        simp only [hleft, bind, Except.bind]
      · rw [lookup_insertAttr, if_pos rfl]

theorem deleteFromAttribute_error {v : AttributeValue} (hlookup : item.lookup head = some v)
    (hsame : sameSetType delVal v = false) :
    ∃ e, deleteFromAttribute item delVal head = .error e := by
  rw [deleteFromAttribute, hlookup]
  simp only [subtractSet_error hsame, bind, Except.bind]
  exact ⟨_, rfl⟩

theorem valueAt_congr {item' : Item} (h : ∀ name, item'.lookup name = item.lookup name) :
    ∀ q ≠ [], valueAt q (.m item') = valueAt q (.m item) := by
  intro q hq
  rcases q with _ | ⟨name | idx, q⟩
  · exact absurd rfl hq
  · rw [valueAt_attribute, valueAt_attribute, h name]
  · rfl

theorem sameElsewhere_of_lookup {item' : Item}
    (h : ∀ name, name ≠ head → item'.lookup name = item.lookup name) :
    SameElsewhere [.attribute head] (.m item) (.m item') where
  value q hq := by
    rcases q with _ | ⟨name | idx, q⟩
    · exact absurd rfl (not_overlap_nil hq).2
    · have hne : name ≠ head := by
        rintro rfl
        exact hq (.inl ((prefix_cons_inj _).mpr q.nil_prefix))
      rw [valueAt_attribute, valueAt_attribute, h name hne]
    · rfl
  kind front tail hpath htail := by
    rcases front with _ | ⟨e, front⟩
    · rfl
    · obtain ⟨-, hnil⟩ := cons.inj hpath
      exact absurd (append_eq_nil_iff.mp hnil.symm).2 htail

/-- Where there is nothing under the head, nothing happens. -/
theorem deletesAt_of_none {rest : List PathElement}
    (heq : ctx.applyDeleteAction item action = deleteFromAttribute item delVal head)
    (hpath : action.path.resolve ctx.names = .attribute head :: rest)
    (hlookup : item.lookup head = none) : DeletesAt ctx item action delVal := by
  have hok := heq.trans (deleteFromAttribute_none hlookup)
  have hvalue : valueAt (.attribute head :: rest) (.m item) = none := by
    rw [valueAt_attribute, hlookup]
    rfl
  constructor
  · rw [hok, hpath, hvalue]
    simp
  · intro item' h _ q _
    obtain rfl := Except.ok.inj (hok.symm.trans h)
    rfl
  · intro item' v _ hv
    rw [hpath, hvalue] at hv
    cases hv
  · intro item' h
    obtain rfl := Except.ok.inj (hok.symm.trans h)
    exact .refl _ _

theorem deletesAt_of_single
    (heq : ctx.applyDeleteAction item action = deleteFromAttribute item delVal head)
    (hpath : action.path.resolve ctx.names = [.attribute head]) :
    DeletesAt ctx item action delVal := by
  have hvalue : ∀ item : Item, valueAt [.attribute head] (.m item) = item.lookup head := by
    intro item
    rw [valueAt_attribute]
    cases item.lookup head <;> rfl
  cases hlookup : item.lookup head with
  | none => exact deletesAt_of_none heq hpath hlookup
  | some v =>
      constructor
      · rw [hpath, hvalue, hlookup, heq]
        constructor
        · rintro ⟨e, he⟩
          refine ⟨v, rfl, ?_⟩
          rw [Bool.eq_false_iff]
          intro hsame
          obtain ⟨_, _, -, hok, -⟩ := deleteFromAttribute_ok hlookup hsame
          rw [hok] at he
          cases he
        · rintro ⟨w, hw, hsame⟩
          rw [← Option.some.inj hw] at hsame
          exact deleteFromAttribute_error hlookup hsame
      · intro item' _ hnone
        rw [hpath, hvalue, hlookup] at hnone
        cases hnone
      · intro item' w h hw
        rw [hpath, hvalue, hlookup] at hw
        cases hw
        rw [heq] at h
        cases hsame : sameSetType delVal v with
        | false =>
            obtain ⟨e, he⟩ := deleteFromAttribute_error hlookup hsame
            rw [he] at h
            cases h
        | true =>
            obtain ⟨left, next, hleft, hok, hnext⟩ := deleteFromAttribute_ok hlookup hsame
            obtain rfl := Except.ok.inj (hok.symm.trans h)
            rw [hpath, hvalue, hnext]
            exact (subtractSet_eq_ok hsame).mp hleft
      · intro item' h
        rw [heq] at h
        rw [hpath]
        exact sameElsewhere_of_lookup fun name hne => lookup_deleteFromAttribute_of_ne h hne

/-- A longer path does what it should only where removing from its head cannot be told from it. -/
theorem deletesAt_of_nested {e : PathElement} {rest : List PathElement} {v : AttributeValue}
    (heq : ctx.applyDeleteAction item action = deleteFromAttribute item delVal head)
    (hpath : action.path.resolve ctx.names = .attribute head :: e :: rest)
    (hlookup : item.lookup head = some v) :
    DeletesAt ctx item action delVal ↔
      if sameSetType delVal v = true then
        v.setElements ≠ [] ∧ ∀ x ∈ v.setElements, x ∉ delVal.setElements
      else ∃ w, valueAt (.attribute head :: e :: rest) (.m item) = some w ∧
        sameSetType delVal w = false := by
  have hvalue : valueAt (.attribute head :: e :: rest) (.m item) = valueAt (e :: rest) v := by
    rw [valueAt_attribute, hlookup]
    rfl
  split_ifs with hsame
  · rw [← leaves_self hsame, ← subtractSet_eq_ok hsame]
    obtain ⟨left, next, hleft, hok, hnext⟩ := deleteFromAttribute_ok hlookup hsame
    have hmissing : valueAt (action.path.resolve ctx.names) (.m item) = none := by
      rw [hpath, hvalue, valueAt_sameSetType hsame]
    constructor
    · intro h
      have hkept := h.missing next (heq.trans hok) hmissing [.attribute head] (by simp)
      rw [valueAt_attribute, valueAt_attribute, hnext, hlookup] at hkept
      rw [hleft]
      cases left with
      | none => cases hkept
      | some left => rw [Option.some.inj hkept]
    · intro hkeeps
      obtain rfl : left = some v := Except.ok.inj (hleft.symm.trans hkeeps)
      have hlookups : ∀ item', ctx.applyDeleteAction item action = .ok item' →
          ∀ name, item'.lookup name = item.lookup name := by
        intro item' h name
        obtain rfl := Except.ok.inj ((heq.trans hok).symm.trans h)
        by_cases hne : name = head
        · rw [hne, hnext, hlookup]
        · exact lookup_deleteFromAttribute_of_ne hok hne
      constructor
      · rw [hmissing, heq, hok]
        simp
      · exact fun item' h _ => valueAt_congr (hlookups item' h)
      · intro item' w _ hw
        rw [hmissing] at hw
        cases hw
      · intro item' h
        constructor
        · exact fun q hq => valueAt_congr (hlookups item' h) q (not_overlap_nil hq).2
        · intro front tail _ _
          by_cases hfront : front = []
          · rw [hfront]
            rfl
          · rw [valueAt_congr (hlookups item' h) front hfront]
  · have hdiffer := Bool.eq_false_iff.mpr hsame
    obtain ⟨error, herror⟩ := deleteFromAttribute_error hlookup hdiffer
    have hnot : ∀ item', ctx.applyDeleteAction item action ≠ .ok item' := by
      intro item'
      rw [heq, herror]
      nofun
    constructor
    · intro h
      rw [← hpath]
      exact h.error_iff.mp ⟨error, heq.trans herror⟩
    · intro hthere
      refine ⟨⟨fun _ => ?_, fun _ => ⟨error, heq.trans herror⟩⟩, ?_, ?_, ?_⟩
      · rw [hpath]
        exact hthere
      · exact fun item' h => absurd h (hnot item')
      · exact fun item' _ h => absurd h (hnot item')
      · exact fun item' h => absurd h (hnot item')

/-- When a removal of set elements removes them at its path. -/
theorem deletesAt_iff
    (hoperand : ctx.requireOperand action.value "DELETE" "value operand resolved to None" =
      .ok delVal) (hset : delVal.isSet = true)
    (hhead : resolveTopLevelName ctx.names action.path = .ok head) :
    DeletesAt ctx item action delVal ↔
      DeleteReaches item delVal (action.path.resolve ctx.names) := by
  have heq : ctx.applyDeleteAction item action = deleteFromAttribute item delVal head :=
    applyDeleteAction_eq hoperand hset hhead
  obtain ⟨top, rest, helements, rfl⟩ := resolveTopLevelName_eq_ok hhead
  have hpath : action.path.resolve ctx.names =
      .attribute (resolveNameRef ctx.names top) :: rest.map (PathElement.resolve ctx.names) := by
    rw [AttributePath.resolve, helements]
    rfl
  unfold DeleteReaches
  rw [hpath]
  cases hrest : rest.map (PathElement.resolve ctx.names) with
  | nil =>
      rw [hrest] at hpath
      refine ⟨fun _ head' e rest v hcons => ?_, fun _ => deletesAt_of_single heq hpath⟩
      cases (cons.inj hcons).2
  | cons e tail =>
      rw [hrest] at hpath
      cases hlookup : item.lookup (resolveNameRef ctx.names top) with
      | none =>
          refine ⟨fun _ => ?_, fun _ => deletesAt_of_none heq hpath hlookup⟩
          intro head' e' rest' v hcons hv
          obtain ⟨hhead', -⟩ := cons.inj hcons
          rw [← PathElement.attribute.inj hhead', hlookup] at hv
          cases hv
      | some v =>
          rw [deletesAt_of_nested heq hpath hlookup]
          constructor
          · intro h head' e' rest' v' hcons hv
            obtain ⟨hhead', -⟩ := cons.inj hcons
            rw [← PathElement.attribute.inj hhead', hlookup] at hv
            cases hv
            exact h
          · exact fun h => h _ e tail v rfl hlookup

/-! ## The whole update -/

/-- An accepted update leaves every attribute alone that no path starts with, and the key unless
an undefined placeholder is spelled like it; inside a map `SET` and `ADD` write the value at
their path and nothing else; and `DELETE` removes elements at its path and nowhere else in
exactly the cases of `DeleteReaches`. -/
theorem touchesOnly_iff {update : UpdateExpr} {keySchema : KeySchema}
    (hvalid : validateUpdatePaths update keySchema ctx.names = .ok ()) :
    (∀ item', ctx.applyUpdate update = .ok item' →
      (∀ name, (∀ path ∈ allTargetPaths update, headName ctx.names path ≠ some name) →
        item'.lookup name = ctx.item.lookup name) ∧
      ((∀ path ∈ allTargetPaths update, ¬UndefinedKey ctx.names keySchema path) →
        ∀ key, extractPrimaryKey keySchema ctx.item = .ok key →
          extractPrimaryKey keySchema item' = .ok key)) ∧
    (∀ action ∈ update.setActions, ∀ item item', ctx.applySetAction item action = .ok item' →
      InMap (action.path.resolve ctx.names) (.m item) →
      (∃ value, ctx.resolveSetValue action.value = .ok value ∧
        valueAt (action.path.resolve ctx.names) (.m item') = some value) ∧
      SameElsewhere (action.path.resolve ctx.names) (.m item) (.m item')) ∧
    (∀ action ∈ update.addActions, ∀ item item', ctx.applyAddAction item action = .ok item' →
      InMap (action.path.resolve ctx.names) (.m item) →
      (∃ addVal value,
        ctx.requireOperand action.value "ADD" "value operand resolved to None" = .ok addVal ∧
        computeAddResult addVal (resolvePathInItem ctx.names item action.path) = .ok value ∧
        valueAt (action.path.resolve ctx.names) (.m item') = some value) ∧
      SameElsewhere (action.path.resolve ctx.names) (.m item) (.m item')) ∧
    ∀ action ∈ update.deleteActions, ∀ item delVal head,
      ctx.requireOperand action.value "DELETE" "value operand resolved to None" = .ok delVal →
      delVal.isSet = true → resolveTopLevelName ctx.names action.path = .ok head →
      (DeletesAt ctx item action delVal ↔
        DeleteReaches item delVal (action.path.resolve ctx.names)) := by
  refine ⟨fun item' h => ⟨fun name hne => lookup_applyUpdate_of_ne h hne, ?_⟩, ?_, ?_, ?_⟩
  · intro hdefined key hkey
    exact extractPrimaryKey_applyUpdate hvalid hdefined h hkey
  · intro action _ item item' h hin
    obtain ⟨value, hvalue, hset⟩ := bind_eq_ok.mp h
    obtain ⟨hthere, hsame⟩ := setPathValue_inMap (ofExcept_eq_ok.mp hset) hin
    exact ⟨⟨value, hvalue, hthere⟩, hsame⟩
  · intro action _ item item' h hin
    obtain ⟨addVal, value, hadd, hvalue, hset⟩ := applyAddAction_eq_ok h
    obtain ⟨hthere, hsame⟩ := setPathValue_inMap hset hin
    exact ⟨⟨addVal, value, hadd, hvalue, hthere⟩, hsame⟩
  · intro action _ item delVal head hoperand hset hhead
    exact deletesAt_iff hoperand hset hhead

/-- An item whose set of tags lies inside a map. -/
def taggedItem : EvalContext where
  item := [("doc", .m [("tags", .ss ["a", "b"])]), ("pk", .s "1")]
  names := []
  values := [(":old", .ss ["a"])]

def untag : UpdateExpr where
  setActions := []
  removePaths := []
  addActions := []
  deleteActions := [⟨⟨[.attribute "doc", .attribute "tags"]⟩, .value "old"⟩]

def stringKey : KeySchema where
  partitionKey := ⟨"pk", .s⟩
  sortKey := none

/-- An item whose set of tags is an attribute of its own. -/
def topItem : EvalContext where
  item := [("pk", .s "1"), ("tags", .ss ["a", "b", "c"])]
  names := [("#t", "tags")]
  values := [(":old", .ss ["b", "x"])]

def untagTop : UpdateExpr where
  setActions := []
  removePaths := []
  addActions := []
  deleteActions := [⟨⟨[.attribute "#t"]⟩, .value "old"⟩]

theorem touchesOnly_iff_untagTop :
    topItem.applyUpdate untagTop = .ok [("pk", .s "1"), ("tags", .ss ["a", "c"])] ∧
      DeletesAt topItem topItem.item ⟨⟨[.attribute "#t"]⟩, .value "old"⟩ (.ss ["b", "x"]) := by
  have hvalid : validateUpdatePaths untagTop stringKey topItem.names = .ok () := by decide +kernel
  refine ⟨by decide +kernel, ((touchesOnly_iff hvalid).2.2.2 _ (mem_singleton.mpr rfl) _ _ "tags"
    (by decide +kernel) rfl (by decide +kernel)).mpr ?_⟩
  intro head e rest v hpath
  cases (cons.inj hpath).2

/-- Removing a tag is refused although the value at the path is a set of strings; and where the
path leads below a set, its elements are removed. -/
theorem nested_delete_misses :
    (validateUpdatePaths untag stringKey taggedItem.names = .ok () ∧
      valueAt [.attribute "doc", .attribute "tags"] (.m taggedItem.item) =
        some (.ss ["a", "b"]) ∧
      taggedItem.applyUpdate untag =
        .err (addTypeMismatch "DELETE" (.ss ["a"]) (.m [("tags", .ss ["a", "b"])]))) ∧
    EvalContext.applyUpdate ⟨[("doc", .ss ["a", "b"]), ("pk", .s "1")], [], [(":old", .ss ["a"])]⟩
      untag = .ok [("doc", .ss ["b"]), ("pk", .s "1")] := by
  refine ⟨⟨by decide +kernel, by decide +kernel, by decide +kernel⟩, by decide +kernel⟩

end EvalContext

end Rustack.DynamoDB
