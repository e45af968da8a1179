import Rustack.DynamoDB.Expression.Update

/-!
# Values at a path

A document path with its placeholders resolved picks one value of a document.  What setting and
removing do is said by the values at the other paths, those that neither lead to the place nor
start there.
-/

namespace Rustack.DynamoDB

open List

/-! ## Resolved paths -/

theorem resolveNameRef_nil (name : String) : resolveNameRef [] name = name := by
  unfold resolveNameRef
  split_ifs
  · rfl
  · rfl

/-- A path element with its placeholder replaced, or left as it is when there is none for it. -/
def PathElement.resolve (names : List (String × String)) : PathElement → PathElement
  | .attribute name => .attribute (resolveNameRef names name)
  | .index idx => .index idx

section Resolved

variable (names : List (String × String))

theorem setValueInContainer_resolve (value : AttributeValue) (path : List PathElement)
    (v : AttributeValue) : setValueInContainer names value path v =
      setValueInContainer [] value (path.map (PathElement.resolve names)) v := by
  induction path generalizing v with
  | nil => rfl
  | cons e rest ih =>
      rcases e with name | idx
      · cases v with
        | m map =>
            cases rest with
            | nil => simp only [setValueInContainer, List.map, PathElement.resolve,
                resolveNameRef_nil]
            | cons f rest =>
                simp only [setValueInContainer, List.map_cons, PathElement.resolve,
                  resolveNameRef_nil] at ih ⊢
                rw [ih]
        | _ => rfl
      · cases v with
        | l list =>
            cases rest with
            | nil => rfl
            | cons f rest =>
                simp only [setValueInContainer, map_cons, PathElement.resolve] at ih ⊢
                cases list[idx]? with
                | none => rfl
                | some child => simp only [ih child]
        | _ => rfl

end Resolved

/-! ## Values at paths -/

/-- The value at a resolved path. -/
def valueAt : List PathElement → AttributeValue → Option AttributeValue
  | [], v => some v
  | .attribute name :: rest, .m map => (map.lookup name).bind (valueAt rest)
  | .index idx :: rest, .l list => list[idx]?.bind (valueAt rest)
  | _ :: _, _ => none

@[simp] theorem valueAt_attribute (name : String) (rest : List PathElement)
    (map : List (String × AttributeValue)) :
    valueAt (.attribute name :: rest) (.m map) = (map.lookup name).bind (valueAt rest) := rfl

@[simp] theorem valueAt_index (idx : ℕ) (rest : List PathElement) (list : List AttributeValue) :
    valueAt (.index idx :: rest) (.l list) = list[idx]?.bind (valueAt rest) := rfl

/-- Two resolved paths agree as far as both go. -/
def Overlap (p q : List PathElement) : Prop := p <+: q ∨ q <+: p

theorem not_overlap_cons {e f : PathElement} {p q : List PathElement}
    (h : ¬Overlap (e :: p) (f :: q)) : e = f → ¬Overlap p q := by
  rintro rfl hpq
  exact h (hpq.imp (prefix_cons_inj e).mpr (prefix_cons_inj e).mpr)

theorem not_overlap_nil {p q : List PathElement} (h : ¬Overlap p q) : p ≠ [] ∧ q ≠ [] := by
  constructor
  · rintro rfl
    exact h (.inl q.nil_prefix)
  · rintro rfl
    exact h (.inr p.nil_prefix)

/-- Two documents that differ at a path at most: the other values are the same, and what holds
the path is of the same kind. -/
structure SameElsewhere (path : List PathElement) (v w : AttributeValue) : Prop where
  value : ∀ q, ¬Overlap path q → valueAt q w = valueAt q v
  kind : ∀ front rest, path = front ++ rest → rest ≠ [] →
    (valueAt front w).map AttributeValue.typeDescriptor =
      (valueAt front v).map AttributeValue.typeDescriptor

theorem SameElsewhere.nil (v w : AttributeValue) : SameElsewhere [] v w where
  value q hq := absurd (.inl q.nil_prefix) hq
  kind _ _ hpath hrest := absurd (append_eq_nil_iff.mp hpath.symm).2 hrest

theorem SameElsewhere.refl (path : List PathElement) (v : AttributeValue) :
    SameElsewhere path v v where
  value _ _ := rfl
  kind _ _ _ _ := rfl

/-- A map holds, or may hold, what the path leads to. -/
def InMap (path : List PathElement) (v : AttributeValue) : Prop :=
  ∃ front name map, path = front ++ [.attribute name] ∧ valueAt front v = some (.m map)

theorem InMap.cons_attribute {name : String} {e : PathElement} {rest : List PathElement}
    {v : AttributeValue} (h : InMap (.attribute name :: e :: rest) v) :
    ∃ map child, v = .m map ∧ map.lookup name = some child ∧ InMap (e :: rest) child := by
  obtain ⟨front, last, inner, hpath, hfront⟩ := h
  cases front with
  | nil => cases hpath
  | cons f front =>
      obtain ⟨rfl, hrest⟩ := cons.inj hpath
      cases v with
      | m map =>
          rw [valueAt_attribute] at hfront
          obtain ⟨child, hchild, hinner⟩ := Option.bind_eq_some_iff.mp hfront
          exact ⟨map, child, rfl, hchild, front, last, inner, hrest, hinner⟩
      | _ => cases hfront

theorem InMap.cons_index {idx : ℕ} {rest : List PathElement} {v : AttributeValue}
    (h : InMap (.index idx :: rest) v) :
    ∃ list child, v = .l list ∧ list[idx]? = some child ∧ rest ≠ [] ∧ InMap rest child := by
  obtain ⟨front, last, inner, hpath, hfront⟩ := h
  cases front with
  | nil => cases hpath
  | cons f front =>
      obtain ⟨rfl, rfl⟩ := cons.inj hpath
      cases v with
      | l list =>
          rw [valueAt_index] at hfront
          obtain ⟨child, hchild, hinner⟩ := Option.bind_eq_some_iff.mp hfront
          exact ⟨list, child, rfl, hchild, by simp, front, last, inner, rfl, hinner⟩
      | _ => cases hfront

theorem InMap.single {name : String} {v : AttributeValue} (h : InMap [.attribute name] v) :
    ∃ map, v = .m map := by
  obtain ⟨front, last, map, hpath, hfront⟩ := h
  cases front with
  | nil =>
      cases hfront
      exact ⟨map, rfl⟩
  | cons f front =>
      obtain ⟨-, hrest⟩ := cons.inj hpath
      cases front <;> cases hrest

/-! ## Setting -/

theorem valueAt_insertAttr (name : String) (child : AttributeValue)
    (map : List (String × AttributeValue)) (q : List PathElement) :
    valueAt (.attribute name :: q) (.m (insertAttr name child map)) = valueAt q child := by
  rw [valueAt_attribute, lookup_insertAttr, if_pos rfl]
  rfl

/-- Replacing an entry of a map by one that differs at the rest of the path. -/
theorem sameElsewhere_insertAttr {name : String} {rest : List PathElement}
    {map : List (String × AttributeValue)} {child : AttributeValue}
    (h : ∀ old, map.lookup name = some old → SameElsewhere rest old child)
    (hrest : map.lookup name = none → rest = []) :
    SameElsewhere (.attribute name :: rest) (.m map) (.m (insertAttr name child map)) where
  value q hq := by
    rcases q with _ | ⟨other | idx, q⟩
    · exact absurd rfl (not_overlap_nil hq).2
    · rw [valueAt_attribute, valueAt_attribute, lookup_insertAttr]
      split_ifs with heq
      · subst heq
        have hdiv := not_overlap_cons hq rfl
        cases hlookup : map.lookup other with
        | none =>
            rw [hrest hlookup] at hdiv
            exact absurd (.inl q.nil_prefix) hdiv
        | some old => exact (h old hlookup).value q hdiv
      · rfl
    · rfl
  kind front tail hpath htail := by
    rcases front with _ | ⟨e, front⟩
    · rfl
    · obtain ⟨rfl, htail_eq⟩ := cons.inj hpath
      rw [valueAt_insertAttr, valueAt_attribute]
      cases hlookup : map.lookup name with
      | none =>
          rw [hrest hlookup] at htail_eq
          exact absurd (append_eq_nil_iff.mp htail_eq.symm).2 htail
      | some old => exact (h old hlookup).kind front tail htail_eq htail

theorem sameElsewhere_set {idx : ℕ} {rest : List PathElement} {list : List AttributeValue}
    {old child : AttributeValue} (hold : list[idx]? = some old)
    (h : SameElsewhere rest old child) :
    SameElsewhere (.index idx :: rest) (.l list) (.l (list.set idx child)) := by
  have hself : (list.set idx child)[idx]? = some child :=
    List.getElem?_set_self (List.getElem?_eq_some_iff.mp hold).1
  constructor
  · intro q hq
    rcases q with _ | ⟨name | other, q⟩
    · exact absurd rfl (not_overlap_nil hq).2
    · rfl
    · rw [valueAt_index, valueAt_index]
      by_cases heq : idx = other
      · subst heq
        rw [hself, hold]
        exact h.value q (not_overlap_cons hq rfl)
      · rw [getElem?_set_ne heq]
  · intro front tail hpath htail
    rcases front with _ | ⟨e, front⟩
    · rfl
    · obtain ⟨rfl, htail_eq⟩ := cons.inj hpath
      rw [valueAt_index, valueAt_index, hself, hold]
      exact h.kind front tail htail_eq htail

/-- Setting inside a map writes the value at the path and nowhere else. -/
theorem setValueInContainer_inMap {value : AttributeValue} {path : List PathElement}
    {v : AttributeValue} (h : InMap path v) :
    valueAt path (setValueInContainer [] value path v) = some value ∧
      SameElsewhere path v (setValueInContainer [] value path v) := by
  induction path generalizing v with
  | nil =>
      obtain ⟨front, last, map, hpath, -⟩ := h
      cases front <;> cases hpath
  | cons e rest ih =>
      rcases e with name | idx
      · cases rest with
        | nil =>
            obtain ⟨map, rfl⟩ := h.single
            simp only [setValueInContainer, resolveNameRef_nil]
            refine ⟨valueAt_insertAttr name value map [], sameElsewhere_insertAttr ?_ ?_⟩
            · exact fun old _ => .nil old value
            · exact fun _ => rfl
        | cons f rest =>
            obtain ⟨map, child, rfl, hchild, hin⟩ := h.cons_attribute
            obtain ⟨hvalue, hsame⟩ := ih hin
            simp only [setValueInContainer, resolveNameRef_nil, hchild, Option.getD_some]
            refine ⟨?_, sameElsewhere_insertAttr ?_ ?_⟩
            · rw [valueAt_insertAttr]
              exact hvalue
            · intro old hold
              obtain rfl := Option.some.inj (hchild.symm.trans hold)
              exact hsame
            · intro hnone
              rw [hchild] at hnone
              cases hnone
      · obtain ⟨list, child, rfl, hchild, hne, hin⟩ := h.cons_index
        obtain ⟨hvalue, hsame⟩ := ih hin
        have hset : setValueInContainer [] value (.index idx :: rest) (.l list) =
            .l (list.set idx (setValueInContainer [] value rest child)) := by
          cases rest with
          | nil => exact absurd rfl hne
          | cons f rest => simp only [setValueInContainer, hchild]
        rw [hset]
        refine ⟨?_, sameElsewhere_set hchild hsame⟩
        rw [valueAt_index, List.getElem?_set_self (List.getElem?_eq_some_iff.mp hchild).1]
        exact hvalue

/-! ## Items as documents -/

/-- The elements of a path with the placeholders replaced. -/
def AttributePath.resolve (names : List (String × String)) (path : AttributePath) :
    List PathElement :=
  path.elements.map (PathElement.resolve names)

section Items

variable {names : List (String × String)} {item item' : Item} {path : AttributePath}

/-- Setting a path of an item is setting it in the map the item is. -/
theorem setPathValue_eq_ok {value : AttributeValue}
    (h : setPathValue names item path value = .ok item') :
    AttributeValue.m item' = setValueInContainer [] value (path.resolve names) (.m item) := by
  rw [AttributePath.resolve, ← setValueInContainer_resolve]
  unfold setPathValue at h
  split at h
  · next top helements =>
      cases h
      rw [helements]
      rfl
  · next top rest hrest helements =>
      split at h
      · cases h
      · next current hcurrent =>
          obtain ⟨_, -, h⟩ := Except.bind_eq_ok.mp h
          cases h
          rw [helements]
          cases rest with
          | nil => exact absurd rfl hrest
          | cons e rest => simp only [setValueInContainer, hcurrent, Option.getD_some]
  · next hsingle hcons =>
      cases h
      rcases helements : path.elements with _ | ⟨top | idx, rest⟩
      · rfl
      · exact absurd helements (hcons top rest)
      · rfl

/-- Setting a path inside a map of an item writes the value there and nowhere else. -/
theorem setPathValue_inMap {value : AttributeValue}
    (h : setPathValue names item path value = .ok item')
    (hin : InMap (path.resolve names) (.m item)) :
    valueAt (path.resolve names) (.m item') = some value ∧
      SameElsewhere (path.resolve names) (.m item) (.m item') := by
  rw [setPathValue_eq_ok h]
  exact setValueInContainer_inMap hin

end Items

end Rustack.DynamoDB
