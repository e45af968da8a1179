import Mathlib.Data.String.Basic
import Rustack.DynamoDB.Projection
import Rustack.DynamoDB.UpdateFrame

/-!
# What a projection returns

The part of a document that a list of paths addresses keeps the addressed keys of each map and
the addressed elements of each list.  A projection puts its values one after the other into lists
that know no indices, so it returns that part if each path that goes through a list after another
ends there, at a greater index; and for two paths without that order some item comes out wrong.
-/

namespace Rustack.DynamoDB

open List AttributeValue PathElement EvalContext

variable {p q : List PathElement} {w : AttributeValue}

/-! ## Documents with sorted keys -/

/-- The keys of every map are in order, without repetition. -/
inductive AttributeValue.Sorted : AttributeValue → Prop where
  | m {map : List (String × AttributeValue)} :
      map.Pairwise (fun a b => a.1 < b.1) → (∀ e ∈ map, e.2.Sorted) → (AttributeValue.m map).Sorted
  | l {list : List AttributeValue} : (∀ v ∈ list, v.Sorted) → (AttributeValue.l list).Sorted
  | leaf {v : AttributeValue} : v.asM = none → v.asL = none → v.Sorted

theorem AttributeValue.Sorted.map {map : List (String × AttributeValue)}
    (h : (AttributeValue.m map).Sorted) :
    map.Pairwise (fun a b => a.1 < b.1) ∧ ∀ e ∈ map, e.2.Sorted := by
  cases h with
  | m hkeys hvalues => exact ⟨hkeys, hvalues⟩
  | leaf hm _ => cases hm

theorem AttributeValue.Sorted.list {list : List AttributeValue}
    (h : (AttributeValue.l list).Sorted) : ∀ v ∈ list, v.Sorted := by
  cases h with
  | l hvalues => exact hvalues
  | leaf _ hl => cases hl

section Keys

variable {α : Type} {xs ys : List (String × α)} {name : String} {value : α}

theorem lookup_of_mem (h : xs.Pairwise fun a b => a.1 < b.1) (hmem : (name, value) ∈ xs) :
    xs.lookup name = some value := by
  induction xs with
  | nil => cases hmem
  | cons e xs ih =>
      obtain ⟨hhead, htail⟩ := pairwise_cons.mp h
      rcases mem_cons.mp hmem with rfl | hmem
      · exact lookup_cons_ite name name value xs ▸ if_pos rfl
      · have hne : name ≠ e.1 := (hhead _ hmem).ne'
        rw [show e = (e.1, e.2) from rfl, lookup_cons_ite, if_neg hne]
        exact ih htail hmem

theorem pairwise_insertAttr (h : xs.Pairwise fun a b => a.1 < b.1) :
    (insertAttr name value xs).Pairwise fun a b => a.1 < b.1 := by
  induction xs with
  | nil => exact pairwise_singleton _ _
  | cons e xs ih =>
      obtain ⟨hhead, htail⟩ := pairwise_cons.mp h
      unfold insertAttr
      split_ifs with heq hlt
      · exact pairwise_cons.mpr ⟨fun x hx => heq ▸ hhead x hx, htail⟩
      · refine pairwise_cons.mpr ⟨fun x hx => ?_, h⟩
        rcases mem_cons.mp hx with rfl | hx
        · exact hlt
        · exact hlt.trans (hhead x hx)
      · refine pairwise_cons.mpr ⟨fun x hx => ?_, ih htail⟩
        rcases mem_insertAttr hx with rfl | hx
        · exact lt_of_le_of_ne (not_lt.mp hlt) heq
        · exact hhead x hx

/-- Sorted lists with the same entries are the same. -/
theorem eq_of_lookup (hxs : xs.Pairwise fun a b => a.1 < b.1)
    (hys : ys.Pairwise fun a b => a.1 < b.1) (h : ∀ name, xs.lookup name = ys.lookup name) :
    xs = ys := by
  have hmem : ∀ e, e ∈ xs ↔ e ∈ ys := by
    intro ⟨name, value⟩
    constructor
    · exact fun hx => mem_of_lookup ((h name).symm.trans (lookup_of_mem hxs hx))
    · exact fun hy => mem_of_lookup ((h name).trans (lookup_of_mem hys hy))
  have hnodup : ∀ {zs : List (String × α)}, zs.Pairwise (fun a b => a.1 < b.1) → zs.Nodup :=
    fun hzs => hzs.imp fun hlt heq => absurd (congrArg Prod.fst heq) hlt.ne
  have hperm : xs.Perm ys := (perm_ext_iff_of_nodup (hnodup hxs) (hnodup hys)).mpr hmem
  exact hperm.eq_of_pairwise (fun a b _ _ hab hba => absurd hba (lt_asymm hab)) hxs hys

end Keys

/-! ## The addressed part of a document -/

/-- What is left of the paths behind one element. -/
def below (e : PathElement) (paths : List (List PathElement)) : List (List PathElement) :=
  paths.filterMap fun path =>
    match path with
    | [] => none
    | f :: rest => if f = e then some rest else none

theorem mem_below {e : PathElement} {paths : List (List PathElement)} {rest : List PathElement} :
    rest ∈ below e paths ↔ e :: rest ∈ paths := by
  rw [below, mem_filterMap]
  constructor
  · rintro ⟨path, hpath, heq⟩
    cases path with
    | nil => cases heq
    | cons f tail =>
        dsimp only at heq
        split_ifs at heq with hf
        cases heq
        rw [← hf]
        exact hpath
  · intro h
    exact ⟨e :: rest, h, if_pos rfl⟩

mutual

/-- The addressed part of a value, if any of the paths leads to something. -/
def addressed (paths : List (List PathElement)) : AttributeValue → Option AttributeValue
  | .m map =>
    if [] ∈ paths then some (.m map)
    else if (addressedEntries paths map).isEmpty then none
    else some (.m (addressedEntries paths map))
  | .l list =>
    if [] ∈ paths then some (.l list)
    else if (addressedElements paths 0 list).isEmpty then none
    else some (.l (addressedElements paths 0 list))
  | v => if [] ∈ paths then some v else none

/-- The addressed keys of a map. -/
def addressedEntries (paths : List (List PathElement)) :
    List (String × AttributeValue) → List (String × AttributeValue)
  | [] => []
  | (name, child) :: entries =>
    ((addressed (below (.attribute name) paths) child).map fun kept => (name, kept)).toList ++
      addressedEntries paths entries

/-- The addressed elements of a list from an index on. -/
def addressedElements (paths : List (List PathElement)) (idx : ℕ) :
    List AttributeValue → List AttributeValue
  | [] => []
  | child :: list =>
    (addressed (below (.index idx) paths) child).toList ++ addressedElements paths (idx + 1) list

end

theorem getD_addressed_m {paths : List (List PathElement)} (hpaths : [] ∉ paths)
    (map : List (String × AttributeValue)) :
    (addressed paths (.m map)).getD (.m []) = .m (addressedEntries paths map) := by
  rw [addressed, if_neg hpaths]
  split_ifs with hempty
  · rw [isEmpty_iff.mp hempty]
    rfl
  · rfl

theorem getD_addressed_l {paths : List (List PathElement)} (hpaths : [] ∉ paths)
    (list : List AttributeValue) :
    (addressed paths (.l list)).getD (.l []) = .l (addressedElements paths 0 list) := by
  rw [addressed, if_neg hpaths]
  split_ifs with hempty
  · rw [isEmpty_iff.mp hempty]
    rfl
  · rfl

theorem addressed_nil_mem {paths : List (List PathElement)} (h : [] ∈ paths) (v : AttributeValue) :
    addressed paths v = some v := by
  cases v <;> rw [addressed] <;> first | exact if_pos h | nofun

theorem addressedEntries_cons (paths : List (List PathElement)) (name : String)
    (child : AttributeValue) (entries : List (String × AttributeValue)) :
    addressedEntries paths ((name, child) :: entries) =
      ((addressed (below (.attribute name) paths) child).map fun kept => (name, kept)).toList ++
        addressedEntries paths entries := by
  rw [addressedEntries]

theorem addressedElements_cons (paths : List (List PathElement)) (idx : ℕ)
    (child : AttributeValue) (list : List AttributeValue) :
    addressedElements paths idx (child :: list) =
      (addressed (below (.index idx) paths) child).toList ++
        addressedElements paths (idx + 1) list := by
  rw [addressedElements]

theorem addressedElements_append (paths : List (List PathElement)) (idx : ℕ)
    (xs ys : List AttributeValue) :
    addressedElements paths idx (xs ++ ys) =
      addressedElements paths idx xs ++ addressedElements paths (idx + xs.length) ys := by
  induction xs generalizing idx with
  | nil => rw [addressedElements]; rfl
  | cons x xs ih =>
      rw [cons_append, addressedElements_cons, addressedElements_cons, ih, append_assoc,
        length_cons, Nat.add_assoc, Nat.add_comm 1]

/-- The keys of the addressed part are keys of the map. -/
theorem fst_mem_addressedEntries {paths : List (List PathElement)}
    {map : List (String × AttributeValue)} {e : String × AttributeValue}
    (h : e ∈ addressedEntries paths map) : ∃ child, (e.1, child) ∈ map := by
  induction map with
  | nil => rw [addressedEntries] at h; cases h
  | cons x map ih =>
      rw [show x = (x.1, x.2) from rfl, addressedEntries_cons, mem_append] at h
      rcases h with h | h
      · obtain ⟨kept, -, rfl⟩ := Option.map_eq_some_iff.mp (Option.mem_toList.mp h)
        exact ⟨x.2, mem_cons_self⟩
      · obtain ⟨child, hchild⟩ := ih h
        exact ⟨child, .tail _ hchild⟩

theorem pairwise_addressedEntries {paths : List (List PathElement)}
    {map : List (String × AttributeValue)} (h : map.Pairwise fun a b => a.1 < b.1) :
    (addressedEntries paths map).Pairwise fun a b => a.1 < b.1 := by
  induction map with
  | nil =>
      rw [addressedEntries]
      exact .nil
  | cons x map ih =>
      obtain ⟨hhead, htail⟩ := pairwise_cons.mp h
      rw [show x = (x.1, x.2) from rfl, addressedEntries_cons, pairwise_append]
      refine ⟨?_, ih htail, ?_⟩
      · cases addressed (below (.attribute x.1) paths) x.2 with
        | none => exact .nil
        | some kept => exact pairwise_singleton _ _
      · intro a ha b hb
        obtain ⟨kept, -, rfl⟩ := Option.map_eq_some_iff.mp (Option.mem_toList.mp ha)
        obtain ⟨child, hchild⟩ := fst_mem_addressedEntries hb
        exact hhead (b.1, child) hchild

theorem lookup_addressedEntries (paths : List (List PathElement))
    {map : List (String × AttributeValue)} (h : map.Pairwise fun a b => a.1 < b.1)
    (name : String) :
    (addressedEntries paths map).lookup name =
      (map.lookup name).bind (addressed (below (.attribute name) paths)) := by
  induction map with
  | nil =>
      rw [addressedEntries]
      rfl
  | cons x map ih =>
      obtain ⟨hhead, htail⟩ := pairwise_cons.mp h
      rw [show x = (x.1, x.2) from rfl, addressedEntries_cons, lookup_cons_ite]
      have hmissing : name = x.1 → (addressedEntries paths map).lookup name = none := by
        rintro rfl
        rw [ih htail, lookup_eq_none_iff.mpr fun e he => by
          simpa using (hhead e he).ne]
        rfl
      split_ifs with heq
      · subst heq
        cases hkept : addressed (below (.attribute x.1) paths) x.2 with
        | none =>
            simp only [Option.map_none, Option.toList_none, nil_append, Option.bind_some,
              hkept]
            exact hmissing rfl
        | some kept =>
            simp only [Option.map_some, Option.toList_some, cons_append, nil_append,
              Option.bind_some, hkept]
            rw [lookup_cons_ite, if_pos rfl]
      · rw [← ih htail]
        cases addressed (below (.attribute x.1) paths) x.2 with
        | none => rfl
        | some kept =>
            simp only [Option.map_some, Option.toList_some, cons_append, nil_append]
            rw [lookup_cons_ite, if_neg heq]

/-! ### Only paths that lead to something matter -/

section Congr

mutual

theorem addressed_congr {S T : List (List PathElement)} :
    ∀ {v : AttributeValue}, v.Sorted → (∀ p, valueAt p v ≠ none → (p ∈ S ↔ p ∈ T)) →
      addressed S v = addressed T v
  | .m map, hsorted, h => by
      have hnil : [] ∈ S ↔ [] ∈ T := h [] nofun
      have hentries : addressedEntries S map = addressedEntries T map := by
        refine addressedEntries_congr hsorted.map.2 fun e he p hp => h _ ?_
        rw [valueAt_attribute, lookup_of_mem hsorted.map.1 he]
        exact hp
      rw [addressed, addressed, hentries]
      simp only [hnil]
  | .l list, hsorted, h => by
      have hnil : [] ∈ S ↔ [] ∈ T := h [] nofun
      have helements : addressedElements S 0 list = addressedElements T 0 list := by
        refine addressedElements_congr 0 hsorted.list fun i child hchild p hp => h _ ?_
        rw [Nat.zero_add, valueAt_index, hchild]
        exact hp
      rw [addressed, addressed, helements]
      simp only [hnil]
  | .s _, _, h | .n _, _, h | .b _, _, h | .ss _, _, h | .ns _, _, h | .bs _, _, h | .bool _, _, h
  | .null _, _, h => by
      have hnil : [] ∈ S ↔ [] ∈ T := h [] nofun
      rw [addressed, addressed]
      simp only [hnil]
      all_goals nofun

theorem addressedEntries_congr {S T : List (List PathElement)} :
    ∀ {map : List (String × AttributeValue)}, (∀ e ∈ map, e.2.Sorted) →
      (∀ e ∈ map, ∀ p, valueAt p e.2 ≠ none →
        (.attribute e.1 :: p ∈ S ↔ .attribute e.1 :: p ∈ T)) →
      addressedEntries S map = addressedEntries T map
  | [], _, _ => by rw [addressedEntries, addressedEntries]
  | (name, child) :: map, hsorted, h => by
      have hchild : addressed (below (.attribute name) S) child =
          addressed (below (.attribute name) T) child := by
        refine addressed_congr (hsorted _ (.head _)) fun p hp => ?_
        rw [mem_below, mem_below]
        exact h _ (.head _) p hp
      have hrest : addressedEntries S map = addressedEntries T map :=
        addressedEntries_congr (fun e he => hsorted e (.tail _ he))
          fun e he => h e (.tail _ he)
      rw [addressedEntries_cons, addressedEntries_cons, hchild, hrest]

theorem addressedElements_congr {S T : List (List PathElement)} :
    ∀ {list : List AttributeValue} (idx : ℕ), (∀ v ∈ list, v.Sorted) →
      (∀ i child, list[i]? = some child → ∀ p, valueAt p child ≠ none →
        (.index (idx + i) :: p ∈ S ↔ .index (idx + i) :: p ∈ T)) →
      addressedElements S idx list = addressedElements T idx list
  | [], idx, _, _ => by rw [addressedElements, addressedElements]
  | child :: list, idx, hsorted, h => by
      have hchild : addressed (below (.index idx) S) child =
          addressed (below (.index idx) T) child := by
        refine addressed_congr (hsorted _ (.head _)) fun p hp => ?_
        rw [mem_below, mem_below]
        exact h 0 child rfl p hp
      have hrest : addressedElements S (idx + 1) list = addressedElements T (idx + 1) list := by
        refine addressedElements_congr (idx + 1)
          (fun v hv => hsorted v (.tail _ hv)) fun i next hnext p hp => ?_
        rw [Nat.add_assoc, Nat.add_comm 1]
        exact h (i + 1) next hnext p hp
      rw [addressedElements_cons, addressedElements_cons, hchild, hrest]

end

mutual

theorem addressed_nil : ∀ v, addressed [] v = none
  | .m map => by
      rw [addressed, addressedEntries_nil map]
      rfl
  | .l list => by
      rw [addressed, addressedElements_nil list 0]
      rfl
  | .s _ | .n _ | .b _ | .ss _ | .ns _ | .bs _ | .bool _ | .null _ => by
      rw [addressed]
      · rfl
      all_goals nofun

theorem addressedEntries_nil : ∀ map, addressedEntries [] map = []
  | [] => by rw [addressedEntries]
  | (name, child) :: map => by
      rw [addressedEntries_cons, addressedEntries_nil map]
      exact congrArg (fun kept => (Option.map (fun v => (name, v)) kept).toList ++ [])
        (addressed_nil child)

theorem addressedElements_nil : ∀ list idx, addressedElements [] idx list = []
  | [], idx => by rw [addressedElements]
  | child :: list, idx => by
      rw [addressedElements_cons, addressedElements_nil list (idx + 1)]
      exact congrArg (fun kept => Option.toList kept ++ []) (addressed_nil child)

end

/-- Nothing is addressed by paths that lead nowhere. -/
theorem addressed_eq_none {paths : List (List PathElement)} {v : AttributeValue}
    (hsorted : v.Sorted) (h : ∀ p ∈ paths, valueAt p v = none) : addressed paths v = none := by
  rw [addressed_congr (T := []) hsorted, addressed_nil]
  intro p hp
  constructor
  · exact fun hmem => absurd (h p hmem) hp
  · nofun

theorem addressedElements_eq_nil {paths : List (List PathElement)} {idx : ℕ}
    {list : List AttributeValue} (hsorted : ∀ v ∈ list, v.Sorted)
    (h : ∀ i child, list[i]? = some child → ∀ p, valueAt p child ≠ none →
      .index (idx + i) :: p ∉ paths) : addressedElements paths idx list = [] := by
  rw [addressedElements_congr (T := []) idx hsorted, addressedElements_nil]
  intro i child hchild p hp
  constructor
  · exact fun hmem => absurd hmem (h i child hchild p hp)
  · nofun

end Congr

/-! ## Putting one value in -/

/-- What is kept of a path element. -/
def PathElement.kind : PathElement → ResolvedElement
  | .attribute name => .mapKey name
  | .index _ => .listIndex

/-- A value put at a path into what there is so far, if there is anything. -/
def insertedAt (value : AttributeValue) : List PathElement → Option AttributeValue → AttributeValue
  | [], _ => value
  | e :: rest, target =>
    deepInsertIntoAv value ((e :: rest).map PathElement.kind)
      (target.getD (emptyContainer e.kind))

theorem insertedAt_attribute {value : AttributeValue} {name : String} {rest : List PathElement}
    (target : Option AttributeValue) {map : List (String × AttributeValue)}
    (h : target.getD (.m []) = .m map) :
    insertedAt value (.attribute name :: rest) target =
      .m (insertAttr name (insertedAt value rest (map.lookup name)) map) := by
  rw [insertedAt, kind, emptyContainer, h]
  cases rest <;> rfl

theorem insertedAt_index_single {value : AttributeValue} {idx : ℕ}
    (target : Option AttributeValue) {list : List AttributeValue}
    (h : target.getD (.l []) = .l list) :
    insertedAt value [.index idx] target = .l (list ++ [value]) := by
  rw [insertedAt, kind, emptyContainer, h]
  rfl

theorem insertedAt_index {value : AttributeValue} {idx : ℕ} {rest : List PathElement}
    (target : Option AttributeValue) {list : List AttributeValue} (hrest : rest ≠ [])
    (h : target.getD (.l []) = .l list) :
    insertedAt value (.index idx :: rest) target =
      .l (list.dropLast ++ [insertedAt value rest list.getLast?]) := by
  rw [insertedAt, kind, emptyContainer, h]
  cases rest with
  | nil => exact absurd rfl hrest
  | cons e rest => rfl

/-- Of two paths through one list the second ends there, at the greater index. -/
def InOrder (p q : List PathElement) : Prop :=
  ∀ r i j p' q', p = r ++ .index i :: p' → q = r ++ .index j :: q' → i ≠ j → q' = [] ∧ i < j

theorem InOrder.tail {e : PathElement} (h : InOrder (e :: p) (e :: q)) : InOrder p q := by
  rintro r i j p' q' rfl rfl hne
  exact h (e :: r) i j p' q' rfl rfl hne

theorem below_append (e : PathElement) (paths more : List (List PathElement)) :
    below e (paths ++ more) = below e paths ++ below e more :=
  filterMap_append

theorem below_singleton (e f : PathElement) (rest : List PathElement) :
    below e [f :: rest] = if f = e then [rest] else [] := by
  split_ifs with h <;> simp [below, h]

section Elements

variable {list : List AttributeValue} {idx : ℕ} {child : AttributeValue}
  {rest : List PathElement} {paths T : List (List PathElement)}

theorem addressedElements_split (hchild : list[idx]? = some child) (T : List (List PathElement)) :
    addressedElements T 0 list = addressedElements T 0 (list.take idx) ++
      ((addressed (below (.index idx) T) child).toList ++
        addressedElements T (idx + 1) (list.drop (idx + 1))) := by
  obtain ⟨hlt, hget⟩ := List.getElem?_eq_some_iff.mp hchild
  have hlist : list = list.take idx ++ child :: list.drop (idx + 1) := by
    rw [← hget, ← List.drop_eq_getElem_cons hlt, List.take_append_drop]
  conv_lhs => rw [hlist]
  rw [addressedElements_append, length_take_of_le hlt.le, Nat.zero_add,
    addressedElements_cons]

/-- The paths that lead to something at another index come before the path and it ends there. -/
def OthersBefore (list : List AttributeValue) (idx : ℕ) (rest : List PathElement)
    (paths : List (List PathElement)) : Prop :=
  ∀ i p, i ≠ idx → valueAt (.index i :: p) (.l list) ≠ none → .index i :: p ∈ paths →
    rest = [] ∧ i < idx

theorem OthersBefore.append (h : OthersBefore list idx rest paths) (last : List PathElement) :
    OthersBefore list idx rest (paths ++ [.index idx :: last]) := by
  intro i p hne hvalue hmem
  rcases mem_append.mp hmem with hmem | hmem
  · exact h i p hne hvalue hmem
  · have heq := (cons.inj (mem_singleton.mp hmem)).1
    exact absurd (index.inj heq) hne

variable (hsorted : ∀ v ∈ list, v.Sorted)

include hsorted

theorem OthersBefore.after (h : OthersBefore list idx rest paths) :
    addressedElements paths (idx + 1) (list.drop (idx + 1)) = [] := by
  refine addressedElements_eq_nil (fun v hv => hsorted v (mem_of_mem_drop hv)) ?_
  intro i child hchild p hp hmem
  rw [getElem?_drop] at hchild
  have hvalue : valueAt (.index (idx + 1 + i) :: p) (.l list) ≠ none := by
    rw [valueAt_index, hchild]
    exact hp
  have hlt := (h _ p (by omega) hvalue hmem).2
  omega

theorem OthersBefore.before (h : OthersBefore list idx rest paths) (hrest : rest ≠ []) :
    addressedElements paths 0 (list.take idx) = [] := by
  refine addressedElements_eq_nil (fun v hv => hsorted v (List.mem_of_mem_take hv)) ?_
  intro i child hchild p hp hmem
  have hlt : i < idx :=
    lt_of_lt_of_le (List.getElem?_eq_some_iff.mp hchild).1 (List.length_take_le _ _)
  rw [Nat.zero_add] at hmem
  rw [getElem?_take_of_lt hlt] at hchild
  have hvalue : valueAt (.index i :: p) (.l list) ≠ none := by
    rw [valueAt_index, hchild]
    exact hp
  exact hrest (h i p hlt.ne hvalue hmem).1

theorem addressedElements_take_append (last : List PathElement) :
    addressedElements (paths ++ [.index idx :: last]) 0 (list.take idx) =
      addressedElements paths 0 (list.take idx) := by
  refine addressedElements_congr 0 (fun v hv => hsorted v (List.mem_of_mem_take hv)) ?_
  intro i child hchild p _
  have hlt : i < idx :=
    lt_of_lt_of_le (List.getElem?_eq_some_iff.mp hchild).1 (List.length_take_le _ _)
  rw [Nat.zero_add, mem_append, mem_singleton]
  constructor
  · rintro (hmem | heq)
    · exact hmem
    · exact absurd (index.inj (cons.inj heq).1) hlt.ne
  · exact .inl

/-- A path that ends in the list adds its element behind the others. -/
theorem addressedElements_insert_last (hchild : list[idx]? = some child)
    (hothers : OthersBefore list idx [] paths)
    (hnone : addressed (below (.index idx) paths) child = none)
    (hkept : addressed (below (.index idx) (paths ++ [[.index idx]])) child = some w) :
    addressedElements (paths ++ [[.index idx]]) 0 list = addressedElements paths 0 list ++ [w] := by
  rw [addressedElements_split hchild, addressedElements_split hchild,
    addressedElements_take_append hsorted, hkept, hnone, (hothers.append []).after hsorted,
    hothers.after hsorted]
  simp

/-- A path that goes through the list goes through the only element there is. -/
theorem addressedElements_insert_only (hchild : list[idx]? = some child)
    (hothers : OthersBefore list idx rest paths) (hrest : rest ≠ []) :
    addressedElements paths 0 list = (addressed (below (.index idx) paths) child).toList := by
  rw [addressedElements_split hchild, hothers.before hsorted hrest, hothers.after hsorted]
  simp

end Elements

/-- A value put in behind what is addressed so far is what is addressed then. -/
theorem addressed_insertedAt {v : AttributeValue} (paths : List (List PathElement))
    (hsorted : v.Sorted) (hq : valueAt q v = some w)
    (hpaths : ∀ p ∈ paths, valueAt p v ≠ none → ¬Overlap p q ∧ InOrder p q) :
    addressed (paths ++ [q]) v = some (insertedAt w q (addressed paths v)) := by
  induction q generalizing v paths with
  | nil =>
      rw [addressed_nil_mem (mem_append_right _ (mem_singleton.mpr rfl))]
      exact hq
  | cons e rest ih =>
      have hroot : [] ∉ paths := fun h =>
        (hpaths [] h nofun).1 (.inl ( nil_prefix))
      have hroot' : [] ∉ paths ++ [e :: rest] := by simpa using hroot
      have hbelow : ∀ child, valueAt rest child = some w →
          (∀ p, valueAt (e :: p) v = valueAt p child) → child.Sorted →
          addressed (below e (paths ++ [e :: rest])) child =
            some (insertedAt w rest (addressed (below e paths) child)) := by
        intro child hrest hstep hchild
        rw [below_append, below_singleton, if_pos rfl]
        refine ih _ hchild hrest fun p hp hvalue => ?_
        obtain ⟨hdiv, horder⟩ := hpaths (e :: p) (mem_below.mp hp) (by rwa [hstep p])
        exact ⟨not_overlap_cons hdiv rfl, horder.tail⟩
      have hother : ∀ f ≠ e, below f (paths ++ [e :: rest]) = below f paths := by
        intro f hf
        rw [below_append, below_singleton, if_neg hf.symm, append_nil]
      rcases e with name | idx
      · cases v with
        | m map =>
            rw [valueAt_attribute] at hq
            obtain ⟨child, hchild, hrest⟩ := Option.bind_eq_some_iff.mp hq
            have hkept := hbelow child hrest (fun p => by rw [valueAt_attribute, hchild]; rfl)
              (hsorted.map.2 _ (mem_of_lookup hchild))
            have hentries : addressedEntries (paths ++ [.attribute name :: rest]) map =
                insertAttr name (insertedAt w rest ((addressedEntries paths map).lookup name))
                  (addressedEntries paths map) := by
              refine eq_of_lookup (pairwise_addressedEntries hsorted.map.1)
                (pairwise_insertAttr (pairwise_addressedEntries hsorted.map.1)) fun other => ?_
              rw [lookup_insertAttr, lookup_addressedEntries _ hsorted.map.1,
                lookup_addressedEntries _ hsorted.map.1, lookup_addressedEntries _ hsorted.map.1]
              split_ifs with heq
              · rw [heq, hchild]
                exact hkept
              · rw [hother _ fun h => heq (attribute.inj h)]
            rw [insertedAt_attribute _ (getD_addressed_m hroot map), ← hentries, addressed,
              if_neg hroot', if_neg]
            rw [List.isEmpty_iff]
            intro hempty
            have hlookup := lookup_addressedEntries (paths ++ [.attribute name :: rest])
              hsorted.map.1 name
            rw [hempty, hchild, Option.bind_some, hkept] at hlookup
            cases hlookup
        | _ => cases hq
      · cases v with
        | l list =>
            rw [valueAt_index] at hq
            obtain ⟨child, hchild, hrest⟩ := Option.bind_eq_some_iff.mp hq
            have hkept := hbelow child hrest (fun p => by rw [valueAt_index, hchild]; rfl)
              (hsorted.list _ (mem_of_getElem? hchild))
            have hothers : OthersBefore list idx rest paths := fun i p hne hvalue hmem =>
              (hpaths _ hmem hvalue).2 [] i idx p rest rfl rfl hne
            have haddressed : ∀ xs : List AttributeValue, xs ≠ [] →
                addressedElements (paths ++ [.index idx :: rest]) 0 list = xs →
                addressed (paths ++ [.index idx :: rest]) (.l list) = some (.l xs) := by
              intro xs hxs helements
              rw [addressed, if_neg hroot', helements, if_neg]
              rwa [List.isEmpty_iff]
            by_cases hempty : rest = []
            · subst hempty
              have hnone : addressed (below (.index idx) paths) child = none := by
                refine addressed_eq_none (hsorted.list _ (mem_of_getElem? hchild)) ?_
                intro p hp
                by_contra hvalue
                refine (hpaths _ (mem_below.mp hp) ?_).1
                  (.inr ((prefix_cons_inj _).mpr p.nil_prefix))
                rw [valueAt_index, hchild]
                exact hvalue
              rw [insertedAt_index_single _ (getD_addressed_l hroot list)]
              exact haddressed _ (by simp)
                (addressedElements_insert_last hsorted.list hchild hothers hnone hkept)
            · rw [insertedAt_index _ hempty (getD_addressed_l hroot list),
                addressedElements_insert_only hsorted.list hchild hothers hempty]
              refine haddressed _ (by simp) ?_
              rw [addressedElements_insert_only hsorted.list hchild (hothers.append rest) hempty,
                hkept]
              cases addressed (below (.index idx) paths) child <;> rfl
        | _ => cases hq

/-! ## Whole projections -/

/-- Every placeholder of the path has a name. -/
def Defined (names : List (String × String)) (path : AttributePath) : Prop :=
  ∀ name, .attribute name ∈ path.elements → ∃ resolved, resolveName names name = some resolved

/-- The path starts with an attribute. -/
def Starts (path : AttributePath) : Prop :=
  ∃ name rest, path.elements = .attribute name :: rest

theorem map_kind_resolve (names : List (String × String)) (path : List PathElement) :
    (path.map (resolve names)).map kind =
      path.map (resolveElement names) := by
  rw [map_map]
  apply map_congr_left
  rintro (name | idx) _
  · rfl
  · rfl

theorem walkPath_none (names : List (String × String)) (path : List PathElement) :
    walkPath names path none = none := by
  rcases path with _ | ⟨name | idx, rest⟩
  · rfl
  · rw [walkPath]
    cases resolveName names name <;> rfl
  · rfl

theorem walkPath_eq {names : List (String × String)} {path : List PathElement}
    (hdefined : ∀ name, .attribute name ∈ path → ∃ resolved, resolveName names name = some resolved)
    (v : AttributeValue) :
    walkPath names path (some v) = valueAt (path.map (resolve names)) v := by
  induction path generalizing v with
  | nil => rfl
  | cons e rest ih =>
      have htail : ∀ current : Option AttributeValue, walkPath names rest current =
          current.bind (valueAt (rest.map (resolve names))) := by
        intro current
        cases current with
        | none => exact walkPath_none names rest
        | some w => exact ih (fun name h => hdefined name (.tail _ h)) w
      rcases e with name | idx
      · obtain ⟨resolved, hresolved⟩ := hdefined name (.head _)
        rw [walkPath, hresolved, map_cons, resolve, resolveName_eq_some hresolved]
        cases v with
        | m map => exact htail (map.lookup resolved)
        | _ => rfl
      · rw [walkPath, map_cons, resolve]
        cases v with
        | l list => exact htail list[idx]?
        | _ => rfl

namespace EvalContext

variable {ctx : EvalContext} {path : AttributePath}

theorem resolvePath_eq (hstarts : Starts path) (hdefined : Defined ctx.names path) :
    ctx.resolvePath path = valueAt (path.resolve ctx.names) (.m ctx.item) := by
  obtain ⟨name, rest, helements⟩ := hstarts
  unfold Defined at hdefined
  rw [helements] at hdefined
  obtain ⟨resolved, hresolved⟩ := hdefined name (.head _)
  rw [resolvePath, AttributePath.resolve, helements]
  dsimp only
  rw [hresolved, map_cons, resolve, resolveName_eq_some hresolved,
    valueAt_attribute]
  change walkPath ctx.names rest (ctx.item.lookup resolved) = _
  cases ctx.item.lookup resolved with
  | none => exact walkPath_none ctx.names rest
  | some v => exact walkPath_eq (fun name h => hdefined name (.tail _ h)) v

theorem projectPath_none (h : ctx.resolvePath path = none) (result : Item) :
    ctx.projectPath result path = result := by
  rw [projectPath, h]

/-- A path that leads to something puts it in. -/
theorem projectPath_some (hstarts : Starts path) (hdefined : Defined ctx.names path)
    (h : ctx.resolvePath path = some w) (result : Item) {target : Option AttributeValue}
    (htarget : target.getD (.m []) = .m result) :
    m (ctx.projectPath result path) =
      insertedAt w (path.resolve ctx.names) target := by
  obtain ⟨name, rest, helements⟩ := hstarts
  unfold Defined at hdefined
  rw [helements] at hdefined
  obtain ⟨resolved, hresolved⟩ := hdefined name (.head _)
  rw [AttributePath.resolve, helements, map_cons, resolve,
    resolveName_eq_some hresolved, insertedAt_attribute _ htarget, projectPath, h]
  have htop : resolveTopLevelNameOpt ctx.names path = some resolved := by
    rw [resolveTopLevelNameOpt, helements]
    exact hresolved
  dsimp only
  rw [htop, helements]
  dsimp only
  cases rest with
  | nil => rfl
  | cons e rest =>
      rw [if_neg (by simp), deepInsert, helements, map_cons, map_cons, resolveElement,
        resolveName_eq_some hresolved]
      dsimp only
      rw [map_cons, insertedAt, map_cons, map_kind_resolve]
      rcases e with name | idx <;> rfl

/-- The paths put what they address into what earlier paths put in. -/
theorem foldl_projectPath (hsorted : (m ctx.item).Sorted)
    {paths : List AttributePath} (front : List (List PathElement)) (hfront : [] ∉ front)
    (hpaths : ∀ path ∈ paths, Starts path ∧ Defined ctx.names path)
    (horder : (front ++ paths.map (AttributePath.resolve ctx.names)).Pairwise fun p q =>
      valueAt p (.m ctx.item) ≠ none → valueAt q (.m ctx.item) ≠ none →
        ¬Overlap p q ∧ InOrder p q) :
    paths.foldl ctx.projectPath (addressedEntries front ctx.item) =
      addressedEntries (front ++ paths.map (AttributePath.resolve ctx.names)) ctx.item := by
  induction paths generalizing front with
  | nil => rw [map_nil, append_nil, foldl_nil]
  | cons path paths ih =>
      obtain ⟨hstarts, hdefined⟩ := hpaths path (.head _)
      have hne : path.resolve ctx.names ≠ [] := by
        obtain ⟨name, rest, helements⟩ := hstarts
        rw [AttributePath.resolve, helements]
        simp
      have hfront' : [] ∉ front ++ [path.resolve ctx.names] := by
        rw [mem_append, mem_singleton]
        rintro (h | h)
        · exact hfront h
        · exact hne h.symm
      have hnext : ctx.projectPath (addressedEntries front ctx.item) path =
          addressedEntries (front ++ [path.resolve ctx.names]) ctx.item := by
        have hvalue := resolvePath_eq hstarts hdefined
        cases hthere : valueAt (path.resolve ctx.names) (.m ctx.item) with
        | none =>
            rw [projectPath_none (hvalue.trans hthere)]
            have hcongr := addressed_congr (S := front)
              (T := front ++ [path.resolve ctx.names]) hsorted fun p hp => by
                rw [mem_append, mem_singleton]
                constructor
                · exact .inl
                · rintro (h | h)
                  · exact h
                  · rw [h, hthere] at hp
                    exact absurd rfl hp
            have hget := congrArg (fun kept => kept.getD (.m [])) hcongr
            rw [getD_addressed_m hfront, getD_addressed_m hfront'] at hget
            exact m.inj hget
        | some w =>
            have hinsert := addressed_insertedAt front hsorted hthere fun p hp hpvalue =>
              (pairwise_append.mp horder).2.2 p hp _ (.head _) hpvalue (by
                rw [hthere]
                exact Option.some_ne_none w)
            have hput := projectPath_some hstarts hdefined (hvalue.trans hthere)
              (addressedEntries front ctx.item) (getD_addressed_m hfront ctx.item)
            have hget := congrArg (fun kept => kept.getD (.m [])) hinsert
            rw [getD_addressed_m hfront', Option.getD_some, ← hput] at hget
            exact (m.inj hget).symm
      rw [foldl_cons, hnext, ih _ hfront' (fun p hp => hpaths p (.tail _ hp)),
        map_cons, append_assoc, singleton_append]
      rw [append_assoc, singleton_append, ← map_cons]
      exact horder

/-- Paths in order return exactly what they address. -/
theorem applyProjection_eq (hsorted : (m ctx.item).Sorted)
    {paths : List AttributePath} (hpaths : ∀ path ∈ paths, Starts path ∧ Defined ctx.names path)
    (horder : (paths.map (AttributePath.resolve ctx.names)).Pairwise fun p q =>
      valueAt p (.m ctx.item) ≠ none → valueAt q (.m ctx.item) ≠ none →
        ¬Overlap p q ∧ InOrder p q) :
    ctx.applyProjection paths =
      addressedEntries (paths.map (AttributePath.resolve ctx.names)) ctx.item := by
  have h := foldl_projectPath hsorted [] (by simp) hpaths (by simpa using horder)
  rw [addressedEntries_nil] at h
  exact h

end EvalContext

/-! ## Paths out of order -/

/-- A document that holds a value at a path. -/
def document (w : AttributeValue) : List PathElement → AttributeValue
  | [] => w
  | .attribute name :: rest => .m [(name, document w rest)]
  | .index idx :: rest => .l (List.replicate idx (.null true) ++ [document w rest])

theorem sorted_document (hw : w.Sorted) (path : List PathElement) : (document w path).Sorted := by
  induction path with
  | nil => exact hw
  | cons e rest ih =>
      rcases e with name | idx
      · refine .m (pairwise_singleton _ _) fun e he => ?_
        rw [mem_singleton.mp he]
        exact ih
      · refine .l fun v hv => ?_
        rcases mem_append.mp hv with hv | hv
        · rw [eq_of_mem_replicate hv]
          exact .leaf rfl rfl
        · rw [mem_singleton.mp hv]
          exact ih

theorem valueAt_document (w : AttributeValue) (path rest : List PathElement) :
    valueAt (path ++ rest) (document w path) = valueAt rest w := by
  induction path with
  | nil => rfl
  | cons e path ih =>
      rcases e with name | idx
      · rw [cons_append, document, valueAt_attribute, lookup_cons_ite, if_pos rfl]
        exact ih
      · rw [cons_append, document, valueAt_index, getElem?_append_right (by simp)]
        simpa using ih

/-- One path puts its value into a document of its own. -/
theorem addressed_document (hw : w.Sorted) (path : List PathElement) :
    addressed [path] (document w path) = some (insertedAt w path none) := by
  have hvalue : valueAt path (document w path) = some w := by
    have h := valueAt_document w path []
    rwa [append_nil] at h
  have h := addressed_insertedAt [] (sorted_document hw path) hvalue (by simp)
  rwa [addressed_nil] at h

/-- Elements no path goes through are skipped. -/
theorem addressedElements_replicate {paths : List (List PathElement)} {idx n : ℕ}
    (h : ∀ k < n, below (.index (idx + k)) paths = []) (list : List AttributeValue) :
    addressedElements paths idx (replicate n (.null true) ++ list) =
      addressedElements paths (idx + n) list := by
  induction n generalizing idx with
  | zero => rfl
  | succ n ih =>
      have hhead := h 0 (Nat.succ_pos n)
      rw [Nat.add_zero] at hhead
      rw [replicate_succ, cons_append, addressedElements_cons, hhead, addressed_nil,
        ih fun k hk => by
          have hnext := h (k + 1) (by omega)
          rwa [show idx + (k + 1) = idx + 1 + k by omega] at hnext]
      rw [show idx + 1 + n = idx + (n + 1) by omega]
      rfl

/-- What two paths put in, one after the other. -/
def insertedBoth (wp wq : AttributeValue) (p q : List PathElement) : AttributeValue :=
  insertedAt wq q (some (insertedAt wp p none))

/-- Two paths that leave the projection of some document wrong. -/
def Clash (p q : List PathElement) : Prop :=
  ∃ (wp wq v : AttributeValue), v.Sorted ∧ valueAt p v = some wp ∧ valueAt q v = some wq ∧
    addressed [p, q] v ≠ some (insertedBoth wp wq p q)

theorem below_pair (e : PathElement) (p q : List PathElement) :
    below e [e :: p, e :: q] = [p, q] := by
  simp [below]

theorem insertedAt_index_none (w : AttributeValue) (idx : ℕ) (path : List PathElement) :
    insertedAt w (.index idx :: path) none = .l [insertedAt w path none] := by
  by_cases hpath : path = []
  · subst hpath
    exact insertedAt_index_single none rfl
  · exact insertedAt_index none hpath rfl

/-- A clash stays one behind a common element. -/
theorem Clash.cons (hq : q ≠ []) (e : PathElement) (h : Clash p q) : Clash (e :: p) (e :: q) := by
  obtain ⟨wp, wq, v, hsorted, hvp, hvq, hne⟩ := h
  have hroot : ([] : List PathElement) ∉ [e :: p, e :: q] := by simp
  rcases e with name | idx
  · refine ⟨wp, wq, document v [.attribute name], sorted_document hsorted _, ?_, ?_, ?_⟩
    · exact (valueAt_document v [.attribute name] p).trans hvp
    · exact (valueAt_document v [.attribute name] q).trans hvq
    · have hboth : insertedBoth wp wq (.attribute name :: p) (.attribute name :: q) =
          .m [(name, insertedBoth wp wq p q)] := by
        rw [insertedBoth, insertedAt_attribute none rfl,
          insertedAt_attribute (some _) rfl]
        simp [insertAttr, insertedBoth]
      rw [hboth, document, document, addressed, if_neg hroot, addressedEntries_cons, below_pair,
        addressedEntries]
      cases hkept : addressed [p, q] v with
      | none => simp
      | some kept =>
          rw [hkept] at hne
          simpa using hne
  · refine ⟨wp, wq, document v [.index idx], sorted_document hsorted _, ?_, ?_, ?_⟩
    · exact (valueAt_document v [.index idx] p).trans hvp
    · exact (valueAt_document v [.index idx] q).trans hvq
    · have hboth : insertedBoth wp wq (.index idx :: p) (.index idx :: q) =
          .l [insertedBoth wp wq p q] := by
        rw [insertedBoth, insertedAt_index_none, insertedAt_index (some _) hq rfl]
        rfl
      have hskip : ∀ k < idx, below (.index (0 + k)) [.index idx :: p, .index idx :: q] = [] := by
        intro k hk
        have hother : ¬idx = k := by omega
        simp [below, hother]
      rw [hboth, document, document, addressed, if_neg hroot, addressedElements_replicate hskip,
        Nat.zero_add, addressedElements_cons, below_pair, addressedElements]
      cases hkept : addressed [p, q] v with
      | none => simp
      | some kept =>
          rw [hkept] at hne
          simpa using hne

/-- A list with two elements that matter. -/
def pairList (i j : ℕ) (x y : AttributeValue) : AttributeValue :=
  .l (List.replicate i (.null true) ++ x :: (List.replicate (j - i - 1) (.null true) ++ [y]))

section PairList

variable {i j : ℕ} {x y : AttributeValue}

theorem sorted_pairList (hx : x.Sorted) (hy : y.Sorted) : (pairList i j x y).Sorted := by
  refine .l fun v hv => ?_
  simp only [mem_append, mem_cons, mem_replicate, not_mem_nil,
    or_false] at hv
  rcases hv with ⟨-, rfl⟩ | rfl | ⟨-, rfl⟩ | rfl
  · exact .leaf rfl rfl
  · exact hx
  · exact .leaf rfl rfl
  · exact hy

theorem valueAt_pairList_left (rest : List PathElement) :
    valueAt (.index i :: rest) (pairList i j x y) = valueAt rest x := by
  rw [pairList, valueAt_index, getElem?_append_right (by simp)]
  simp

theorem valueAt_pairList_right (hlt : i < j) (rest : List PathElement) :
    valueAt (.index j :: rest) (pairList i j x y) = valueAt rest y := by
  obtain ⟨n, rfl⟩ : ∃ n, j = i + n + 1 := ⟨j - i - 1, by omega⟩
  rw [pairList, valueAt_index, getElem?_append_right (by simp; omega)]
  simp [show i + n + 1 - i = n + 1 by omega]

theorem addressed_pairList (hlt : i < j) {paths : List (List PathElement)} {x' y' : AttributeValue}
    (hroot : [] ∉ paths) (hp : below (.index i) paths = [p]) (hq : below (.index j) paths = [q])
    (hother : ∀ k, k ≠ i → k ≠ j → below (.index k) paths = []) (hx : addressed [p] x = some x')
    (hy : addressed [q] y = some y') : addressed paths (pairList i j x y) = some (.l [x', y']) := by
  have helements : addressedElements paths 0
      (replicate i (.null true) ++ x :: (replicate (j - i - 1) (.null true) ++ [y])) =
        [x', y'] := by
    rw [addressedElements_replicate fun k hk => hother _ (by omega) (by omega), Nat.zero_add,
      addressedElements_cons, hp,
      addressedElements_replicate fun k hk => hother _ (by omega) (by omega),
      show i + 1 + (j - i - 1) = j by omega, addressedElements_cons, hq, addressedElements, hx, hy]
    rfl
  rw [pairList, addressed, if_neg hroot, helements]
  rfl

end PairList

theorem insertedAt_bool_ne (p : List PathElement) :
    insertedAt (.bool true) p none ≠ .bool false := by
  rcases p with _ | ⟨name | idx, p⟩
  · simp [insertedAt]
  · rw [insertedAt_attribute none rfl]
    nofun
  · rw [insertedAt_index_none]
    nofun

/-- Two elements of one list: only the order of the indices is right. -/
theorem clash_of_list {i j : ℕ} (hne : i ≠ j) (horder : ¬(q = [] ∧ i < j)) :
    Clash (.index i :: p) (.index j :: q) := by
  have hleaf : ∀ b, (bool b).Sorted := fun b => .leaf rfl rfl
  have hlength : ∀ (x y : AttributeValue) (hq : q ≠ []),
      some (l [x, y]) ≠
        some (insertedBoth (.bool true) (.bool false) (.index i :: p) (.index j :: q)) := by
    intro x y hq
    rw [insertedBoth, insertedAt_index_none, insertedAt_index (some _) hq rfl]
    simp
  have hroot : ([] : List PathElement) ∉ [.index i :: p, .index j :: q] := by simp
  have hleft := fun w => valueAt_document w p []
  have hright := fun w => valueAt_document w q []
  simp only [append_nil] at hleft hright
  rcases lt_or_gt_of_ne hne with hlt | hlt
  · have hq : q ≠ [] := fun h => horder ⟨h, hlt⟩
    refine ⟨.bool true, .bool false, pairList i j (document (.bool true) p)
      (document (.bool false) q), ?_, ?_, ?_, ?_⟩
    · exact sorted_pairList (sorted_document (hleaf true) p) (sorted_document (hleaf false) q)
    · rw [valueAt_pairList_left]
      exact hleft _
    · rw [valueAt_pairList_right hlt]
      exact hright _
    · rw [addressed_pairList hlt hroot (p := p) (q := q) (by simp [below, hlt.ne'])
        (by simp [below, hlt.ne]) (fun k hi hj => by simp [below, Ne.symm hi, Ne.symm hj])
        (addressed_document (hleaf true) p) (addressed_document (hleaf false) q)]
      exact hlength _ _ hq
  · refine ⟨.bool true, .bool false, pairList j i (document (.bool false) q)
      (document (.bool true) p), ?_, ?_, ?_, ?_⟩
    · exact sorted_pairList (sorted_document (hleaf false) q) (sorted_document (hleaf true) p)
    · rw [valueAt_pairList_right hlt]
      exact hleft _
    · rw [valueAt_pairList_left]
      exact hright _
    · rw [addressed_pairList hlt hroot (p := q) (q := p) (by simp [below, hlt.ne'])
        (by simp [below, hlt.ne]) (fun k hj hi => by simp [below, Ne.symm hi, Ne.symm hj])
        (addressed_document (hleaf false) q) (addressed_document (hleaf true) p)]
      by_cases hq : q = []
      · subst hq
        rw [insertedBoth, insertedAt_index_none, insertedAt_index_single (some _) rfl]
        intro heq
        have hlist := l.inj (Option.some.inj heq)
        exact insertedAt_bool_ne p (cons.inj hlist).1.symm
      · exact hlength _ _ hq

/-- Paths that are not in order clash. -/
theorem clash_of_not_inOrder (h : ¬InOrder p q) : Clash p q := by
  unfold InOrder at h
  push Not at h
  obtain ⟨r, i, j, p', q', rfl, rfl, hne, horder⟩ := h
  induction r with
  | nil => exact clash_of_list hne fun h => absurd h.2 (not_lt.mpr (horder h.1))
  | cons e r ih => exact ih.cons (by simp) e

/-- Two paths that clash come out wrong for some item. -/
theorem EvalContext.exists_applyProjection_ne {names : List (String × String)}
    {p q : AttributePath} (hp : Starts p ∧ Defined names p) (hq : Starts q ∧ Defined names q)
    (h : Clash (p.resolve names) (q.resolve names)) :
    ∃ item : Item, (m item).Sorted ∧
      applyProjection ⟨item, names, []⟩ [p, q] ≠
        addressedEntries ([p, q].map (AttributePath.resolve names)) item := by
  obtain ⟨wp, wq, v, hsorted, hvp, hvq, hne⟩ := h
  obtain ⟨name, rest, helements⟩ := hq.1
  have hresolve : q.resolve names =
      .attribute (resolveNameRef names name) :: rest.map (resolve names) := by
    rw [AttributePath.resolve, helements]
    rfl
  have hroot : ([] : List PathElement) ∉ [p.resolve names, q.resolve names] := by
    obtain ⟨_, _, helements'⟩ := hp.1
    simp [AttributePath.resolve, helements, helements']
  cases v with
  | m item =>
      have hfirst : m (projectPath ⟨item, names, []⟩ [] p) =
          insertedAt wp (p.resolve names) none :=
        projectPath_some hp.1 hp.2 ((resolvePath_eq hp.1 hp.2).trans hvp) [] rfl
      have htarget : (some (insertedAt wp (p.resolve names) none)).getD (.m []) =
          m (projectPath ⟨item, names, []⟩ [] p) := hfirst.symm
      have hsecond : m (applyProjection ⟨item, names, []⟩ [p, q]) =
          insertedAt wq (q.resolve names) (some (insertedAt wp (p.resolve names) none)) :=
        projectPath_some hq.1 hq.2 ((resolvePath_eq hq.1 hq.2).trans hvq) _ htarget
      refine ⟨item, hsorted, fun heq => hne ?_⟩
      have hboth : m (addressedEntries [p.resolve names, q.resolve names] item) =
          insertedBoth wp wq (p.resolve names) (q.resolve names) := by
        rw [insertedBoth]
        exact (congrArg m heq.symm).trans hsecond
      have hnonempty : addressedEntries [p.resolve names, q.resolve names] item ≠ [] := by
        intro hempty
        rw [hempty, insertedBoth, hresolve, insertedAt_attribute _ htarget] at hboth
        have hlookup := congrArg (List.lookup (resolveNameRef names name))
          (m.inj hboth)
        rw [lookup_insertAttr, if_pos rfl] at hlookup
        cases hlookup
      rw [addressed, if_neg hroot, if_neg (by rwa [List.isEmpty_iff]), hboth]
  | _ =>
      rw [hresolve] at hvq
      cases hvq

/-! ## When projections are exact -/

/-- A projection of accepted paths that do not overlap returns exactly what they address, where
each of the paths that goes through a list after another ends in it at a greater index; and it
does so for every item and any of the paths only if they are in that order. -/
theorem applyProjection_iff {input : String} {paths : List AttributePath}
    {names : List (String × String)} (haccepted : parseProjection input = .ok paths)
    (hdefined : ∀ path ∈ paths, Defined names path)
    (hdistinct : paths.Pairwise fun p q => ¬Overlap (p.resolve names) (q.resolve names)) :
    (∀ item : Item, (m item).Sorted →
      (paths.Pairwise fun p q => valueAt (p.resolve names) (.m item) ≠ none →
        valueAt (q.resolve names) (.m item) ≠ none → InOrder (p.resolve names) (q.resolve names)) →
      applyProjection ⟨item, names, []⟩ paths =
        addressedEntries (paths.map (AttributePath.resolve names)) item) ∧
    ((∀ item : Item, (m item).Sorted → ∀ requested, requested.Sublist paths →
      applyProjection ⟨item, names, []⟩ requested =
        addressedEntries (requested.map (AttributePath.resolve names)) item) ↔
      paths.Pairwise fun p q => InOrder (p.resolve names) (q.resolve names)) := by
  have hpaths : ∀ path ∈ paths, Starts path ∧ Defined names path := fun path hpath =>
    ⟨parseProjection_starts haccepted path hpath, hdefined path hpath⟩
  refine ⟨fun item hsorted horder => ?_, fun h => ?_, fun horder item hsorted requested hsub => ?_⟩
  · refine applyProjection_eq hsorted hpaths (pairwise_map.mpr ?_)
    exact hdistinct.imp₂ (fun _ _ hdiv horder hp hq => ⟨hdiv, horder hp hq⟩) horder
  · by_contra hnot
    obtain ⟨p, q, hsub, hclash⟩ : ∃ p q, [p, q].Sublist paths ∧
        ¬InOrder (p.resolve names) (q.resolve names) := by
      by_contra hnone
      push Not at hnone
      exact hnot (pairwise_iff_forall_sublist.mpr fun hsub => hnone _ _ hsub)
    obtain ⟨item, hsorted, hne⟩ := exists_applyProjection_ne
      (hpaths p (hsub.mem (by simp))) (hpaths q (hsub.mem (by simp)))
      (clash_of_not_inOrder hclash)
    exact hne (h item hsorted [p, q] hsub)
  · have hsubpaths : ∀ path ∈ requested, Starts path ∧ Defined names path := fun path hpath =>
      hpaths path (hsub.mem hpath)
    refine applyProjection_eq hsorted hsubpaths (pairwise_map.mpr ?_)
    exact (hdistinct.sublist hsub).imp₂ (fun _ _ hdiv horder _ _ => ⟨hdiv, horder⟩)
      (horder.sublist hsub)

/-- The first two elements of a list. -/
def firstTwo : List AttributePath :=
  [⟨[.attribute "a", .index 0]⟩, ⟨[.attribute "a", .index 1]⟩]

theorem applyProjection_iff_firstTwo :
    parseProjection "a[0], a[1]" = .ok firstTwo ∧
      ((∀ item : Item, (m item).Sorted → ∀ requested, requested.Sublist firstTwo →
        applyProjection ⟨item, [], []⟩ requested =
          addressedEntries (requested.map (AttributePath.resolve [])) item) ↔
        firstTwo.Pairwise fun p q => InOrder (p.resolve []) (q.resolve [])) := by
  have haccepted : parseProjection "a[0], a[1]" = .ok firstTwo := by decide +kernel
  refine ⟨haccepted, (applyProjection_iff haccepted ?_ ?_).2⟩
  · intro path hpath name hname
    have hplain : resolveName [] "a" = some "a" := by decide +kernel
    have hname : name = "a" := by
      simp only [firstTwo, mem_cons, not_mem_nil, or_false] at hpath
      rcases hpath with rfl | rfl <;> simpa using hname
    exact ⟨"a", hname ▸ hplain⟩
  · unfold Overlap
    decide +kernel

/-- The parts of two elements are merged into one. -/
theorem elements_merged :
    parseProjection "a[0].b, a[1].c" =
        .ok [⟨[.attribute "a", .index 0, .attribute "b"]⟩,
          ⟨[.attribute "a", .index 1, .attribute "c"]⟩] ∧
      applyProjection
          ⟨[("a", .l [.m [("b", .s "1")], .m [("c", .s "2")]])], [], []⟩
          [⟨[.attribute "a", .index 0, .attribute "b"]⟩,
            ⟨[.attribute "a", .index 1, .attribute "c"]⟩] =
        [("a", .l [.m [("b", .s "1"), ("c", .s "2")]])] ∧
      addressedEntries [[.attribute "a", .index 0, .attribute "b"],
          [.attribute "a", .index 1, .attribute "c"]]
          [("a", .l [.m [("b", .s "1")], .m [("c", .s "2")]])] =
        [("a", .l [.m [("b", .s "1")], .m [("c", .s "2")]])] := by
  refine ⟨by decide +kernel, by decide +kernel, by decide +kernel⟩

end Rustack.DynamoDB
