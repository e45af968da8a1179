import Rustack.DynamoDB.Scan

/-!
# Queries on a global secondary index

There is no index structure: a query reads the table with one scan, keeps the
items of the partition, sorts them by the index sort key and pages through the
result.  The scan returns one page, and an item without the index sort key is
kept unless a condition drops it.
-/

namespace Rustack.DynamoDB

open SortableAttributeValue renaming cmp → cmpKey
open List StoredEntry TableStorage Paging

/-! ## The query -/

/-- The index sort key an item carries, if it has one a key can have. -/
def indexSortKey (skDef : KeyAttribute) (item : Item) : Option SortableAttributeValue :=
  (item.lookup skDef.name).bind fun v =>
    (SortableAttributeValue.fromAttributeValue skDef.name v).toOption

/-- Items without a sort key come behind those with one. -/
def compareIndexKeys : Option SortableAttributeValue → Option SortableAttributeValue → Ordering
  | some a, some b => cmpKey a b
  | some _, none => .lt
  | none, some _ => .gt
  | none, none => .eq

def gsiFilterAndSort (hash : String → ℕ) (t : TableStorage) (gsi : KeySchema)
    (partitionValue : AttributeValue) (sortCondition : Option SortKeyCondition)
    (scanForward : Bool) : List Item :=
  let matching := (t.scan hash none none none none).1.filter fun item =>
    item.lookup gsi.partitionKey.name == some partitionValue
  let sorted := match gsi.sortKey with
    | none => matching
    | some skDef =>
      let kept := match sortCondition with
        | some condition => matching.filter fun item =>
          match indexSortKey skDef item with
          | some key => condition.matchesValue key
          | none => false
        | none => matching
      kept.insertionSort fun x y =>
        compareIndexKeys (indexSortKey skDef x) (indexSortKey skDef y) ≠ .gt
  if scanForward then sorted else sorted.reverse

/-- The item has every attribute of the start key. -/
def matchesStart (startKey item : Item) : Bool :=
  startKey.all fun e => item.lookup e.1 == some e.2

/-- Drop everything up to the item of the start key, or all items if it is not there. -/
def gsiApplyPagination (items : List Item) (startKey : Item) (gsiPkName : String) : List Item :=
  let isStartItem := fun item : Item =>
    (match item.lookup gsiPkName, startKey.lookup gsiPkName with
      | some v, some expected => v == expected
      | _, _ => false) && matchesStart startKey item
  match items.findIdx? isStartItem with
  | some pos => items.drop (pos + 1)
  | none => []

def reachedLimit (limit : Option ℕ) (count : ℕ) : Bool :=
  match limit with
  | some n => decide (n ≤ count)
  | none => false

/-- The loop of the page with `count` items of `used` bytes on it. -/
def gsiApplyLimitFrom (limit : Option ℕ) (count used : ℕ) : List Item → List Item × Bool
  | [] => ([], false)
  | item :: rest =>
    if reachedLimit limit count then ([], true)
    else if count ≠ 0 ∧ maxResponseBytes < used + calculateItemSize item then ([], true)
    else
      let page := gsiApplyLimitFrom limit (count + 1) (used + calculateItemSize item) rest
      (item :: page.1, page.2)

def gsiApplyLimit (items : List Item) (limit : Option ℕ) : List Item × Bool :=
  gsiApplyLimitFrom limit 0 0 items

/-- The key attributes of the index and of the table, in the order they are copied. -/
def keyNames (gsi table : KeySchema) : List String :=
  gsi.partitionKey.name :: (gsi.sortKey.map KeyAttribute.name).toList ++
    table.partitionKey.name :: (table.sortKey.map KeyAttribute.name).toList

def copyAttributes (item : Item) (names : List String) (key : Item) : Item :=
  names.foldl (fun key name => match item.lookup name with
    | some v => insertAttr name v key
    | none => key) key

def gsiBuildLastKey (lastItem : Item) (gsi table : KeySchema) : Item :=
  copyAttributes lastItem (keyNames gsi table) []

def queryGsi (hash : String → ℕ) (t : TableStorage) (tableKeySchema gsi : KeySchema)
    (partitionValue : AttributeValue) (sortCondition : Option SortKeyCondition)
    (scanForward : Bool) (limit : Option ℕ) (exclusiveStartKey : Item) :
    List Item × Option Item :=
  let matching := gsiFilterAndSort hash t gsi partitionValue sortCondition scanForward
  let matching := if exclusiveStartKey.isEmpty then matching
    else gsiApplyPagination matching exclusiveStartKey gsi.partitionKey.name
  let (selected, hasMore) := gsiApplyLimit matching limit
  let lastEvaluatedKey := if hasMore then
      selected.getLast?.map fun lastItem => gsiBuildLastKey lastItem gsi tableKeySchema
    else none
  (selected, lastEvaluatedKey)

/-- Follow the last evaluated key from page to page; `none` when there are more than `fuel`. -/
def gsiPages (hash : String → ℕ) (t : TableStorage) (tableKeySchema gsi : KeySchema)
    (partitionValue : AttributeValue) (sortCondition : Option SortKeyCondition)
    (scanForward : Bool) (limits : ℕ → Option ℕ) (fuel : ℕ) : Option (List Item) :=
  Paging.follow (fun i (cursor : Option Item) =>
    queryGsi hash t tableKeySchema gsi partitionValue sortCondition scanForward (limits i)
      (cursor.getD [])) fuel 0 none

/-! ## The page loop -/

/-- The items a limit lets through once `count` are taken. -/
def withinLimit (limit : Option ℕ) (count : ℕ) (items : List Item) : List Item :=
  match limit with
  | some n => items.take (n - count)
  | none => items

theorem withinLimit_cons {limit : Option ℕ} {count : ℕ} (h : reachedLimit limit count = false)
    (item : Item) (rest : List Item) :
    withinLimit limit count (item :: rest) = item :: withinLimit limit (count + 1) rest := by
  cases limit with
  | none => rfl
  | some n =>
      simp only [reachedLimit, decide_eq_false_iff_not] at h
      obtain ⟨k, rfl⟩ : ∃ k, n = count + k + 1 := ⟨n - count - 1, by omega⟩
      simp only [withinLimit, show count + k + 1 - count = k + 1 by omega,
        show count + k + 1 - (count + 1) = k by omega, take_succ_cons]

theorem gsiApplyLimitFrom_fst (limit : Option ℕ) (count used : ℕ) (items : List Item) :
    (gsiApplyLimitFrom limit count used items).1 =
      (fill calculateItemSize maxResponseBytes used (decide (count = 0))
        (withinLimit limit count items)).1 := by
  induction items generalizing count used with
  | nil => cases limit <;> simp [gsiApplyLimitFrom, withinLimit, fill]
  | cons item rest ih =>
      unfold gsiApplyLimitFrom
      cases hreached : reachedLimit limit count with
      | true =>
          cases limit with
          | none => simp [reachedLimit] at hreached
          | some n =>
              simp only [reachedLimit, decide_eq_true_eq] at hreached
              simp [withinLimit, Nat.sub_eq_zero_of_le hreached, fill]
      | false =>
          rw [withinLimit_cons hreached, if_neg Bool.false_ne_true]
          by_cases hfull : count ≠ 0 ∧ maxResponseBytes < used + calculateItemSize item
          · rw [if_pos hfull]
            simp [fill, hfull.1, hfull.2]
          · have hfits : (!decide (count = 0) && decide (maxResponseBytes <
                used + calculateItemSize item)) = false := by
              by_cases hzero : count = 0
              · simp [hzero]
              · simpa [hzero] using hfull
            rw [if_neg hfull]
            unfold fill
            simp only [hfits, Bool.false_eq_true, if_false]
            rw [ih (count + 1) (used + calculateItemSize item)]
            simp

/-- More is to come exactly when something was left out. -/
theorem gsiApplyLimitFrom_snd (limit : Option ℕ) (count used : ℕ) (items : List Item) :
    (gsiApplyLimitFrom limit count used items).2 = true ↔
      (gsiApplyLimitFrom limit count used items).1.length < items.length := by
  induction items generalizing count used with
  | nil => simp [gsiApplyLimitFrom]
  | cons item rest ih =>
      unfold gsiApplyLimitFrom
      split_ifs
      · simp
      · simp
      · simpa using ih (count + 1) (used + calculateItemSize item)

theorem gsiApplyLimit_eq_page (items : List Item) (limit : Option ℕ) :
    gsiApplyLimit items limit = page calculateItemSize maxResponseBytes limit items := by
  have hpage : (gsiApplyLimit items limit).1 =
      (page calculateItemSize maxResponseBytes limit items).1 := by
    rw [gsiApplyLimit, gsiApplyLimitFrom_fst]
    cases limit <;> rfl
  refine Prod.ext hpage (Bool.eq_iff_iff.mpr ?_)
  rw [page_snd_iff, ← hpage]
  exact gsiApplyLimitFrom_snd limit 0 0 items

/-! ## The start key -/

theorem lookup_copyAttributes (item key : Item) (names : List String) (name : String) :
    (copyAttributes item names key).lookup name =
      if name ∈ names then (item.lookup name).or (key.lookup name) else key.lookup name := by
  induction names generalizing key with
  | nil => simp [copyAttributes]
  | cons n names ih =>
      simp only [copyAttributes, foldl_cons] at ih ⊢
      rw [ih]
      cases hitem : item.lookup n with
      | none =>
          by_cases hname : name = n
          · subst hname
            simp [hitem]
          · simp [hname]
      | some v =>
          rw [lookup_insertAttr]
          by_cases hname : name = n
          · subst hname
            simp [hitem]
          · simp [hname]

theorem mem_copyAttributes {item key : Item} {names : List String} {e : String × AttributeValue}
    (h : e ∈ copyAttributes item names key) : e ∈ key ∨ item.lookup e.1 = some e.2 := by
  induction names generalizing key with
  | nil => exact .inl h
  | cons n names ih =>
      simp only [copyAttributes, foldl_cons] at ih h
      cases hitem : item.lookup n with
      | none =>
          rw [hitem] at h
          exact ih h
      | some v =>
          rw [hitem] at h
          rcases ih h with hmem | hlookup
          · rcases mem_insertAttr hmem with rfl | hold
            · exact .inr hitem
            · exact .inl hold
          · exact .inr hlookup

/-- The last key of an item is a start key the item matches. -/
theorem matchesStart_lastKey (item : Item) (gsi table : KeySchema) :
    matchesStart (gsiBuildLastKey item gsi table) item = true := by
  rw [matchesStart, all_eq_true]
  intro e he
  rcases mem_copyAttributes he with hnil | hlookup
  · exact absurd hnil not_mem_nil
  · simpa using hlookup

theorem lookup_lastKey {item : Item} {gsi table : KeySchema} {name : String}
    (h : name ∈ keyNames gsi table) :
    (gsiBuildLastKey item gsi table).lookup name = item.lookup name := by
  rw [gsiBuildLastKey, lookup_copyAttributes, if_pos h]
  simp

/-- An item that matches the last key of another agrees with it on every key attribute. -/
theorem lookup_of_matchesStart {x y : Item} {gsi table : KeySchema} {name : String}
    {v : AttributeValue} (h : matchesStart (gsiBuildLastKey x gsi table) y = true)
    (hname : name ∈ keyNames gsi table) (hx : x.lookup name = some v) :
    y.lookup name = some v := by
  rw [matchesStart, all_eq_true] at h
  have hkey : (gsiBuildLastKey x gsi table).lookup name = some v := by
    rw [lookup_lastKey hname, hx]
  simpa using h (name, v) (mem_of_lookup hkey)

theorem extractPrimaryKey_of_matchesStart {x y : Item} {gsi table : KeySchema} {key : PrimaryKey}
    (h : matchesStart (gsiBuildLastKey x gsi table) y = true)
    (hx : extractPrimaryKey table x = .ok key) : extractPrimaryKey table y = .ok key := by
  rw [← hx]
  apply extractPrimaryKey_congr
  intro name hname
  obtain ⟨v, hv⟩ := lookup_of_extractPrimaryKey hx name hname
  rw [hv]
  exact lookup_of_matchesStart h (mem_cons_of_mem _ (mem_append_right _ hname)) hv

/-- Every item has a key and no two have the same. -/
def DistinctKeys (keySchema : KeySchema) (items : List Item) : Prop :=
  (∀ x ∈ items, ∃ key, extractPrimaryKey keySchema x = .ok key) ∧
    items.Pairwise fun x y => extractPrimaryKey keySchema x ≠ extractPrimaryKey keySchema y

/-- Paging behind the last key of an item leaves the items behind that item. -/
theorem gsiApplyPagination_lastKey {table gsi : KeySchema} {pre post : List Item} {x : Item}
    {pv : AttributeValue} (hkeys : DistinctKeys table (pre ++ x :: post))
    (hx : x.lookup gsi.partitionKey.name = some pv) :
    gsiApplyPagination (pre ++ x :: post) (gsiBuildLastKey x gsi table) gsi.partitionKey.name =
      post := by
  obtain ⟨key, hkey⟩ := hkeys.1 x (by simp)
  have hpre : ∀ y ∈ pre, matchesStart (gsiBuildLastKey x gsi table) y = false := by
    intro y hy
    by_contra hne
    have hsame := extractPrimaryKey_of_matchesStart (Bool.not_eq_false _ ▸ hne) hkey
    have hdistinct := (pairwise_append.mp hkeys.2).2.2 y hy x mem_cons_self
    exact hdistinct (hsame.trans hkey.symm)
  have hlast : (gsiBuildLastKey x gsi table).lookup gsi.partitionKey.name = some pv := by
    rw [lookup_lastKey mem_cons_self, hx]
  have hidx : ∀ p : Item → Bool, (∀ y ∈ pre, p y = false) → p x = true →
      (pre ++ x :: post).findIdx? p = some pre.length := by
    intro p hp hpx
    rw [findIdx?_append, findIdx?_eq_none_iff.mpr fun y hy => by simp [hp y hy]]
    simp [findIdx?_cons, hpx]
  unfold gsiApplyPagination
  simp only [hlast]
  rw [hidx _ (fun y hy => by rw [hpre y hy, Bool.and_false])
    (by simp [hx, matchesStart_lastKey])]
  simp

theorem DistinctKeys.perm {keySchema : KeySchema} {l l' : List Item}
    (h : DistinctKeys keySchema l) (hperm : l'.Perm l) : DistinctKeys keySchema l' :=
  ⟨fun x hx => h.1 x (hperm.mem_iff.mp hx),
    (hperm.pairwise_iff fun hne heq => hne heq.symm).mpr h.2⟩

theorem DistinctKeys.sublist {keySchema : KeySchema} {l l' : List Item}
    (h : DistinctKeys keySchema l) (hsub : l'.Sublist l) : DistinctKeys keySchema l' :=
  ⟨fun x hx => h.1 x (hsub.subset hx), h.2.sublist hsub⟩

open TableStorage in
/-- The items of a table in the order of a scan. -/
def scanOrder (hash : String → ℕ) (t : TableStorage) : List Item :=
  (allItems hash t none none).map StoredEntry.item

theorem scanOrder_perm (hash : String → ℕ) (t : TableStorage) :
    (scanOrder hash t).Perm (t.storedEntries.map item) := by
  have hperm := @TableStorage.allItems_split_perm hash t none (by simp)
  simpa [splitSegments, scanOrder] using hperm.map item

theorem distinctKeys_scanOrder (hash : String → ℕ) {t : TableStorage} (ht : t.Consistent) :
    DistinctKeys t.keySchema (scanOrder hash t) := by
  have hstored : ∀ e ∈ t.allItems hash none none, e ∈ t.storedEntries := fun e he =>
    (mem_allItems.mp he).1
  constructor
  · intro x hx
    obtain ⟨e, he, rfl⟩ := mem_map.mp hx
    obtain ⟨key, hkey, -⟩ := ht.keyed e (hstored e he)
    exact ⟨key, hkey⟩
  · rw [scanOrder, pairwise_map]
    have hpairwise := pairwise_allItems hash t none none
    refine (pairwise_iff_forall_sublist.mpr fun {x y} hsub => ?_)
    have hprecedes := pairwise_iff_forall_sublist.mp hpairwise hsub
    obtain ⟨key, hkey, hslot⟩ := ht.keyed x (hstored x (hsub.subset (by simp)))
    obtain ⟨key', hkey', hslot'⟩ := ht.keyed y (hstored y (hsub.subset (by simp)))
    intro heq
    obtain rfl : key = key' := Except.ok.inj (hkey.symm.trans (heq.trans hkey'))
    exact not_sameSlot_of_precedes hprecedes
      (PrimaryKey.sameSlot_trans (PrimaryKey.sameSlot_symm hslot) hslot')

/-! ## What a query is to return -/

/-- The item belongs to the index partition, and its index sort key meets the condition. -/
def indexed (gsi : KeySchema) (partitionValue : AttributeValue)
    (sortCondition : Option SortKeyCondition) (item : Item) : Bool :=
  item.lookup gsi.partitionKey.name == some partitionValue &&
    match gsi.sortKey with
    | none => true
    | some skDef =>
      match indexSortKey skDef item, sortCondition with
      | some key, some condition => condition.matchesValue key
      | some _, none => true
      | none, _ => false

/-- Sorted by the index sort key, in the direction asked for. -/
def InIndexOrder (gsi : KeySchema) (scanForward : Bool) (items : List Item) : Prop :=
  ∀ skDef ∈ gsi.sortKey, items.Pairwise fun x y =>
    if scanForward then compareIndexKeys (indexSortKey skDef x) (indexSortKey skDef y) ≠ .gt
    else compareIndexKeys (indexSortKey skDef y) (indexSortKey skDef x) ≠ .gt

/-- The items a scan returns: one page. -/
def scannedItems (hash : String → ℕ) (t : TableStorage) : List Item :=
  (t.scan hash none none none none).1

/-- What the query keeps of the scanned items. -/
def gsiKeeps (gsi : KeySchema) (partitionValue : AttributeValue)
    (sortCondition : Option SortKeyCondition) (item : Item) : Bool :=
  item.lookup gsi.partitionKey.name == some partitionValue &&
    match gsi.sortKey, sortCondition with
    | some skDef, some condition =>
      match indexSortKey skDef item with
      | some key => condition.matchesValue key
      | none => false
    | _, _ => true

theorem gsiFilterAndSort_perm (hash : String → ℕ) (t : TableStorage) (gsi : KeySchema)
    (partitionValue : AttributeValue) (sortCondition : Option SortKeyCondition)
    (scanForward : Bool) :
    (gsiFilterAndSort hash t gsi partitionValue sortCondition scanForward).Perm
      ((scannedItems hash t).filter (gsiKeeps gsi partitionValue sortCondition)) := by
  have hdirection : ∀ l : List Item, (if scanForward then l else l.reverse).Perm l := by
    intro l
    cases scanForward with
    | true => exact List.Perm.refl l
    | false => exact l.reverse_perm
  refine (hdirection _).trans ?_
  unfold gsiKeeps
  cases gsi.sortKey with
  | none => simp [scannedItems]
  | some skDef =>
      cases sortCondition with
      | none =>
          refine (perm_insertionSort _ _).trans ?_
          simp [scannedItems]
      | some condition =>
          refine (perm_insertionSort _ _).trans ?_
          simp only [filter_filter]
          refine List.Perm.of_eq (filter_congr fun x _ => ?_)
          exact Bool.and_comm _ _

theorem compareIndexKeys_ne_gt_total (a b : Option SortableAttributeValue) :
    compareIndexKeys a b ≠ .gt ∨ compareIndexKeys b a ≠ .gt := by
  cases a <;> cases b <;> simp [compareIndexKeys]
  grind

theorem compareIndexKeys_trans {a b c : Option SortableAttributeValue}
    (hab : compareIndexKeys a b ≠ .gt) (hbc : compareIndexKeys b c ≠ .gt) :
    compareIndexKeys a c ≠ .gt := by
  cases a <;> cases b <;> cases c <;> simp [compareIndexKeys] at *
  grind

theorem gsiFilterAndSort_inOrder (hash : String → ℕ) (t : TableStorage) (gsi : KeySchema)
    (partitionValue : AttributeValue) (sortCondition : Option SortKeyCondition)
    (scanForward : Bool) :
    InIndexOrder gsi scanForward
      (gsiFilterAndSort hash t gsi partitionValue sortCondition scanForward) := by
  intro skDef hsk
  have hsorted : ∀ l : List Item, (l.insertionSort fun x y =>
      compareIndexKeys (indexSortKey skDef x) (indexSortKey skDef y) ≠ .gt).Pairwise
        fun x y => compareIndexKeys (indexSortKey skDef x) (indexSortKey skDef y) ≠ .gt := by
    intro l
    let le := fun x y : Item =>
      compareIndexKeys (indexSortKey skDef x) (indexSortKey skDef y) ≠ .gt
    have : Std.Total le := ⟨fun x y => compareIndexKeys_ne_gt_total _ _⟩
    have : IsTrans Item le := ⟨fun x y z => compareIndexKeys_trans⟩
    exact pairwise_insertionSort le l
  unfold gsiFilterAndSort
  rw [Option.mem_def.mp hsk]
  cases scanForward with
  | true => simpa using hsorted _
  | false => simpa [pairwise_reverse] using hsorted _

/-! ## Following the last key -/

theorem queryGsi_page (hash : String → ℕ) (t : TableStorage) (tableKeySchema gsi : KeySchema)
    (partitionValue : AttributeValue) (sortCondition : Option SortKeyCondition)
    (scanForward : Bool) {limit : Option ℕ} (hlimit : limit ≠ some 0) {start : Item}
    {rest : List Item}
    (hrest : (if start.isEmpty then
        gsiFilterAndSort hash t gsi partitionValue sortCondition scanForward
      else gsiApplyPagination
        (gsiFilterAndSort hash t gsi partitionValue sortCondition scanForward) start
        gsi.partitionKey.name) = rest) :
    let result := queryGsi hash t tableKeySchema gsi partitionValue sortCondition scanForward
      limit start
    result.2 = none ∧ result.1 = rest ∨
      ∃ front last post, rest = front ++ last :: post ∧ result.1 = front ++ [last] ∧
        result.2 = some (gsiBuildLastKey last gsi tableKeySchema) := by
  have hpage : queryGsi hash t tableKeySchema gsi partitionValue sortCondition scanForward limit
      start = ((page calculateItemSize maxResponseBytes limit rest).1,
        if (page calculateItemSize maxResponseBytes limit rest).2 then
          (page calculateItemSize maxResponseBytes limit rest).1.getLast?.map
            fun lastItem => gsiBuildLastKey lastItem gsi tableKeySchema
        else none) := by
    rw [← gsiApplyLimit_eq_page, ← hrest]
    rfl
  have hmore := page_snd_iff calculateItemSize maxResponseBytes limit rest
  have hne : rest ≠ [] → _ := page_ne_nil calculateItemSize maxResponseBytes hlimit
  obtain ⟨post, hpost⟩ := page_isPrefix calculateItemSize maxResponseBytes limit rest
  intro result
  have hresult : result = _ := hpage
  clear_value result
  subst hresult
  generalize page calculateItemSize maxResponseBytes limit rest = page at *
  obtain ⟨selected, more⟩ := page
  simp only at hmore hne hpost ⊢
  cases more with
  | false =>
      refine .inl ⟨rfl, ?_⟩
      have hlen : ¬ selected.length < rest.length := fun h => Bool.noConfusion (hmore.mpr h)
      rw [← hpost, length_append] at hlen
      rw [← hpost, length_eq_zero_iff.mp (show post.length = 0 by omega), append_nil]
  | true =>
      have hlt := hmore.mp rfl
      have hselected : selected ≠ [] := hne fun h => by simp [h] at hlt
      rcases eq_nil_or_concat selected with hnil | ⟨front, last, hconcat⟩
      · exact absurd hnil hselected
      rw [concat_eq_append] at hconcat
      subst hconcat
      exact .inr ⟨front, last, post, by simpa using hpost.symm, rfl, by simp⟩

/-- A cursor is the last key of an item, and stands for the items behind that item. -/
def cursorDenotes (gsi table : KeySchema) (matching : List Item) : Option Item → List Item → Prop
  | none, rest => rest = matching
  | some key, rest => ∃ pre x, matching = pre ++ x :: rest ∧ key = gsiBuildLastKey x gsi table

/-- The pages put together are what one page without limits would hold. -/
theorem gsiPages_eq (hash : String → ℕ) {t : TableStorage} (ht : t.Consistent) (gsi : KeySchema)
    (partitionValue : AttributeValue) (sortCondition : Option SortKeyCondition)
    (scanForward : Bool) {limits : ℕ → Option ℕ} (hlimits : ∀ i, limits i ≠ some 0) {fuel : ℕ}
    (hfuel : t.storedEntries.length < fuel) :
    gsiPages hash t t.keySchema gsi partitionValue sortCondition scanForward limits fuel =
      some (gsiFilterAndSort hash t gsi partitionValue sortCondition scanForward) := by
  set matching := gsiFilterAndSort hash t gsi partitionValue sortCondition scanForward
    with hmatching
  have hperm := gsiFilterAndSort_perm hash t gsi partitionValue sortCondition scanForward
  have hpage : (scannedItems hash t).Sublist (scanOrder hash t) := by
    have hfront := page_isPrefix size maxResponseBytes none
      (t.allItems hash none none)
    exact hfront.sublist.map item
  have hsub : ((scannedItems hash t).filter
      (gsiKeeps gsi partitionValue sortCondition)).Sublist (scanOrder hash t) :=
    filter_sublist.trans hpage
  have hdistinct : DistinctKeys t.keySchema matching :=
    ((distinctKeys_scanOrder hash ht).sublist hsub).perm hperm
  have hlookup : ∀ x ∈ matching, x.lookup gsi.partitionKey.name = some partitionValue := by
    intro x hx
    have hkeeps := (mem_filter.mp (hperm.mem_iff.mp hx)).2
    simp only [gsiKeeps, Bool.and_eq_true, beq_iff_eq] at hkeeps
    exact hkeeps.1
  have hlength : matching.length < fuel := by
    have hle := hsub.length_le
    rw [← hperm.length_eq, ← hmatching, (scanOrder_perm hash t).length_eq,
      length_map] at hle
    exact Nat.lt_of_le_of_lt hle hfuel
  refine @Paging.follow_eq _ _ _ (cursorDenotes gsi t.keySchema matching) ?_ fuel 0 none _ rfl
    hlength
  intro i cursor rest hcursor
  have hstart : ∃ pre, matching = pre ++ rest ∧ (if (cursor.getD []).isEmpty then matching
      else gsiApplyPagination matching (cursor.getD []) gsi.partitionKey.name) = rest := by
    cases cursor with
    | none => exact ⟨[], hcursor.symm, hcursor.symm⟩
    | some key =>
        obtain ⟨pre, x, hsplit, rfl⟩ := hcursor
        have hx := hlookup x (by rw [hsplit]; simp)
        have hkey : (gsiBuildLastKey x gsi t.keySchema).isEmpty = false := by
          cases hempty : gsiBuildLastKey x gsi t.keySchema with
          | cons e es => rfl
          | nil =>
              have := @lookup_lastKey x gsi t.keySchema _ mem_cons_self
              rw [hempty, hx] at this
              cases this
        refine ⟨pre ++ [x], by simp [hsplit], ?_⟩
        rw [Option.getD_some, hkey, if_neg Bool.false_ne_true, hsplit]
        exact gsiApplyPagination_lastKey (hsplit ▸ hdistinct) hx
  obtain ⟨pre, hpre, hrest⟩ := hstart
  rcases queryGsi_page hash t t.keySchema gsi partitionValue sortCondition scanForward
    (hlimits i) hrest with ⟨hnone, hall⟩ | ⟨front, last, post, hsplit, hitems, hsome⟩
  · exact .inl ⟨hnone, hall⟩
  · refine .inr ⟨_, post, hsome, ⟨pre ++ front, last, ?_, rfl⟩, ?_, ?_⟩
    · rw [hpre, hsplit]
      simp
    · rw [hitems]
      simp
    · rw [hitems, hsplit]
      simp

/-! ## Completeness -/

/-- The entry is on the one page the query scans: it comes first, or the items up to it stay
within the response size. -/
def Scanned (hash : String → ℕ) (t : TableStorage) (e : StoredEntry) : Prop :=
  ∃ pre post, t.allItems hash none none = pre ++ e :: post ∧
    (pre = [] ∨ (pre.map StoredEntry.size).sum + e.size ≤ maxResponseBytes)

theorem scanned_iff {hash : String → ℕ} {t : TableStorage} {e : StoredEntry} :
    Scanned hash t e ↔
      e ∈ (fill size maxResponseBytes 0 true (t.allItems hash none none)).1 := by
  set items := t.allItems hash none none with hitems
  constructor
  · rintro ⟨pre, post, hsplit, hsize⟩
    have htake := (@Paging.fill_take_iff _ size maxResponseBytes 0 true pre post
      e).mpr (by simpa using hsize)
    rw [hitems, hsplit]
    exact htake.subset (by simp)
  · intro he
    obtain ⟨pre, mid, hmid⟩ := append_of_mem he
    obtain ⟨post, hpost⟩ := @Paging.fill_isPrefix _ size maxResponseBytes 0 true items
    have hsplit : items = pre ++ e :: (mid ++ post) := by
      rw [← hpost, hmid]
      simp
    refine ⟨pre, mid ++ post, hsplit, ?_⟩
    have htake := (@Paging.fill_take_iff _ size maxResponseBytes 0 true pre
      (mid ++ post) e).mp (by rw [← hsplit, hmid]; simp)
    simpa using htake

/-- A front filtered by a weaker test is the whole filtered by a stronger one. -/
theorem filter_append_perm_iff {α : Type} {p q : α → Bool} (hpq : ∀ x, p x = true → q x = true)
    (front rest : List α) :
    (front.filter q).Perm ((front ++ rest).filter p) ↔
      (∀ x ∈ rest, p x = false) ∧ ∀ x ∈ front, q x = true → p x = true := by
  have hfront : (∀ x ∈ front, q x = true → p x = true) →
      front.filter q = front.filter p := fun h =>
    filter_congr fun x hx => Bool.eq_iff_iff.mpr ⟨h x hx, hpq x⟩
  rw [filter_append]
  constructor
  · intro hperm
    have hkept : ∀ x ∈ front, q x = true → p x = true := by
      intro x hx hq
      have hmem := hperm.subset (mem_filter.mpr ⟨hx, hq⟩)
      rw [← filter_append] at hmem
      exact (mem_filter.mp hmem).2
    refine ⟨?_, hkept⟩
    have hlength := hperm.length_eq
    rw [hfront hkept, length_append] at hlength
    have hnil : rest.filter p = [] := length_eq_zero_iff.mp (by omega)
    intro x hx
    simpa using filter_eq_nil_iff.mp hnil x hx
  · rintro ⟨hrest, hkept⟩
    have hnil : rest.filter p = [] := filter_eq_nil_iff.mpr fun x hx => by simp [hrest x hx]
    rw [hfront hkept, hnil, append_nil]

theorem gsiKeeps_of_indexed {gsi : KeySchema} {partitionValue : AttributeValue}
    {sortCondition : Option SortKeyCondition} {item : Item}
    (h : indexed gsi partitionValue sortCondition item = true) :
    gsiKeeps gsi partitionValue sortCondition item = true := by
  simp only [indexed, gsiKeeps, Bool.and_eq_true] at h ⊢
  refine ⟨h.1, ?_⟩
  have hsort := h.2
  cases hsk : gsi.sortKey with
  | none => rfl
  | some skDef =>
      rw [hsk] at hsort
      cases sortCondition with
      | none => rfl
      | some condition => cases hkey : indexSortKey skDef item <;> simp_all

/-- What is kept but not indexed is an item without sort key, if no condition drops it. -/
theorem keeps_imp_indexed_iff {gsi : KeySchema} {partitionValue : AttributeValue}
    {sortCondition : Option SortKeyCondition} {item : Item} :
    (gsiKeeps gsi partitionValue sortCondition item = true →
        indexed gsi partitionValue sortCondition item = true) ↔
      ∀ skDef ∈ gsi.sortKey, sortCondition = none →
        item.lookup gsi.partitionKey.name = some partitionValue →
        indexSortKey skDef item ≠ none := by
  cases hsk : gsi.sortKey with
  | none => simp [indexed, gsiKeeps, hsk]
  | some skDef =>
      cases sortCondition with
      | none => cases hkey : indexSortKey skDef item <;> simp [indexed, gsiKeeps, hsk, hkey]
      | some condition =>
          cases hkey : indexSortKey skDef item <;> simp [indexed, gsiKeeps, hsk, hkey]

theorem scannedItems_eq (hash : String → ℕ) (t : TableStorage) :
    ∃ scanned rest, t.allItems hash none none = scanned ++ rest ∧
      scannedItems hash t = scanned.map item ∧
      (∀ e ∈ scanned, Scanned hash t e) ∧ ∀ e ∈ rest, ¬Scanned hash t e := by
  set scanned := (fill size maxResponseBytes 0 true
    (t.allItems hash none none)).1 with hscanned
  obtain ⟨rest, hrest⟩ := @Paging.fill_isPrefix _ size maxResponseBytes 0 true
    (t.allItems hash none none)
  rw [← hscanned] at hrest
  refine ⟨scanned, rest, hrest.symm, rfl, fun e he => scanned_iff.mpr he, ?_⟩
  intro e he hfirst
  have hpairwise := pairwise_allItems hash t none none
  rw [← hrest] at hpairwise
  have hprecedes := (pairwise_append.mp hpairwise).2.2 e (scanned_iff.mp hfirst) e he
  exact not_sameSlot_of_precedes hprecedes (PrimaryKey.sameSlot_refl _)

/-- A query on an index, followed to its end, returns the items of the partition that are in
the index and meet the condition, each once and in order, exactly when those items are on the
one page it scans and no item without the index sort key gets through for want of a condition. -/
theorem gsiPages_complete_iff (hash : String → ℕ) {keySchema : KeySchema} {t : TableStorage}
    (ht : TableStorage.Reachable keySchema t) (gsi : KeySchema)
    (partitionValue : AttributeValue) (sortCondition : Option SortKeyCondition)
    (scanForward : Bool) {limits : ℕ → Option ℕ} (hlimits : ∀ i, limits i ≠ some 0) :
    (∃ items, gsiPages hash t t.keySchema gsi partitionValue sortCondition scanForward limits
        (t.storedEntries.length + 1) = some items ∧
      items.Perm ((t.storedEntries.map item).filter
        (indexed gsi partitionValue sortCondition)) ∧
      InIndexOrder gsi scanForward items) ↔
    (∀ e ∈ t.storedEntries, indexed gsi partitionValue sortCondition e.item = true →
      Scanned hash t e) ∧
    ∀ skDef ∈ gsi.sortKey, sortCondition = none → ∀ e ∈ t.storedEntries, Scanned hash t e →
      e.item.lookup gsi.partitionKey.name = some partitionValue →
      indexSortKey skDef e.item ≠ none := by
  obtain ⟨scanned, rest, hsplit, hitems, hin, hout⟩ := scannedItems_eq hash t
  have hpages := gsiPages_eq hash ht.consistent.2 gsi partitionValue sortCondition scanForward
    hlimits (Nat.lt_succ_self t.storedEntries.length)
  have hperm := gsiFilterAndSort_perm hash t gsi partitionValue sortCondition scanForward
  have hstored : ∀ e, e ∈ t.storedEntries ↔ e ∈ scanned ++ rest := fun e => by
    rw [← hsplit, mem_allItems]
    simp [inSegment]
  have hall : ((t.storedEntries.map item).filter
      (indexed gsi partitionValue sortCondition)).Perm
      ((scanned.map item ++ rest.map item).filter
        (indexed gsi partitionValue sortCondition)) := by
    rw [← map_append, ← hsplit]
    exact (scanOrder_perm hash t).symm.filter _
  rw [hitems] at hperm
  have hiff := @filter_append_perm_iff _ _ _ (fun x => @gsiKeeps_of_indexed gsi partitionValue
    sortCondition x) (scanned.map item) (rest.map item)
  calc
    _ ↔ ((scanned.map item).filter (gsiKeeps gsi partitionValue sortCondition)).Perm
        ((scanned.map item ++ rest.map item).filter
          (indexed gsi partitionValue sortCondition)) := by
      constructor
      · rintro ⟨items, hsome, hsame, -⟩
        obtain rfl : _ = items := Option.some.inj (hpages.symm.trans hsome)
        exact hperm.symm.trans (hsame.trans hall)
      · intro hsame
        exact ⟨_, hpages, hperm.trans (hsame.trans hall.symm), gsiFilterAndSort_inOrder hash t gsi
          partitionValue sortCondition scanForward⟩
    _ ↔ _ := by
      rw [hiff]
      simp only [forall_mem_map, keeps_imp_indexed_iff]
      refine and_congr ⟨?_, ?_⟩ ⟨?_, ?_⟩
      · intro hrest e he hindexed
        rcases mem_append.mp ((hstored e).mp he) with hfront | hback
        · exact hin e hfront
        · rw [hrest e hback] at hindexed
          cases hindexed
      · intro hscanned e he
        by_contra hindexed
        have hmem := (hstored e).mpr (mem_append_right _ he)
        exact hout e he (hscanned e hmem (Bool.not_eq_false _ ▸ hindexed))
      · intro hkept skDef hsk hcond e he hscanned
        rcases mem_append.mp ((hstored e).mp he) with hfront | hback
        · exact hkept e hfront skDef hsk hcond
        · exact absurd hscanned (hout e hback)
      · intro hkept e he skDef hsk hcond
        exact hkept skDef hsk hcond e ((hstored e).mpr (mem_append_left _ he)) (hin e he)

/-- Three items in one index partition, listed by the scan as `a`, `b`, `c`. -/
def threeIndexed (pad : List UInt8) : TableStorage :=
  let put := fun (t : TableStorage) (name : String) =>
    (t.putPrepared ⟨.s name, none⟩ [("g", .s "x"), ("pad", .b pad), ("pk", .s name)]).1
  ["a", "b", "c"].foldl put (TableStorage.new ⟨⟨"pk", .s⟩, none⟩)

theorem reachable_threeIndexed (pad : List UInt8) :
    TableStorage.Reachable ⟨⟨"pk", .s⟩, none⟩ (threeIndexed pad) :=
  ((TableStorage.Reachable.new.putPrepared rfl).putPrepared rfl).putPrepared rfl

theorem gsiPages_complete_iff_threeIndexed :
    ∃ items, gsiPages (fun _ => 0) (threeIndexed []) ⟨⟨"pk", .s⟩, none⟩ ⟨⟨"g", .s⟩, some ⟨"pk", .s⟩⟩
        (.s "x") (some (.ge (.s "b"))) false (fun _ => some 1) 4 = some items ∧
      items.Perm (((threeIndexed []).storedEntries.map item).filter
        (indexed ⟨⟨"g", .s⟩, some ⟨"pk", .s⟩⟩ (.s "x") (some (.ge (.s "b"))))) ∧
      InIndexOrder ⟨⟨"g", .s⟩, some ⟨"pk", .s⟩⟩ false items := by
  refine (gsiPages_complete_iff (fun _ => 0) (reachable_threeIndexed []) _ _ _ _ (by simp)).mpr
    ⟨fun e he _ => ?_, by simp⟩
  rw [scanned_iff]
  revert e
  decide

/-- An item without the index sort key is returned too, behind those that have it. -/
example : (queryGsi (fun _ => 0) (threeIndexed []) ⟨⟨"pk", .s⟩, none⟩ ⟨⟨"g", .s⟩, some ⟨"n", .n⟩⟩
    (.s "x") none true (some 1) []).1 = [[("g", .s "x"), ("pad", .b []), ("pk", .s "a")]] := by
  decide

theorem length_scannedItems_lt {hash : String → ℕ} {t : TableStorage}
    (hcount : 1 < t.storedEntries.length)
    (hsize : maxResponseBytes < (t.storedEntries.map size).sum) :
    (scannedItems hash t).length < t.storedEntries.length := by
  have hperm := @TableStorage.allItems_split_perm hash t none (by simp)
  simp only [splitSegments, flatMap_singleton] at hperm
  have hfront := @Paging.fill_isPrefix _ size maxResponseBytes 0 true
    (t.allItems hash none none)
  have hne : (t.allItems hash none none).length ≠ _ := fun heq =>
    absurd (fill_eq_self_iff 0 true _ |>.mp (hfront.eq_of_length heq.symm)) (by
      rw [Nat.zero_add, (hperm.map size).sum_eq, ← length_eq_zero_iff,
        hperm.length_eq]
      omega)
  rw [← hperm.length_eq]
  exact Nat.lt_of_le_of_ne ((length_map item).trans_le hfront.length_le)
    fun heq => hne (by rw [← heq]; exact length_map item)

/-- The third item of 400000 bytes is on the next page of the scan, which no query reads. -/
theorem gsiPages_truncated :
    ¬ ∀ t : TableStorage, TableStorage.Reachable ⟨⟨"pk", .s⟩, none⟩ t →
      ∃ items, gsiPages (fun _ => 0) t t.keySchema ⟨⟨"g", .s⟩, none⟩ (.s "x") none true
          (fun _ => none) (t.storedEntries.length + 1) = some items ∧
        items.Perm ((t.storedEntries.map item).filter
          (indexed ⟨⟨"g", .s⟩, none⟩ (.s "x") none)) ∧
        InIndexOrder ⟨⟨"g", .s⟩, none⟩ true items := by
  intro h
  have hreach := reachable_threeIndexed (replicate 400000 0)
  have hpad : (replicate 400000 (0 : UInt8)).length = 400000 := length_replicate
  have hthree : ∀ pad, (((threeIndexed pad).storedEntries.map item).filter
      (indexed ⟨⟨"g", .s⟩, none⟩ (.s "x") none)).length = 3 := fun _ => rfl
  have hsizes : ∀ pad, (threeIndexed pad).storedEntries.map size =
      replicate 3 (1 + 1 + (3 + pad.length + (2 + 1 + 0))) := fun _ => rfl
  generalize replicate 400000 (0 : UInt8) = pad at hreach hpad
  obtain ⟨items, hitems, hperm, -⟩ := h _ hreach
  rw [gsiPages_eq _ hreach.consistent.2 _ _ _ _ (by simp) (Nat.lt_succ_self _)] at hitems
  obtain rfl := Option.some.inj hitems
  have hkept := (gsiFilterAndSort_perm (fun _ => 0) (threeIndexed pad) ⟨⟨"g", .s⟩, none⟩ (.s "x")
    none true).length_eq
  have hle := length_filter_le (gsiKeeps ⟨⟨"g", .s⟩, none⟩ (.s "x") none)
    (scannedItems (fun _ => 0) (threeIndexed pad))
  have hcount : (threeIndexed pad).storedEntries.length = 3 := rfl
  have hlt := @length_scannedItems_lt (fun _ => 0) (threeIndexed pad) (by rw [hcount]; decide)
    (by rw [hsizes, hpad]; decide)
  rw [hperm.length_eq, hthree] at hkept
  omega

end Rustack.DynamoDB
