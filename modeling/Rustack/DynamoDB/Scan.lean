import Rustack.DynamoDB.StorageInvariant

/-!
# Scanning page by page

A scan lists the partitions by the display text of their keys and finds its
place again by looking for the item its start key names.  While the table does
not change the pages add up to the table.  Between two pages anything can
happen to it; the place is kept as long as that item is still there and no
partition with the same display text has changed sides.
-/

namespace Rustack.DynamoDB

open List StoredEntry PrimaryKey

namespace TableStorage

/-! ## The order of a scan -/

theorem isStart_iff {key : PrimaryKey} {e : StoredEntry} :
    isStart key e = true ↔ e.slot.sameSlot key := by
  simp only [isStart, Bool.and_eq_true, beq_iff_eq]
  rfl

/-- Where the scan has the partition of a key. -/
def partitionRank (t : TableStorage) (partitionKey : AttributeValue) : ℕ :=
  (t.partitionEntries.map Sigma.fst).idxOf partitionKey

/-- The first slot comes before the second in a scan. -/
def precedes (t : TableStorage) (key key' : PrimaryKey) : Prop :=
  t.partitionRank key.partitionKey < t.partitionRank key'.partitionKey ∨
    key.partitionKey = key'.partitionKey ∧ key.treeKey < key'.treeKey

instance (t : TableStorage) (key key' : PrimaryKey) : Decidable (t.precedes key key') :=
  inferInstanceAs (Decidable (_ ∨ _ ∧ (SortableAttributeValue.cmp _ _ = .lt)))

theorem partitionEntries_perm (t : TableStorage) : t.partitionEntries.Perm t.data.entries :=
  perm_insertionSort _ _

theorem nodup_partitionKeys (t : TableStorage) : (t.partitionEntries.map Sigma.fst).Nodup :=
  (t.partitionEntries_perm.map Sigma.fst).nodup_iff.mpr t.data.nodupKeys

theorem pairwise_idxOf {α : Type} [DecidableEq α] {l : List α} (h : l.Nodup) :
    l.Pairwise fun x y => l.idxOf x < l.idxOf y := by
  rw [pairwise_iff_getElem]
  intro i j hi hj hij
  rwa [h.idxOf_getElem i hi, h.idxOf_getElem j hj]

theorem pairwise_allItems (hash : String → ℕ) (t : TableStorage)
    (segment totalSegments : Option ℕ) :
    (t.allItems hash segment totalSegments).Pairwise fun x y => t.precedes x.slot y.slot := by
  have hranks := pairwise_map.mp (pairwise_idxOf t.nodup_partitionKeys)
  refine pairwise_flatMap.mpr ⟨fun p _ => ?_, (hranks.filter _).imp ?_⟩
  · rw [entriesOf, pairwise_map]
    exact p.2.sorted.imp fun hlt => Or.inr ⟨rfl, hlt⟩
  · intro p q hlt x hx y hy
    obtain ⟨_, _, rfl⟩ := mem_map.mp hx
    obtain ⟨_, _, rfl⟩ := mem_map.mp hy
    exact Or.inl hlt

theorem precedes_congr {t : TableStorage} {a a' b b' : PrimaryKey} (ha : a.sameSlot a')
    (hb : b.sameSlot b') : t.precedes a b ↔ t.precedes a' b' := by
  have h₁ := ha.2
  have h₂ := hb.2
  simp only [precedes, ha.1, hb.1]
  grind

theorem not_sameSlot_of_precedes {t : TableStorage} {a b : PrimaryKey} (h : t.precedes a b) :
    ¬ a.sameSlot b := by
  rintro ⟨hpk, hsk⟩
  rcases h with h | ⟨-, h⟩
  · rw [hpk] at h
    exact Nat.lt_irrefl _ h
  · grind

theorem not_precedes_of_precedes {t : TableStorage} {a b : PrimaryKey} (h : t.precedes a b) :
    ¬ t.precedes b a := by
  rcases h with h | ⟨hpk, h⟩
  · rintro (h' | ⟨hpk, -⟩)
    · exact Nat.lt_asymm h h'
    · rw [hpk] at h
      exact Nat.lt_irrefl _ h
  · rintro (h' | ⟨-, h'⟩)
    · rw [hpk] at h'
      exact Nat.lt_irrefl _ h'
    · grind

theorem mem_allItems {hash : String → ℕ} {t : TableStorage} {segment totalSegments : Option ℕ}
    {e : StoredEntry} :
    e ∈ t.allItems hash segment totalSegments ↔
      e ∈ t.storedEntries ∧ inSegment hash segment totalSegments e.partitionKey = true := by
  simp only [allItems, storedEntries, mem_flatMap, mem_filter,
    t.partitionEntries_perm.mem_iff]
  constructor
  · rintro ⟨p, ⟨hp, hseg⟩, he⟩
    obtain ⟨x, _, rfl⟩ := mem_map.mp he
    exact ⟨⟨p, hp, he⟩, hseg⟩
  · rintro ⟨⟨p, hp, he⟩, hseg⟩
    obtain ⟨x, _, rfl⟩ := mem_map.mp he
    exact ⟨p, ⟨hp, hseg⟩, he⟩

theorem getItem_ne_none_iff {t : TableStorage} {key : PrimaryKey} :
    t.getItem key ≠ none ↔ ∃ e ∈ t.storedEntries, e.slot.sameSlot key := by
  constructor
  · intro h
    obtain ⟨item, hitem⟩ := Option.ne_none_iff_exists'.mp h
    obtain ⟨x, hx, hcmp, rfl⟩ := SortedMap.exists_mem_of_get?_eq_some _ hitem
    exact ⟨⟨key.partitionKey, x.1, x.2⟩, mem_storedEntries.mpr hx, rfl, hcmp⟩
  · rintro ⟨e, he, hslot⟩
    rw [← getItem_congr t hslot]
    have hget := SortedMap.get?_of_mem _ (mem_storedEntries.mp he)
    change (t.partition e.partitionKey).get? e.sortKey ≠ none
    rw [hget]
    exact Option.some_ne_none _

/-! ## Finding the place again -/

/-- The list holds an entry under the key. -/
def Holds (items : List StoredEntry) (key : PrimaryKey) : Prop :=
  ∃ e ∈ items, e.slot.sameSlot key

/-- What a scan still has to go through. -/
def pending (hash : String → ℕ) (t : TableStorage) (segment totalSegments : Option ℕ)
    (start : Option PrimaryKey) : List StoredEntry :=
  let items := t.allItems hash segment totalSegments
  items.drop (startIndex items start)

section Place

variable {t : TableStorage} {items : List StoredEntry}
  (hitems : items.Pairwise fun x y => t.precedes x.slot y.slot)

include hitems

/-- A held key splits the list into what comes before it and what comes after it. -/
theorem exists_split {key : PrimaryKey} (hkey : Holds items key) :
    ∃ pre e post, items = pre ++ e :: post ∧ e.slot.sameSlot key ∧
      (∀ x ∈ pre, t.precedes x.slot key) ∧ (∀ x ∈ post, t.precedes key x.slot) := by
  obtain ⟨e, he, hslot⟩ := hkey
  obtain ⟨pre, post, rfl⟩ := append_of_mem he
  obtain ⟨-, htail, hcross⟩ := pairwise_append.mp hitems
  refine ⟨pre, e, post, rfl, hslot, fun x hx => ?_, fun x hx => ?_⟩
  · exact (precedes_congr x.slot.sameSlot_refl hslot).mp (hcross x hx e (.head _))
  · exact (precedes_congr hslot x.slot.sameSlot_refl).mp
      ((pairwise_cons.mp htail).1 x hx)

/-- The start key is found where the list splits at it. -/
theorem drop_startIndex_of_split {key : PrimaryKey} {pre post : List StoredEntry}
    {e : StoredEntry} (hsplit : items = pre ++ e :: post) (hslot : e.slot.sameSlot key) :
    items.drop (startIndex items (some key)) = post := by
  subst hsplit
  obtain ⟨-, -, hcross⟩ := pairwise_append.mp hitems
  have hidx : (pre ++ e :: post).findIdx? (isStart key) = some pre.length := by
    rw [findIdx?_append, findIdx?_eq_none_iff.mpr, Option.none_or]
    · simp [findIdx?_cons, isStart_iff.mpr hslot]
    · intro x hx
      rw [← Bool.not_eq_true, isStart_iff]
      exact not_sameSlot_of_precedes
        ((precedes_congr x.slot.sameSlot_refl hslot).mp (hcross x hx e (.head _)))
  simp [startIndex, hidx]

/-- A held key is held once. -/
theorem countP_isStart {key : PrimaryKey} (hkey : Holds items key) :
    items.countP (isStart key) = 1 := by
  obtain ⟨pre, e, post, rfl, hslot, hpre, hpost⟩ := exists_split hitems hkey
  have hnone : ∀ l : List StoredEntry, (∀ x ∈ l, ¬ x.slot.sameSlot key) →
      l.countP (isStart key) = 0 := fun l hl =>
    countP_eq_zero.mpr fun x hx => by rw [isStart_iff]; exact hl x hx
  rw [countP_append, countP_cons,
    hnone pre fun x hx => not_sameSlot_of_precedes (hpre x hx),
    hnone post fun x hx h => not_sameSlot_of_precedes (hpost x hx) (sameSlot_symm h)]
  simp [isStart_iff.mpr hslot]

/-- Of a held key, the part after another held key has one entry if it comes after. -/
theorem countP_drop_startIndex {key key' : PrimaryKey} (hkey : Holds items key)
    (hkey' : Holds items key') :
    (items.drop (startIndex items (some key))).countP (isStart key') =
      if t.precedes key key' then 1 else 0 := by
  obtain ⟨pre, e, post, hsplit, hslot, hpre, hpost⟩ := exists_split hitems hkey
  have hone := countP_isStart hitems hkey'
  rw [drop_startIndex_of_split hitems hsplit hslot]
  rw [hsplit, countP_append, countP_cons] at hone
  split
  · next hprec =>
      have hzero : pre.countP (isStart key') = 0 := countP_eq_zero.mpr fun x hx h =>
        not_precedes_of_precedes hprec ((precedes_congr (isStart_iff.mp h)
          key.sameSlot_refl).mp (hpre x hx))
      have he : ¬ isStart key' e = true := fun h =>
        not_sameSlot_of_precedes hprec
          (sameSlot_trans (sameSlot_symm hslot) (isStart_iff.mp h))
      rw [hzero, if_neg he] at hone
      omega
  · next hprec =>
      exact countP_eq_zero.mpr fun x hx h =>
        hprec ((precedes_congr key.sameSlot_refl (isStart_iff.mp h)).mp (hpost x hx))

end Place

/-! ## One page -/

theorem treeKey_lastKeyOf (keySchema : KeySchema) (e : StoredEntry) :
    (lastKeyOf keySchema e).sameSlot e.slot := by
  refine ⟨rfl, ?_⟩
  have htree : (lastKeyOf keySchema e).treeKey = e.sortKey := by
    unfold lastKeyOf treeKey
    cases e.sortKey <;> rfl
  rw [htree]
  exact Std.ReflCmp.compare_self

/-- A page is the front of what is pending, and its cursor has the rest pending. -/
theorem scan_page (hash : String → ℕ) (t : TableStorage) {limit : ℕ} (hlimit : 0 < limit)
    (start : Option PrimaryKey) (segment totalSegments : Option ℕ) :
    ∃ selected rest, pending hash t segment totalSegments start = selected ++ rest ∧
      (t.scan hash (some limit) start segment totalSegments).1 =
        selected.map item ∧
      ((t.scan hash (some limit) start segment totalSegments).2 = none ∧ rest = [] ∨
        ∃ key, (t.scan hash (some limit) start segment totalSegments).2 = some key ∧
          selected ≠ [] ∧ Holds (t.allItems hash segment totalSegments) key ∧
          pending hash t segment totalSegments (some key) = rest) := by
  have hpairwise := pairwise_allItems hash t segment totalSegments
  set items := t.allItems hash segment totalSegments with hitems
  set front := pending hash t segment totalSegments start with hfront
  have hscan : t.scan hash (some limit) start segment totalSegments =
      ((Paging.page size maxResponseBytes (some limit) front).1.map item,
        if (Paging.page size maxResponseBytes (some limit) front).2 then
          (Paging.page size maxResponseBytes (some limit) front).1.getLast?.map
            (lastKeyOf t.keySchema)
        else none) := rfl
  have hmore := Paging.page_snd_iff size maxResponseBytes (some limit) front
  have hne : front ≠ [] → _ :=
    Paging.page_ne_nil size maxResponseBytes (show some limit ≠ some 0 by simp; omega)
  obtain ⟨rest, hrest⟩ := Paging.page_isPrefix size maxResponseBytes (some limit) front
  rw [hscan]
  generalize (Paging.page size maxResponseBytes (some limit) front) = result at *
  obtain ⟨selected, more⟩ := result
  simp only at hmore hne hrest ⊢
  refine ⟨selected, rest, hrest.symm, rfl, ?_⟩
  cases more with
  | false =>
      refine Or.inl ⟨rfl, ?_⟩
      have hlen : ¬ selected.length < front.length := fun h => Bool.noConfusion (hmore.mpr h)
      rw [← hrest, length_append] at hlen
      exact length_eq_zero_iff.mp (by omega)
  | true =>
      have hlt := hmore.mp rfl
      have hselected : selected ≠ [] := hne fun h => by simp [h] at hlt
      rcases eq_nil_or_concat selected with hnil | ⟨init, last, hconcat⟩
      · exact absurd hnil hselected
      rw [concat_eq_append] at hconcat
      have hslot := treeKey_lastKeyOf t.keySchema last
      have hsplit : items = (items.take (startIndex items start) ++ init) ++ last :: rest := by
        conv_lhs => rw [← take_append_drop (startIndex items start) items]
        rw [show items.drop (startIndex items start) = front from rfl, ← hrest, hconcat]
        simp
      refine Or.inr ⟨lastKeyOf t.keySchema last, ?_, hselected, ⟨last, ?_, ?_⟩, ?_⟩
      · simp [hconcat]
      · rw [hsplit]
        simp
      · exact sameSlot_symm hslot
      · exact drop_startIndex_of_split hpairwise hsplit (sameSlot_symm hslot)

/-! ## A table at rest -/

/-- Follow the cursor from the first page on; page `i` is read with the `i`-th limit. -/
def scanPages (hash : String → ℕ) (t : TableStorage) (limits : ℕ → ℕ)
    (segment totalSegments : Option ℕ) (fuel : ℕ) : Option (List Item) :=
  Paging.follow (fun i start => t.scan hash (some (limits i)) start segment totalSegments) fuel 0
    none

/-- One request for each item and one more is enough, and the pages are everything. -/
theorem scanPages_eq (hash : String → ℕ) (t : TableStorage) {limits : ℕ → ℕ}
    (hlimits : ∀ i, 0 < limits i) (segment totalSegments : Option ℕ) {fuel : ℕ}
    (hfuel : (t.allItems hash segment totalSegments).length < fuel) :
    scanPages hash t limits segment totalSegments fuel =
      some ((t.allItems hash segment totalSegments).map item) := by
  refine @Paging.follow_eq _ _ _ (fun start rest =>
    rest = (pending hash t segment totalSegments start).map item) ?_ fuel 0 none _
    rfl (by simpa using hfuel)
  rintro i start rest rfl
  obtain ⟨selected, after, hpending, hpage, hcursor⟩ :=
    scan_page hash t (hlimits i) start segment totalSegments
  rw [hpage, hpending]
  rcases hcursor with ⟨hnone, rfl⟩ | ⟨key, hsome, hne, -, hrest⟩
  · exact Or.inl ⟨hnone, by rw [append_nil]⟩
  · refine Or.inr ⟨key, _, hsome, rfl, by simpa using hne, ?_⟩
    rw [hrest, map_append]

/-- Splitting a list by a number below `n` and putting the parts together again. -/
theorem flatMap_range_filter_perm {α : Type} (f : α → ℕ) (l : List α) (n : ℕ) :
    ((range n).flatMap fun i => l.filter fun x => f x == i).Perm
      (l.filter fun x => decide (f x < n)) := by
  induction n with
  | zero => simp
  | succ n ih =>
      rw [range_succ, flatMap_append, flatMap_singleton]
      have hsplit := filter_append_perm (fun x => decide (f x < n))
        (l.filter fun x => decide (f x < n + 1))
      refine ((ih.append_right _).trans ?_).trans hsplit
      rw [filter_filter, filter_filter]
      refine List.Perm.append (List.Perm.of_eq ?_) (List.Perm.of_eq ?_)
      · exact filter_congr fun x _ => by rw [Bool.eq_iff_iff]; simp; omega
      · exact filter_congr fun x _ => by rw [Bool.eq_iff_iff]; simp; omega

/-- The segments share the table out. -/
theorem allItems_segments_perm (hash : String → ℕ) (t : TableStorage) {total : ℕ}
    (htotal : 0 < total) :
    ((range total).flatMap fun segment =>
      t.allItems hash (some segment) (some total)).Perm t.storedEntries := by
  simp only [allItems, inSegment]
  rw [← flatMap_assoc]
  refine List.Perm.flatMap_right _ (((flatMap_range_filter_perm _ _ _).trans ?_).trans
    t.partitionEntries_perm)
  rw [filter_eq_self.mpr]
  intro p _
  exact decide_eq_true (Nat.mod_lt _ htotal)

/-! ## A table that changes between pages -/

/-- The display text of the first key does not sort after that of the second. -/
def displayLe (pk pk' : AttributeValue) : Prop :=
  Utf8.compareBytes (asBytes pk.display) (asBytes pk'.display) ≠ .gt

theorem pairwise_partitionEntries (t : TableStorage) :
    t.partitionEntries.Pairwise fun x y => displayLe x.1 y.1 := by
  let le := fun x y : Sigma fun _ : AttributeValue => Partition =>
    Utf8.compareBytes (asBytes x.1.display) (asBytes y.1.display) ≠ .gt
  have hisLE : ∀ {o : Ordering}, o ≠ .gt ↔ o.isLE = true := fun {o} => by cases o <;> simp
  have : Std.Total le := ⟨fun x y => by
    have hswap := @Std.OrientedCmp.eq_swap _ Utf8.compareBytes _ (asBytes x.1.display)
      (asBytes y.1.display)
    simp only [le, hswap]
    cases Utf8.compareBytes (asBytes y.1.display) (asBytes x.1.display) <;> simp⟩
  have : IsTrans _ le := ⟨fun x y z hxy hyz =>
    hisLE.mpr (Std.TransCmp.isLE_trans (hisLE.mp hxy) (hisLE.mp hyz))⟩
  exact pairwise_insertionSort le t.data.entries

theorem displayLe_of_rank_lt {t : TableStorage} {pk pk' : AttributeValue} (hpk : pk ∈ t.data)
    (hpk' : pk' ∈ t.data) (h : t.partitionRank pk < t.partitionRank pk') : displayLe pk pk' := by
  have hmem : ∀ {k : AttributeValue}, k ∈ t.data → k ∈ t.partitionEntries.map Sigma.fst :=
    fun hk => (t.partitionEntries_perm.map Sigma.fst).mem_iff.mpr hk
  have hsorted := pairwise_iff_getElem.mp (pairwise_map.mpr t.pairwise_partitionEntries)
    _ _ (idxOf_lt_length_of_mem (hmem hpk)) (idxOf_lt_length_of_mem (hmem hpk')) h
  rwa [getElem_idxOf, getElem_idxOf] at hsorted

/-- Display text decides the order of partitions unless it is the same. -/
theorem partitionRank_lt_iff {t : TableStorage} {pk pk' : AttributeValue} (hpk : pk ∈ t.data)
    (hpk' : pk' ∈ t.data) (hne : pk.display ≠ pk'.display) :
    t.partitionRank pk < t.partitionRank pk' ↔
      Utf8.compareBytes (asBytes pk.display) (asBytes pk'.display) = .lt := by
  have hcmp : Utf8.compareBytes (asBytes pk.display) (asBytes pk'.display) ≠ .eq := fun h =>
    hne (String.toList_inj.mp (Utf8.encode_injective (Std.LawfulEqCmp.eq_of_compare h)))
  constructor
  · intro h
    have hle := displayLe_of_rank_lt hpk hpk' h
    unfold displayLe at hle
    cases hord : Utf8.compareBytes (asBytes pk.display) (asBytes pk'.display) with
    | lt => rfl
    | eq => exact absurd hord hcmp
    | gt => exact absurd hord hle
  · intro h
    rcases Nat.lt_trichotomy (t.partitionRank pk) (t.partitionRank pk') with hlt | heq | hgt
    · exact hlt
    · have hmem : pk ∈ t.partitionEntries.map Sigma.fst :=
        (t.partitionEntries_perm.map Sigma.fst).mem_iff.mpr hpk
      exact absurd (congrArg AttributeValue.display ((idxOf_inj hmem).mp heq)) hne
    · exact absurd (Std.OrientedCmp.gt_of_lt h) (displayLe_of_rank_lt hpk' hpk hgt)

/-- The next page finds its place: the item the start key names is still there, and no
partition with the same display text is now on the other side of its own. -/
def PlaceKept (t t' : TableStorage) (key : PrimaryKey) : Prop :=
  t'.getItem key ≠ none ∧
    ∀ pk, pk.display = key.partitionKey.display → pk ∈ t.data → pk ∈ t'.data →
      (t.partitionRank key.partitionKey < t.partitionRank pk ↔
        t'.partitionRank key.partitionKey < t'.partitionRank pk)

theorem mem_data_of_getItem {t : TableStorage} {key : PrimaryKey} (h : t.getItem key ≠ none) :
    key.partitionKey ∈ t.data := by
  by_contra hmem
  have hlookup := AList.lookup_eq_none.mpr hmem
  unfold getItem partition at h
  rw [hlookup] at h
  exact h rfl

theorem precedes_iff_of_placeKept {t t' : TableStorage} {key key' : PrimaryKey}
    (hplace : PlaceKept t t' key) (hkey : t.getItem key ≠ none) (h : t.getItem key' ≠ none)
    (h' : t'.getItem key' ≠ none) : t.precedes key key' ↔ t'.precedes key key' := by
  have hrank : t.partitionRank key.partitionKey < t.partitionRank key'.partitionKey ↔
      t'.partitionRank key.partitionKey < t'.partitionRank key'.partitionKey := by
    by_cases hdisplay : key'.partitionKey.display = key.partitionKey.display
    · exact hplace.2 _ hdisplay (mem_data_of_getItem h) (mem_data_of_getItem h')
    · rw [partitionRank_lt_iff (mem_data_of_getItem hkey) (mem_data_of_getItem h)
          (Ne.symm hdisplay),
        partitionRank_lt_iff (mem_data_of_getItem hplace.1) (mem_data_of_getItem h')
          (Ne.symm hdisplay)]
  rw [precedes, precedes, hrank]

theorem holds_iff {hash : String → ℕ} {t : TableStorage} {segment totalSegments : Option ℕ}
    {key : PrimaryKey} :
    Holds (t.allItems hash segment totalSegments) key ↔
      t.getItem key ≠ none ∧ inSegment hash segment totalSegments key.partitionKey = true := by
  rw [getItem_ne_none_iff]
  constructor
  · rintro ⟨e, he, hslot⟩
    obtain ⟨hstored, hseg⟩ := mem_allItems.mp he
    exact ⟨⟨e, hstored, hslot⟩, hslot.1 ▸ hseg⟩
  · rintro ⟨⟨e, hstored, hslot⟩, hseg⟩
    exact ⟨e, mem_allItems.mpr ⟨hstored, by rwa [show e.partitionKey = _ from hslot.1]⟩, hslot⟩

/-- The item carries the key. -/
def carries (keySchema : KeySchema) (key : PrimaryKey) (item : Item) : Bool :=
  match extractPrimaryKey keySchema item with
  | .ok key' => decide (key'.sameSlot key)
  | .error _ => false

theorem carries_item {t : TableStorage} (ht : t.Consistent) {e : StoredEntry}
    (he : e ∈ t.storedEntries) (key : PrimaryKey) :
    carries t.keySchema key e.item = isStart key e := by
  obtain ⟨key', hkey', hslot⟩ := ht.keyed e he
  rw [Bool.eq_iff_iff, carries, hkey', isStart_iff, decide_eq_true_iff]
  exact ⟨sameSlot_trans (sameSlot_symm hslot),
    sameSlot_trans hslot⟩

/-- One request of a scan and the table it meets. -/
structure ScanCall where
  table : TableStorage
  limit : ℕ
  start : Option PrimaryKey

def ScanCall.result (hash : String → ℕ) (segment totalSegments : Option ℕ) (c : ScanCall) :
    List Item × Option PrimaryKey :=
  c.table.scan hash (some c.limit) c.start segment totalSegments

/-- The requests follow the cursor until a page comes without one. -/
def Follows (hash : String → ℕ) (segment totalSegments : Option ℕ) :
    Option PrimaryKey → List ScanCall → Prop
  | _, [] => False
  | start, c :: rest =>
    c.start = start ∧
      match (c.result hash segment totalSegments).2 with
      | none => rest = []
      | some key => Follows hash segment totalSegments (some key) rest

/-- Everything the requests return, in order. -/
def returned (hash : String → ℕ) (segment totalSegments : Option ℕ) (calls : List ScanCall) :
    List Item :=
  calls.flatMap fun c => (c.result hash segment totalSegments).1

/-- From one request to the next the scan does not lose its place. -/
def ScanCall.keepsPlace (c c' : ScanCall) : Prop :=
  ∀ key ∈ c'.start, PlaceKept c.table c'.table key

section Run

variable {hash : String → ℕ} {segment totalSegments : Option ℕ} {keySchema : KeySchema}
  {key : PrimaryKey}

/-- Of a key outside the segment nothing is pending. -/
theorem countP_pending_of_not_inSegment (t : TableStorage) (start : Option PrimaryKey)
    (hseg : inSegment hash segment totalSegments key.partitionKey = false) :
    (pending hash t segment totalSegments start).countP (isStart key) = 0 := by
  refine countP_eq_zero.mpr fun e he h => ?_
  have hmem := (mem_allItems.mp (mem_of_mem_drop he)).2
  rw [(isStart_iff.mp h).1.symm] at hseg
  exact Bool.noConfusion (hseg.symm.trans hmem)

/-- What one page returns of a key and what it leaves pending add up. -/
theorem countP_result (c : ScanCall) (hreach : Reachable keySchema c.table)
    (hlimit : 0 < c.limit) :
    (c.result hash segment totalSegments).1.countP (carries keySchema key) +
        ((c.result hash segment totalSegments).2.elim 0 fun last =>
          (pending hash c.table segment totalSegments (some last)).countP (isStart key)) =
      (pending hash c.table segment totalSegments c.start).countP (isStart key) := by
  obtain ⟨rfl, hconsistent⟩ := hreach.consistent
  obtain ⟨selected, rest, hpending, hitems, hcursor⟩ :=
    scan_page hash c.table hlimit c.start segment totalSegments
  have hselected : (selected.map item).countP (carries c.table.keySchema key) =
      selected.countP (isStart key) := by
    rw [countP_map]
    refine countP_congr fun e he => ?_
    have hmem : e ∈ c.table.storedEntries := (mem_allItems.mp (mem_of_mem_drop
      (show e ∈ pending hash c.table segment totalSegments c.start by
        rw [hpending]; exact mem_append_left _ he))).1
    rw [Function.comp_apply, carries_item hconsistent hmem]
  rw [ScanCall.result, hitems, hselected, hpending, countP_append]
  rcases hcursor with ⟨hnone, rfl⟩ | ⟨last, hsome, -, -, hrest⟩
  · rw [hnone]
    rfl
  · rw [hsome, Option.elim_some, hrest]

/-- The count does not change between the end of a page and the start of the next. -/
theorem countP_pending_of_placeKept {t t' : TableStorage} {last : PrimaryKey}
    (hlast : Holds (t.allItems hash segment totalSegments) last)
    (hplace : PlaceKept t t' last) (h : t.getItem key ≠ none) (h' : t'.getItem key ≠ none) :
    (pending hash t segment totalSegments (some last)).countP (isStart key) =
      (pending hash t' segment totalSegments (some last)).countP (isStart key) := by
  cases hseg : inSegment hash segment totalSegments key.partitionKey with
  | false =>
      rw [countP_pending_of_not_inSegment _ _ hseg, countP_pending_of_not_inSegment _ _ hseg]
  | true =>
      obtain ⟨hstored, hlastSeg⟩ := holds_iff.mp hlast
      rw [pending, pending,
        countP_drop_startIndex (pairwise_allItems hash t segment totalSegments) hlast
          (holds_iff.mpr ⟨h, hseg⟩),
        countP_drop_startIndex (pairwise_allItems hash t' segment totalSegments)
          (holds_iff.mpr ⟨hplace.1, hlastSeg⟩) (holds_iff.mpr ⟨h', hseg⟩)]
      exact if_congr (precedes_iff_of_placeKept hplace hstored h h') rfl rfl

/-- A run returns of a key present throughout what its first request has pending. -/
theorem countP_returned {calls : List ScanCall} {start : Option PrimaryKey}
    (hreach : ∀ c ∈ calls, Reachable keySchema c.table) (hlimits : ∀ c ∈ calls, 0 < c.limit)
    (hfollows : Follows hash segment totalSegments start calls)
    (hkeeps : calls.IsChain ScanCall.keepsPlace)
    (hpresent : ∀ c ∈ calls, c.table.getItem key ≠ none) :
    (returned hash segment totalSegments calls).countP (carries keySchema key) =
      (calls.head?.map fun c =>
        (pending hash c.table segment totalSegments start).countP (isStart key)).getD 0 := by
  induction calls generalizing start with
  | nil => exact absurd hfollows id
  | cons c rest ih =>
      obtain ⟨hstart, hnext⟩ := hfollows
      subst hstart
      have hpage := @countP_result hash segment totalSegments keySchema key c
        (hreach c (.head _)) (hlimits c (.head _))
      obtain ⟨_, _, _, _, hcursor⟩ :=
        scan_page hash c.table (hlimits c (.head _)) c.start segment totalSegments
      rw [returned, flatMap_cons, countP_append, head?_cons, Option.map_some,
        Option.getD_some, ← hpage]
      congr 1
      cases hlast : (c.result hash segment totalSegments).2 with
      | none =>
          rw [hlast] at hnext
          subst hnext
          rfl
      | some last =>
          rw [hlast] at hnext
          have hholds : Holds (c.table.allItems hash segment totalSegments) last := by
            rcases hcursor with ⟨hnone, -⟩ | ⟨last', hsome, -, hholds, -⟩
            · exact absurd (hlast.symm.trans hnone) (Option.some_ne_none last)
            · obtain rfl : last = last' := Option.some.inj (hlast.symm.trans hsome)
              exact hholds
          cases rest with
          | nil => exact absurd hnext id
          | cons c' rest =>
              obtain ⟨hkeep, hchain⟩ := isChain_cons_cons.mp hkeeps
              have hplace : PlaceKept c.table c'.table last := hkeep last (by rw [hnext.1]; rfl)
              have htail := ih (fun d hd => hreach d (mem_cons_of_mem c hd))
                (fun d hd => hlimits d (mem_cons_of_mem c hd)) hnext hchain
                (fun d hd => hpresent d (mem_cons_of_mem c hd))
              rw [Option.elim_some, countP_pending_of_placeKept hholds hplace
                (hpresent c (.head _))
                (hpresent c' (mem_cons_of_mem c (.head _)))]
              exact htail

end Run

/-! ## Every segment of a split -/

/-- The pairs of segment and total with which a whole table is read: none, or one for
each segment. -/
def splitSegments : Option ℕ → List (Option ℕ × Option ℕ)
  | none => [(none, none)]
  | some total => (List.range total).map fun segment => (some segment, some total)

theorem allItems_split_perm (hash : String → ℕ) (t : TableStorage) {split : Option ℕ}
    (hsplit : split ≠ some 0) :
    ((splitSegments split).flatMap fun s => t.allItems hash s.1 s.2).Perm t.storedEntries := by
  cases split with
  | none =>
      simp only [splitSegments, flatMap_singleton, allItems, inSegment, filter_true]
      exact t.partitionEntries_perm.flatMap_right _
  | some total =>
      rw [splitSegments, flatMap_map]
      exact allItems_segments_perm hash t (Nat.pos_of_ne_zero fun h => hsplit (by rw [h]))

theorem length_allItems_le (hash : String → ℕ) (t : TableStorage)
    (segment totalSegments : Option ℕ) :
    (t.allItems hash segment totalSegments).length ≤ t.storedEntries.length := by
  have hperm : (t.partitionEntries.flatMap entriesOf).Perm t.storedEntries :=
    t.partitionEntries_perm.flatMap_right _
  rw [← hperm.length_eq, allItems]
  induction t.partitionEntries with
  | nil => exact le_rfl
  | cons p ps ih =>
      rw [filter_cons, flatMap_cons, length_append]
      split
      · rw [flatMap_cons, length_append]
        omega
      · omega

theorem sum_map_ite_eq_count (l : List ℕ) (a : ℕ) :
    (l.map fun x => if a == x then 1 else 0).sum = l.count a := by
  induction l with
  | nil => rfl
  | cons x l ih =>
      rw [map_cons, sum_cons, ih, count_cons, add_comm]
      by_cases h : a = x
      · simp [h]
      · simp [h, Ne.symm h]

/-- Every key is in exactly one segment. -/
theorem sum_inSegment (hash : String → ℕ) {split : Option ℕ} (hsplit : split ≠ some 0)
    (partitionKey : AttributeValue) :
    ((splitSegments split).map fun s =>
      if inSegment hash s.1 s.2 partitionKey then 1 else 0).sum = 1 := by
  cases split with
  | none => rfl
  | some total =>
      have hpos : 0 < total := Nat.pos_of_ne_zero fun h => hsplit (by rw [h])
      rw [splitSegments, map_map]
      refine (sum_map_ite_eq_count _ (partitionKeySegment hash partitionKey total)).trans ?_
      exact count_eq_one_of_mem nodup_range (mem_range.mpr (Nat.mod_lt _ hpos))

/-- Requests that read one segment of a table to its end. -/
structure ScanRun (hash : String → ℕ) (segment totalSegments : Option ℕ)
    (keySchema : KeySchema) (calls : List ScanCall) : Prop where
  reachable : ∀ c ∈ calls, Reachable keySchema c.table
  limits : ∀ c ∈ calls, 0 < c.limit
  follows : Follows hash segment totalSegments none calls

/-- Over the runs of all segments a key present throughout is returned once. -/
theorem countP_returned_split {hash : String → ℕ} {split : Option ℕ} (hsplit : split ≠ some 0)
    {keySchema : KeySchema} {calls : Option ℕ × Option ℕ → List ScanCall}
    (hruns : ∀ s ∈ splitSegments split, ScanRun hash s.1 s.2 keySchema (calls s))
    (hkeeps : ∀ s ∈ splitSegments split, (calls s).IsChain ScanCall.keepsPlace)
    {key : PrimaryKey}
    (hpresent : ∀ s ∈ splitSegments split, ∀ c ∈ calls s, c.table.getItem key ≠ none) :
    ((splitSegments split).flatMap fun s => returned hash s.1 s.2 (calls s)).countP
      (carries keySchema key) = 1 := by
  rw [countP_flatMap, ← sum_inSegment hash hsplit key.partitionKey]
  congr 1
  refine map_congr_left fun s hs => ?_
  have hrun := hruns s hs
  rw [Function.comp_apply, countP_returned hrun.reachable hrun.limits hrun.follows (hkeeps s hs)
    (hpresent s hs)]
  have hpresent := hpresent s hs
  have hfollows := hrun.follows
  cases hcalls : calls s with
  | nil =>
      rw [hcalls] at hfollows
      exact absurd hfollows id
  | cons c rest =>
      have hkey := hpresent c (by rw [hcalls]; exact (.head _))
      rw [head?_cons, Option.map_some, Option.getD_some]
      split
      · next hseg =>
          exact countP_isStart (pairwise_allItems hash c.table s.1 s.2) (holds_iff.mpr ⟨hkey, hseg⟩)
      · next hseg => exact countP_pending_of_not_inSegment _ _ (Bool.not_eq_true _ ▸ hseg)

/-- Following the cursor through every segment of a table at rest ends and lists each item
once; while the table changes, each item present throughout is listed once as long as no
request loses its place. -/
theorem pagedScan_visits_once (hash : String → ℕ) (split : Option ℕ) (hsplit : split ≠ some 0) :
    (∀ (t : TableStorage) (limits : Option ℕ × Option ℕ → ℕ → ℕ), (∀ s i, 0 < limits s i) →
      ∃ pages : Option ℕ × Option ℕ → List Item,
        (∀ s ∈ splitSegments split,
          t.scanPages hash (limits s) s.1 s.2 (t.storedEntries.length + 1) = some (pages s)) ∧
        ((splitSegments split).flatMap pages).Perm (t.storedEntries.map item)) ∧
    (∀ (keySchema : KeySchema) (calls : Option ℕ × Option ℕ → List ScanCall) (key : PrimaryKey),
      (∀ s ∈ splitSegments split, ScanRun hash s.1 s.2 keySchema (calls s)) →
      (∀ s ∈ splitSegments split, (calls s).IsChain ScanCall.keepsPlace) →
      (∀ s ∈ splitSegments split, ∀ c ∈ calls s, c.table.getItem key ≠ none) →
      ((splitSegments split).flatMap fun s => returned hash s.1 s.2 (calls s)).countP
        (carries keySchema key) = 1) := by
  refine ⟨fun t limits hlimits => ?_, fun keySchema calls key hruns hkeeps hpresent =>
    countP_returned_split hsplit hruns hkeeps hpresent⟩
  refine ⟨fun s => (t.allItems hash s.1 s.2).map item, fun s _ => ?_, ?_⟩
  · exact scanPages_eq hash t (hlimits s) s.1 s.2
      (Nat.lt_succ_of_le (length_allItems_le hash t s.1 s.2))
  · rw [← map_flatMap]
    exact (allItems_split_perm hash t hsplit).map _

/-- Three items under the partition keys `a`, `b` and `c`. -/
def threeItems : TableStorage :=
  let put := fun (t : TableStorage) (name : String) =>
    (t.putPrepared ⟨.s name, none⟩ [("pk", .s name)]).1
  ["a", "b", "c"].foldl put (new ⟨⟨"pk", .s⟩, none⟩)

theorem reachable_threeItems : Reachable ⟨⟨"pk", .s⟩, none⟩ threeItems :=
  ((Reachable.new.putPrepared rfl).putPrepared rfl).putPrepared rfl

/-- Two requests that read all three items. -/
def threeItemsCalls : List ScanCall :=
  [⟨threeItems, 2, none⟩, ⟨threeItems, 2, some ⟨.s "b", none⟩⟩]

theorem pagedScan_visits_once_threeItems :
    ((splitSegments none).flatMap fun s =>
      returned (fun _ => 0) s.1 s.2 threeItemsCalls).countP
        (carries ⟨⟨"pk", .s⟩, none⟩ ⟨.s "a", none⟩) = 1 := by
  have hreach : ∀ c ∈ threeItemsCalls, c.table = threeItems ∧ 0 < c.limit := by
    simp [threeItemsCalls]
  have hfirst : (ScanCall.result (fun _ => 0) none none ⟨threeItems, 2, none⟩).2 =
      some ⟨.s "b", none⟩ := by decide
  have hsecond : (ScanCall.result (fun _ => 0) none none
      ⟨threeItems, 2, some ⟨.s "b", none⟩⟩).2 = none := by decide
  refine (pagedScan_visits_once (fun _ => 0) none (by decide)).2 ⟨⟨"pk", .s⟩, none⟩
    (fun _ => threeItemsCalls) ⟨.s "a", none⟩ (fun s hs => ?_) (fun s hs => ?_) fun s hs c hc => ?_
  · obtain rfl := mem_singleton.mp hs
    refine ⟨fun c hc => (hreach c hc).1 ▸ reachable_threeItems, fun c hc => (hreach c hc).2, ?_⟩
    simp [threeItemsCalls, Follows, hfirst, hsecond]
  · refine isChain_cons_cons.mpr ⟨fun key hkey => ?_, .singleton _⟩
    cases hkey
    exact ⟨by decide, fun _ _ _ _ => Iff.rfl⟩
  · rw [(hreach c hc).1]
    decide

/-- After the item the cursor names is deleted the scan starts over and lists the first
item again. -/
theorem pagedScan_restarts_after_delete :
    ¬ ∀ (calls : List ScanCall) (key : PrimaryKey),
      ScanRun (fun _ => 0) none none ⟨⟨"pk", .s⟩, none⟩ calls →
      (∀ c ∈ calls, c.table.getItem key ≠ none) →
      (returned (fun _ => 0) none none calls).countP (carries ⟨⟨"pk", .s⟩, none⟩ key) = 1 := by
  intro h
  have hdeleted : Reachable ⟨⟨"pk", .s⟩, none⟩ (threeItems.deleteItem ⟨.s "b", none⟩).1 :=
    reachable_threeItems.deleteItem _
  have hfirst : (ScanCall.result (fun _ => 0) none none ⟨threeItems, 2, none⟩).2 =
      some ⟨.s "b", none⟩ := by decide
  have hsecond : (ScanCall.result (fun _ => 0) none none
      ⟨(threeItems.deleteItem ⟨.s "b", none⟩).1, 2, some ⟨.s "b", none⟩⟩).2 = none := by decide
  have hcount := h [⟨threeItems, 2, none⟩,
      ⟨(threeItems.deleteItem ⟨.s "b", none⟩).1, 2, some ⟨.s "b", none⟩⟩] ⟨.s "a", none⟩
    ⟨by simp [reachable_threeItems, hdeleted], by simp, by simp [Follows, hfirst, hsecond]⟩
    (by simp only [mem_cons, not_mem_nil, or_false, forall_eq_or_imp, forall_eq]; decide)
  revert hcount
  decide

end TableStorage

end Rustack.DynamoDB
