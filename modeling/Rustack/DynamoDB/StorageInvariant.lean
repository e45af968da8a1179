import Rustack.DynamoDB.Storage

/-!
# What a table keeps through its writes

A table seen from outside is a map from key slots to items, where two keys are
one slot when the partition keys are the same value and the tree keys compare
equal.  Each write moves that map at one slot.  The counters and the keys inside
the items follow the entries, in every table that writes can lead to.
-/

namespace Rustack.DynamoDB

open List

/-- Two primary keys address one item. -/
def PrimaryKey.sameSlot (key key' : PrimaryKey) : Prop :=
  key.partitionKey = key'.partitionKey ∧
    SortableAttributeValue.cmp key.treeKey key'.treeKey = .eq

instance (key key' : PrimaryKey) : Decidable (key.sameSlot key') :=
  inferInstanceAs (Decidable (_ ∧ _))

namespace PrimaryKey

theorem sameSlot_iff {key key' : PrimaryKey} (h : key.partitionKey = key'.partitionKey) :
    key.sameSlot key' ↔ SortableAttributeValue.cmp key.treeKey key'.treeKey = .eq :=
  and_iff_right h

theorem sameSlot_refl (key : PrimaryKey) : key.sameSlot key :=
  ⟨rfl, Std.ReflCmp.compare_self⟩

theorem sameSlot_symm {key key' : PrimaryKey} (h : key.sameSlot key') : key'.sameSlot key :=
  ⟨h.1.symm, Std.OrientedCmp.eq_symm h.2⟩

theorem sameSlot_trans {key key' key'' : PrimaryKey} (h : key.sameSlot key')
    (h' : key'.sameSlot key'') : key.sameSlot key'' :=
  ⟨h.1.trans h'.1, Std.TransCmp.eq_trans h.2 h'.2⟩

end PrimaryKey

/-- The slot an entry is filed under. -/
def StoredEntry.slot (e : StoredEntry) : PrimaryKey :=
  { partitionKey := e.partitionKey, sortKey := some e.sortKey }

/-! ## Sums over an association list -/

section Weight

variable {α : Type} [DecidableEq α] {β : α → Type} (weight : Sigma β → ℕ)

theorem sum_kerase {entries : List (Sigma β)} (hnodup : entries.NodupKeys) (key : α) :
    ((entries.kerase key).map weight).sum +
        ((entries.dlookup key).map fun value => weight ⟨key, value⟩).getD 0 =
      (entries.map weight).sum := by
  induction entries with
  | nil => rfl
  | cons e es ih =>
      obtain ⟨hnotmem, htail⟩ := nodupKeys_cons.mp hnodup
      by_cases hkey : key = e.1
      · obtain ⟨a, value⟩ := e
        obtain rfl : key = a := hkey
        rw [kerase_cons_eq (show key = (Sigma.mk key value).1 from rfl), map_cons,
          sum_cons, add_comm, dlookup_cons_eq]
        rfl
      · rw [kerase_cons_ne hkey, dlookup_cons_ne _ _ hkey, map_cons, sum_cons,
          map_cons, sum_cons, ← ih htail, add_assoc]

theorem sum_insert (d : AList β) (key : α) (value : β key) :
    ((d.insert key value).entries.map weight).sum +
        ((d.lookup key).map fun old => weight ⟨key, old⟩).getD 0 =
      (d.entries.map weight).sum + weight ⟨key, value⟩ := by
  have h := sum_kerase weight d.nodupKeys key
  rw [AList.entries_insert, map_cons, sum_cons]
  simp only [AList.lookup]
  omega

end Weight

namespace TableStorage

theorem partition_of_lookup {t : TableStorage} {partitionKey : AttributeValue} {p : Partition}
    (h : t.data.lookup partitionKey = some p) : t.partition partitionKey = p := by
  simp [partition, h]

@[simp] theorem putPrepared_keySchema (t : TableStorage) (key : PrimaryKey) (item : Item) :
    (t.putPrepared key item).1.keySchema = t.keySchema := by
  dsimp only [putPrepared]
  split <;> rfl

@[simp] theorem putPrepared_data (t : TableStorage) (key : PrimaryKey) (item : Item) :
    (t.putPrepared key item).1.data =
      t.data.insert key.partitionKey
        ((t.partition key.partitionKey).insert key.treeKey item) := by
  dsimp only [putPrepared]
  split <;> rfl

@[simp] theorem putPrepared_snd (t : TableStorage) (key : PrimaryKey) (item : Item) :
    (t.putPrepared key item).2 = t.getItem key := by
  dsimp only [putPrepared, getItem]
  split
  · next h => exact h.symm
  · next h => exact h.symm

theorem putPrepared_itemCount (t : TableStorage) (key : PrimaryKey) (item : Item) :
    (t.putPrepared key item).1.itemCount + ((t.getItem key).map fun _ => 1).getD 0 =
      t.itemCount + 1 := by
  dsimp only [putPrepared, getItem]
  split
  · next h => rw [h]; rfl
  · next h => rw [h]; rfl

theorem putPrepared_totalSize (t : TableStorage) (key : PrimaryKey) (item : Item) :
    (t.putPrepared key item).1.totalSize =
      t.totalSize + calculateItemSize item - ((t.getItem key).map calculateItemSize).getD 0 := by
  dsimp only [putPrepared, getItem]
  split
  · next h => rw [h]; rfl
  · next h => rw [h]; rfl

theorem partition_insert (t : TableStorage) (k k' : AttributeValue) (p : Partition) :
    (({ t with data := t.data.insert k p } : TableStorage)).partition k' =
      if k' = k then p else t.partition k' := by
  unfold partition
  split
  · next h => subst h; simp
  · next h => rw [AList.lookup_insert_ne h]

/-- A put writes its own slot and no other. -/
theorem getItem_putPrepared (t : TableStorage) (key key' : PrimaryKey) (item : Item) :
    (t.putPrepared key item).1.getItem key' =
      if key.sameSlot key' then some item else t.getItem key' := by
  have hpartition : (t.putPrepared key item).1.partition key'.partitionKey =
      if key'.partitionKey = key.partitionKey then
        (t.partition key.partitionKey).insert key.treeKey item
      else t.partition key'.partitionKey := by
    rw [← partition_insert]
    simp only [partition, putPrepared_data]
  rw [getItem, hpartition]
  by_cases hpk : key'.partitionKey = key.partitionKey
  · rw [if_pos hpk, SortedMap.get?_insert, getItem, hpk]
    exact if_congr (PrimaryKey.sameSlot_iff hpk.symm).symm rfl rfl
  · rw [if_neg hpk, if_neg fun h => hpk h.1.symm]
    rfl

/-- What `deleteItem` returns is what was there. -/
@[simp] theorem deleteItem_snd (t : TableStorage) (key : PrimaryKey) :
    (t.deleteItem key).2 = t.getItem key := by
  unfold deleteItem getItem partition
  cases hlookup : t.data.lookup key.partitionKey with
  | none => rfl
  | some p => cases hget : p.get? key.treeKey <;> simp [hget]

theorem deleteItem_of_none {t : TableStorage} {key : PrimaryKey} (h : t.getItem key = none) :
    t.deleteItem key = (t, none) := by
  unfold getItem partition at h
  unfold deleteItem
  cases hlookup : t.data.lookup key.partitionKey with
  | none => rfl
  | some p =>
      rw [hlookup] at h
      simp only [Option.getD_some] at h
      simp only [h]

theorem deleteItem_of_some {t : TableStorage} {key : PrimaryKey} {old : Item}
    (h : t.getItem key = some old) :
    (t.deleteItem key).1 =
      { t with
        data := t.data.insert key.partitionKey
          ((t.partition key.partitionKey).erase key.treeKey)
        itemCount := t.itemCount - 1
        totalSize := t.totalSize - calculateItemSize old } := by
  unfold getItem partition at h
  unfold deleteItem partition
  cases hlookup : t.data.lookup key.partitionKey with
  | none =>
      rw [hlookup] at h
      simp at h
  | some p =>
      rw [hlookup] at h
      simp only [Option.getD_some] at h
      simp only [h, Option.getD_some]

@[simp] theorem deleteItem_keySchema (t : TableStorage) (key : PrimaryKey) :
    (t.deleteItem key).1.keySchema = t.keySchema := by
  cases h : t.getItem key with
  | none => rw [deleteItem_of_none h]
  | some old => rw [deleteItem_of_some h]

theorem getItem_congr (t : TableStorage) {key key' : PrimaryKey} (h : key.sameSlot key') :
    t.getItem key = t.getItem key' := by
  rw [getItem, getItem, h.1, SortedMap.get?_congr _ h.2]

/-- A delete empties its own slot and no other. -/
theorem getItem_deleteItem (t : TableStorage) (key key' : PrimaryKey) :
    (t.deleteItem key).1.getItem key' =
      if key.sameSlot key' then none else t.getItem key' := by
  cases h : t.getItem key with
  | none =>
      rw [deleteItem_of_none h]
      split
      · next hslot => rw [← getItem_congr t hslot, h]
      · rfl
  | some old =>
      rw [deleteItem_of_some h]
      have hpartition := partition_insert t key.partitionKey key'.partitionKey
        ((t.partition key.partitionKey).erase key.treeKey)
      simp only [partition] at hpartition
      simp only [getItem, partition, hpartition]
      by_cases hpk : key'.partitionKey = key.partitionKey
      · rw [if_pos hpk, SortedMap.get?_erase, hpk]
        exact if_congr (PrimaryKey.sameSlot_iff hpk.symm).symm rfl rfl
      · rw [if_neg hpk, if_neg fun hslot => hpk hslot.1.symm]

@[simp] theorem getItem_new (keySchema : KeySchema) (key : PrimaryKey) :
    (new keySchema).getItem key = none := rfl

/-! ## Entries and counters -/

/-- Every stored item with its keys, in iteration order. -/
def storedEntries (t : TableStorage) : List StoredEntry := t.data.entries.flatMap entriesOf

theorem mem_storedEntries {t : TableStorage} {e : StoredEntry} :
    e ∈ t.storedEntries ↔ (e.sortKey, e.item) ∈ (t.partition e.partitionKey).entries := by
  have hlookup : ∀ (k : AttributeValue) (p : Partition), ⟨k, p⟩ ∈ t.data.entries ↔
      t.data.lookup k = some p := fun k p => AList.mem_lookup_iff.symm
  simp only [storedEntries, mem_flatMap, entriesOf, mem_map]
  constructor
  · rintro ⟨⟨k, p⟩, hp, x, hx, rfl⟩
    rwa [partition_of_lookup ((hlookup k p).mp hp)]
  · intro he
    unfold partition at he
    cases hp : t.data.lookup e.partitionKey with
    | none =>
        rw [hp] at he
        exact absurd he not_mem_nil
    | some p =>
        rw [hp] at he
        exact ⟨⟨_, p⟩, (hlookup _ _).mpr hp, (e.sortKey, e.item), he, rfl⟩

/-- The sum of a weight over all stored items. -/
def totalWeight (weight : Item → ℕ) (t : TableStorage) : ℕ :=
  (t.data.entries.map fun p => (p.2.entries.map fun e => weight e.2).sum).sum

theorem sum_storedEntries (weight : Item → ℕ) (t : TableStorage) :
    (t.storedEntries.map fun e => weight e.item).sum = t.totalWeight weight := by
  simp only [storedEntries, totalWeight]
  induction t.data.entries with
  | nil => rfl
  | cons p ps ih =>
      rw [flatMap_cons, map_append, sum_append, ih, map_cons, sum_cons]
      simp [entriesOf, Function.comp_def]

theorem totalWeight_insert (weight : Item → ℕ) (t t' : TableStorage) (k : AttributeValue)
    (p : Partition) (hdata : t'.data = t.data.insert k p) :
    t'.totalWeight weight + ((t.partition k).entries.map fun e => weight e.2).sum =
      t.totalWeight weight + (p.entries.map fun e => weight e.2).sum := by
  have h := sum_insert (fun p => (p.2.entries.map fun e => weight e.2).sum) t.data k p
  have hold : ((t.data.lookup k).map fun old => (old.entries.map fun e => weight e.2).sum).getD 0 =
      ((t.partition k).entries.map fun e => weight e.2).sum := by
    unfold partition
    cases t.data.lookup k <;> rfl
  rw [hold] at h
  rw [totalWeight, hdata]
  exact h

theorem totalWeight_putPrepared (weight : Item → ℕ) (t : TableStorage) (key : PrimaryKey)
    (item : Item) :
    (t.putPrepared key item).1.totalWeight weight + ((t.getItem key).map weight).getD 0 =
      t.totalWeight weight + weight item := by
  have hinsert := totalWeight_insert weight t _ _ _ (putPrepared_data t key item)
  have hsum := SortedMap.sum_insert (t.partition key.partitionKey) weight key.treeKey item
  rw [getItem]
  omega

theorem totalWeight_deleteItem (weight : Item → ℕ) (t : TableStorage) (key : PrimaryKey) :
    (t.deleteItem key).1.totalWeight weight + ((t.getItem key).map weight).getD 0 =
      t.totalWeight weight := by
  cases h : t.getItem key with
  | none => rw [deleteItem_of_none h]; rfl
  | some old =>
      have hinsert := totalWeight_insert weight t (t.deleteItem key).1 key.partitionKey
        ((t.partition key.partitionKey).erase key.treeKey) (by rw [deleteItem_of_some h])
      have hsum := SortedMap.sum_erase (t.partition key.partitionKey) weight key.treeKey
      rw [getItem] at h
      rw [h] at hsum
      omega

/-! ## The counters -/

/-- The counters agree with the entries. -/
structure Counted (t : TableStorage) : Prop where
  itemCount : t.itemCount = t.totalWeight fun _ => 1
  totalSize : t.totalSize = t.totalWeight calculateItemSize

theorem counted_new (keySchema : KeySchema) : (new keySchema).Counted := ⟨rfl, rfl⟩

/-- Whatever key an item is stored under, the counters follow. -/
theorem Counted.putPrepared {t : TableStorage} (h : t.Counted) (key : PrimaryKey) (item : Item) :
    (t.putPrepared key item).1.Counted := by
  obtain ⟨hcount, hsize⟩ := h
  constructor
  · have hweight := totalWeight_putPrepared (fun _ => 1) t key item
    have hcount' := putPrepared_itemCount t key item
    omega
  · have hweight := totalWeight_putPrepared calculateItemSize t key item
    have hsize' := putPrepared_totalSize t key item
    omega

theorem Counted.deleteItem {t : TableStorage} (h : t.Counted) (key : PrimaryKey) :
    (t.deleteItem key).1.Counted := by
  cases hget : t.getItem key with
  | none => rwa [deleteItem_of_none hget]
  | some old =>
      obtain ⟨hcount, hsize⟩ := h
      have hone := totalWeight_deleteItem (fun _ => 1) t key
      have hbytes := totalWeight_deleteItem calculateItemSize t key
      rw [hget, Option.map_some, Option.getD_some] at hone hbytes
      constructor
      · rw [deleteItem_of_some hget] at hone ⊢
        simp only at hone ⊢
        omega
      · rw [deleteItem_of_some hget] at hbytes ⊢
        simp only at hbytes ⊢
        omega

/-! ## Consistency -/

/-- The item lies under the key it carries. -/
def keyed (keySchema : KeySchema) (e : StoredEntry) : Prop :=
  ∃ key, extractPrimaryKey keySchema e.item = .ok key ∧ key.sameSlot e.slot

/-- The keys inside the items and the counters agree with the entries. -/
structure Consistent (t : TableStorage) : Prop where
  keyed : ∀ e ∈ t.storedEntries, keyed t.keySchema e
  itemCount_eq : t.itemCount = t.storedEntries.length
  totalSize_eq : t.totalSize = (t.storedEntries.map StoredEntry.size).sum

theorem length_eq_totalWeight (t : TableStorage) :
    t.storedEntries.length = t.totalWeight fun _ => 1 := by
  rw [← sum_storedEntries]
  simp

theorem counted_iff {t : TableStorage} : t.Counted ↔ t.itemCount = t.storedEntries.length ∧
    t.totalSize = (t.storedEntries.map StoredEntry.size).sum := by
  have hsize : (t.storedEntries.map StoredEntry.size).sum = t.totalWeight calculateItemSize :=
    sum_storedEntries calculateItemSize t
  rw [length_eq_totalWeight, hsize]
  exact ⟨fun h => ⟨h.itemCount, h.totalSize⟩, fun h => ⟨h.1, h.2⟩⟩

theorem consistent_iff {t : TableStorage} :
    t.Consistent ↔ (∀ e ∈ t.storedEntries, TableStorage.keyed t.keySchema e) ∧ t.Counted := by
  rw [counted_iff]
  exact ⟨fun h => ⟨h.keyed, h.itemCount_eq, h.totalSize_eq⟩, fun h => ⟨h.1, h.2.1, h.2.2⟩⟩

theorem consistent_new (keySchema : KeySchema) : (new keySchema).Consistent :=
  ⟨fun _ he => absurd he not_mem_nil, rfl, rfl⟩

/-- Storing an item under the key it carries keeps the table consistent. -/
theorem Consistent.putPrepared {t : TableStorage} (h : t.Consistent) {key : PrimaryKey}
    {item : Item} (hkey : extractPrimaryKey t.keySchema item = .ok key) :
    (t.putPrepared key item).1.Consistent := by
  obtain ⟨hkeyed, hcounted⟩ := consistent_iff.mp h
  refine consistent_iff.mpr ⟨fun e he => ?_, hcounted.putPrepared key item⟩
  · rw [putPrepared_keySchema]
    rw [mem_storedEntries] at he
    unfold partition at he
    rw [putPrepared_data] at he
    by_cases hpk : e.partitionKey = key.partitionKey
    · rw [hpk, AList.lookup_insert, Option.getD_some] at he
      rcases SortedMap.mem_insertEntry he with ⟨hitem, hsort⟩ | hold
      · simp only at hitem hsort
        refine ⟨key, by rw [hitem]; exact hkey, hpk.symm, ?_⟩
        rcases hsort with hsort | hsort
        · rw [← hsort]
          exact Std.ReflCmp.compare_self
        · exact hsort
      · refine hkeyed e (mem_storedEntries.mpr ?_)
        rw [hpk]
        exact hold
    · rw [AList.lookup_insert_ne hpk] at he
      exact hkeyed e (mem_storedEntries.mpr he)

theorem Consistent.deleteItem {t : TableStorage} (h : t.Consistent) (key : PrimaryKey) :
    (t.deleteItem key).1.Consistent := by
  cases hget : t.getItem key with
  | none => rwa [deleteItem_of_none hget]
  | some old =>
      obtain ⟨hkeyed, hcounted⟩ := consistent_iff.mp h
      refine consistent_iff.mpr ⟨fun e he => ?_, hcounted.deleteItem key⟩
      · rw [deleteItem_keySchema]
        rw [mem_storedEntries, deleteItem_of_some hget] at he
        refine hkeyed e (mem_storedEntries.mpr ?_)
        have hpartition := partition_insert t key.partitionKey e.partitionKey
          ((t.partition key.partitionKey).erase key.treeKey)
        simp only [partition] at hpartition he ⊢
        rw [hpartition] at he
        split at he
        · next hpk =>
            rw [hpk]
            exact mem_of_mem_filter he
        · exact he

/-! ## Tables that writes lead to -/

/-- A table as its own operations build it.  The map may list its partitions in another
order after any change. -/
inductive Reachable (keySchema : KeySchema) : TableStorage → Prop
  | new : Reachable keySchema (new keySchema)
  | putItem {t t' : TableStorage} {item : Item} {old : Option Item} :
      Reachable keySchema t → t.putItem item = .ok (t', old) → Reachable keySchema t'
  | deleteItem {t : TableStorage} (key : PrimaryKey) :
      Reachable keySchema t → Reachable keySchema (t.deleteItem key).1
  | rehash {t : TableStorage} {data : AList fun _ : AttributeValue => Partition} :
      Reachable keySchema t → data.entries.Perm t.data.entries →
        Reachable keySchema { t with data }

theorem putItem_eq_ok {t t' : TableStorage} {item : Item} {old : Option Item}
    (h : t.putItem item = .ok (t', old)) :
    ∃ key, extractPrimaryKey t.keySchema item = .ok key ∧ t.putPrepared key item = (t', old) := by
  unfold putItem at h
  cases hkey : extractPrimaryKey t.keySchema item with
  | error e => rw [hkey] at h; cases h
  | ok key =>
      rw [hkey] at h
      exact ⟨key, rfl, Except.ok.inj h⟩

theorem Consistent.rehash {t : TableStorage} (h : t.Consistent)
    {data : AList fun _ : AttributeValue => Partition} (hperm : data.entries.Perm t.data.entries) :
    ({ t with data } : TableStorage).Consistent := by
  have hentries : ({ t with data } : TableStorage).storedEntries.Perm t.storedEntries :=
    hperm.flatMap_right _
  exact ⟨fun e he => h.keyed e (hentries.mem_iff.mp he),
    h.itemCount_eq.trans hentries.length_eq.symm,
    h.totalSize_eq.trans (hentries.map _).sum_eq.symm⟩

theorem Reachable.consistent {keySchema : KeySchema} {t : TableStorage}
    (h : Reachable keySchema t) : t.keySchema = keySchema ∧ t.Consistent := by
  induction h with
  | new => exact ⟨rfl, consistent_new keySchema⟩
  | @putItem t _ item _ _ hput ih =>
      obtain ⟨key, hkey, hprepared⟩ := putItem_eq_ok hput
      have hconsistent := ih.2.putPrepared hkey
      have hschema := putPrepared_keySchema t key item
      rw [hprepared] at hconsistent hschema
      exact ⟨hschema.trans ih.1, hconsistent⟩
  | deleteItem key _ ih => exact ⟨(deleteItem_keySchema _ key).trans ih.1, ih.2.deleteItem key⟩
  | rehash _ hperm ih => exact ⟨ih.1, ih.2.rehash hperm⟩

theorem Reachable.putPrepared {keySchema : KeySchema} {t : TableStorage}
    (h : Reachable keySchema t) {key : PrimaryKey} {item : Item}
    (hkey : extractPrimaryKey keySchema item = .ok key) :
    Reachable keySchema (t.putPrepared key item).1 := by
  have hput : t.putItem item = .ok (t.putPrepared key item) := by
    rw [TableStorage.putItem, h.consistent.1, hkey]
    rfl
  exact h.putItem hput

end TableStorage

end Rustack.DynamoDB
