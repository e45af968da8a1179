import Mathlib.Data.List.AList
import Mathlib.Data.List.Sort
import Rustack.Lib.Outcome
import Rustack.Lib.SortedMap
import Rustack.Lib.Paging
import Rustack.DynamoDB.SortKey

/-!
# Table storage

A table is a hash map from partition keys to partitions, and a partition is a
tree of items ordered by sort key.  The hash map is an association list whose
order stands for the iteration order of the map, about which nothing is known.
Reads come in two kinds: a query walks one partition between two bounds, a
scan lists everything and cuts out one page.
-/

namespace Rustack.DynamoDB

inductive ScalarAttributeType where
  | s
  | n
  | b
  | unknown (name : String)
  deriving DecidableEq

def ScalarAttributeType.asStr : ScalarAttributeType → String
  | .s => "S"
  | .n => "N"
  | .b => "B"
  | .unknown name => name

structure KeyAttribute where
  name : String
  attrType : ScalarAttributeType
  deriving DecidableEq

structure KeySchema where
  partitionKey : KeyAttribute
  sortKey : Option KeyAttribute
  deriving DecidableEq

structure PrimaryKey where
  partitionKey : AttributeValue
  sortKey : Option SortableAttributeValue
  deriving DecidableEq

/-- The tree key an item is filed under. -/
def PrimaryKey.treeKey (key : PrimaryKey) : SortableAttributeValue :=
  key.sortKey.getD .sentinel

/-! ## Key extraction -/

def validateKeyType (attrName : String) (expected : ScalarAttributeType)
    (value : AttributeValue) : Except StorageError Unit :=
  match expected, value with
  | .s, .s _ => .ok ()
  | .n, .n _ => .ok ()
  | .b, .b _ => .ok ()
  | _, _ => .error (.invalidKeyType attrName expected.asStr value.typeDescriptor)

def requireAttr (attrName : String) (item : Item) : Except StorageError AttributeValue :=
  match item.lookup attrName with
  | some value => .ok value
  | none => .error (.missingKeyAttribute attrName)

def extractPrimaryKey (keySchema : KeySchema) (item : Item) : Except StorageError PrimaryKey := do
  let pkValue ← requireAttr keySchema.partitionKey.name item
  validateKeyType keySchema.partitionKey.name keySchema.partitionKey.attrType pkValue
  match keySchema.sortKey with
  | some skDef =>
    let skValue ← requireAttr skDef.name item
    validateKeyType skDef.name skDef.attrType skValue
    let sortKey ← SortableAttributeValue.fromAttributeValue skDef.name skValue
    return { partitionKey := pkValue, sortKey := some sortKey }
  | none => return { partitionKey := pkValue, sortKey := none }

/-- The names of the key attributes. -/
def KeySchema.attrNames (keySchema : KeySchema) : List String :=
  keySchema.partitionKey.name :: (keySchema.sortKey.map KeyAttribute.name).toList

/-- The key of an item depends on its key attributes only. -/
theorem extractPrimaryKey_congr {keySchema : KeySchema} {x y : Item}
    (h : ∀ name ∈ keySchema.attrNames, y.lookup name = x.lookup name) :
    extractPrimaryKey keySchema y = extractPrimaryKey keySchema x := by
  have hpk := h keySchema.partitionKey.name (.head _)
  unfold extractPrimaryKey requireAttr
  rw [hpk]
  cases hsk : keySchema.sortKey with
  | none => rfl
  | some skDef =>
      have hname := h skDef.name (by simp [KeySchema.attrNames, hsk])
      simp only [hname]

theorem requireAttr_eq_ok {attrName : String} {item : Item} {value : AttributeValue} :
    requireAttr attrName item = .ok value ↔ item.lookup attrName = some value := by
  unfold requireAttr
  cases item.lookup attrName <;> simp

theorem lookup_of_extractPrimaryKey {keySchema : KeySchema} {x : Item} {key : PrimaryKey}
    (h : extractPrimaryKey keySchema x = .ok key) :
    ∀ name ∈ keySchema.attrNames, ∃ v, x.lookup name = some v := by
  intro name hname
  obtain ⟨pk, hpk, h⟩ := Except.bind_eq_ok.mp h
  obtain ⟨_, -, h⟩ := Except.bind_eq_ok.mp h
  rcases List.mem_cons.mp hname with rfl | hsort
  · exact ⟨pk, requireAttr_eq_ok.mp hpk⟩
  · cases hsk : keySchema.sortKey with
    | none => simp [hsk] at hsort
    | some skDef =>
        obtain rfl : name = skDef.name := by simpa [hsk] using hsort
        simp only [hsk] at h
        obtain ⟨sk, hskValue, -⟩ := Except.bind_eq_ok.mp h
        exact ⟨sk, requireAttr_eq_ok.mp hskValue⟩

/-! ## The store -/

abbrev Partition := SortedMap SortableAttributeValue Item SortableAttributeValue.cmp

structure TableStorage where
  data : AList fun _ : AttributeValue => Partition
  keySchema : KeySchema
  itemCount : ℕ
  totalSize : ℕ

/-- DynamoDB caps a single Query or Scan response at 1 MB. -/
def maxResponseBytes : ℕ := 1048576

namespace TableStorage

def new (keySchema : KeySchema) : TableStorage :=
  { data := ∅, keySchema, itemCount := 0, totalSize := 0 }

def partition (t : TableStorage) (partitionKey : AttributeValue) : Partition :=
  (t.data.lookup partitionKey).getD .empty

/-- Commit an item under a key; also what it replaced. -/
def putPrepared (t : TableStorage) (key : PrimaryKey) (item : Item) :
    TableStorage × Option Item :=
  let partition := t.partition key.partitionKey
  let newSize := calculateItemSize item
  let data := t.data.insert key.partitionKey (partition.insert key.treeKey item)
  match partition.get? key.treeKey with
  | some old =>
    ({ t with data, totalSize := t.totalSize + newSize - calculateItemSize old }, some old)
  | none =>
    ({ t with data, itemCount := t.itemCount + 1, totalSize := t.totalSize + newSize }, none)

def putItem (t : TableStorage) (item : Item) :
    Except StorageError (TableStorage × Option Item) := do
  let primaryKey ← extractPrimaryKey t.keySchema item
  return t.putPrepared primaryKey item

def getItem (t : TableStorage) (key : PrimaryKey) : Option Item :=
  (t.partition key.partitionKey).get? key.treeKey

/-- Remove an item.  The partition stays, empty if need be. -/
def deleteItem (t : TableStorage) (key : PrimaryKey) : TableStorage × Option Item :=
  match t.data.lookup key.partitionKey with
  | none => (t, none)
  | some partition =>
    match partition.get? key.treeKey with
    | none => (t, none)
    | some removed =>
      ({ t with
          data := t.data.insert key.partitionKey (partition.erase key.treeKey)
          itemCount := t.itemCount - 1
          totalSize := t.totalSize - calculateItemSize removed }, some removed)

end TableStorage

/-! ## Query -/

/-- Items between two bounds in the direction of the walk, or the panic of `range`. -/
def walkRange (partition : Partition) (low high : Bound SortableAttributeValue)
    (scanForward : Bool) : Option (List (SortableAttributeValue × Item)) :=
  (partition.range low high).map fun entries => if scanForward then entries else entries.reverse

def collectAllInOrder (partition : Partition) (scanForward : Bool)
    (exclusiveStartKey : Option SortableAttributeValue) : Option (List Item) :=
  let walk := match scanForward, exclusiveStartKey with
    | true, some start => walkRange partition (.excluded start) .unbounded true
    | false, some start => walkRange partition .unbounded (.excluded start) false
    | forward, none => some (if forward then partition.entries else partition.entries.reverse)
  walk.map (·.map Prod.snd)

/-- The start key takes over the bound it walks away from if it is within bounds. -/
def collectRange (partition : Partition) (low high : Bound SortableAttributeValue)
    (scanForward : Bool) (exclusiveStartKey : Option SortableAttributeValue) :
    Option (List Item) :=
  let walk :=
    if scanForward then
      let effectiveLow := match exclusiveStartKey with
        | some start =>
          match low with
          | .unbounded => .excluded start
          | .included l | .excluded l =>
            if SortableAttributeValue.cmp start l != .lt then .excluded start else low
        | none => low
      walkRange partition effectiveLow high true
    else
      let effectiveHigh := match exclusiveStartKey with
        | some start =>
          match high with
          | .unbounded => .excluded start
          | .included u | .excluded u =>
            if SortableAttributeValue.cmp start u != .gt then .excluded start else high
        | none => high
      walkRange partition low effectiveHigh false
  walk.map (·.map Prod.snd)

/-- The least string above every extension of `pre`, or what lossy decoding makes of it. -/
def computeStrPrefixUpperBound (pre : String) : Option SortableAttributeValue :=
  let bytes := (asBytes pre).rdropWhile (· = 0xFF)
  if bytes.isEmpty then none
  else some (.s (String.ofList (Utf8.decodeLossy (Utf8.incrementLast bytes))))

def computeBytesPrefixUpperBound (pre : List UInt8) : Option SortableAttributeValue :=
  let bytes := pre.rdropWhile (· = 0xFF)
  if bytes.isEmpty then none else some (.b (Utf8.incrementLast bytes))

/-- The walk of both prefix conditions: from the prefix to its upper bound, or the start
key in place of the end it walks away from, and every key tested once more. -/
def collectBeginsWith (partition : Partition) (start : SortableAttributeValue)
    (upper : Option SortableAttributeValue) (hasPrefix : SortableAttributeValue → Bool)
    (scanForward : Bool) (exclusiveStartKey : Option SortableAttributeValue) :
    Option (List Item) :=
  let low := match exclusiveStartKey with
    | some esk =>
      if scanForward && SortableAttributeValue.cmp esk start != .lt then .excluded esk
      else .included start
    | none => .included start
  let high := match upper with
    | some ub =>
      match exclusiveStartKey with
      | some esk =>
        if !scanForward && SortableAttributeValue.cmp esk ub != .gt then .excluded esk
        else .excluded ub
      | none => .excluded ub
    | none =>
      match exclusiveStartKey with
      | some esk => if !scanForward then .excluded esk else .unbounded
      | none => .unbounded
  (walkRange partition low high scanForward).map fun entries =>
    (entries.filter fun e => hasPrefix e.1).map Prod.snd

def collectBeginsWithStr (partition : Partition) (pre : String) (scanForward : Bool)
    (exclusiveStartKey : Option SortableAttributeValue) : Option (List Item) :=
  collectBeginsWith partition (.s pre) (computeStrPrefixUpperBound pre)
    (fun key => match key with
      | .s text => startsWith text pre
      | _ => false)
    scanForward exclusiveStartKey

def collectBeginsWithBytes (partition : Partition) (pre : List UInt8) (scanForward : Bool)
    (exclusiveStartKey : Option SortableAttributeValue) : Option (List Item) :=
  collectBeginsWith partition (.b pre) (computeBytesPrefixUpperBound pre)
    (fun key => match key with
      | .b bytes => pre.isPrefixOf bytes
      | _ => false)
    scanForward exclusiveStartKey

def collectWithCondition (partition : Partition) (condition : SortKeyCondition)
    (scanForward : Bool) (exclusiveStartKey : Option SortableAttributeValue) :
    Option (List Item) :=
  match condition with
  | .eq val => some (partition.get? val).toList
  | .lt val =>
    collectRange partition .unbounded (.excluded val) scanForward exclusiveStartKey
  | .le val =>
    collectRange partition .unbounded (.included val) scanForward exclusiveStartKey
  | .gt val =>
    collectRange partition (.excluded val) .unbounded scanForward exclusiveStartKey
  | .ge val =>
    collectRange partition (.included val) .unbounded scanForward exclusiveStartKey
  | .between low high =>
    collectRange partition (.included low) (.included high) scanForward exclusiveStartKey
  | .beginsWithStr pre => collectBeginsWithStr partition pre scanForward exclusiveStartKey
  | .beginsWithBytes pre => collectBeginsWithBytes partition pre scanForward exclusiveStartKey

def collectMatchingItems (partition : Partition) (sortCondition : Option SortKeyCondition)
    (scanForward : Bool) (exclusiveStartKey : Option SortableAttributeValue) :
    Option (List Item) :=
  match sortCondition with
  | none => collectAllInOrder partition scanForward exclusiveStartKey
  | some condition => collectWithCondition partition condition scanForward exclusiveStartKey

/-- The key of the last item on a page that was cut short. -/
def buildLastEvaluatedKey (items : List Item) (partitionKey : AttributeValue)
    (keySchema : KeySchema) : Option PrimaryKey := do
  let lastItem ← items.getLast?
  let sortKey := do
    let skDef ← keySchema.sortKey
    let value ← lastItem.lookup skDef.name
    (SortableAttributeValue.fromAttributeValue skDef.name value).toOption
  return { partitionKey, sortKey }

namespace TableStorage

/-- Query one partition; `none` is a panic. -/
def query (t : TableStorage) (partitionKey : AttributeValue)
    (sortCondition : Option SortKeyCondition) (scanForward : Bool) (limit : Option ℕ)
    (exclusiveStartKey : Option SortableAttributeValue) :
    Option (List Item × Option PrimaryKey) :=
  match t.data.lookup partitionKey with
  | none => some ([], none)
  | some partition => do
    let allItems ← collectMatchingItems partition sortCondition scanForward exclusiveStartKey
    let (selected, hasMore) := Paging.page calculateItemSize maxResponseBytes limit allItems
    let lastKey :=
      if hasMore then buildLastEvaluatedKey selected partitionKey t.keySchema else none
    return (selected, lastKey)

end TableStorage

/-! ## Scan -/

/-- One stored item with the two keys it is filed under. -/
structure StoredEntry where
  partitionKey : AttributeValue
  sortKey : SortableAttributeValue
  item : Item
  deriving DecidableEq

def StoredEntry.size (entry : StoredEntry) : ℕ := calculateItemSize entry.item

/-- The segment a partition key belongs to; `hash` is the hasher of the platform. -/
def partitionKeySegment (hash : String → ℕ) (partitionKey : AttributeValue)
    (totalSegments : ℕ) : ℕ :=
  hash partitionKey.display % totalSegments

namespace TableStorage

/-- All partitions, sorted by the display text of their key; a stable sort, so keys with
the same text stay in iteration order. -/
def partitionEntries (t : TableStorage) : List (Sigma fun _ : AttributeValue => Partition) :=
  t.data.entries.insertionSort fun x y =>
    Utf8.compareBytes (asBytes x.1.display) (asBytes y.1.display) ≠ .gt

def entriesOf (partition : Sigma fun _ : AttributeValue => Partition) : List StoredEntry :=
  partition.2.entries.map fun e => { partitionKey := partition.1, sortKey := e.1, item := e.2 }

/-- Without a segment and a total there is no filter. -/
def inSegment (hash : String → ℕ) (segment totalSegments : Option ℕ)
    (partitionKey : AttributeValue) : Bool :=
  match segment, totalSegments with
  | some seg, some total => partitionKeySegment hash partitionKey total == seg
  | _, _ => true

/-- Everything a scan of a segment goes through, in order. -/
def allItems (hash : String → ℕ) (t : TableStorage) (segment totalSegments : Option ℕ) :
    List StoredEntry :=
  (t.partitionEntries.filter fun p => inSegment hash segment totalSegments p.1).flatMap entriesOf

/-- The entry is the one a start key names. -/
def isStart (startKey : PrimaryKey) (entry : StoredEntry) : Bool :=
  entry.partitionKey == startKey.partitionKey &&
    SortableAttributeValue.cmp entry.sortKey startKey.treeKey == .eq

def startIndex (items : List StoredEntry) (exclusiveStartKey : Option PrimaryKey) : ℕ :=
  match exclusiveStartKey with
  | some startKey =>
    match items.findIdx? (isStart startKey) with
    | some idx => idx + 1
    | none => 0
  | none => 0

def lastKeyOf (keySchema : KeySchema) (entry : StoredEntry) : PrimaryKey :=
  { partitionKey := entry.partitionKey
    sortKey := entry.sortKey.toAttributeValue.map fun value =>
      let attrName := (keySchema.sortKey.map KeyAttribute.name).getD ""
      match SortableAttributeValue.fromAttributeValue attrName value with
      | .ok key => key
      | .error _ => .sentinel }

def scan (hash : String → ℕ) (t : TableStorage) (limit : Option ℕ)
    (exclusiveStartKey : Option PrimaryKey) (segment totalSegments : Option ℕ) :
    List Item × Option PrimaryKey :=
  let items := t.allItems hash segment totalSegments
  let startIdx := startIndex items exclusiveStartKey
  let (selected, hasMore) :=
    Paging.page StoredEntry.size maxResponseBytes limit (items.drop startIdx)
  let lastKey := if hasMore then selected.getLast?.map (lastKeyOf t.keySchema) else none
  (selected.map StoredEntry.item, lastKey)

end TableStorage

end Rustack.DynamoDB
