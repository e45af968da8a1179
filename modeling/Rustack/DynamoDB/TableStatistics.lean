import Rustack.DynamoDB.StorageInvariant

/-!
# The statistics of a table

Next to its items a table keeps two counters, and every write moves them by a few atomic steps.
The steps of a replacement add the new size before they take the old one away.  After any writes,
under the keys of the items or under others, the counters are what counting the items gives, and
no step takes away more than there is.
-/

namespace Rustack.DynamoDB

/-- The counters of a table, as numbers or as machine words. -/
structure Counters (α : Type) where
  itemCount : α
  totalSize : α
  deriving DecidableEq

/-- One atomic step, `fetch_add` or `fetch_sub` of one of the counters. -/
inductive CounterStep where
  | addCount (n : ℕ)
  | subCount (n : ℕ)
  | addSize (n : ℕ)
  | subSize (n : ℕ)
  deriving DecidableEq

namespace Counters

def map {α β : Type} (f : α → β) (c : Counters α) : Counters β := ⟨f c.itemCount, f c.totalSize⟩

/-- A step on numbers, which have nothing below zero. -/
def exactStep (c : Counters ℕ) : CounterStep → Option (Counters ℕ)
  | .addCount n => some { c with itemCount := c.itemCount + n }
  | .subCount n => if n ≤ c.itemCount then some { c with itemCount := c.itemCount - n } else none
  | .addSize n => some { c with totalSize := c.totalSize + n }
  | .subSize n => if n ≤ c.totalSize then some { c with totalSize := c.totalSize - n } else none

/-- A step on words of 64 bits, which wrap. -/
def wrappingStep (c : Counters UInt64) : CounterStep → Counters UInt64
  | .addCount n => { c with itemCount := c.itemCount + .ofNat n }
  | .subCount n => { c with itemCount := c.itemCount - .ofNat n }
  | .addSize n => { c with totalSize := c.totalSize + .ofNat n }
  | .subSize n => { c with totalSize := c.totalSize - .ofNat n }

/-- A step that does not go below zero is the step on words. -/
theorem wrappingStep_of_exactStep {c c' : Counters ℕ} {step : CounterStep}
    (h : c.exactStep step = some c') :
    (c.map UInt64.ofNat).wrappingStep step = c'.map UInt64.ofNat := by
  cases step with
  | addCount | addSize =>
      cases h
      simp only [map, wrappingStep, UInt64.ofNat_add]
  | subCount | subSize =>
      obtain ⟨hle, heq⟩ := Option.ite_none_right_eq_some.mp h
      cases heq
      simp only [map, wrappingStep, UInt64.ofNat_sub hle]

theorem foldl_wrappingStep {steps : List CounterStep} {c c' : Counters ℕ}
    (h : steps.foldlM exactStep c = some c') :
    steps.foldl wrappingStep (c.map UInt64.ofNat) = c'.map UInt64.ofNat := by
  induction steps generalizing c with
  | nil =>
      cases h
      rfl
  | cons step steps ih =>
      rw [List.foldlM_cons] at h
      obtain ⟨next, hnext, hrest⟩ := Option.bind_eq_some_iff.mp h
      rw [List.foldl_cons, wrappingStep_of_exactStep hnext]
      exact ih hrest

end Counters

namespace TableStorage

def counters (t : TableStorage) : Counters ℕ := ⟨t.itemCount, t.totalSize⟩

/-- A write of the store.  A prepared item comes with a key that nothing here ties to it. -/
inductive Write where
  | putItem (item : Item)
  | putPrepared (key : PrimaryKey) (item : Item)
  | deleteItem (key : PrimaryKey)

/-- The steps of a put, in the order of the code. -/
def putSteps (t : TableStorage) (key : PrimaryKey) (item : Item) : List CounterStep :=
  match t.getItem key with
  | some old => [.addSize (calculateItemSize item), .subSize (calculateItemSize old)]
  | none => [.addCount 1, .addSize (calculateItemSize item)]

def deleteSteps (t : TableStorage) (key : PrimaryKey) : List CounterStep :=
  match t.getItem key with
  | some removed => [.subCount 1, .subSize (calculateItemSize removed)]
  | none => []

/-- The table after a write; an item without its key is refused. -/
def write (t : TableStorage) : Write → TableStorage
  | .putItem item =>
    match t.putItem item with
    | .ok (t', _) => t'
    | .error _ => t
  | .putPrepared key item => (t.putPrepared key item).1
  | .deleteItem key => (t.deleteItem key).1

def writeSteps (t : TableStorage) : Write → List CounterStep
  | .putItem item =>
    match extractPrimaryKey t.keySchema item with
    | .ok key => t.putSteps key item
    | .error _ => []
  | .putPrepared key item => t.putSteps key item
  | .deleteItem key => t.deleteSteps key

def run (keySchema : KeySchema) (writes : List Write) : TableStorage :=
  writes.foldl write (new keySchema)

/-- The words that the steps of all writes leave, from a table and its words on. -/
def wordsAfter : TableStorage → Counters UInt64 → List Write → Counters UInt64
  | _, words, [] => words
  | t, words, w :: writes =>
    wordsAfter (t.write w) ((t.writeSteps w).foldl Counters.wrappingStep words) writes

variable {t : TableStorage}

theorem le_totalWeight_of_getItem {key : PrimaryKey} {old : Item} (weight : Item → ℕ)
    (h : t.getItem key = some old) : weight old ≤ t.totalWeight weight := by
  have hdelete := totalWeight_deleteItem weight t key
  rw [h, Option.map_some, Option.getD_some] at hdelete
  omega

/-- No step of a put goes below zero, and the steps together lead where the put leads. -/
theorem Counted.putSteps (h : t.Counted) (key : PrimaryKey) (item : Item) :
    (t.putSteps key item).foldlM Counters.exactStep t.counters =
      some (t.putPrepared key item).1.counters := by
  have hcount := putPrepared_itemCount t key item
  have hsize := putPrepared_totalSize t key item
  cases hget : t.getItem key with
  | none =>
      rw [hget, Option.map_none, Option.getD_none] at hcount hsize
      have hcounters : (t.putPrepared key item).1.counters =
          ⟨t.itemCount + 1, t.totalSize + calculateItemSize item⟩ := by
        rw [counters, hsize]
        exact congrArg (Counters.mk · _) hcount
      simp only [TableStorage.putSteps, hget]
      exact congrArg some hcounters.symm
  | some old =>
      rw [hget, Option.map_some, Option.getD_some] at hcount hsize
      have hle := le_totalWeight_of_getItem calculateItemSize hget
      rw [← h.totalSize] at hle
      have hcounters : (t.putPrepared key item).1.counters =
          ⟨t.itemCount, t.totalSize + calculateItemSize item - calculateItemSize old⟩ := by
        rw [counters, hsize, Nat.add_right_cancel hcount]
      have hsub : calculateItemSize old ≤ t.totalSize + calculateItemSize item :=
        hle.trans (Nat.le_add_right _ _)
      simp only [TableStorage.putSteps, hget, hcounters]
      simp [Counters.exactStep, counters, hsub]

theorem Counted.deleteSteps (h : t.Counted) (key : PrimaryKey) :
    (t.deleteSteps key).foldlM Counters.exactStep t.counters =
      some (t.deleteItem key).1.counters := by
  cases hget : t.getItem key with
  | none =>
      rw [deleteItem_of_none hget]
      simp only [TableStorage.deleteSteps, hget]
      rfl
  | some old =>
      have hone : 1 ≤ t.itemCount := by
        rw [h.itemCount]
        exact le_totalWeight_of_getItem (fun _ => 1) hget
      have hsize : calculateItemSize old ≤ t.totalSize := by
        rw [h.totalSize]
        exact le_totalWeight_of_getItem calculateItemSize hget
      rw [deleteItem_of_some hget]
      simp only [TableStorage.deleteSteps, hget]
      simp [Counters.exactStep, counters, hone, hsize]

/-- One write. -/
theorem Counted.write (h : t.Counted) (w : Write) : (t.write w).Counted ∧
    (t.writeSteps w).foldlM Counters.exactStep t.counters = some (t.write w).counters := by
  cases w with
  | putItem item =>
      cases hkey : extractPrimaryKey t.keySchema item with
      | ok key =>
          have hput : t.putItem item = .ok (t.putPrepared key item) := by
            rw [TableStorage.putItem, hkey]
            rfl
          simp only [TableStorage.write, writeSteps, hput, hkey]
          exact ⟨h.putPrepared key item, h.putSteps key item⟩
      | error e =>
          have hput : t.putItem item = .error e := by
            rw [TableStorage.putItem, hkey]
            rfl
          simp only [TableStorage.write, writeSteps, hput, hkey]
          exact ⟨h, rfl⟩
  | putPrepared key item => exact ⟨h.putPrepared key item, h.putSteps key item⟩
  | deleteItem key => exact ⟨h.deleteItem key, h.deleteSteps key⟩

theorem Counted.foldl_write (h : t.Counted) (writes : List Write) :
    (writes.foldl TableStorage.write t).Counted := by
  induction writes generalizing t with
  | nil => exact h
  | cons w writes ih => exact ih (h.write w).1

theorem Counted.wordsAfter (h : t.Counted) (writes : List Write) :
    wordsAfter t (t.counters.map UInt64.ofNat) writes =
      (writes.foldl TableStorage.write t).counters.map UInt64.ofNat := by
  induction writes generalizing t with
  | nil => rfl
  | cons w writes ih =>
      obtain ⟨hcounted, hsteps⟩ := h.write w
      rw [TableStorage.wordsAfter, Counters.foldl_wrappingStep hsteps]
      exact ih hcounted

/-- After any writes the counters are those of the stored items, as numbers and as words, and no
step of another write takes away more than there is. -/
theorem statistics_exact (keySchema : KeySchema) (writes : List Write) :
    (run keySchema writes).itemCount = (run keySchema writes).storedEntries.length ∧
    (run keySchema writes).totalSize =
      ((run keySchema writes).storedEntries.map StoredEntry.size).sum ∧
    wordsAfter (new keySchema) ⟨0, 0⟩ writes =
      ⟨.ofNat (run keySchema writes).storedEntries.length,
        .ofNat ((run keySchema writes).storedEntries.map StoredEntry.size).sum⟩ ∧
    ∀ w, ((run keySchema writes).writeSteps w).foldlM Counters.exactStep
        (run keySchema writes).counters = some ((run keySchema writes).write w).counters := by
  have hcounted : (run keySchema writes).Counted := (counted_new keySchema).foldl_write writes
  obtain ⟨hcount, hsize⟩ := counted_iff.mp hcounted
  refine ⟨hcount, hsize, ?_, fun w => (hcounted.write w).2⟩
  rw [← hcount, ← hsize]
  exact (counted_new keySchema).wordsAfter writes

end TableStorage

end Rustack.DynamoDB
