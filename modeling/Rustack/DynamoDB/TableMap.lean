import Rustack.DynamoDB.StorageInvariant

/-!
# A table as a map

A table is a map of maps with two counters beside it.  Its answers show nothing of that: call by
call they are those of one map from slots to items.
-/

namespace Rustack.DynamoDB

inductive TableCall where
  | putItem (item : Item)
  | putPrepared (key : PrimaryKey) (item : Item)
  | getItem (key : PrimaryKey)
  | deleteItem (key : PrimaryKey)

/-- What a call returns: the item that was there, or an error. -/
abbrev TableAnswer := Except StorageError (Option Item)

/-- The answers to calls that are made one after another. -/
def answers {σ : Type} (step : σ → TableCall → σ × TableAnswer) : σ → List TableCall →
    List TableAnswer
  | _, [] => []
  | s, call :: calls => (step s call).2 :: answers step (step s call).1 calls

namespace TableStorage

def call (t : TableStorage) : TableCall → TableStorage × TableAnswer
  | .putItem item =>
    match t.putItem item with
    | .ok (t', old) => (t', .ok old)
    | .error e => (t, .error e)
  | .putPrepared key item => ((t.putPrepared key item).1, .ok (t.putPrepared key item).2)
  | .getItem key => (t, .ok (t.getItem key))
  | .deleteItem key => ((t.deleteItem key).1, .ok (t.deleteItem key).2)

end TableStorage

/-- One item at most in each slot. -/
abbrev SlotMap := PrimaryKey → Option Item

namespace SlotMap

def set (m : SlotMap) (key : PrimaryKey) (item : Option Item) : SlotMap := fun key' =>
  if key.sameSlot key' then item else m key'

def call (keySchema : KeySchema) (m : SlotMap) : TableCall → SlotMap × TableAnswer
  | .putItem item =>
    match extractPrimaryKey keySchema item with
    | .ok key => (m.set key (some item), .ok (m key))
    | .error e => (m, .error e)
  | .putPrepared key item => (m.set key (some item), .ok (m key))
  | .getItem key => (m, .ok (m key))
  | .deleteItem key => (m.set key none, .ok (m key))

end SlotMap

namespace TableStorage

/-- A table shows a map. -/
structure Shows (keySchema : KeySchema) (t : TableStorage) (m : SlotMap) : Prop where
  keySchema : t.keySchema = keySchema
  getItem : ∀ key, t.getItem key = m key

variable {keySchema : KeySchema} {t : TableStorage} {m : SlotMap}

theorem Shows.putPrepared (h : Shows keySchema t m) (key : PrimaryKey) (item : Item) :
    Shows keySchema (t.putPrepared key item).1 (m.set key (some item)) where
  keySchema := (putPrepared_keySchema t key item).trans h.keySchema
  getItem key' := by rw [getItem_putPrepared, SlotMap.set, h.getItem]

theorem Shows.deleteItem (h : Shows keySchema t m) (key : PrimaryKey) :
    Shows keySchema (t.deleteItem key).1 (m.set key none) where
  keySchema := (deleteItem_keySchema t key).trans h.keySchema
  getItem key' := by rw [getItem_deleteItem, SlotMap.set, h.getItem]

theorem Shows.call (h : Shows keySchema t m) (c : TableCall) :
    Shows keySchema (t.call c).1 (SlotMap.call keySchema m c).1 ∧
      (t.call c).2 = (SlotMap.call keySchema m c).2 := by
  cases c with
  | putItem item =>
      rw [TableStorage.call, SlotMap.call, putItem, h.keySchema]
      cases extractPrimaryKey keySchema item with
      | error e => exact ⟨h, rfl⟩
      | ok key =>
          refine ⟨h.putPrepared key item, congrArg Except.ok ?_⟩
          exact (putPrepared_snd t key item).trans (h.getItem key)
  | putPrepared key item =>
      refine ⟨h.putPrepared key item, congrArg Except.ok ?_⟩
      exact (putPrepared_snd t key item).trans (h.getItem key)
  | getItem key => exact ⟨h, congrArg Except.ok (h.getItem key)⟩
  | deleteItem key =>
      exact ⟨h.deleteItem key, congrArg Except.ok ((deleteItem_snd t key).trans (h.getItem key))⟩

theorem Shows.answers (h : Shows keySchema t m) (calls : List TableCall) :
    answers TableStorage.call t calls = answers (SlotMap.call keySchema) m calls := by
  induction calls generalizing t m with
  | nil => rfl
  | cons c calls ih =>
      obtain ⟨hnext, hsame⟩ := h.call c
      rw [DynamoDB.answers, DynamoDB.answers, hsame, ih hnext]

/-- A new table answers any calls as the empty map does. -/
theorem answers_refine (keySchema : KeySchema) (calls : List TableCall) :
    answers TableStorage.call (new keySchema) calls =
      answers (SlotMap.call keySchema) (fun _ => none) calls :=
  Shows.answers ⟨rfl, getItem_new keySchema⟩ calls

end TableStorage

end Rustack.DynamoDB
