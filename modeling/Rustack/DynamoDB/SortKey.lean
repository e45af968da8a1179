import Rustack.DynamoDB.AttributeValue
import Rustack.DynamoDB.Number

/-!
# Sort keys

The values a partition is ordered by, their order, and the conditions a query
can put on them.  A table without a sort key files its items under a sentinel.
-/

namespace Rustack.DynamoDB

inductive SortableAttributeValue where
  | s (value : String)
  | n (value : String)
  | b (value : List UInt8)
  | sentinel
  deriving DecidableEq

inductive StorageError where
  | missingKeyAttribute (attr : String)
  | invalidKeyType (attr expected actual : String)
  deriving DecidableEq

def StorageError.message : StorageError → String
  | .missingKeyAttribute attr => "missing required key attribute: " ++ attr
  | .invalidKeyType attr expected actual =>
    "key attribute '" ++ attr ++ "' has wrong type: expected " ++ expected ++ ", got " ++ actual

namespace SortableAttributeValue

def toAttributeValue : SortableAttributeValue → Option AttributeValue
  | .s v => some (.s v)
  | .n v => some (.n v)
  | .b v => some (.b v)
  | .sentinel => none

def fromAttributeValue (attrName : String) :
    AttributeValue → Except StorageError SortableAttributeValue
  | .s v => .ok (.s v)
  | .n v => .ok (.n v)
  | .b v => .ok (.b v)
  | other => .error (.invalidKeyType attrName "S, N, or B" other.typeDescriptor)

/-- Strings and binaries by bytes, numbers by value, and the types in this order
where they meet. -/
def cmp : SortableAttributeValue → SortableAttributeValue → Ordering
  | .s x, .s y => Utf8.compareBytes (asBytes x) (asBytes y)
  | .n x, .n y => compareNumberStrings x y
  | .b x, .b y => Utf8.compareBytes x y
  | .sentinel, .sentinel => .eq
  | .s _, _ => .lt
  | _, .s _ => .gt
  | .n _, _ => .lt
  | _, .n _ => .gt
  | .b _, _ => .lt
  | _, .b _ => .gt

theorem cmp_swap (x y : SortableAttributeValue) : cmp x y = (cmp y x).swap := by
  cases x <;> cases y <;> simp only [cmp, Ordering.swap_lt, Ordering.swap_gt, Ordering.swap_eq]
  · exact @Std.OrientedCmp.eq_swap _ Utf8.compareBytes _ _ _
  · exact @Std.OrientedCmp.eq_swap _ compareNumberStrings _ _ _
  · exact @Std.OrientedCmp.eq_swap _ Utf8.compareBytes _ _ _

theorem cmp_isLE_trans {x y z : SortableAttributeValue} (hxy : (cmp x y).isLE = true)
    (hyz : (cmp y z).isLE = true) : (cmp x z).isLE = true := by
  cases x <;> cases y <;> cases z <;>
    simp only [cmp, Ordering.isLE_gt, Ordering.isLE_lt, Ordering.isLE_eq, Bool.false_eq_true]
      at hxy hyz ⊢
  · exact @Std.TransCmp.isLE_trans _ Utf8.compareBytes _ _ _ _ hxy hyz
  · exact @Std.TransCmp.isLE_trans _ compareNumberStrings _ _ _ _ hxy hyz
  · exact @Std.TransCmp.isLE_trans _ Utf8.compareBytes _ _ _ _ hxy hyz

instance : Std.TransCmp cmp where
  eq_swap := fun {x y} => cmp_swap x y
  isLE_trans := cmp_isLE_trans

/-! The comparison as an order.  It is total but not antisymmetric: two spellings of a
number are equal keys. -/

instance : LE SortableAttributeValue := ⟨fun x y => (cmp x y).isLE = true⟩

instance : LT SortableAttributeValue := ⟨fun x y => cmp x y = .lt⟩

instance : Std.IsLinearPreorder SortableAttributeValue where
  le_refl _ := Std.ReflCmp.isLE_rfl
  le_trans _ _ _ := cmp_isLE_trans
  le_total x y := by
    change (cmp x y).isLE = true ∨ (cmp y x).isLE = true
    rw [cmp_swap y x]
    cases cmp x y <;> simp

instance : Std.LawfulOrderLT SortableAttributeValue where
  lt_iff x y := by
    change cmp x y = .lt ↔ (cmp x y).isLE = true ∧ ¬ (cmp y x).isLE = true
    rw [cmp_swap y x]
    cases cmp x y <;> simp

@[simp, grind =] theorem cmp_eq_lt {x y : SortableAttributeValue} : cmp x y = .lt ↔ x < y :=
  Iff.rfl

@[simp, grind =] theorem cmp_eq_gt {x y : SortableAttributeValue} : cmp x y = .gt ↔ y < x :=
  Std.OrientedCmp.gt_iff_lt

theorem cmp_ne_gt {x y : SortableAttributeValue} : cmp x y ≠ .gt ↔ x ≤ y := by
  change _ ↔ (cmp x y).isLE = true
  cases cmp x y <;> simp

theorem cmp_ne_lt {x y : SortableAttributeValue} : cmp x y ≠ .lt ↔ y ≤ x := by
  change _ ↔ (cmp y x).isLE = true
  rw [cmp_swap y x]
  cases cmp x y <;> simp

@[simp, grind =] theorem cmp_eq_eq {x y : SortableAttributeValue} :
    cmp x y = .eq ↔ x ≤ y ∧ y ≤ x := by
  change _ ↔ (cmp x y).isLE = true ∧ (cmp y x).isLE = true
  rw [cmp_swap y x]
  cases cmp x y <;> simp

/-- The order of string keys is the order of their characters. -/
theorem cmp_s (x y : String) : cmp (.s x) (.s y) = Utf8.compareChars x.toList y.toList :=
  Utf8.compareBytes_encode _ _

end SortableAttributeValue

/-! ## Conditions -/

inductive SortKeyCondition where
  | eq (value : SortableAttributeValue)
  | lt (value : SortableAttributeValue)
  | le (value : SortableAttributeValue)
  | gt (value : SortableAttributeValue)
  | ge (value : SortableAttributeValue)
  | between (low high : SortableAttributeValue)
  | beginsWithStr (pre : String)
  | beginsWithBytes (pre : List UInt8)
  deriving DecidableEq

def startsWith (text pre : String) : Bool := pre.toList.isPrefixOf text.toList

namespace SortKeyCondition

open SortableAttributeValue (cmp)

def matchesValue (condition : SortKeyCondition) (value : SortableAttributeValue) : Bool :=
  match condition with
  | .eq v => cmp value v == .eq
  | .lt v => cmp value v == .lt
  | .le v => cmp value v != .gt
  | .gt v => cmp value v == .gt
  | .ge v => cmp value v != .lt
  | .between low high => cmp value low != .lt && cmp value high != .gt
  | .beginsWithStr pre =>
    match value with
    | .s text => startsWith text pre
    | _ => false
  | .beginsWithBytes pre =>
    match value with
    | .b bytes => pre.isPrefixOf bytes
    | _ => false

end SortKeyCondition

end Rustack.DynamoDB
