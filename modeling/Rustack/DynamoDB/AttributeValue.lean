import Mathlib.Algebra.Order.Ring.Int
import Rustack.Lib.Utf8

/-!
# Attribute values and items

The tagged union every request and every stored item is made of.  Maps are
association lists kept sorted by key, so two maps are equal when the lists
are.  Numbers stay the strings they arrived as.
-/

namespace Rustack.DynamoDB

open List

inductive AttributeValue where
  | s (value : String)
  | n (value : String)
  | b (value : List UInt8)
  | ss (values : List String)
  | ns (values : List String)
  | bs (values : List (List UInt8))
  | bool (value : Bool)
  | null (value : Bool)
  | l (values : List AttributeValue)
  | m (entries : List (String × AttributeValue))
  deriving Inhabited

/-- The attributes of one item by name. -/
abbrev Item := List (String × AttributeValue)

/-- UTF-8 bytes of a string. -/
def asBytes (text : String) : List UInt8 := Utf8.encode text.toList

/-- Length in bytes, as Rust's `len`. -/
def byteLen (text : String) : ℕ := text.utf8ByteSize

/-- Insert into a map sorted by key, replacing the value of a key that is there. -/
def insertAttr {α : Type} (name : String) (value : α) : List (String × α) → List (String × α)
  | [] => [(name, value)]
  | e :: es =>
    if e.1 = name then (name, value) :: es
    else if name < e.1 then (name, value) :: e :: es
    else e :: insertAttr name value es

def removeAttr {α : Type} (name : String) (entries : List (String × α)) : List (String × α) :=
  entries.filter fun e => e.1 != name

theorem lookup_cons_ite {α : Type} (probe key : String) (value : α) (es : List (String × α)) :
    ((key, value) :: es).lookup probe = if probe = key then some value else es.lookup probe := by
  by_cases h : probe = key
  · simp [h]
  · have hne : (probe == key) = false := by simpa using h
    simp [lookup_cons, hne, h]

theorem lookup_insertAttr {α : Type} (name probe : String) (value : α)
    (es : List (String × α)) :
    (insertAttr name value es).lookup probe =
      if probe = name then some value else es.lookup probe := by
  induction es with
  | nil => simp [insertAttr, lookup_cons_ite]
  | cons e es ih =>
      obtain ⟨key, old⟩ := e
      unfold insertAttr
      simp only
      split_ifs with hkey hlt h h
      all_goals simp_all [lookup_cons_ite]
      rintro rfl
      exact absurd rfl hkey

theorem mem_insertAttr {α : Type} {name : String} {value : α} {e : String × α}
    {es : List (String × α)} (h : e ∈ insertAttr name value es) : e = (name, value) ∨ e ∈ es := by
  induction es with
  | nil => exact .inl (mem_singleton.mp h)
  | cons x es ih =>
      unfold insertAttr at h
      split_ifs at h
      · rcases mem_cons.mp h with heq | hmem
        · exact .inl heq
        · exact .inr (.tail _ hmem)
      · rcases mem_cons.mp h with heq | hmem
        · exact .inl heq
        · exact .inr hmem
      · rcases mem_cons.mp h with heq | hmem
        · exact .inr (heq ▸ mem_cons_self)
        · exact (ih hmem).imp id (mem_cons_of_mem _)

theorem mem_of_lookup {α : Type} {name : String} {value : α} {es : List (String × α)}
    (h : es.lookup name = some value) : (name, value) ∈ es := by
  obtain ⟨pre, post, rfl, -⟩ := lookup_eq_some_iff.mp h
  exact mem_append_right pre (.head _)

theorem lookup_removeAttr {α : Type} (name probe : String) (es : List (String × α)) :
    (removeAttr name es).lookup probe = if probe = name then none else es.lookup probe := by
  induction es with
  | nil => simp [removeAttr]
  | cons e es ih =>
      obtain ⟨key, old⟩ := e
      simp only [removeAttr] at ih ⊢
      by_cases hkey : key = name
      · subst hkey
        simp only [filter_cons, bne_self_eq_false, Bool.false_eq_true, if_false, ih,
          lookup_cons_ite]
        split_ifs <;> rfl
      · have hne : (key != name) = true := by simpa using hkey
        simp only [filter_cons, hne, if_true, lookup_cons_ite, ih]
        split_ifs with h₁ h₂ <;> first | rfl | exact absurd (h₁.symm.trans h₂) hkey

namespace AttributeValue

/-! ## Decidable equality -/

mutual

def same : AttributeValue → AttributeValue → Bool
  | .s x, .s y => x == y
  | .n x, .n y => x == y
  | .b x, .b y => x == y
  | .ss xs, .ss ys => xs == ys
  | .ns xs, .ns ys => xs == ys
  | .bs xs, .bs ys => xs == ys
  | .bool x, .bool y => x == y
  | .null x, .null y => x == y
  | .l xs, .l ys => sameList xs ys
  | .m xs, .m ys => sameEntries xs ys
  | _, _ => false

def sameList : List AttributeValue → List AttributeValue → Bool
  | [], [] => true
  | x :: xs, y :: ys => same x y && sameList xs ys
  | _, _ => false

def sameEntries : List (String × AttributeValue) → List (String × AttributeValue) → Bool
  | [], [] => true
  | (j, x) :: xs, (k, y) :: ys => j == k && same x y && sameEntries xs ys
  | _, _ => false

end

mutual

theorem same_iff : ∀ x y : AttributeValue, same x y = true ↔ x = y
  | .l xs, y => by cases y <;> simp [same, sameList_iff xs]
  | .m xs, y => by cases y <;> simp [same, sameEntries_iff xs]
  | .s x, y | .n x, y | .b x, y | .ss x, y | .ns x, y | .bs x, y | .bool x, y | .null x, y => by
      cases y <;> simp [same]

theorem sameList_iff : ∀ xs ys : List AttributeValue, sameList xs ys = true ↔ xs = ys
  | [], ys => by cases ys <;> simp [sameList]
  | x :: xs, ys => by cases ys <;> simp [sameList, same_iff x, sameList_iff xs]

theorem sameEntries_iff :
    ∀ xs ys : List (String × AttributeValue), sameEntries xs ys = true ↔ xs = ys
  | [], ys => by cases ys <;> simp [sameEntries]
  | (j, x) :: xs, ys => by
      rcases ys with _ | ⟨⟨k, y⟩, ys⟩ <;>
        simp [sameEntries, same_iff x, sameEntries_iff xs, and_assoc]

end

instance : DecidableEq AttributeValue := fun x y => decidable_of_iff _ (same_iff x y)

/-! ## Descriptors, texts and sizes -/

def typeDescriptor : AttributeValue → String
  | .s _ => "S"
  | .n _ => "N"
  | .b _ => "B"
  | .ss _ => "SS"
  | .ns _ => "NS"
  | .bs _ => "BS"
  | .bool _ => "BOOL"
  | .null _ => "NULL"
  | .l _ => "L"
  | .m _ => "M"

/-- Quote a string the way `{:?}` does; only ASCII needs escapes here. -/
def debugString (text : String) : String :=
  let escape : Char → String
    | '"' => "\\\""
    | '\\' => "\\\\"
    | '\n' => "\\n"
    | '\r' => "\\r"
    | '\t' => "\\t"
    | c => c.toString
  "\"" ++ String.join (text.toList.map escape) ++ "\""

def debugStrings (values : List String) : String :=
  "[" ++ ", ".intercalate (values.map debugString) ++ "]"

/-- The display text.  It is what a scan sorts partitions by; a binary value shows
its length only. -/
def display : AttributeValue → String
  | .s v => "\x7bS: " ++ v ++ "\x7d"
  | .n v => "\x7bN: " ++ v ++ "\x7d"
  | .b v => "\x7bB: " ++ toString v.length ++ " bytes\x7d"
  | .ss v => "\x7bSS: " ++ debugStrings v ++ "\x7d"
  | .ns v => "\x7bNS: " ++ debugStrings v ++ "\x7d"
  | .bs v => "\x7bBS: " ++ toString v.length ++ " items\x7d"
  | .bool v => "\x7bBOOL: " ++ toString v ++ "\x7d"
  | .null v => "\x7bNULL: " ++ toString v ++ "\x7d"
  | .l v => "\x7bL: " ++ toString v.length ++ " items\x7d"
  | .m v => "\x7bM: " ++ toString v.length ++ " keys\x7d"

/-- A number takes half a byte a character, and one more. -/
def numberSize (number : String) : ℕ := (byteLen number + 1) / 2 + 1

mutual

def calculateValueSize : AttributeValue → ℕ
  | .s v => byteLen v
  | .n v => numberSize v
  | .b v => v.length
  | .bool _ => 1
  | .null _ => 1
  | .ss v => (v.map byteLen).sum
  | .ns v => (v.map numberSize).sum
  | .bs v => (v.map List.length).sum
  | .l v => 3 + elementsSize v
  | .m v => 3 + entriesSize v

def elementsSize : List AttributeValue → ℕ
  | [] => 0
  | v :: vs => 1 + calculateValueSize v + elementsSize vs

def entriesSize : List (String × AttributeValue) → ℕ
  | [] => 0
  | (k, v) :: es => byteLen k + 1 + calculateValueSize v + entriesSize es

end

end AttributeValue

def calculateItemSize (item : Item) : ℕ :=
  (item.map fun e => byteLen e.1 + e.2.calculateValueSize).sum

end Rustack.DynamoDB
