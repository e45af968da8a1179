import Rustack.Lib.Bytes
import Rustack.Lib.Utf8

/-!
# Binary objects

Items with integers, strings, arrays, maps, simple values and floats, without tags, strings in
pieces and compound keys, and the bytes that encode them.  The argument of a head may be written
in any width, and arrays and maps may be closed by a break where they are left open.
-/

namespace Rustack.Cbor

open Bytes

inductive Key where
  | unsigned (n : ℕ)
  | negative (n : ℕ)
  | text (data : List UInt8)
deriving DecidableEq

inductive Item where
  | unsigned (n : ℕ)
  | negative (n : ℕ)
  | bytes (data : List UInt8)
  | text (data : List UInt8)
  | array (items : List Item)
  | map (entries : List (Key × Item))
  | simple (n : ℕ)
  | float (data : List UInt8)

/-! ## Heads -/

/-- The first byte of a head. -/
def initial (major info : ℕ) : UInt8 := UInt8.ofNat (major * 32 + info)

/-- A head with a major type and an argument, or with none. -/
inductive Head (major : ℕ) : Option ℕ → List UInt8 → Prop where
  | short {n : ℕ} : n < 24 → Head major (some n) [initial major n]
  | long {n : ℕ} (k : ℕ) : k < 4 → n < 256 ^ 2 ^ k →
      Head major (some n) (initial major (24 + k) :: be (2 ^ k) n)
  | indefinite : Head major none [initial major 31]

/-! ## Items -/

def IsText (data : List UInt8) : Prop := (Utf8.decode? data).isSome

inductive EncodesKey : Key → List UInt8 → Prop where
  | unsigned {n : ℕ} {head : List UInt8} : Head 0 (some n) head → EncodesKey (.unsigned n) head
  | negative {n : ℕ} {head : List UInt8} : Head 1 (some n) head → EncodesKey (.negative n) head
  | text {data head : List UInt8} : Head 3 (some data.length) head → IsText data →
      EncodesKey (.text data) (head ++ data)

mutual

/-- The bytes of an item, of which the collections may be left open or not. -/
inductive Encodes (opens : Bool) : Item → List UInt8 → Prop where
  | unsigned {n : ℕ} {head : List UInt8} : Head 0 (some n) head → Encodes opens (.unsigned n) head
  | negative {n : ℕ} {head : List UInt8} : Head 1 (some n) head → Encodes opens (.negative n) head
  | bytes {data head : List UInt8} : Head 2 (some data.length) head →
      Encodes opens (.bytes data) (head ++ data)
  | text {data head : List UInt8} : Head 3 (some data.length) head → IsText data →
      Encodes opens (.text data) (head ++ data)
  | array {items : List Item} {head body : List UInt8} : Head 4 (some items.length) head →
      EncodesAll opens items body → Encodes opens (.array items) (head ++ body)
  | arrayOpen {items : List Item} {head body : List UInt8} : opens = true → Head 4 none head →
      EncodesAll opens items body → Encodes opens (.array items) (head ++ (body ++ [0xff]))
  | map {entries : List (Key × Item)} {head body : List UInt8} :
      Head 5 (some entries.length) head → EncodesEntries opens entries body →
        Encodes opens (.map entries) (head ++ body)
  | mapOpen {entries : List (Key × Item)} {head body : List UInt8} : opens = true →
      Head 5 none head → EncodesEntries opens entries body →
        Encodes opens (.map entries) (head ++ (body ++ [0xff]))
  | simple {n : ℕ} : n < 24 → Encodes opens (.simple n) [initial 7 n]
  | simpleLong {n : ℕ} : 32 ≤ n → n < 256 → Encodes opens (.simple n) [initial 7 24, UInt8.ofNat n]
  | float {data : List UInt8} (k : ℕ) : k < 3 → data.length = 2 ^ (k + 1) →
      Encodes opens (.float data) (initial 7 (25 + k) :: data)

/-- The bytes of items one after another. -/
inductive EncodesAll (opens : Bool) : List Item → List UInt8 → Prop where
  | nil : EncodesAll opens [] []
  | cons {item : Item} {items : List Item} {front body : List UInt8} : Encodes opens item front →
      EncodesAll opens items body → EncodesAll opens (item :: items) (front ++ body)

inductive EncodesEntries (opens : Bool) : List (Key × Item) → List UInt8 → Prop where
  | nil : EncodesEntries opens [] []
  | cons {key : Key} {item : Item} {entries : List (Key × Item)}
      {name front body : List UInt8} : EncodesKey key name → Encodes opens item front →
        EncodesEntries opens entries body →
          EncodesEntries opens ((key, item) :: entries) (name ++ (front ++ body))

end

/-! ## Sizes -/

namespace Item

mutual

/-- The levels of collections. -/
def depth : Item → ℕ
  | array items => depthAll items + 1
  | map entries => depthEntries entries + 1
  | _ => 0

def depthAll : List Item → ℕ
  | [] => 0
  | item :: items => max item.depth (depthAll items)

def depthEntries : List (Key × Item) → ℕ
  | [] => 0
  | (_, item) :: entries => max item.depth (depthEntries entries)

end

mutual

/-- The number of heads, those of keys among them. -/
def count : Item → ℕ
  | array items => countAll items + 1
  | map entries => countEntries entries + 1
  | _ => 1

def countAll : List Item → ℕ
  | [] => 0
  | item :: items => item.count + countAll items

def countEntries : List (Key × Item) → ℕ
  | [] => 0
  | (_, item) :: entries => item.count + 1 + countEntries entries

end

end Item

/-! ## First bytes -/

theorem toNat_initial {major info : ℕ} (hmajor : major < 8) (hinfo : info < 32) :
    (initial major info).toNat = major * 32 + info := by
  rw [initial, UInt8.toNat_ofNat', Nat.mod_eq_of_lt (by omega)]

theorem initial_div {major info : ℕ} (hmajor : major < 8) (hinfo : info < 32) :
    (initial major info).toNat / 32 = major := by
  rw [toNat_initial hmajor hinfo]
  omega

theorem initial_mod {major info : ℕ} (hmajor : major < 8) (hinfo : info < 32) :
    (initial major info).toNat % 32 = info := by
  rw [toNat_initial hmajor hinfo]
  omega

theorem be_one (n : ℕ) : be 1 n = [UInt8.ofNat n] := by
  rw [be, be, pow_zero, Nat.div_one]

theorem eq_initial (b : UInt8) : b = initial (b.toNat / 32) (b.toNat % 32) := by
  have hlt := b.toNat_lt
  refine UInt8.toNat_inj.mp ?_
  rw [toNat_initial (by omega) (by omega)]
  omega

/-- A head begins with its major type, and has the break only where it has no argument. -/
theorem Head.first {major : ℕ} {value : Option ℕ} {head : List UInt8} (h : Head major value head) :
    ∃ info rest, head = initial major info :: rest ∧ info < 32 ∧ (value.isSome → info < 31) := by
  cases h with
  | short | long => exact ⟨_, _, rfl, by omega, fun _ => by omega⟩
  | indefinite => exact ⟨31, [], rfl, by decide, fun h => by cases h⟩

/-- What begins with another byte than the break. -/
def Begins (bytes : List UInt8) : Prop := ∃ b rest, bytes = b :: rest ∧ b ≠ 0xff

theorem Begins.append {bytes : List UInt8} (h : Begins bytes) (rest : List UInt8) :
    Begins (bytes ++ rest) := by
  obtain ⟨b, tail, rfl, hb⟩ := h
  exact ⟨b, tail ++ rest, rfl, hb⟩

theorem Begins.pos {bytes : List UInt8} (h : Begins bytes) : 0 < bytes.length := by
  obtain ⟨b, tail, rfl, -⟩ := h
  exact Nat.succ_pos _

theorem begins_initial {major info : ℕ} (hmajor : major < 8) (hinfo : info < 32)
    (h : major < 7 ∨ info < 31) (rest : List UInt8) : Begins (initial major info :: rest) := by
  refine ⟨_, _, rfl, fun hbreak => ?_⟩
  have hnat := congrArg UInt8.toNat hbreak
  rw [toNat_initial hmajor hinfo] at hnat
  change major * 32 + info = 255 at hnat
  omega

theorem Head.begins {major : ℕ} {value : Option ℕ} {head : List UInt8} (h : Head major value head)
    (hmajor : major < 7) : Begins head := by
  obtain ⟨info, rest, rfl, hinfo, -⟩ := h.first
  exact begins_initial (by omega) hinfo (.inl hmajor) rest

variable {opens : Bool}

theorem EncodesKey.begins {key : Key} {bytes : List UInt8} (h : EncodesKey key bytes) :
    Begins bytes := by
  cases h with
  | unsigned hhead => exact hhead.begins (by decide)
  | negative hhead => exact hhead.begins (by decide)
  | text hhead _ => exact (hhead.begins (by decide)).append _

theorem Encodes.begins {item : Item} {bytes : List UInt8} (h : Encodes opens item bytes) :
    Begins bytes := by
  cases h with
  | unsigned hhead => exact hhead.begins (by decide)
  | negative hhead => exact hhead.begins (by decide)
  | bytes hhead => exact (hhead.begins (by decide)).append _
  | text hhead _ => exact (hhead.begins (by decide)).append _
  | array hhead _ => exact (hhead.begins (by decide)).append _
  | arrayOpen _ hhead _ => exact (hhead.begins (by decide)).append _
  | map hhead _ => exact (hhead.begins (by decide)).append _
  | mapOpen _ hhead _ => exact (hhead.begins (by decide)).append _
  | simple | float => exact begins_initial (by decide) (by omega) (.inr (by omega)) _
  | simpleLong _ _ => exact begins_initial (by decide) (by decide) (.inr (by decide)) _

/-- Every member has a byte of its own, and every name and item of a map. -/
theorem EncodesAll.length_le {items : List Item} {body : List UInt8}
    (h : EncodesAll opens items body) : items.length ≤ body.length := by
  induction items generalizing body with
  | nil => exact Nat.zero_le _
  | cons item items ih =>
      cases h with
      | cons hitem hitems =>
          have hpos := hitem.begins.pos
          have hle := ih hitems
          rw [List.length_cons, List.length_append]
          omega

theorem EncodesEntries.length_le {entries : List (Key × Item)} {body : List UInt8}
    (h : EncodesEntries opens entries body) : entries.length * 2 ≤ body.length := by
  induction entries generalizing body with
  | nil => exact Nat.zero_le _
  | cons entry entries ih =>
      cases h with
      | cons hkey hitem hentries =>
          have hname := hkey.begins.pos
          have hpos := hitem.begins.pos
          have hle := ih hentries
          rw [List.length_cons, List.length_append, List.length_append]
          omega

namespace Item

theorem count_pos (item : Item) : 0 < item.count := by
  cases item <;> simp [count]

theorem length_le_countAll (items : List Item) : items.length ≤ countAll items := by
  induction items with
  | nil => exact Nat.zero_le _
  | cons item items ih =>
      have hpos := item.count_pos
      rw [List.length_cons, countAll]
      omega

theorem length_le_countEntries (entries : List (Key × Item)) :
    entries.length * 2 ≤ countEntries entries := by
  induction entries with
  | nil => exact Nat.zero_le _
  | cons entry entries ih =>
      have hpos := entry.2.count_pos
      rw [List.length_cons, countEntries]
      omega

theorem depthAll_le_iff {items : List Item} {limit : ℕ} :
    depthAll items ≤ limit ↔ ∀ item ∈ items, item.depth ≤ limit := by
  induction items with
  | nil => simp [depthAll]
  | cons item items ih => rw [depthAll, max_le_iff, ih, List.forall_mem_cons]

theorem depthEntries_le_iff {entries : List (Key × Item)} {limit : ℕ} :
    depthEntries entries ≤ limit ↔ ∀ entry ∈ entries, entry.2.depth ≤ limit := by
  induction entries with
  | nil => simp [depthEntries]
  | cons entry entries ih => rw [depthEntries, max_le_iff, ih, List.forall_mem_cons]

end Item

end Rustack.Cbor
