import Rustack.Lib.Cbor
import Rustack.Lib.Outcome

/-!
# The scan of snapshots

Before a section is decoded it is scanned for its structure.  The scan keeps what is still to be
read and how many heads may still come, and it accepts what encodes one item within its limits.
-/

namespace Rustack.Snapshot

open Cbor Bytes List Item
open Except (bind_eq_ok)

/-- The limits are numbers of a machine word. -/
structure Limits where
  bytes : UInt64
  depth : UInt64
  nodes : UInt64
  collection : UInt64
  scalar : UInt64
  key : UInt64

inductive Failure where
  | bytes
  | depth
  | nodes
  | collection
  | scalar
  | key
  | duplicate
  | badSyntax
  | profile
  | trailing
deriving DecidableEq

structure Scan where
  rest : List UInt8
  remaining : ℕ

namespace Scan

def read (s : Scan) (len : ℕ) : Except Failure (List UInt8 × Scan) :=
  if len ≤ s.rest.length then .ok (s.rest.take len, { s with rest := s.rest.drop len })
  else .error .badSyntax

/-- An argument of so many bytes. -/
def readBe (s : Scan) (width : ℕ) : Except Failure (ℕ × Scan) := do
  let (part, s) ← s.read width
  return (ofBe part, s)

def header (s : Scan) : Except Failure ((ℕ × Option ℕ) × Scan) := do
  if s.remaining = 0 then throw .nodes
  let (initial, s) ← { s with remaining := s.remaining - 1 }.readBe 1
  let major := initial / 32
  let info := initial % 32
  if info < 24 then return ((major, some info), s)
  else if info = 24 then
    let (value, s) ← s.readBe 1
    if major = 7 ∧ value < 32 then throw .badSyntax
    return ((major, some value), s)
  else if info < 28 then
    let (value, s) ← s.readBe (2 ^ (info - 24))
    return ((major, some value), s)
  else if info = 31 then return ((major, none), s)
  else throw .badSyntax

def scalar (limits : Limits) (s : Scan) (len : Option ℕ) (key : Bool) :
    Except Failure (List UInt8 × Scan) := do
  match len with
  | none => throw .profile
  | some len =>
    if key ∧ limits.key.toNat < len then throw .key
    if limits.scalar.toNat < len then throw .scalar
    s.read len

def text (limits : Limits) (s : Scan) (len : Option ℕ) (key : Bool) :
    Except Failure (List UInt8 × Scan) := do
  let (data, s) ← s.scalar limits len key
  if (Utf8.decode? data).isNone then throw .badSyntax
  return (data, s)

def key (limits : Limits) (s : Scan) : Except Failure (Key × Scan) := do
  let ((major, value), s) ← s.header
  match major with
  | 0 =>
    match value with
    | none => throw .badSyntax
    | some n => return (.unsigned n, s)
  | 1 =>
    match value with
    | none => throw .badSyntax
    | some n => return (.negative n, s)
  | 3 =>
    let (data, s) ← s.text limits value true
    return (.text data, s)
  | _ => throw .profile

/-- The members of a collection, of which the limit still allows so many. -/
def members (limits : Limits) (child : Scan → Except Failure Scan) (isMap : Bool)
    (count : Option ℕ) : ℕ → ℕ → List Key → Scan → Except Failure Scan
  | room, visited, keys, s =>
    if count = some visited then .ok s
    else if count = none ∧ s.rest.head? = some 0xff then .ok { s with rest := s.rest.tail }
    else match room with
      | 0 => .error .collection
      | room + 1 =>
        if isMap then do
          let (key, s) ← s.key limits
          if key ∈ keys then throw .duplicate
          let s ← child s
          members limits child isMap count room (visited + 1) (key :: keys) s
        else do
          let s ← child s
          members limits child isMap count room (visited + 1) keys s

def collection (limits : Limits) (child : Scan → Except Failure Scan) (isMap : Bool)
    (count : Option ℕ) (s : Scan) : Except Failure Scan := do
  match count with
  | none => members limits child isMap count limits.collection.toNat 0 [] s
  | some n =>
    if limits.collection.toNat < n then throw .collection
    let minimum := n * if isMap then 2 else 1
    if 2 ^ 64 ≤ minimum then throw .collection
    if s.remaining < minimum then throw .nodes
    if s.rest.length < minimum then throw .badSyntax
    members limits child isMap count limits.collection.toNat 0 [] s

/-- An item that may have so many levels of collections. -/
def item (limits : Limits) : ℕ → Scan → Except Failure Scan
  | left, s => do
    let ((major, value), s) ← s.header
    match major with
    | 0 | 1 | 7 =>
      match value with
      | none => throw .badSyntax
      | some _ => return s
    | 2 =>
      let (_, s) ← s.scalar limits value false
      return s
    | 3 =>
      let (_, s) ← s.text limits value false
      return s
    | 4 | 5 =>
      match left with
      | 0 => throw .depth
      | left + 1 => collection limits (item limits left) (major = 5) value s
    | _ => throw .profile

def validate (input : List UInt8) (limits : Limits) : Except Failure Unit := do
  if limits.bytes.toNat < input.length then throw .bytes
  let s ← item limits limits.depth.toNat ⟨input, limits.nodes.toNat⟩
  if s.rest ≠ [] then throw .trailing

/-! ## Heads -/

variable {limits : Limits} {s s' : Scan}

/-- An item that is its head alone. -/
theorem item_of_header {left major n : ℕ} (hmajor : major = 0 ∨ major = 1 ∨ major = 7)
    (h : s.header = .ok ((major, some n), s')) : item limits left s = .ok s' := by
  unfold item
  refine bind_eq_ok.mpr ⟨_, h, ?_⟩
  obtain rfl | rfl | rfl := hmajor
  · rfl
  · rfl
  · rfl

theorem read_eq_ok {len : ℕ} {part : List UInt8} :
    s.read len = .ok (part, s') ↔
      s.rest = part ++ s'.rest ∧ part.length = len ∧ s'.remaining = s.remaining := by
  unfold read
  constructor
  · intro h
    split_ifs at h with hle
    cases h
    exact ⟨(take_append_drop len s.rest).symm, length_take_of_le hle, rfl⟩
  · rintro ⟨hrest, rfl, hremaining⟩
    rw [if_pos (by rw [hrest, length_append]; omega), hrest, take_left, drop_left,
      ← hremaining]

theorem readBe_eq_ok {width n : ℕ} :
    s.readBe width = .ok (n, s') ↔ n < 256 ^ width ∧ s.rest = be width n ++ s'.rest ∧
      s'.remaining = s.remaining := by
  unfold readBe
  rw [bind_eq_ok]
  constructor
  · rintro ⟨⟨part, s''⟩, hread, h⟩
    obtain ⟨hrest, hlength, hremaining⟩ := read_eq_ok.mp hread
    cases h
    subst hlength
    exact ⟨ofBe_lt part, by rw [be_ofBe, hrest], hremaining⟩
  · rintro ⟨hn, hrest, hremaining⟩
    refine ⟨(be width n, s'), read_eq_ok.mpr ⟨hrest, length_be width n, hremaining⟩, ?_⟩
    change Except.ok (ofBe (be width n), s') = _
    rw [ofBe_be, Nat.mod_eq_of_lt hn]

/-- The heads that the scan takes: a simple value in two bytes is not one of those in one byte. -/
def Scanned (major : ℕ) (value : Option ℕ) (head : List UInt8) : Prop :=
  major < 8 ∧ Head major value head ∧
    (major = 7 → head.length = 2 → ∀ n, value = some n → 32 ≤ n)

/-- One head has been read. -/
structure Took (major : ℕ) (value : Option ℕ) (s s' : Scan) : Prop where
  head : ∃ head, Scanned major value head ∧ s.rest = head ++ s'.rest
  remaining : s.remaining = s'.remaining + 1

theorem initial_of_be {first : ℕ} (h : first < 256) :
    be 1 first = [initial (first / 32) (first % 32)] := by
  rw [be_one, eq_initial (UInt8.ofNat first), UInt8.toNat_ofNat', Nat.mod_eq_of_lt h]

theorem took_of_header {major : ℕ} {value : Option ℕ} (h : s.header = .ok ((major, value), s')) :
    Took major value s s' := by
  unfold header at h
  split at h
  · cases h
  next hremaining =>
  obtain ⟨⟨first, s₁⟩, hfirst, h⟩ := bind_eq_ok.mp h
  obtain ⟨hlt, hrest₁, hremaining₁⟩ := readBe_eq_ok.mp hfirst
  rw [initial_of_be hlt] at hrest₁
  have hmajor : first / 32 < 8 := by omega
  dsimp only at h hrest₁ hremaining₁
  by_cases hshort : first % 32 < 24
  · rw [if_pos hshort] at h
    cases h
    exact ⟨⟨_, ⟨hmajor, .short hshort, fun _ htwo => by cases htwo⟩, hrest₁⟩, by omega⟩
  rw [if_neg hshort] at h
  by_cases hone : first % 32 = 24
  · rw [if_pos hone] at h
    obtain ⟨⟨n, s₂⟩, hn, h⟩ := bind_eq_ok.mp h
    obtain ⟨hnlt, hrest₂, hremaining₂⟩ := readBe_eq_ok.mp hn
    dsimp only at h
    split at h
    · cases h
    next hsimple =>
    cases h
    refine ⟨⟨_, ⟨hmajor, .long 0 (by decide) hnlt, fun hseven _ m hm => ?_⟩, ?_⟩, by omega⟩
    · cases hm
      exact Nat.le_of_not_lt fun hless => hsimple ⟨hseven, hless⟩
    · rw [hrest₁, hrest₂, hone]
      rfl
  rw [if_neg hone] at h
  by_cases hlong : first % 32 < 28
  · rw [if_pos hlong] at h
    obtain ⟨⟨n, s₂⟩, hn, h⟩ := bind_eq_ok.mp h
    obtain ⟨hnlt, hrest₂, hremaining₂⟩ := readBe_eq_ok.mp hn
    dsimp only at h
    cases h
    have hinfo : 24 + (first % 32 - 24) = first % 32 := by omega
    refine ⟨⟨_, ⟨hmajor, .long (first % 32 - 24) (by omega) hnlt, fun _ htwo => ?_⟩, ?_⟩, by omega⟩
    · rw [length_cons, length_be] at htwo
      have hwide : 2 ^ 1 ≤ 2 ^ (first % 32 - 24) := Nat.pow_le_pow_right (by decide) (by omega)
      omega
    · rw [hrest₁, hrest₂, hinfo]
      rfl
  rw [if_neg hlong] at h
  by_cases hopen : first % 32 = 31
  · rw [if_pos hopen] at h
    cases h
    refine ⟨⟨_, ⟨hmajor, .indefinite, fun _ htwo => by cases htwo⟩, ?_⟩, by omega⟩
    rw [hrest₁, hopen]
  · rw [if_neg hopen] at h
    cases h

theorem header_of_took {major : ℕ} {value : Option ℕ} (h : Took major value s s') :
    s.header = .ok ((major, value), s') := by
  obtain ⟨⟨head, ⟨hmajor, hhead, hsimple⟩, hrest⟩, hremaining⟩ := h
  have hfirst : ∀ info < 32, ∀ tail, s.rest = initial major info :: tail →
      ({ s with remaining := s.remaining - 1 } : Scan).readBe 1 =
        .ok (major * 32 + info, ⟨tail, s'.remaining⟩) := by
    intro info hinfo tail htail
    refine readBe_eq_ok.mpr ⟨by omega, ?_, by dsimp only; omega⟩
    rw [be_one]
    exact htail
  have hdiv : ∀ info < 32, (major * 32 + info) / 32 = major := fun info hinfo => by omega
  have hmod : ∀ info < 32, (major * 32 + info) % 32 = info := fun info hinfo => by omega
  unfold header
  rw [if_neg (by omega)]
  cases hhead with
  | @short n hn =>
      refine bind_eq_ok.mpr ⟨_, hfirst n (by omega) _ hrest, ?_⟩
      dsimp only
      rw [hdiv n (by omega), hmod n (by omega), if_pos hn]
      rfl
  | @long n k hk hn =>
      refine bind_eq_ok.mpr ⟨_, hfirst (24 + k) (by omega) _ hrest, ?_⟩
      dsimp only
      rw [hdiv (24 + k) (by omega), hmod (24 + k) (by omega), if_neg (by omega)]
      have hread : (⟨be (2 ^ k) n ++ s'.rest, s'.remaining⟩ : Scan).readBe (2 ^ k) = .ok (n, s') :=
        readBe_eq_ok.mpr ⟨hn, rfl, rfl⟩
      rcases Nat.eq_zero_or_pos k with rfl | hpos
      · rw [if_pos rfl]
        refine bind_eq_ok.mpr ⟨_, hread, ?_⟩
        dsimp only
        rw [if_neg fun hless => Nat.not_le_of_lt hless.2 (hsimple hless.1 rfl n rfl)]
        rfl
      · rw [if_neg (by omega), if_pos (by omega), Nat.add_sub_cancel_left]
        exact bind_eq_ok.mpr ⟨_, hread, rfl⟩
  | indefinite =>
      refine bind_eq_ok.mpr ⟨_, hfirst 31 (by decide) _ hrest, ?_⟩
      dsimp only
      rw [hdiv 31 (by decide), hmod 31 (by decide), if_neg (by decide), if_neg (by decide),
        if_neg (by decide), if_pos rfl]
      rfl

/-! ## Strings and keys -/

theorem scalar_eq_ok {len : Option ℕ} {key : Bool} {data : List UInt8} :
    s.scalar limits len key = .ok (data, s') ↔ len = some data.length ∧
      (key = true → data.length ≤ limits.key.toNat) ∧ data.length ≤ limits.scalar.toNat ∧
        s.rest = data ++ s'.rest ∧ s'.remaining = s.remaining := by
  unfold scalar
  cases len with
  | none =>
      refine iff_of_false (fun h => by cases h) fun h => ?_
      cases h.1
  | some n =>
      dsimp only
      constructor
      · intro h
        split at h
        · cases h
        next hkey =>
        split at h
        · cases h
        next hscalar =>
        obtain ⟨hrest, rfl, hremaining⟩ := read_eq_ok.mp h
        exact ⟨rfl, fun htrue => Nat.le_of_not_lt fun hlt => hkey ⟨htrue, hlt⟩,
          Nat.le_of_not_lt hscalar, hrest, hremaining⟩
      · rintro ⟨hlen, hkey, hscalar, hrest, hremaining⟩
        cases hlen
        rw [if_neg fun h => Nat.not_lt_of_le (hkey h.1) h.2, if_neg (Nat.not_lt_of_le hscalar)]
        exact read_eq_ok.mpr ⟨hrest, rfl, hremaining⟩

theorem text_eq_ok {len : Option ℕ} {key : Bool} {data : List UInt8} :
    s.text limits len key = .ok (data, s') ↔
      s.scalar limits len key = .ok (data, s') ∧ IsText data := by
  unfold text
  rw [bind_eq_ok]
  constructor
  · rintro ⟨⟨found, s₁⟩, hscalar, h⟩
    dsimp only at h
    split at h
    · cases h
    next htext =>
    cases h
    exact ⟨hscalar, Option.isSome_iff_ne_none.mpr fun hnone => htext (by rw [hnone]; rfl)⟩
  · rintro ⟨hscalar, htext⟩
    refine ⟨_, hscalar, ?_⟩
    dsimp only
    rw [if_neg (by rw [Option.isNone_iff_eq_none]; exact Option.isSome_iff_ne_none.mp htext)]
    rfl

/-- The length of a key is within the limits. -/
def KeyWithin (limits : Limits) : Key → Prop
  | .text data => data.length ≤ limits.key.toNat ∧ data.length ≤ limits.scalar.toNat
  | _ => True

structure ReadsKey (limits : Limits) (key : Key) (s s' : Scan) : Prop where
  name : ∃ name, EncodesKey key name ∧ s.rest = name ++ s'.rest
  remaining : s.remaining = s'.remaining + 1
  within : KeyWithin limits key

theorem took_of_head {major : ℕ} {value : Option ℕ} {head : List UInt8} (hmajor : major < 7)
    (h : Head major value head) (hrest : s.rest = head ++ s'.rest)
    (hremaining : s.remaining = s'.remaining + 1) : Took major value s s' :=
  ⟨⟨head, ⟨by omega, h, fun hseven => by omega⟩, hrest⟩, hremaining⟩

theorem key_eq_ok {key : Key} : s.key limits = .ok (key, s') ↔ ReadsKey limits key s s' := by
  constructor
  · intro h
    obtain ⟨⟨⟨major, value⟩, s₁⟩, hheader, h⟩ := bind_eq_ok.mp h
    obtain ⟨⟨head, ⟨-, hhead, -⟩, hrest⟩, hremaining⟩ := took_of_header hheader
    dsimp only at h
    split at h
    · cases value with
      | none => cases h
      | some n =>
          cases h
          exact ⟨⟨head, .unsigned hhead, hrest⟩, hremaining, trivial⟩
    · cases value with
      | none => cases h
      | some n =>
          cases h
          exact ⟨⟨head, .negative hhead, hrest⟩, hremaining, trivial⟩
    · obtain ⟨⟨data, s₂⟩, htext, hdone⟩ := bind_eq_ok.mp h
      obtain ⟨hscalar, hutf8⟩ := text_eq_ok.mp htext
      obtain ⟨rfl, hkey, hlength, hrest₂, hremaining₂⟩ := scalar_eq_ok.mp hscalar
      cases hdone
      refine ⟨⟨head ++ data, .text hhead hutf8, ?_⟩, ?_, hkey rfl, hlength⟩
      · rw [hrest, hrest₂, append_assoc]
      · rw [hremaining, ← hremaining₂]
    · cases h
  · rintro ⟨⟨name, hname, hrest⟩, hremaining, hwithin⟩
    unfold Scan.key
    cases hname with
    | unsigned hhead =>
        exact bind_eq_ok.mpr
          ⟨_, header_of_took (took_of_head (by decide) hhead hrest hremaining), rfl⟩
    | negative hhead =>
        exact bind_eq_ok.mpr
          ⟨_, header_of_took (took_of_head (by decide) hhead hrest hremaining), rfl⟩
    | @text data head hhead htext =>
        rw [append_assoc] at hrest
        refine bind_eq_ok.mpr
          ⟨((3, some data.length), ⟨data ++ s'.rest, s'.remaining⟩),
            header_of_took (took_of_head (by decide) hhead hrest hremaining), ?_⟩
        exact bind_eq_ok.mpr ⟨_, text_eq_ok.mpr
          ⟨scalar_eq_ok.mpr ⟨rfl, fun _ => hwithin.1, hwithin.2, rfl, rfl⟩, htext⟩, rfl⟩

/-! ## Items -/

/-- The sizes of an item are within the limits, and no map has a key twice. -/
inductive Within (limits : Limits) : Item → Prop where
  | unsigned (n : ℕ) : Within limits (.unsigned n)
  | negative (n : ℕ) : Within limits (.negative n)
  | bytes {data : List UInt8} : data.length ≤ limits.scalar.toNat → Within limits (.bytes data)
  | text {data : List UInt8} : data.length ≤ limits.scalar.toNat → Within limits (.text data)
  | array {items : List Item} : items.length ≤ limits.collection.toNat →
      (∀ item ∈ items, Within limits item) → Within limits (.array items)
  | map {entries : List (Key × Item)} : entries.length ≤ limits.collection.toNat →
      (entries.map Prod.fst).Nodup → (∀ entry ∈ entries, KeyWithin limits entry.1) →
        (∀ entry ∈ entries, Within limits entry.2) → Within limits (.map entries)
  | simple (n : ℕ) : Within limits (.simple n)
  | float (data : List UInt8) : Within limits (.float data)

/-- An item has been read. -/
structure Reads (limits : Limits) (left : ℕ) (item : Item) (s s' : Scan) : Prop where
  bytes : ∃ bytes, Encodes true item bytes ∧ s.rest = bytes ++ s'.rest
  remaining : s.remaining = s'.remaining + item.count
  depth : item.depth ≤ left
  within : Within limits item

/-- What stands behind the members of a collection. -/
def closing : Option ℕ → List UInt8
  | none => [0xff]
  | some _ => []

/-- The members of an array have been read, so many of them before. -/
structure ReadsAll (limits : Limits) (left : ℕ) (count : Option ℕ) (visited : ℕ)
    (items : List Item) (s s' : Scan) : Prop where
  body : ∃ body, EncodesAll true items body ∧ s.rest = body ++ (closing count ++ s'.rest)
  counted : ∀ n, count = some n → visited + items.length = n
  remaining : s.remaining = s'.remaining + Item.countAll items
  depth : ∀ item ∈ items, item.depth ≤ left
  within : ∀ item ∈ items, Within limits item

structure ReadsEntries (limits : Limits) (left : ℕ) (count : Option ℕ) (visited : ℕ)
    (keys : List Key) (entries : List (Key × Item)) (s s' : Scan) : Prop where
  body : ∃ body, EncodesEntries true entries body ∧ s.rest = body ++ (closing count ++ s'.rest)
  counted : ∀ n, count = some n → visited + entries.length = n
  remaining : s.remaining = s'.remaining + Item.countEntries entries
  distinct : (entries.map Prod.fst).Nodup
  fresh : ∀ entry ∈ entries, entry.1 ∉ keys
  names : ∀ entry ∈ entries, KeyWithin limits entry.1
  depth : ∀ entry ∈ entries, entry.2.depth ≤ left
  within : ∀ entry ∈ entries, Within limits entry.2

variable {left : ℕ} {child : Scan → Except Failure Scan} {count : Option ℕ}

/-- Where a collection ends. -/
theorem members_end (isMap : Bool) (room visited : ℕ) (keys : List Key)
    (h : (∀ n, count = some n → visited = n) ∧ s.rest = closing count ++ s'.rest ∧
      s.remaining = s'.remaining) :
    members limits child isMap count room visited keys s = .ok s' := by
  obtain ⟨hcount, hrest, hremaining⟩ := h
  have heq : s' = ⟨s'.rest, s.remaining⟩ := by rw [hremaining]
  unfold members
  cases count with
  | none =>
      rw [if_neg (by simp), if_pos ⟨rfl, by rw [hrest]; rfl⟩, heq, hrest]
      rfl
  | some n =>
      rw [if_pos (by rw [hcount n rfl])]
      rw [heq]
      exact congrArg (fun rest => Except.ok (⟨rest, s.remaining⟩ : Scan)) hrest

/-- Where a collection goes on. -/
theorem members_next {isMap : Bool} {room visited : ℕ} {keys : List Key}
    (hcount : count ≠ some visited) (hbegins : Begins s.rest) :
    members limits child isMap count (room + 1) visited keys s =
      (if isMap then do
        let (key, s) ← s.key limits
        if key ∈ keys then throw .duplicate
        let s ← child s
        members limits child isMap count room (visited + 1) (key :: keys) s
      else do
        let s ← child s
        members limits child isMap count room (visited + 1) keys s) := by
  obtain ⟨b, rest, hrest, hb⟩ := hbegins
  rw [members, if_neg hcount, if_neg]
  rintro ⟨-, hbreak⟩
  rw [hrest, head?_cons] at hbreak
  exact hb (Option.some.inj hbreak)

theorem members_cases {isMap : Bool} {room visited : ℕ} {keys : List Key}
    (h : members limits child isMap count room visited keys s = .ok s') :
    ((∀ n, count = some n → visited = n) ∧ s.rest = closing count ++ s'.rest ∧
        s.remaining = s'.remaining) ∨
      ∃ room', room = room' + 1 ∧
        (if isMap then do
          let (key, s) ← s.key limits
          if key ∈ keys then throw .duplicate
          let s ← child s
          members limits child isMap count room' (visited + 1) (key :: keys) s
        else do
          let s ← child s
          members limits child isMap count room' (visited + 1) keys s) = .ok s' := by
  unfold members at h
  by_cases hcount : count = some visited
  · rw [if_pos hcount] at h
    cases h
    subst hcount
    exact .inl ⟨fun n hn => Option.some.inj hn, rfl, rfl⟩
  rw [if_neg hcount] at h
  by_cases hbreak : count = none ∧ s.rest.head? = some 0xff
  · rw [if_pos hbreak] at h
    cases h
    obtain ⟨rfl, hhead⟩ := hbreak
    refine .inl ⟨fun n hn => (by cases hn), ?_, rfl⟩
    exact (cons_head?_tail hhead).symm
  rw [if_neg hbreak] at h
  cases room with
  | zero => cases h
  | succ room => exact .inr ⟨room, rfl, h⟩

theorem readsAll_of_members
    (hchild : ∀ {s s' : Scan}, child s = .ok s' → ∃ item, Reads limits left item s s')
    {room visited : ℕ} {keys : List Key}
    (h : members limits child false count room visited keys s = .ok s') :
    ∃ items, ReadsAll limits left count visited items s s' ∧ items.length ≤ room := by
  induction room generalizing visited s with
  | zero =>
      rcases members_cases h with ⟨hcount, hrest, hremaining⟩ | ⟨_, hroom, -⟩
      · exact ⟨[], ⟨⟨[], .nil, hrest⟩, hcount, hremaining, by simp, by simp⟩, le_rfl⟩
      · cases hroom
  | succ room ih =>
      rcases members_cases h with ⟨hcount, hrest, hremaining⟩ | ⟨_, hroom, h⟩
      · exact ⟨[], ⟨⟨[], .nil, hrest⟩, hcount, hremaining, by simp, by simp⟩, Nat.zero_le _⟩
      · cases hroom
        obtain ⟨s₁, hitem, h⟩ := bind_eq_ok.mp h
        obtain ⟨item, ⟨front, hfront, hrest⟩, hremaining, hdepth, hwithin⟩ := hchild hitem
        obtain ⟨items, ⟨⟨body, hbody, hrest₁⟩, hcounted, hremaining₁, hdepths, hwithins⟩,
          hlength⟩ :=
          ih h
        refine ⟨item :: items, ⟨⟨front ++ body, .cons hfront hbody, ?_⟩, fun n hn => ?_, ?_,
          forall_mem_cons.mpr ⟨hdepth, hdepths⟩,
          forall_mem_cons.mpr ⟨hwithin, hwithins⟩⟩, Nat.succ_le_succ hlength⟩
        · rw [hrest, hrest₁, append_assoc]
        · rw [length_cons, ← hcounted n hn]
          omega
        · rw [hremaining, hremaining₁, countAll]
          omega

theorem members_of_readsAll
    (hchild : ∀ {item : Item} {s s' : Scan}, s.remaining < 2 ^ 64 →
      Reads limits left item s s' → child s = .ok s')
    {room visited : ℕ} {keys : List Key} {items : List Item} (hfits : s.remaining < 2 ^ 64)
    (h : ReadsAll limits left count visited items s s') (hroom : items.length ≤ room) :
    members limits child false count room visited keys s = .ok s' := by
  induction items generalizing room visited s with
  | nil =>
      obtain ⟨⟨body, hbody, hrest⟩, hcounted, hremaining, -, -⟩ := h
      cases hbody
      exact members_end false room visited keys ⟨hcounted, hrest, hremaining⟩
  | cons item items ih =>
      obtain ⟨⟨_, hbody, hrest⟩, hcounted, hremaining, hdepth, hwithin⟩ := h
      cases hbody with
      | @cons _ _ front body hfront hbody =>
          obtain ⟨room, rfl⟩ := Nat.exists_eq_succ_of_ne_zero
            ((Nat.succ_pos _).trans_le hroom).ne'
          have hcount : count ≠ some visited := fun hcount => by
            have hsum := hcounted visited hcount
            rw [length_cons] at hsum
            omega
          rw [append_assoc] at hrest
          rw [countAll] at hremaining
          have hitem : child s = .ok ⟨body ++ (closing count ++ s'.rest),
              s'.remaining + countAll items⟩ :=
            hchild hfits ⟨⟨front, hfront, hrest⟩, by dsimp only; omega,
              (forall_mem_cons.mp hdepth).1, (forall_mem_cons.mp hwithin).1⟩
          rw [members_next hcount (by rw [hrest]; exact hfront.begins.append _)]
          refine bind_eq_ok.mpr ⟨_, hitem, ih (by dsimp only; omega)
            ⟨⟨body, hbody, rfl⟩, fun n hn => ?_, rfl, (forall_mem_cons.mp hdepth).2,
              (forall_mem_cons.mp hwithin).2⟩ (Nat.le_of_succ_le_succ hroom)⟩
          have hsum := hcounted n hn
          rw [length_cons] at hsum
          omega

theorem readsEntries_of_members
    (hchild : ∀ {s s' : Scan}, child s = .ok s' → ∃ item, Reads limits left item s s')
    {room visited : ℕ} {keys : List Key}
    (h : members limits child true count room visited keys s = .ok s') :
    ∃ entries, ReadsEntries limits left count visited keys entries s s' ∧
      entries.length ≤ room := by
  induction room generalizing visited keys s with
  | zero =>
      rcases members_cases h with ⟨hcount, hrest, hremaining⟩ | ⟨_, hroom, -⟩
      · exact ⟨[], ⟨⟨[], .nil, hrest⟩, hcount, hremaining, nodup_nil, by simp, by simp,
          by simp, by simp⟩, le_rfl⟩
      · cases hroom
  | succ room ih =>
      rcases members_cases h with ⟨hcount, hrest, hremaining⟩ | ⟨_, hroom, h⟩
      · exact ⟨[], ⟨⟨[], .nil, hrest⟩, hcount, hremaining, nodup_nil, by simp, by simp,
          by simp, by simp⟩, Nat.zero_le _⟩
      · cases hroom
        obtain ⟨⟨key, s₁⟩, hkey, h⟩ := bind_eq_ok.mp h
        obtain ⟨⟨name, hname, hrest⟩, hremaining, hkeyWithin⟩ := key_eq_ok.mp hkey
        dsimp only at h
        split at h
        · cases h
        next hfresh =>
        obtain ⟨s₂, hitem, h⟩ := bind_eq_ok.mp h
        obtain ⟨item, ⟨front, hfront, hrest₁⟩, hremaining₁, hdepth, hwithin⟩ := hchild hitem
        obtain ⟨entries, hentries, hlength⟩ := ih h
        obtain ⟨body, hbody, hrest₂⟩ := hentries.body
        have hapart : key ∉ entries.map Prod.fst := fun hmem => by
          obtain ⟨entry, hentry, rfl⟩ := mem_map.mp hmem
          exact hentries.fresh entry hentry (.head _)
        refine ⟨(key, item) :: entries, ⟨⟨name ++ (front ++ body), .cons hname hfront hbody, ?_⟩,
          fun n hn => ?_, ?_, nodup_cons.mpr ⟨hapart, hentries.distinct⟩,
          forall_mem_cons.mpr ⟨hfresh, fun entry hentry hmem =>
            hentries.fresh entry hentry (.tail _ hmem)⟩,
          forall_mem_cons.mpr ⟨hkeyWithin, hentries.names⟩,
          forall_mem_cons.mpr ⟨hdepth, hentries.depth⟩,
          forall_mem_cons.mpr ⟨hwithin, hentries.within⟩⟩, Nat.succ_le_succ hlength⟩
        · rw [hrest, hrest₁, hrest₂, append_assoc, append_assoc]
        · rw [length_cons, ← hentries.counted n hn]
          omega
        · rw [hremaining, hremaining₁, hentries.remaining, countEntries]
          omega

theorem members_of_readsEntries
    (hchild : ∀ {item : Item} {s s' : Scan}, s.remaining < 2 ^ 64 →
      Reads limits left item s s' → child s = .ok s')
    {room visited : ℕ} {keys : List Key} {entries : List (Key × Item)}
    (hfits : s.remaining < 2 ^ 64)
    (h : ReadsEntries limits left count visited keys entries s s') (hroom : entries.length ≤ room) :
    members limits child true count room visited keys s = .ok s' := by
  induction entries generalizing room visited keys s with
  | nil =>
      obtain ⟨body, hbody, hrest⟩ := h.body
      cases hbody
      exact members_end true room visited keys ⟨h.counted, hrest, h.remaining⟩
  | cons entry entries ih =>
      obtain ⟨_, hbody, hrest⟩ := h.body
      cases hbody with
      | @cons key item _ name front body hname hfront hbody =>
          obtain ⟨room, rfl⟩ := Nat.exists_eq_succ_of_ne_zero
            ((Nat.succ_pos _).trans_le hroom).ne'
          have hcount : count ≠ some visited := fun hcount => by
            have hsum := h.counted visited hcount
            rw [length_cons] at hsum
            omega
          have hremaining := h.remaining
          rw [append_assoc, append_assoc] at hrest
          rw [countEntries] at hremaining
          obtain ⟨hapart, hdistinct⟩ := nodup_cons.mp h.distinct
          obtain ⟨hfresh, hfreshs⟩ := forall_mem_cons.mp h.fresh
          obtain ⟨hkeyWithin, hnames⟩ := forall_mem_cons.mp h.names
          obtain ⟨hdepth, hdepths⟩ := forall_mem_cons.mp h.depth
          obtain ⟨hwithin, hwithins⟩ := forall_mem_cons.mp h.within
          have hkey : s.key limits = .ok (key, ⟨front ++ (body ++ (closing count ++ s'.rest)),
              s'.remaining + countEntries entries + item.count⟩) :=
            key_eq_ok.mpr ⟨⟨name, hname, hrest⟩, by dsimp only; omega, hkeyWithin⟩
          have hitem : child ⟨front ++ (body ++ (closing count ++ s'.rest)),
              s'.remaining + countEntries entries + item.count⟩ =
                .ok ⟨body ++ (closing count ++ s'.rest),
                  s'.remaining + countEntries entries⟩ :=
            hchild (by dsimp only; omega) ⟨⟨front, hfront, rfl⟩, rfl, hdepth, hwithin⟩
          rw [members_next hcount (by rw [hrest]; exact hname.begins.append _)]
          refine bind_eq_ok.mpr ⟨_, hkey, ?_⟩
          dsimp only
          rw [if_neg hfresh]
          refine bind_eq_ok.mpr ⟨_, hitem, ih (by dsimp only; omega)
            ⟨⟨body, hbody, rfl⟩, fun n hn => ?_, rfl, hdistinct, fun other hother hmem => ?_,
              hnames, hdepths, hwithins⟩ (Nat.le_of_succ_le_succ hroom)⟩
          · have hsum := h.counted n hn
            rw [length_cons] at hsum
            omega
          · rcases mem_cons.mp hmem with hsame | hmem
            · exact hapart (mem_map.mpr ⟨other, hother, hsame⟩)
            · exact hfreshs other hother hmem

/-- The heads that a collection of known size takes at least. -/
def least (isMap : Bool) (n : ℕ) : ℕ := n * if isMap then 2 else 1

/-- The checks before the members of a collection of known size. -/
theorem collection_eq_ok {isMap : Bool} :
    collection limits child isMap count s = .ok s' ↔
      (∀ n, count = some n → n ≤ limits.collection.toNat ∧ least isMap n < 2 ^ 64 ∧
        least isMap n ≤ s.remaining ∧ least isMap n ≤ s.rest.length) ∧
        members limits child isMap count limits.collection.toNat 0 [] s = .ok s' := by
  unfold collection
  cases count with
  | none => exact ⟨fun h => ⟨fun n hn => (by cases hn), h⟩, fun h => h.2⟩
  | some n =>
      obtain ⟨minimum, hminimum⟩ : ∃ minimum, minimum = least isMap n := ⟨_, rfl⟩
      have hleast : n * (if isMap then 2 else 1) = minimum := hminimum.symm
      dsimp only
      rw [hleast]
      constructor
      · intro h
        split at h
        · cases h
        next hcollection =>
        split at h
        · cases h
        next hlt =>
        split at h
        · cases h
        next hnodes =>
        split at h
        · cases h
        next hrest =>
        refine ⟨fun m hm => ?_, h⟩
        cases hm
        rw [← hminimum]
        omega
      · rintro ⟨hchecks, h⟩
        obtain ⟨hcollection, hlt, hnodes, hrest⟩ := hchecks n rfl
        rw [← hminimum] at hlt hnodes hrest
        rw [if_neg (by omega), if_neg (by omega), if_neg (by omega), if_neg (by omega)]
        exact h

/-- Simple values and floats. -/
theorem encodes_of_scanned {n : ℕ} {head : List UInt8} (h : Scanned 7 (some n) head) :
    ∃ item, Encodes true item head ∧ item.count = 1 ∧ item.depth = 0 ∧ Within limits item := by
  obtain ⟨-, hhead, hsimple⟩ := h
  cases hhead with
  | short hn => exact ⟨.simple n, .simple hn, by simp [Item.count], by simp [Item.depth], .simple n⟩
  | long k hk hn =>
      cases k with
      | zero =>
          refine ⟨.simple n, ?_, by simp [Item.count], by simp [Item.depth], .simple n⟩
          rw [pow_zero, be_one]
          exact .simpleLong (hsimple rfl rfl n rfl) (by simpa using hn)
      | succ k =>
          refine ⟨.float (be (2 ^ (k + 1)) n), ?_, by simp [Item.count], by simp [Item.depth],
            .float _⟩
          rw [show 24 + (k + 1) = 25 + k by omega]
          exact .float k (by omega) (length_be _ _)

theorem reads_of_collection (isMap : Bool) {value : Option ℕ} {head : List UInt8}
    (hchild : ∀ {s s' : Scan}, child s = .ok s' → ∃ item, Reads limits left item s s')
    (hhead : Head (if isMap then 5 else 4) value head) {s₁ : Scan}
    (hrest : s.rest = head ++ s₁.rest)
    (hremaining : s.remaining = s₁.remaining + 1)
    (h : collection limits child isMap value s₁ = .ok s') :
    ∃ item, Reads limits (left + 1) item s s' := by
  obtain ⟨-, hmembers⟩ := collection_eq_ok.mp h
  cases isMap with
  | false =>
      obtain ⟨items, ⟨⟨body, hbody, hrest₁⟩, hcounted, hremaining₁, hdepth, hwithin⟩, hlength⟩ :=
        readsAll_of_members hchild hmembers
      refine ⟨.array items, ?_, ?_, ?_, .array hlength hwithin⟩
      · cases value with
        | none =>
            refine ⟨_, .arrayOpen rfl hhead hbody, ?_⟩
            rw [hrest, hrest₁, closing, append_assoc, append_assoc]
        | some n =>
            obtain rfl : items.length = n := by simpa using hcounted n rfl
            refine ⟨_, .array hhead hbody, ?_⟩
            rw [hrest, hrest₁, closing, nil_append, append_assoc]
      · rw [hremaining, hremaining₁, Item.count, Nat.add_assoc]
      · rw [depth]
        exact Nat.succ_le_succ (depthAll_le_iff.mpr hdepth)
  | true =>
      obtain ⟨entries, hentries, hlength⟩ := readsEntries_of_members hchild hmembers
      obtain ⟨body, hbody, hrest₁⟩ := hentries.body
      refine ⟨.map entries, ?_, ?_, ?_, .map hlength hentries.distinct hentries.names
        hentries.within⟩
      · cases value with
        | none =>
            refine ⟨_, .mapOpen rfl hhead hbody, ?_⟩
            rw [hrest, hrest₁, closing, append_assoc, append_assoc]
        | some n =>
            obtain rfl : entries.length = n := by simpa using hentries.counted n rfl
            refine ⟨_, .map hhead hbody, ?_⟩
            rw [hrest, hrest₁, closing, nil_append, append_assoc]
      · rw [hremaining, hentries.remaining, Item.count, Nat.add_assoc]
      · rw [depth]
        exact Nat.succ_le_succ (depthEntries_le_iff.mpr hentries.depth)

theorem reads_of_item_of
    (hinner : ∀ inner, left = inner + 1 → ∀ {s s' : Scan}, item limits inner s = .ok s' →
      ∃ item, Reads limits inner item s s')
    (h : item limits left s = .ok s') : ∃ item, Reads limits left item s s' := by
  unfold item at h
  obtain ⟨⟨⟨major, value⟩, s₁⟩, hheader, h⟩ := bind_eq_ok.mp h
  obtain ⟨⟨head, hscanned, hrest⟩, hremaining⟩ := took_of_header hheader
  have hhead := hscanned.2.1
  dsimp only at h
  split at h
  · cases value with
    | none => cases h
    | some n =>
        cases h
        exact ⟨.unsigned n, ⟨head, .unsigned hhead, hrest⟩, by simp [hremaining, Item.count],
          by simp [Item.depth], .unsigned n⟩
  · cases value with
    | none => cases h
    | some n =>
        cases h
        exact ⟨.negative n, ⟨head, .negative hhead, hrest⟩, by simp [hremaining, Item.count],
          by simp [Item.depth], .negative n⟩
  · cases value with
    | none => cases h
    | some n =>
        cases h
        obtain ⟨found, hfound, hcount, hdepth, hwithin⟩ := encodes_of_scanned hscanned
        exact ⟨found, ⟨head, hfound, hrest⟩, by rw [hremaining, hcount], by omega, hwithin⟩
  · obtain ⟨⟨data, s₂⟩, hscalar, hdone⟩ := bind_eq_ok.mp h
    obtain ⟨rfl, -, hlength, hrest₂, hremaining₂⟩ := scalar_eq_ok.mp hscalar
    cases hdone
    refine ⟨.bytes data, ⟨head ++ data, .bytes hhead, ?_⟩, ?_, by simp [Item.depth],
      .bytes hlength⟩
    · rw [hrest, hrest₂, append_assoc]
    · simp [hremaining, ← hremaining₂, Item.count]
  · obtain ⟨⟨data, s₂⟩, htext, hdone⟩ := bind_eq_ok.mp h
    obtain ⟨hscalar, hutf8⟩ := text_eq_ok.mp htext
    obtain ⟨rfl, -, hlength, hrest₂, hremaining₂⟩ := scalar_eq_ok.mp hscalar
    cases hdone
    refine ⟨.text data, ⟨head ++ data, .text hhead hutf8, ?_⟩, ?_, by simp [Item.depth],
      .text hlength⟩
    · rw [hrest, hrest₂, append_assoc]
    · simp [hremaining, ← hremaining₂, Item.count]
  · cases left with
    | zero => cases h
    | succ inner =>
        exact reads_of_collection false (hinner inner rfl) hhead hrest hremaining h
  · cases left with
    | zero => cases h
    | succ inner =>
        exact reads_of_collection true (hinner inner rfl) hhead hrest hremaining h
  · cases h

theorem reads_of_item (h : item limits left s = .ok s') : ∃ item, Reads limits left item s s' := by
  induction left generalizing s s' with
  | zero => exact reads_of_item_of (fun inner hinner => nomatch hinner) h
  | succ left ih =>
      refine reads_of_item_of (fun inner hinner => ?_) h
      cases hinner
      exact ih

theorem collection_of_readsAll
    (hchild : ∀ {item : Item} {s s' : Scan}, s.remaining < 2 ^ 64 →
      Reads limits left item s s' → child s = .ok s')
    {items : List Item} (hfits : s.remaining < 2 ^ 64)
    (h : ReadsAll limits left count 0 items s s') (hroom : items.length ≤ limits.collection.toNat) :
    collection limits child false count s = .ok s' := by
  refine collection_eq_ok.mpr ⟨fun n hn => ?_, members_of_readsAll hchild hfits h hroom⟩
  obtain ⟨body, hbody, hrest⟩ := h.body
  have hlength := hbody.length_le
  have hcount := length_le_countAll items
  have hremaining := h.remaining
  obtain rfl : items.length = n := by simpa using h.counted n hn
  have hleast : least false items.length = items.length := Nat.mul_one _
  rw [hleast, hrest, length_append]
  omega

theorem collection_of_readsEntries
    (hchild : ∀ {item : Item} {s s' : Scan}, s.remaining < 2 ^ 64 →
      Reads limits left item s s' → child s = .ok s')
    {entries : List (Key × Item)} (hfits : s.remaining < 2 ^ 64)
    (h : ReadsEntries limits left count 0 [] entries s s')
    (hroom : entries.length ≤ limits.collection.toNat) :
    collection limits child true count s = .ok s' := by
  refine collection_eq_ok.mpr ⟨fun n hn => ?_, members_of_readsEntries hchild hfits h hroom⟩
  obtain ⟨body, hbody, hrest⟩ := h.body
  have hlength := hbody.length_le
  have hcount := length_le_countEntries entries
  have hremaining := h.remaining
  obtain rfl : entries.length = n := by simpa using h.counted n hn
  have hleast : least true entries.length = entries.length * 2 := rfl
  rw [hleast, hrest, length_append]
  omega

/-- An item that is one head of the last major type. -/
theorem item_of_seven {n : ℕ} {head : List UInt8} (hscanned : Scanned 7 (some n) head)
    (hrest : s.rest = head ++ s'.rest) (hremaining : s.remaining = s'.remaining + 1) :
    item limits left s = .ok s' := by
  apply item_of_header (.inr (.inr rfl))
  exact header_of_took ⟨⟨head, hscanned, hrest⟩, hremaining⟩

section

variable
  (hinner : ∀ inner, left = inner + 1 → ∀ {found : Item} {s s' : Scan}, s.remaining < 2 ^ 64 →
    Reads limits inner found s s' → item limits inner s = .ok s')
  (hfits : s.remaining < 2 ^ 64)

include hinner hfits

/-- An item that is an array. -/
theorem item_of_array {value : Option ℕ} {head body : List UInt8} {items : List Item}
    (hhead : Head 4 value head) (hbody : EncodesAll true items body)
    (hcounted : ∀ n, value = some n → items.length = n)
    (hrest : s.rest = head ++ (body ++ (closing value ++ s'.rest)))
    (hremaining : s.remaining = s'.remaining + (array items).count)
    (hdepth : (array items).depth ≤ left) (hwithin : Within limits (.array items)) :
    item limits left s = .ok s' := by
  rw [depth] at hdepth
  rw [Item.count] at hremaining
  obtain ⟨inner, rfl⟩ := Nat.exists_eq_succ_of_ne_zero ((Nat.succ_pos _).trans_le hdepth).ne'
  have hdepths := depthAll_le_iff.mp (Nat.le_of_succ_le_succ hdepth)
  cases hwithin with
  | array hroom hitems =>
      have hheader : s.header = .ok ((4, value), ⟨body ++ (closing value ++ s'.rest),
          s'.remaining + countAll items⟩) :=
        header_of_took (took_of_head (by decide) hhead hrest (by dsimp only; omega))
      unfold item
      refine bind_eq_ok.mpr ⟨_, hheader, ?_⟩
      exact collection_of_readsAll (hinner inner rfl) (by dsimp only; omega)
        ⟨⟨body, hbody, rfl⟩, fun n hn => by rw [Nat.zero_add, hcounted n hn], rfl, hdepths, hitems⟩
        hroom

theorem item_of_map {value : Option ℕ} {head body : List UInt8} {entries : List (Key × Item)}
    (hhead : Head 5 value head)
    (hbody : EncodesEntries true entries body)
    (hcounted : ∀ n, value = some n → entries.length = n)
    (hrest : s.rest = head ++ (body ++ (closing value ++ s'.rest)))
    (hremaining : s.remaining = s'.remaining + (map entries).count)
    (hdepth : (map entries).depth ≤ left) (hwithin : Within limits (.map entries)) :
    item limits left s = .ok s' := by
  rw [depth] at hdepth
  rw [Item.count] at hremaining
  obtain ⟨inner, rfl⟩ := Nat.exists_eq_succ_of_ne_zero ((Nat.succ_pos _).trans_le hdepth).ne'
  have hdepths := depthEntries_le_iff.mp (Nat.le_of_succ_le_succ hdepth)
  cases hwithin with
  | map hroom hdistinct hnames hitems =>
      have hheader : s.header = .ok ((5, value), ⟨body ++ (closing value ++ s'.rest),
          s'.remaining + countEntries entries⟩) :=
        header_of_took (took_of_head (by decide) hhead hrest (by dsimp only; omega))
      unfold item
      refine bind_eq_ok.mpr ⟨_, hheader, ?_⟩
      exact collection_of_readsEntries (hinner inner rfl) (by dsimp only; omega)
        ⟨⟨body, hbody, rfl⟩, fun n hn => by rw [Nat.zero_add, hcounted n hn], rfl, hdistinct,
          by simp, hnames, hdepths, hitems⟩ hroom

theorem item_of_reads_of {found : Item} (h : Reads limits left found s s') :
    item limits left s = .ok s' := by
  obtain ⟨⟨bytes, hbytes, hrest⟩, hremaining, hdepth, hwithin⟩ := h
  cases hbytes with
  | unsigned hhead =>
      simp only [Item.count] at hremaining
      apply item_of_header (.inl rfl)
      exact header_of_took (took_of_head (by decide) hhead hrest hremaining)
  | negative hhead =>
      simp only [Item.count] at hremaining
      apply item_of_header (.inr (.inl rfl))
      exact header_of_took (took_of_head (by decide) hhead hrest hremaining)
  | @bytes data head hhead =>
      unfold item
      simp only [Item.count] at hremaining
      rw [append_assoc] at hrest
      cases hwithin with
      | bytes hlength =>
          refine bind_eq_ok.mpr
            ⟨((2, some data.length), ⟨data ++ s'.rest, s'.remaining⟩),
              header_of_took (took_of_head (by decide) hhead hrest hremaining), ?_⟩
          exact bind_eq_ok.mpr
            ⟨_, scalar_eq_ok.mpr ⟨rfl, fun h => (by cases h), hlength, rfl, rfl⟩, rfl⟩
  | @text data head hhead htext =>
      unfold item
      simp only [Item.count] at hremaining
      rw [append_assoc] at hrest
      cases hwithin with
      | text hlength =>
          refine bind_eq_ok.mpr
            ⟨((3, some data.length), ⟨data ++ s'.rest, s'.remaining⟩),
              header_of_took (took_of_head (by decide) hhead hrest hremaining), ?_⟩
          exact bind_eq_ok.mpr ⟨_, text_eq_ok.mpr
            ⟨scalar_eq_ok.mpr ⟨rfl, fun h => (by cases h), hlength, rfl, rfl⟩, htext⟩, rfl⟩
  | array hhead hbody =>
      exact item_of_array hinner hfits hhead hbody (fun n hn => Option.some.inj hn)
        (by rw [hrest, append_assoc]; rfl) hremaining hdepth hwithin
  | arrayOpen _ hhead hbody =>
      exact item_of_array hinner hfits hhead hbody (fun n hn => by cases hn)
        (by rw [hrest, append_assoc, append_assoc]; rfl) hremaining hdepth hwithin
  | map hhead hbody =>
      exact item_of_map hinner hfits hhead hbody (fun n hn => Option.some.inj hn)
        (by rw [hrest, append_assoc]; rfl) hremaining hdepth hwithin
  | mapOpen _ hhead hbody =>
      exact item_of_map hinner hfits hhead hbody (fun n hn => by cases hn)
        (by rw [hrest, append_assoc, append_assoc]; rfl) hremaining hdepth hwithin
  | @simple n hn =>
      simp only [Item.count] at hremaining
      exact item_of_seven ⟨by decide, .short hn, fun _ htwo => by cases htwo⟩ hrest hremaining
  | @simpleLong n hle hlt =>
      simp only [Item.count] at hremaining
      refine item_of_seven (n := n) ⟨by decide, ?_, fun _ _ m hm => Option.some.inj hm ▸ hle⟩ hrest
        hremaining
      rw [← be_one]
      exact .long 0 (by decide) (by simpa using hlt)
  | @float data k hk hlength =>
      simp only [Item.count] at hremaining
      refine item_of_seven (n := ofBe data) ⟨by decide, ?_, fun _ htwo => ?_⟩ hrest hremaining
      · have hlong : Head 7 (some (ofBe data)) (initial 7 (24 + (k + 1)) :: be (2 ^ (k + 1))
            (ofBe data)) := .long (k + 1) (by omega) (hlength ▸ ofBe_lt data)
        rw [← hlength, be_ofBe] at hlong
        rwa [show 25 + k = 24 + (k + 1) by omega]
      · rw [length_cons, hlength] at htwo
        omega

end

theorem item_of_reads {found : Item} (hfits : s.remaining < 2 ^ 64)
    (h : Reads limits left found s s') : item limits left s = .ok s' := by
  induction left generalizing found s s' with
  | zero => exact item_of_reads_of (fun inner hinner => nomatch hinner) hfits h
  | succ left ih =>
      refine item_of_reads_of (fun inner hinner => ?_) hfits h
      cases hinner
      exact ih

/-- The scan accepts one item, with nothing behind it and within the limits, and nothing else. -/
theorem validate_iff (input : List UInt8) (limits : Limits) :
    validate input limits = .ok () ↔ input.length ≤ limits.bytes.toNat ∧
      ∃ item, Encodes true item input ∧ item.depth ≤ limits.depth.toNat ∧
        item.count ≤ limits.nodes.toNat ∧ Within limits item := by
  unfold validate
  constructor
  · intro h
    split at h
    · cases h
    next hbytes =>
    obtain ⟨s, hitem, h⟩ := bind_eq_ok.mp h
    split at h
    · cases h
    next htrailing =>
    obtain ⟨item, ⟨bytes, hencodes, hrest⟩, hremaining, hdepth, hwithin⟩ := reads_of_item hitem
    rw [not_ne_iff.mp htrailing, append_nil] at hrest
    subst hrest
    dsimp only at hremaining
    exact ⟨Nat.le_of_not_lt hbytes, item, hencodes, hdepth, by omega, hwithin⟩
  · rintro ⟨hbytes, item, hencodes, hdepth, hnodes, hwithin⟩
    rw [if_neg (Nat.not_lt_of_le hbytes)]
    refine bind_eq_ok.mpr ⟨⟨[], limits.nodes.toNat - item.count⟩,
      item_of_reads limits.nodes.toNat_lt ⟨⟨input, hencodes, (append_nil _).symm⟩, ?_, hdepth,
        hwithin⟩, rfl⟩
    dsimp only
    omega

end Scan

end Rustack.Snapshot
