import Rustack.Lib.Cbor
import Rustack.Lib.Outcome

/-!
# The preflight of control frames

The body of a frame is scanned before it is decoded.  The scan keeps what is still to be read, the
members of all maps so far and the size of the one byte string, and it accepts what encodes one
item of the profile.
-/

namespace Rustack.Lambda

open Cbor Bytes List
open Except (bind_eq_ok)

def maxPayloadBytes : ℕ := 6 * 1024 * 1024

def maxMetadataBytes : ℕ := 64 * 1024

def maxFrameBytes : ℕ := maxPayloadBytes + maxMetadataBytes

inductive ProtocolError where
  | tooLarge
  | invalidStructure
  | invalidSchema
  | unsupportedVersion
  | invalidMetadata
  | io (kind : String)
  | deadline
deriving DecidableEq

/-- A text of plain characters as bytes. -/
def ascii (text : String) : List UInt8 := text.toList.map fun c => UInt8.ofNat c.toNat

structure Scanner where
  remaining : List UInt8
  members : ℕ
  payload : Option ℕ
deriving DecidableEq

namespace Scanner

def take (s : Scanner) (length : ℕ) : Except ProtocolError (List UInt8 × Scanner) :=
  if length ≤ s.remaining.length then
    .ok (s.remaining.take length, { s with remaining := s.remaining.drop length })
  else .error .invalidStructure

def header (s : Scanner) : Except ProtocolError ((ℕ × ℕ) × Scanner) :=
  match s.remaining with
  | [] => .error .invalidStructure
  | initial :: rest =>
    let s := { s with remaining := rest }
    let major := initial.toNat / 32
    let additional := initial.toNat % 32
    if major = 7 ∧ initial ≠ 0xf4 ∧ initial ≠ 0xf5 then .error .invalidStructure
    else if additional < 24 then .ok ((major, additional), s)
    else if additional < 28 then do
      let (bytes, s) ← s.take (2 ^ (additional - 24))
      return ((major, ofBe bytes), s)
    else .error .invalidStructure

/-- The bytes of a text of known length. -/
def utf8 (s : Scanner) (length maximum : ℕ) : Except ProtocolError (List UInt8 × Scanner) := do
  if maximum < length then throw .tooLarge
  let (data, s) ← s.take length
  if (Utf8.decode? data).isNone then throw .invalidStructure
  return (data, s)

def text (s : Scanner) (key : Bool) : Except ProtocolError (List UInt8 × Scanner) := do
  let ((major, length), s) ← s.header
  if major ≠ 3 then throw .invalidStructure
  s.utf8 length (if key then 64 else 2048)

/-- The members of a map, of which there are so many. -/
def entries (child : Bool → Scanner → Except ProtocolError Scanner) :
    ℕ → List (List UInt8) → Scanner → Except ProtocolError Scanner
  | 0, _, s => .ok s
  | count + 1, keys, s => do
    let (key, s) ← s.text true
    if key ∈ keys then throw .invalidStructure
    let s ← child (key = ascii "payload") s
    entries child count (key :: keys) s

/-- An item that may have so many levels. -/
def item : ℕ → Bool → Scanner → Except ProtocolError Scanner
  | 0, _, _ => .error .tooLarge
  | left + 1, payload, s => do
    let ((major, value), s) ← s.header
    match major with
    | 0 => return s
    | 2 =>
      if payload = false ∨ s.payload.isSome then throw .invalidStructure
      if maxPayloadBytes < value then throw .tooLarge
      let (_, s) ← s.take value
      return { s with payload := some value }
    | 3 =>
      let (_, s) ← s.utf8 value 2048
      return s
    | 5 =>
      if 2 ^ 64 ≤ s.members + value then throw .tooLarge
      if 128 < s.members + value then throw .tooLarge
      entries (item left) value [] { s with members := s.members + value }
    | 7 =>
      if value = 20 ∨ value = 21 then return s
      else throw .invalidStructure
    | _ => throw .invalidStructure

def validate (body : List UInt8) : Except ProtocolError Unit := do
  if maxFrameBytes < body.length then throw .tooLarge
  let s ← item 16 false ⟨body, 0, none⟩
  if s.remaining ≠ [] then throw .invalidStructure
  if maxMetadataBytes < body.length - s.payload.getD 0 then throw .tooLarge

/-! ## Heads and texts -/

variable {s s' : Scanner}

/-- What is read is taken off the front, and nothing else changes. -/
structure Takes (bytes : List UInt8) (s s' : Scanner) : Prop where
  remaining : s.remaining = bytes ++ s'.remaining
  members : s'.members = s.members
  payload : s'.payload = s.payload

theorem take_eq_ok {length : ℕ} {bytes : List UInt8} :
    s.take length = .ok (bytes, s') ↔ Takes bytes s s' ∧ bytes.length = length := by
  unfold take
  constructor
  · intro h
    split_ifs at h with hle
    cases h
    exact ⟨⟨(take_append_drop length s.remaining).symm, rfl, rfl⟩, length_take_of_le hle⟩
  · rintro ⟨⟨hremaining, hmembers, hpayload⟩, rfl⟩
    rw [if_pos (by rw [hremaining, length_append]; omega), hremaining, take_left,
      drop_left, ← hmembers, ← hpayload]

/-- The heads that the scan takes: the only ones of the last major type are those of truth
values. -/
def Plain (major n : ℕ) (head : List UInt8) : Prop :=
  major < 8 ∧ Head major (some n) head ∧ (major = 7 → head = [0xf4] ∨ head = [0xf5])

theorem plain_of_header {major n : ℕ} (h : s.header = .ok ((major, n), s')) :
    ∃ head, Plain major n head ∧ Takes head s s' := by
  unfold header at h
  split at h
  · cases h
  next first rest hremaining =>
  have hlt := first.toNat_lt
  have hfirst := eq_initial first
  dsimp only at h
  split at h
  · cases h
  next hseven =>
  have hheads : first.toNat / 32 = 7 → first = 0xf4 ∨ first = 0xf5 := fun hmajor => by
    by_contra hnone
    exact hseven ⟨hmajor, not_or.mp hnone⟩
  by_cases hshort : first.toNat % 32 < 24
  · rw [if_pos hshort] at h
    cases h
    refine ⟨[first], ⟨by omega, ?_, fun hmajor => ?_⟩, hremaining, rfl, rfl⟩
    · rw [congrArg (fun b => [b]) hfirst]
      exact .short hshort
    · rcases hheads hmajor with rfl | rfl
      · exact .inl rfl
      · exact .inr rfl
  rw [if_neg hshort] at h
  by_cases hlong : first.toNat % 32 < 28
  · rw [if_pos hlong] at h
    obtain ⟨⟨bytes, s₂⟩, htake, h⟩ := bind_eq_ok.mp h
    obtain ⟨⟨hrest, hmembers, hpayload⟩, hlength⟩ := take_eq_ok.mp htake
    cases h
    refine ⟨first :: bytes, ⟨by omega, ?_, fun hmajor => ?_⟩, ?_, hmembers, hpayload⟩
    · have hhead : Head (first.toNat / 32) (some (ofBe bytes))
          (initial (first.toNat / 32) (24 + (first.toNat % 32 - 24)) ::
            be (2 ^ (first.toNat % 32 - 24)) (ofBe bytes)) :=
        .long _ (by omega) (hlength ▸ ofBe_lt bytes)
      rwa [← hlength, be_ofBe, Nat.add_sub_cancel' (Nat.le_of_not_lt hshort), ← hfirst] at hhead
    · rcases hheads hmajor with rfl | rfl
      · exact absurd (by decide) hshort
      · exact absurd (by decide) hshort
    · rw [hremaining]
      exact congrArg (first :: ·) hrest
  · rw [if_neg hlong] at h
    cases h

theorem header_of_plain {major n : ℕ} {head : List UInt8} (h : Plain major n head)
    (htakes : Takes head s s') : s.header = .ok ((major, n), s') := by
  obtain ⟨hmajor, hhead, hseven⟩ := h
  obtain ⟨hremaining, hmembers, hpayload⟩ := htakes
  have hkept : ∀ {info : ℕ} {rest : List UInt8}, head = initial major info :: rest →
      ¬ (major = 7 ∧ initial major info ≠ 0xf4 ∧ initial major info ≠ 0xf5) := by
    rintro info rest rfl ⟨h7, hfalse, htrue⟩
    rcases hseven h7 with h | h
    · exact hfalse (cons.inj h).1
    · exact htrue (cons.inj h).1
  obtain ⟨remaining', members', payload'⟩ := s'
  obtain ⟨remaining, members, payload⟩ := s
  dsimp only at hremaining hmembers hpayload
  subst hremaining hmembers hpayload
  unfold header
  cases hhead with
  | short hn =>
      dsimp only [cons_append]
      rw [initial_div hmajor (by omega), initial_mod hmajor (by omega), if_neg (hkept rfl),
        if_pos hn]
      rfl
  | long k hk hn =>
      dsimp only [cons_append]
      rw [initial_div hmajor (by omega), initial_mod hmajor (by omega), if_neg (hkept rfl),
        if_neg (by omega), if_pos (by omega), Nat.add_sub_cancel_left]
      refine bind_eq_ok.mpr
        ⟨(be (2 ^ k) n, ⟨remaining', members', payload'⟩),
          take_eq_ok.mpr ⟨⟨rfl, rfl, rfl⟩, length_be _ _⟩, ?_⟩
      dsimp only
      rw [ofBe_be, Nat.mod_eq_of_lt hn]
      rfl

theorem utf8_eq_ok {length maximum : ℕ} {data : List UInt8} :
    s.utf8 length maximum = .ok (data, s') ↔
      Takes data s s' ∧ data.length = length ∧ length ≤ maximum ∧ IsText data := by
  unfold utf8
  constructor
  · intro h
    split at h
    · cases h
    next hmaximum =>
    obtain ⟨⟨found, s₁⟩, htake, h⟩ := bind_eq_ok.mp h
    dsimp only at h
    split at h
    · cases h
    next htext =>
    cases h
    obtain ⟨htakes, hlength⟩ := take_eq_ok.mp htake
    exact ⟨htakes, hlength, Nat.le_of_not_lt hmaximum,
      Option.isSome_iff_ne_none.mpr fun hnone => htext (by rw [hnone]; rfl)⟩
  · rintro ⟨htakes, hlength, hmaximum, htext⟩
    rw [if_neg (Nat.not_lt_of_le hmaximum)]
    refine bind_eq_ok.mpr ⟨_, take_eq_ok.mpr ⟨htakes, hlength⟩, ?_⟩
    dsimp only
    rw [if_neg (by rw [Option.isNone_iff_eq_none]; exact Option.isSome_iff_ne_none.mp htext)]
    rfl

/-- A key is a short text. -/
theorem text_eq_ok {key : List UInt8} :
    s.text true = .ok (key, s') ↔
      ∃ name, EncodesKey (.text key) name ∧ Takes name s s' ∧ key.length ≤ 64 := by
  unfold text
  constructor
  · intro h
    obtain ⟨⟨⟨major, length⟩, s₁⟩, hheader, h⟩ := bind_eq_ok.mp h
    obtain ⟨head, ⟨-, hhead, -⟩, hremaining, hmembers, hpayload⟩ := plain_of_header hheader
    dsimp only at h
    split at h
    · cases h
    next hmajor =>
    obtain rfl := not_ne_iff.mp hmajor
    obtain ⟨⟨hremaining₁, hmembers₁, hpayload₁⟩, rfl, hlength, htext⟩ := utf8_eq_ok.mp h
    refine ⟨head ++ key, .text hhead htext, ⟨?_, ?_, ?_⟩, hlength⟩
    · rw [hremaining, hremaining₁, append_assoc]
    · rw [hmembers₁, hmembers]
    · rw [hpayload₁, hpayload]
  · rintro ⟨_, hname, ⟨hremaining, hmembers, hpayload⟩, hlength⟩
    cases hname with
    | @text _ head hhead htext =>
        rw [append_assoc] at hremaining
        refine bind_eq_ok.mpr
          ⟨((3, key.length), ⟨key ++ s'.remaining, s'.members, s'.payload⟩),
            header_of_plain ⟨by decide, hhead, fun h => nomatch h⟩
              ⟨hremaining, hmembers, hpayload⟩, ?_⟩
        exact utf8_eq_ok.mpr ⟨⟨rfl, rfl, rfl⟩, rfl, hlength, htext⟩

/-! ## The profile -/

def IsShort : Key → Prop
  | .text data => data.length ≤ 64
  | _ => False

/-- Only under the key of the payload a byte string may stand. -/
inductive Allowed : Bool → Item → Prop where
  | unsigned {payload : Bool} (n : ℕ) : Allowed payload (.unsigned n)
  | bytes {data : List UInt8} : data.length ≤ maxPayloadBytes → Allowed true (.bytes data)
  | text {payload : Bool} {data : List UInt8} : data.length ≤ 2048 → Allowed payload (.text data)
  | map {payload : Bool} {entries : List (Key × Item)} : (entries.map Prod.fst).Nodup →
      (∀ entry ∈ entries, IsShort entry.1) →
        (∀ entry ∈ entries, Allowed (entry.1 = .text (ascii "payload")) entry.2) →
          Allowed payload (.map entries)
  | bool {payload : Bool} {n : ℕ} : n = 20 ∨ n = 21 → Allowed payload (.simple n)

mutual

/-- The nesting of an item, from one on. -/
def levels : Item → ℕ
  | .map entries => levelsEntries entries + 1
  | _ => 1

def levelsEntries : List (Key × Item) → ℕ
  | [] => 0
  | (_, item) :: entries => max (levels item) (levelsEntries entries)

end

mutual

/-- The members of all maps. -/
def membersOf : Item → ℕ
  | .map entries => entries.length + membersEntries entries
  | _ => 0

def membersEntries : List (Key × Item) → ℕ
  | [] => 0
  | (_, item) :: entries => membersOf item + membersEntries entries

end

mutual

/-- The sizes of all byte strings. -/
def payloads : Item → List ℕ
  | .bytes data => [data.length]
  | .map entries => payloadsEntries entries
  | _ => []

def payloadsEntries : List (Key × Item) → List ℕ
  | [] => []
  | (_, item) :: entries => payloads item ++ payloadsEntries entries

end

/-- An item has been read. -/
structure Reads (left : ℕ) (payload : Bool) (item : Item) (s s' : Scanner) : Prop where
  bytes : ∃ bytes, Encodes false item bytes ∧ s.remaining = bytes ++ s'.remaining
  allowed : Allowed payload item
  levels : levels item ≤ left
  members : s'.members = s.members + membersOf item
  payload : s'.payload.toList = s.payload.toList ++ payloads item

/-- The members of a map have been read, behind those with the keys. -/
structure ReadsEntries (left : ℕ) (keys : List (List UInt8)) (found : List (Key × Item))
    (s s' : Scanner) : Prop where
  body : ∃ body, EncodesEntries false found body ∧ s.remaining = body ++ s'.remaining
  distinct : (found.map Prod.fst).Nodup
  fresh : ∀ key ∈ keys, ∀ entry ∈ found, entry.1 ≠ .text key
  short : ∀ entry ∈ found, IsShort entry.1
  allowed : ∀ entry ∈ found, Allowed (entry.1 = .text (ascii "payload")) entry.2
  levels : levelsEntries found ≤ left
  members : s'.members = s.members + membersEntries found
  payload : s'.payload.toList = s.payload.toList ++ payloadsEntries found

variable {left : ℕ} {child : Bool → Scanner → Except ProtocolError Scanner}

theorem eq_of_toList {found found' : Option ℕ} (h : found.toList = found'.toList) :
    found = found' := by
  rw [← Option.head?_toList (o := found), h, Option.head?_toList]

/-- There is one payload at most, so that there is one at most in a part. -/
theorem exists_toList {found : Option ℕ} {front back : List ℕ} (h : found.toList = front ++ back) :
    ∃ part : Option ℕ, part.toList = front := by
  have hlength := congrArg length h
  have hle := Option.length_toList_le (o := found)
  rw [length_append] at hlength
  cases front with
  | nil => exact ⟨none, rfl⟩
  | cons n front =>
      rw [length_cons] at hlength
      exact ⟨some n, congrArg (n :: ·) (eq_nil_of_length_eq_zero (by omega)).symm⟩

theorem readsEntries_of_entries
    (hchild : ∀ {payload : Bool} {s s' : Scanner}, s.members ≤ 128 → child payload s = .ok s' →
      s'.members ≤ 128 ∧ ∃ item, Reads left payload item s s')
    {count : ℕ} {keys : List (List UInt8)} (hmembers : s.members ≤ 128)
    (h : entries child count keys s = .ok s') :
    s'.members ≤ 128 ∧ ∃ found, found.length = count ∧ ReadsEntries left keys found s s' := by
  induction count generalizing keys s with
  | zero =>
      cases h
      exact ⟨hmembers, [], rfl, ⟨[], .nil, rfl⟩, nodup_nil, by simp, by simp, by simp,
        Nat.zero_le _, rfl, by simp [payloadsEntries]⟩
  | succ count ih =>
      obtain ⟨⟨key, s₁⟩, hkey, h⟩ := bind_eq_ok.mp h
      obtain ⟨name, hname, ⟨hremaining, hmembers₁, hpayload⟩, hlength⟩ := text_eq_ok.mp hkey
      dsimp only at h
      split at h
      · cases h
      next hfresh =>
      obtain ⟨s₂, hitem, h⟩ := bind_eq_ok.mp h
      obtain ⟨hmembers₂, item, ⟨front, hfront, hremaining₂⟩, hallowed, hlevels, hsum, hlist⟩ :=
        hchild (by omega) hitem
      obtain ⟨hdone, found, rfl, hfound⟩ := ih hmembers₂ h
      obtain ⟨body, hbody, hremaining₃⟩ := hfound.body
      have hapart : Key.text key ∉ found.map Prod.fst := fun hmem => by
        obtain ⟨entry, hentry, hsame⟩ := mem_map.mp hmem
        exact hfound.fresh key (.head _) entry hentry hsame
      have hown : Allowed (decide (Key.text key = .text (ascii "payload"))) item := by
        simpa only [Key.text.injEq] using hallowed
      refine ⟨hdone, (.text key, item) :: found, rfl,
        ⟨name ++ (front ++ body), .cons hname hfront hbody, ?_⟩,
        nodup_cons.mpr ⟨hapart, hfound.distinct⟩, fun other hother => ?_,
        forall_mem_cons.mpr ⟨hlength, hfound.short⟩,
        forall_mem_cons.mpr ⟨hown, hfound.allowed⟩, max_le hlevels hfound.levels, ?_, ?_⟩
      · rw [hremaining, hremaining₂, hremaining₃, append_assoc, append_assoc]
      · refine forall_mem_cons.mpr ⟨fun hsame => ?_, fun entry hentry =>
          hfound.fresh other (.tail _ hother) entry hentry⟩
        cases hsame
        exact hfresh hother
      · rw [hfound.members, hsum, hmembers₁, membersEntries]
        omega
      · rw [hfound.payload, hlist, hpayload, payloadsEntries, append_assoc]

theorem entries_of_readsEntries
    (hchild : ∀ {payload : Bool} {item : Item} {s s' : Scanner}, s'.members ≤ 128 →
      Reads left payload item s s' → child payload s = .ok s')
    {keys : List (List UInt8)} {found : List (Key × Item)} (hmembers : s'.members ≤ 128)
    (h : ReadsEntries left keys found s s') :
    entries child found.length keys s = .ok s' := by
  induction found generalizing keys s with
  | nil =>
      obtain ⟨body, hbody, hremaining⟩ := h.body
      have hsum := h.members
      have hlist := h.payload
      cases hbody
      obtain ⟨remaining, members, payload⟩ := s
      obtain ⟨remaining', members', payload'⟩ := s'
      simp only [payloadsEntries, append_nil, membersEntries, nil_append,
        Nat.add_zero] at hremaining hsum hlist
      subst hremaining hsum
      rw [length_nil, entries, eq_of_toList hlist]
  | cons entry found ih =>
      obtain ⟨_, hbody, hremaining⟩ := h.body
      cases hbody with
      | @cons key item _ name front body hname hfront hbody =>
          obtain ⟨hapart, hdistinct⟩ := nodup_cons.mp h.distinct
          obtain ⟨hshort, hshorts⟩ := forall_mem_cons.mp h.short
          obtain ⟨hallowed, halloweds⟩ := forall_mem_cons.mp h.allowed
          obtain ⟨hlevel, hlevels⟩ := max_le_iff.mp h.levels
          have hsum := h.members
          have hlist := h.payload
          rw [membersEntries] at hsum
          rw [payloadsEntries, ← append_assoc] at hlist
          rw [append_assoc, append_assoc] at hremaining
          obtain ⟨payload, hpayload⟩ := exists_toList hlist
          cases key with
          | unsigned n => exact hshort.elim
          | negative n => exact hshort.elim
          | text data =>
              have hkey : s.text true = .ok (data,
                  ⟨front ++ (body ++ s'.remaining), s.members, s.payload⟩) :=
                text_eq_ok.mpr ⟨name, hname, ⟨hremaining, rfl, rfl⟩, hshort⟩
              have hitem : child (data = ascii "payload")
                  ⟨front ++ (body ++ s'.remaining), s.members, s.payload⟩ =
                    .ok ⟨body ++ s'.remaining, s.members + membersOf item, payload⟩ := by
                refine hchild (by dsimp only; omega)
                  ⟨⟨front, hfront, rfl⟩, ?_, hlevel, rfl, hpayload⟩
                simpa only [Key.text.injEq] using hallowed
              have hfresh : data ∉ keys := fun hmem =>
                h.fresh data hmem _ (.head _) rfl
              refine bind_eq_ok.mpr ⟨_, hkey, ?_⟩
              dsimp only
              rw [if_neg hfresh]
              refine bind_eq_ok.mpr ⟨_, hitem, ih ⟨⟨body, hbody, rfl⟩, hdistinct,
                fun other hother entry hentry hsame => ?_, hshorts, halloweds, hlevels, ?_, ?_⟩⟩
              · rcases mem_cons.mp hother with rfl | hother
                · exact hapart (mem_map.mpr ⟨entry, hentry, hsame⟩)
                · exact h.fresh other hother entry (.tail _ hentry) hsame
              · dsimp only
                omega
              · rw [hlist, hpayload]

theorem reads_of_item {payload : Bool} (hmembers : s.members ≤ 128)
    (h : item left payload s = .ok s') :
    s'.members ≤ 128 ∧ ∃ found, Reads left payload found s s' := by
  induction left generalizing payload s s' with
  | zero => cases h
  | succ left ih =>
      obtain ⟨⟨⟨major, value⟩, s₁⟩, hheader, h⟩ := bind_eq_ok.mp h
      obtain ⟨head, ⟨hmajor, hhead, hseven⟩, hremaining, hmembers₁, hpayload⟩ :=
        plain_of_header hheader
      dsimp only at h
      split at h
      · cases h
        exact ⟨hmembers₁ ▸ hmembers, .unsigned value, ⟨head, .unsigned hhead, hremaining⟩,
          .unsigned value, by simp [levels], by simp [membersOf, hmembers₁],
          by simp [payloads, hpayload]⟩
      · split at h
        · cases h
        next hone =>
        split at h
        · cases h
        next hsize =>
        obtain ⟨⟨data, s₂⟩, htake, h⟩ := bind_eq_ok.mp h
        obtain ⟨⟨hremaining₂, hmembers₂, -⟩, rfl⟩ := take_eq_ok.mp htake
        obtain ⟨hunder, hnone⟩ := not_or.mp hone
        cases h
        rw [Bool.not_eq_false] at hunder
        subst hunder
        rw [hpayload, Option.not_isSome_iff_eq_none] at hnone
        refine ⟨by dsimp only; omega, .bytes data, ⟨head ++ data, .bytes hhead, ?_⟩,
          .bytes (Nat.le_of_not_lt hsize), by simp [levels], ?_, by simp [payloads, hnone]⟩
        · rw [hremaining, hremaining₂, append_assoc]
        · simp [membersOf, hmembers₂, hmembers₁]
      · obtain ⟨⟨data, s₂⟩, hutf8, hdone⟩ := bind_eq_ok.mp h
        obtain ⟨⟨hremaining₂, hmembers₂, hpayload₂⟩, rfl, hsize, htext⟩ := utf8_eq_ok.mp hutf8
        cases hdone
        refine ⟨by dsimp only; omega, .text data, ⟨head ++ data, .text hhead htext, ?_⟩,
          .text hsize, by simp [levels], by simp [membersOf, hmembers₂, hmembers₁],
          by simp [payloads, hpayload₂, hpayload]⟩
        rw [hremaining, hremaining₂, append_assoc]
      · split at h
        · cases h
        split at h
        · cases h
        next hcount =>
        obtain ⟨hdone, found, rfl, hfound⟩ :=
          readsEntries_of_entries ih (Nat.le_of_not_lt hcount) h
        obtain ⟨body, hbody, hremaining₂⟩ := hfound.body
        refine ⟨hdone, .map found, ⟨head ++ body, .map hhead hbody, ?_⟩,
          .map hfound.distinct hfound.short hfound.allowed, ?_, ?_, ?_⟩
        · rw [hremaining, append_assoc]
          exact congrArg (head ++ ·) hremaining₂
        · rw [levels]
          exact Nat.succ_le_succ hfound.levels
        · rw [hfound.members, membersOf]
          dsimp only
          omega
        · rw [hfound.payload, payloads]
          exact congrArg (fun first => first.toList ++ _) hpayload
      · split at h
        next hvalue =>
          cases h
          obtain ⟨n, hn, rfl⟩ : ∃ n, (n = 20 ∨ n = 21) ∧ head = [initial 7 n] := by
            rcases hseven rfl with rfl | rfl
            · exact ⟨20, .inl rfl, rfl⟩
            · exact ⟨21, .inr rfl, rfl⟩
          exact ⟨hmembers₁ ▸ hmembers, .simple n, ⟨[initial 7 n], .simple (by omega), hremaining⟩,
            .bool hn, by simp [levels], by simp [membersOf, hmembers₁],
            by simp [payloads, hpayload]⟩
        · cases h
      · cases h

theorem plain_of_head {major n : ℕ} {head : List UInt8} (hmajor : major < 7)
    (h : Head major (some n) head) : Plain major n head :=
  ⟨by omega, h, fun hseven => by omega⟩

theorem item_of_reads {payload : Bool} {found : Item} (hmembers : s'.members ≤ 128)
    (h : Reads left payload found s s') : item left payload s = .ok s' := by
  induction left generalizing payload found s s' with
  | zero =>
      have hlevels := h.levels
      cases found <;> simp [levels] at hlevels
  | succ left ih =>
      obtain ⟨⟨bytes, hbytes, hremaining⟩, hallowed, hlevels, hsum, hlist⟩ := h
      cases hallowed with
      | unsigned n =>
          simp only [membersOf, payloads, append_nil, Nat.add_zero] at hsum hlist
          cases hbytes with
          | unsigned hhead =>
              exact bind_eq_ok.mpr ⟨_, header_of_plain
                (plain_of_head (by decide) hhead) ⟨hremaining, hsum, eq_of_toList hlist⟩, rfl⟩
      | @bytes data hsize =>
          simp only [membersOf, payloads, Nat.add_zero] at hsum hlist
          cases hbytes with
          | @bytes _ head hhead =>
              have hlength := Option.length_toList_le (o := s'.payload)
              rw [hlist, length_append, length_singleton] at hlength
              have hnone : s.payload = none :=
                Option.toList_eq_nil_iff.mp (eq_nil_of_length_eq_zero (by omega))
              rw [append_assoc] at hremaining
              refine bind_eq_ok.mpr
                ⟨((2, data.length), ⟨data ++ s'.remaining, s.members, s.payload⟩),
                  header_of_plain (plain_of_head (by decide) hhead) ⟨hremaining, rfl, rfl⟩, ?_⟩
              dsimp only
              rw [if_neg (by rw [hnone]; simp), if_neg (Nat.not_lt_of_le hsize)]
              refine bind_eq_ok.mpr
                ⟨(data, ⟨s'.remaining, s.members, s.payload⟩),
                  take_eq_ok.mpr ⟨⟨rfl, rfl, rfl⟩, rfl⟩, ?_⟩
              rw [hnone, Option.toList_none, nil_append] at hlist
              obtain ⟨remaining', members', payload'⟩ := s'
              dsimp only at hsum hlist
              rw [Option.toList_eq_singleton_iff.mp hlist, hsum]
              rfl
      | @text _ data hsize =>
          simp only [membersOf, payloads, append_nil, Nat.add_zero] at hsum hlist
          cases hbytes with
          | @text _ head hhead htext =>
              rw [append_assoc] at hremaining
              refine bind_eq_ok.mpr
                ⟨((3, data.length), ⟨data ++ s'.remaining, s.members, s.payload⟩),
                  header_of_plain (plain_of_head (by decide) hhead) ⟨hremaining, rfl, rfl⟩, ?_⟩
              exact bind_eq_ok.mpr ⟨_, utf8_eq_ok.mpr
                ⟨⟨rfl, hsum, eq_of_toList hlist⟩, rfl, hsize, htext⟩, rfl⟩
      | @map _ members hdistinct hshort halloweds =>
          rw [levels] at hlevels
          rw [membersOf] at hsum
          rw [payloads] at hlist
          cases hbytes with
          | @map _ head body hhead hbody =>
              rw [append_assoc] at hremaining
              refine bind_eq_ok.mpr
                ⟨((5, members.length), ⟨body ++ s'.remaining, s.members, s.payload⟩),
                  header_of_plain (plain_of_head (by decide) hhead) ⟨hremaining, rfl, rfl⟩, ?_⟩
              have hcount : s.members + members.length ≤ 128 := by omega
              refine (if_neg (show ¬ 2 ^ 64 ≤ s.members + members.length by omega)).trans ?_
              refine (if_neg (Nat.not_lt_of_le hcount)).trans ?_
              exact entries_of_readsEntries ih hmembers ⟨⟨body, hbody, rfl⟩, hdistinct,
                fun key hkey => (by cases hkey), hshort, halloweds, Nat.le_of_succ_le_succ hlevels,
                by rw [hsum, Nat.add_assoc], hlist⟩
          | mapOpen hopens => cases hopens
      | @bool _ n hn =>
          simp only [membersOf, payloads, append_nil, Nat.add_zero] at hsum hlist
          cases hbytes with
          | simple hsmall =>
              have hplain : Plain 7 n [initial 7 n] := by
                refine ⟨by decide, .short hsmall, fun _ => ?_⟩
                rcases hn with rfl | rfl
                · exact .inl rfl
                · exact .inr rfl
              refine bind_eq_ok.mpr ⟨_, header_of_plain hplain
                ⟨hremaining, hsum, eq_of_toList hlist⟩, ?_⟩
              exact if_pos hn
          | simpleLong hlarge => omega

mutual

/-- No byte string is larger than a payload may be. -/
theorem payloads_le {payload : Bool} : ∀ {found : Item}, Allowed payload found →
    ∀ n ∈ payloads found, n ≤ maxPayloadBytes
  | _, .unsigned _, n, hn => by simp [payloads] at hn
  | _, .bytes hsize, n, hn => by
      rw [payloads, mem_singleton] at hn
      exact hn ▸ hsize
  | _, .text _, n, hn => by simp [payloads] at hn
  | _, .map _ _ halloweds, n, hn => payloadsEntries_le halloweds n hn
  | _, .bool _, n, hn => by simp [payloads] at hn

theorem payloadsEntries_le : ∀ {found : List (Key × Item)},
    (∀ entry ∈ found, Allowed (entry.1 = .text (ascii "payload")) entry.2) →
      ∀ n ∈ payloadsEntries found, n ≤ maxPayloadBytes
  | [], _, n, hn => by simp [payloadsEntries] at hn
  | entry :: found, halloweds, n, hn => by
      obtain ⟨hallowed, halloweds⟩ := forall_mem_cons.mp halloweds
      rw [payloadsEntries] at hn
      rcases mem_append.mp hn with hn | hn
      · exact payloads_le hallowed n hn
      · exact payloadsEntries_le halloweds n hn

end

/-- The limits of the profile. -/
structure Profile (item : Item) (size : ℕ) : Prop where
  allowed : Allowed false item
  levels : levels item ≤ 16
  members : membersOf item ≤ 128
  payloads : (payloads item).length ≤ 1
  metadata : size - (Scanner.payloads item).sum ≤ maxMetadataBytes

/-- What is within the profile is no larger than a frame. -/
theorem Profile.size_le {found : Item} {size : ℕ} (h : Profile found size) :
    size ≤ maxFrameBytes := by
  have hmetadata := h.metadata
  have hone := h.payloads
  have hle := payloads_le h.allowed
  have hsum : (Scanner.payloads found).sum ≤ maxPayloadBytes := by
    generalize Scanner.payloads found = sizes at hone hle
    match sizes, hone with
    | [], _ => exact Nat.zero_le _
    | [n], _ => simpa using hle n (.head _)
  unfold maxFrameBytes
  omega

theorem sum_toList (payload : Option ℕ) : payload.toList.sum = payload.getD 0 := by
  cases payload <;> simp

/-- The scan accepts one item of the profile, with nothing behind it, and nothing else. -/
theorem validate_eq_ok (body : List UInt8) :
    validate body = .ok () ↔ ∃ item, Encodes false item body ∧ Profile item body.length := by
  unfold validate
  constructor
  · intro h
    split at h
    · cases h
    obtain ⟨s, hitem, h⟩ := bind_eq_ok.mp h
    obtain ⟨hmembers, found, ⟨bytes, hbytes, hremaining⟩, hallowed, hlevels, hsum, hlist⟩ :=
      reads_of_item (Nat.zero_le _) hitem
    dsimp only at h
    by_cases hend : s.remaining ≠ []
    · rw [if_pos hend] at h
      cases h
    rw [if_neg hend] at h
    by_cases hmetadata : maxMetadataBytes < body.length - s.payload.getD 0
    · rw [if_pos hmetadata] at h
      cases h
    rw [not_ne_iff.mp hend, append_nil] at hremaining
    dsimp only at hremaining hsum hlist
    subst hremaining
    rw [Option.toList_none, nil_append] at hlist
    refine ⟨found, hbytes, hallowed, hlevels, by omega, hlist ▸ Option.length_toList_le, ?_⟩
    rw [← hlist, sum_toList]
    exact Nat.le_of_not_lt hmetadata
  · rintro ⟨found, hbytes, hprofile⟩
    obtain ⟨payload, hpayload⟩ : ∃ payload : Option ℕ, payload.toList = payloads found := by
      have hone := hprofile.payloads
      generalize payloads found = sizes at hone
      match sizes, hone with
      | [], _ => exact ⟨none, rfl⟩
      | [n], _ => exact ⟨some n, rfl⟩
    have hmetadata := hprofile.metadata
    rw [← hpayload, sum_toList] at hmetadata
    have hreads : Reads 16 false found ⟨body, 0, none⟩ ⟨[], membersOf found, payload⟩ :=
      ⟨⟨body, hbytes, (append_nil _).symm⟩, hprofile.allowed, hprofile.levels,
        (Nat.zero_add _).symm, hpayload⟩
    rw [if_neg (Nat.not_lt_of_le hprofile.size_le)]
    refine bind_eq_ok.mpr ⟨_, item_of_reads hprofile.members hreads, ?_⟩
    dsimp only
    rw [if_neg (not_ne_iff.mpr rfl), if_neg (Nat.not_lt_of_le hmetadata)]
    rfl

end Scanner

end Rustack.Lambda
