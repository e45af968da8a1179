import Rustack.Lib.Bytes
import Rustack.Lib.Outcome

/-!
# Snapshot archives

An archive has a header, a directory with an entry for each section, the sections, and a footer
with a checksum.  The writer puts the sections in the order of their kinds.  The reader trusts no
field, and gives the sections in the order of their offsets.
-/

namespace Rustack.Snapshot

open Bytes List
open Except (bind_eq_ok)

abbrev Result := Except String

/-! ## Checked numbers -/

def checkedAddUsize (left right : ℕ) : Result ℕ :=
  if left + right < 2 ^ 64 then .ok (left + right) else .error "snapshot archive size overflow"

def checkedMulUsize (left right : ℕ) : Result ℕ :=
  if left * right < 2 ^ 64 then .ok (left * right) else .error "snapshot archive size overflow"

def usizeToU32 (value : ℕ) : Result ℕ :=
  if value < 2 ^ 32 then .ok value else .error "snapshot archive value does not fit in u32"

def usizeToU64 (value : ℕ) : Result ℕ :=
  if value < 2 ^ 64 then .ok value else .error "snapshot archive value does not fit in u64"

/-! ## Sections -/

inductive ArchiveKind where
  | manifest
  | serviceMeta
  | serviceData
deriving DecidableEq

def ArchiveKind.raw : ArchiveKind → ℕ
  | manifest => 1
  | serviceMeta => 2
  | serviceData => 3

def ArchiveKind.fromRaw : ℕ → Result ArchiveKind
  | 1 => .ok manifest
  | 2 => .ok serviceMeta
  | 3 => .ok serviceData
  | raw => .error ("unsupported snapshot archive kind " ++ toString raw)

structure ArchiveSection where
  kind : UInt16
  flags : UInt16
  rowCount : UInt64
  bytes : List UInt8
deriving DecidableEq

structure DirectoryEntry where
  kind : UInt16
  flags : UInt16
  offset : ℕ
  len : ℕ
  rowCount : UInt64

def MAGIC : List UInt8 := [82, 83, 83, 78, 65, 80, 0, 2]

def HEADER_LEN : ℕ := 36

def DIRECTORY_ENTRY_LEN : ℕ := 28

def FOOTER_LEN : ℕ := 12

def MAX_SECTION_COUNT : ℕ := 4096

/-! ## The writer -/

/-- Sections in the order of their kinds. -/
def byKind (sections : List ArchiveSection) : List ArchiveSection :=
  sections.mergeSort fun a b => decide (a.kind ≤ b.kind)

def checkSections : List UInt16 → List ArchiveSection → Result Unit
  | _, [] => .ok ()
  | seen, s :: sections =>
    if s.kind = 0 then .error "snapshot archive section kind 0 is reserved"
    else if s.flags ≠ 0 then .error "snapshot archive section flags are unsupported"
    else if s.kind ∈ seen then
      .error ("snapshot archive contains duplicate section " ++ toString s.kind)
    else checkSections (s.kind :: seen) sections

def sortedSections (sections : List ArchiveSection) : Result (List ArchiveSection) := do
  checkSections [] (byKind sections)
  return byKind sections

def directoryEntry (s : ArchiveSection) (offset : ℕ) : List UInt8 :=
  le 2 s.kind.toNat ++ (le 2 s.flags.toNat ++ (le 8 offset ++ (le 8 s.bytes.length ++
    le 8 s.rowCount.toNat)))

/-- Where the sections end, and their directory. -/
def writeDirectory : ℕ → List ArchiveSection → Result (ℕ × List UInt8)
  | offset, [] => .ok (offset, [])
  | offset, s :: sections => do
    let len ← usizeToU64 s.bytes.length
    let next ← checkedAddUsize offset len
    let (last, directory) ← writeDirectory next sections
    return (last, directoryEntry s offset ++ directory)

def header (kind : ArchiveKind) (sectionCount fileLen : ℕ) : List UInt8 :=
  MAGIC ++ (le 2 kind.raw ++ (le 2 0 ++ (le 4 HEADER_LEN ++ (le 4 sectionCount ++
    (le 8 fileLen ++ le 8 0)))))

def encodeArchive (crc : List UInt8 → UInt32) (kind : ArchiveKind)
    (sections : List ArchiveSection) : Result (List UInt8) := do
  if sections = [] then throw "snapshot archive must contain at least one section"
  let sections ← sortedSections sections
  let sectionCount ← usizeToU32 sections.length
  let directoryLen ← checkedMulUsize sections.length DIRECTORY_ENTRY_LEN
  let payloadStart ← checkedAddUsize HEADER_LEN directoryLen
  let (offset, directory) ← writeDirectory payloadStart sections
  let fileLen ← checkedAddUsize offset FOOTER_LEN
  let payload := sections.flatMap ArchiveSection.bytes
  let output := header kind sectionCount fileLen ++ (directory ++ payload)
  let payloadLen ← usizeToU64 output.length
  let archive := output ++ (le 4 (crc output).toNat ++ le 8 payloadLen)
  if archive.length ≠ fileLen then throw "snapshot archive writer produced an invalid length"
  return archive

/-! ## The reader -/

structure BinaryCursor where
  bytes : List UInt8
  position : ℕ

namespace BinaryCursor

def readExact (c : BinaryCursor) (len : ℕ) : Result (List UInt8 × BinaryCursor) := do
  let stop ← checkedAddUsize c.position len
  match slice c.bytes c.position stop with
  | none => throw "snapshot archive ended unexpectedly"
  | some part => return (part, { c with position := stop })

/-- A number of so many bytes. -/
def readLe (c : BinaryCursor) (width : ℕ) : Result (ℕ × BinaryCursor) := do
  let (part, c) ← c.readExact width
  return (ofLe part, c)

def readU16 (c : BinaryCursor) : Result (ℕ × BinaryCursor) := c.readLe 2

def readU32 (c : BinaryCursor) : Result (ℕ × BinaryCursor) := c.readLe 4

def readU64 (c : BinaryCursor) : Result (ℕ × BinaryCursor) := c.readLe 8

end BinaryCursor

def validateFooter (crc : List UInt8 → UInt32) (bytes : List UInt8) (footerStart : ℕ) :
    Result Unit := do
  let c : BinaryCursor := ⟨bytes.drop footerStart, 0⟩
  let (expectedCrc, c) ← c.readU32
  let (payloadLen, _) ← c.readU64
  let start ← usizeToU64 footerStart
  if payloadLen ≠ start then throw "snapshot archive footer length does not match"
  if (crc (bytes.take footerStart)).toNat ≠ expectedCrc then throw "snapshot archive CRC mismatch"

def readEntry (c : BinaryCursor) : Result (DirectoryEntry × BinaryCursor) := do
  let (kind, c) ← c.readU16
  let (flags, c) ← c.readU16
  let (offset, c) ← c.readU64
  let (len, c) ← c.readU64
  let (rowCount, c) ← c.readU64
  return (⟨UInt16.ofNat kind, UInt16.ofNat flags, offset, len, UInt64.ofNat rowCount⟩, c)

def readEntries : ℕ → BinaryCursor → List UInt16 → Result (List DirectoryEntry)
  | 0, _, _ => .ok []
  | count + 1, c, seen => do
    let (entry, c) ← readEntry c
    if entry.flags ≠ 0 then throw "snapshot archive section has unsupported flags"
    if entry.kind ∈ seen then
      throw ("snapshot archive contains duplicate section " ++ toString entry.kind)
    let entries ← readEntries count c (entry.kind :: seen)
    return entry :: entries

/-- Entries in the order of their offsets. -/
def byOffset (entries : List DirectoryEntry) : List DirectoryEntry :=
  entries.mergeSort fun a b => decide (a.offset ≤ b.offset)

def checkRanges (directoryEnd footerStart : ℕ) : ℕ → List DirectoryEntry → Result Unit
  | _, [] => .ok ()
  | previousEnd, entry :: entries => do
    let stop ← checkedAddUsize entry.offset entry.len
    if entry.offset < directoryEnd ∨ footerStart < stop ∨ entry.offset < previousEnd then
      throw "snapshot archive section range is invalid"
    checkRanges directoryEnd footerStart stop entries

def readSections (bytes : List UInt8) (payload : Option ℕ) :
    List DirectoryEntry → Result (List ArchiveSection)
  | [] => .ok []
  | entry :: entries => do
    if payload.any fun limit => decide (limit < entry.len) then
      throw "snapshot configured archive byte limit exceeded"
    let stop ← checkedAddUsize entry.offset entry.len
    match slice bytes entry.offset stop with
    | none => throw "snapshot archive section is out of bounds"
    | some part =>
      let sections ← readSections bytes payload entries
      return ⟨entry.kind, entry.flags, entry.rowCount, part⟩ :: sections

/-- The number of sections that a header gives. -/
def readHeader (bytes : List UInt8) (expectedKind : ArchiveKind) : Result ℕ := do
  let c : BinaryCursor := ⟨bytes, 0⟩
  let (magic, c) ← c.readExact 8
  if magic ≠ MAGIC then throw "snapshot archive magic is invalid"
  let (raw, c) ← c.readU16
  let kind ← ArchiveKind.fromRaw raw
  if kind ≠ expectedKind then
    throw ("snapshot archive kind mismatch: expected " ++ toString expectedKind.raw ++ ", got " ++
      toString kind.raw)
  let (flags, c) ← c.readU16
  if flags ≠ 0 then throw "snapshot archive has unsupported flags"
  let (headerLen, c) ← c.readU32
  if headerLen ≠ HEADER_LEN then throw "snapshot archive header length is unsupported"
  let (sectionCount, c) ← c.readU32
  if sectionCount = 0 ∨ MAX_SECTION_COUNT < sectionCount then
    throw "snapshot archive section count is invalid"
  let (fileLen, c) ← c.readU64
  let length ← usizeToU64 bytes.length
  if fileLen ≠ length then throw "snapshot archive length does not match header"
  let (reserved, _) ← c.readU64
  if reserved ≠ 0 then throw "snapshot archive reserved field is non-zero"
  return sectionCount

def parseArchiveLimited (crc : List UInt8 → UInt32) (bytes : List UInt8)
    (expectedKind : ArchiveKind) (payload : Option ℕ) : Result (List ArchiveSection) := do
  let minLen ← checkedAddUsize HEADER_LEN FOOTER_LEN
  if bytes.length < minLen then throw "snapshot archive is too short"
  let sectionCount ← readHeader bytes expectedKind
  let footerStart := bytes.length - FOOTER_LEN
  validateFooter crc bytes footerStart
  let directoryLen ← checkedMulUsize sectionCount DIRECTORY_ENTRY_LEN
  let directoryEnd ← checkedAddUsize HEADER_LEN directoryLen
  if footerStart < directoryEnd then throw "snapshot archive directory is out of bounds"
  match slice bytes HEADER_LEN directoryEnd with
  | none => throw "snapshot archive directory is out of bounds"
  | some directory =>
    let entries ← readEntries sectionCount ⟨directory, 0⟩ []
    checkRanges directoryEnd footerStart directoryEnd (byOffset entries)
    readSections bytes payload (byOffset entries)

def parseArchive (crc : List UInt8 → UInt32) (bytes : List UInt8) (expectedKind : ArchiveKind) :
    Result (List ArchiveSection) :=
  parseArchiveLimited crc bytes expectedKind none

/-! ## What the writer gives -/

/-- A check has been passed. -/
theorem guard_eq_ok {α : Type} {c : Prop} [Decidable c] {e : String} {rest : Unit → Result α}
    {a : α} (h : (if c then (throw e >>= rest) else rest ()) = .ok a) : ¬c ∧ rest () = .ok a := by
  split at h
  · cases h
  · next hc => exact ⟨hc, h⟩

variable {crc : List UInt8 → UInt32} {kind : ArchiveKind} {sections : List ArchiveSection}
  {offset : ℕ}

/-- The bytes of all sections. -/
def total (sections : List ArchiveSection) : ℕ := (sections.flatMap ArchiveSection.bytes).length

def directoryOf : ℕ → List ArchiveSection → List UInt8
  | _, [] => []
  | offset, s :: sections =>
    directoryEntry s offset ++ directoryOf (offset + s.bytes.length) sections

/-- Where the sections begin. -/
def startOf (sections : List ArchiveSection) : ℕ :=
  HEADER_LEN + sections.length * DIRECTORY_ENTRY_LEN

/-- The archive of sections in their order, without its footer. -/
def body (kind : ArchiveKind) (sections : List ArchiveSection) : List UInt8 :=
  header kind sections.length (startOf sections + total sections + FOOTER_LEN) ++
    (directoryOf (startOf sections) sections ++ sections.flatMap ArchiveSection.bytes)

def footer (crc : List UInt8 → UInt32) (output : List UInt8) : List UInt8 :=
  le 4 (crc output).toNat ++ le 8 output.length

theorem checkedAddUsize_eq_ok {left right sum : ℕ} :
    checkedAddUsize left right = .ok sum ↔ left + right < 2 ^ 64 ∧ sum = left + right := by
  unfold checkedAddUsize
  split <;> simp_all [eq_comm]

theorem checkedMulUsize_eq_ok {left right product : ℕ} :
    checkedMulUsize left right = .ok product ↔
      left * right < 2 ^ 64 ∧ product = left * right := by
  unfold checkedMulUsize
  split <;> simp_all [eq_comm]

theorem usizeToU64_eq_ok {value result : ℕ} :
    usizeToU64 value = .ok result ↔ value < 2 ^ 64 ∧ result = value := by
  unfold usizeToU64
  split <;> simp_all [eq_comm]

theorem usizeToU32_eq_ok {value result : ℕ} :
    usizeToU32 value = .ok result ↔ value < 2 ^ 32 ∧ result = value := by
  unfold usizeToU32
  split <;> simp_all [eq_comm]

@[simp] theorem length_header (sectionCount fileLen : ℕ) :
    (header kind sectionCount fileLen).length = HEADER_LEN := by
  simp [header, MAGIC, HEADER_LEN]

@[simp] theorem length_directoryEntry (s : ArchiveSection) :
    (directoryEntry s offset).length = DIRECTORY_ENTRY_LEN := by
  simp [directoryEntry, DIRECTORY_ENTRY_LEN]

@[simp] theorem length_directoryOf :
    (directoryOf offset sections).length = sections.length * DIRECTORY_ENTRY_LEN := by
  induction sections generalizing offset with
  | nil => exact (Nat.zero_mul _).symm
  | cons s sections ih =>
      rw [directoryOf, length_append, length_directoryEntry, ih, length_cons]
      ring

theorem total_cons (s : ArchiveSection) :
    total (s :: sections) = s.bytes.length + total sections := by
  unfold total
  rw [flatMap_cons, length_append]

theorem length_body : (body kind sections).length = startOf sections + total sections := by
  unfold body startOf
  rw [length_append, length_append, length_header, length_directoryOf]
  exact (Nat.add_assoc _ _ _).symm

@[simp] theorem length_footer (output : List UInt8) : (footer crc output).length = FOOTER_LEN := by
  simp [footer, FOOTER_LEN]

theorem writeDirectory_eq_ok {last : ℕ} {directory : List UInt8} (hoffset : offset < 2 ^ 64) :
    writeDirectory offset sections = .ok (last, directory) ↔
      offset + total sections < 2 ^ 64 ∧ last = offset + total sections ∧
        directory = directoryOf offset sections := by
  induction sections generalizing offset last directory with
  | nil =>
      unfold writeDirectory directoryOf
      rw [Except.ok.injEq, Prod.mk.injEq]
      exact ⟨fun h => ⟨hoffset, h.1.symm, h.2.symm⟩, fun h => ⟨h.2.1.symm, h.2.2.symm⟩⟩
  | cons s sections ih =>
      unfold writeDirectory directoryOf
      rw [total_cons, ← Nat.add_assoc]
      simp only [bind_eq_ok, usizeToU64_eq_ok, checkedAddUsize_eq_ok]
      constructor
      · rintro ⟨_, ⟨-, rfl⟩, _, ⟨hnext, rfl⟩, ⟨last', directory'⟩, hrest, hdone⟩
        obtain ⟨hfits, rfl, rfl⟩ := (ih hnext).mp hrest
        cases hdone
        exact ⟨hfits, rfl, rfl⟩
      · rintro ⟨hfits, rfl, rfl⟩
        have hnext : offset + s.bytes.length < 2 ^ 64 := (Nat.le_add_right _ _).trans_lt hfits
        exact ⟨_, ⟨(Nat.le_add_left _ _).trans_lt hnext, rfl⟩, _, ⟨hnext, rfl⟩, _,
          (ih hnext).mpr ⟨hfits, rfl, rfl⟩, rfl⟩

/-- What the writer asks of sections. -/
structure Writable (sections : List ArchiveSection) : Prop where
  nonempty : sections ≠ []
  checked : checkSections [] (byKind sections) = .ok ()
  count : sections.length < 2 ^ 32
  size : startOf sections + total sections + FOOTER_LEN < 2 ^ 64

theorem byKind_perm (sections : List ArchiveSection) : (byKind sections).Perm sections :=
  mergeSort_perm _ _

@[simp] theorem length_byKind (sections : List ArchiveSection) :
    (byKind sections).length = sections.length :=
  (byKind_perm sections).length_eq

theorem startOf_byKind (sections : List ArchiveSection) :
    startOf (byKind sections) = startOf sections := by
  unfold startOf
  rw [length_byKind]

theorem total_byKind (sections : List ArchiveSection) :
    total (byKind sections) = total sections :=
  ((byKind_perm sections).flatMap_right _).length_eq

/-- The archive that is written, and for which sections. -/
theorem encodeArchive_eq_ok {archive : List UInt8} :
    encodeArchive crc kind sections = .ok archive ↔ Writable sections ∧
      archive = body kind (byKind sections) ++ footer crc (body kind (byKind sections)) := by
  unfold encodeArchive
  constructor
  · intro h
    split at h
    · cases h
    · next hnonempty =>
        obtain ⟨sorted', hsorted, h⟩ := bind_eq_ok.mp h
        obtain ⟨⟨⟩, hchecked, hsorted⟩ := bind_eq_ok.mp hsorted
        cases hsorted
        obtain ⟨_, hcount, h⟩ := bind_eq_ok.mp h
        obtain ⟨hfew, rfl⟩ := usizeToU32_eq_ok.mp hcount
        obtain ⟨_, hmul, h⟩ := bind_eq_ok.mp h
        obtain ⟨-, rfl⟩ := checkedMulUsize_eq_ok.mp hmul
        obtain ⟨_, hstart, h⟩ := bind_eq_ok.mp h
        obtain ⟨hlt, rfl⟩ := checkedAddUsize_eq_ok.mp hstart
        obtain ⟨⟨_, _⟩, hwrite, h⟩ := bind_eq_ok.mp h
        obtain ⟨-, rfl, rfl⟩ := (writeDirectory_eq_ok hlt).mp hwrite
        obtain ⟨_, hlen, h⟩ := bind_eq_ok.mp h
        obtain ⟨hfits, rfl⟩ := checkedAddUsize_eq_ok.mp hlen
        obtain ⟨_, hpayload, h⟩ := bind_eq_ok.mp h
        obtain ⟨-, rfl⟩ := usizeToU64_eq_ok.mp hpayload
        change startOf (byKind sections) + total (byKind sections) + FOOTER_LEN < 2 ^ 64 at hfits
        rw [startOf_byKind, total_byKind] at hfits
        rw [length_byKind] at hfew
        dsimp only at h
        split at h
        · cases h
        · cases h
          exact ⟨⟨hnonempty, hchecked, hfew, hfits⟩, rfl⟩
  · rintro ⟨⟨hnonempty, hchecked, hcount, hsize⟩, rfl⟩
    have hsize' : startOf (byKind sections) + total (byKind sections) + FOOTER_LEN < 2 ^ 64 := by
      rwa [startOf_byKind, total_byKind]
    have hstart : startOf (byKind sections) < 2 ^ 64 := by omega
    have hmul : (byKind sections).length * DIRECTORY_ENTRY_LEN < 2 ^ 64 :=
      (Nat.le_add_left _ HEADER_LEN).trans_lt hstart
    have hsorted : sortedSections sections = .ok (byKind sections) :=
      bind_eq_ok.mpr ⟨(), hchecked, rfl⟩
    have hbody : (body kind (byKind sections)).length < 2 ^ 64 := by
      rw [length_body]
      omega
    have hwrite : writeDirectory (startOf (byKind sections)) (byKind sections) =
        .ok (startOf (byKind sections) + total (byKind sections),
          directoryOf (startOf (byKind sections)) (byKind sections)) :=
      (writeDirectory_eq_ok hstart).mpr ⟨by omega, rfl, rfl⟩
    rw [if_neg hnonempty]
    refine bind_eq_ok.mpr ⟨_, hsorted, ?_⟩
    refine bind_eq_ok.mpr ⟨_, usizeToU32_eq_ok.mpr
      ⟨(length_byKind sections).symm ▸ hcount, rfl⟩, ?_⟩
    refine bind_eq_ok.mpr ⟨_, checkedMulUsize_eq_ok.mpr ⟨hmul, rfl⟩, ?_⟩
    refine bind_eq_ok.mpr ⟨_, checkedAddUsize_eq_ok.mpr ⟨hstart, rfl⟩, ?_⟩
    refine bind_eq_ok.mpr ⟨_, hwrite, ?_⟩
    refine bind_eq_ok.mpr ⟨_, checkedAddUsize_eq_ok.mpr ⟨hsize', rfl⟩, ?_⟩
    refine bind_eq_ok.mpr ⟨_, usizeToU64_eq_ok.mpr ⟨hbody, rfl⟩, ?_⟩
    have hlength : (body kind (byKind sections) ++
        footer crc (body kind (byKind sections))).length =
          startOf (byKind sections) + total (byKind sections) + FOOTER_LEN := by
      rw [length_append, length_body, length_footer]
    exact if_neg (not_not.mpr hlength)

/-! ## What the reader takes -/

namespace BinaryCursor

/-- What a cursor has still to read. -/
structure At (c : BinaryCursor) (rest : List UInt8) : Prop where
  drop : c.bytes.drop c.position = rest
  position : c.position ≤ c.bytes.length
  length : c.bytes.length < 2 ^ 64

theorem at_start {bytes : List UInt8} (h : bytes.length < 2 ^ 64) :
    (⟨bytes, 0⟩ : BinaryCursor).At bytes :=
  ⟨drop_zero, Nat.zero_le _, h⟩

variable {c : BinaryCursor}

theorem readExact_eq_ok {len : ℕ} {part : List UInt8} {c' : BinaryCursor} :
    c.readExact len = .ok (part, c') ↔ c.position + len < 2 ^ 64 ∧
      slice c.bytes c.position (c.position + len) = some part ∧
        c' = ⟨c.bytes, c.position + len⟩ := by
  unfold readExact
  rw [bind_eq_ok]
  constructor
  · rintro ⟨_, hadd, h⟩
    obtain ⟨hlt, rfl⟩ := checkedAddUsize_eq_ok.mp hadd
    cases hslice : slice c.bytes c.position (c.position + len) with
    | none =>
        rw [hslice] at h
        cases h
    | some found =>
        rw [hslice] at h
        cases h
        exact ⟨hlt, rfl, rfl⟩
  · rintro ⟨hlt, hslice, rfl⟩
    refine ⟨_, checkedAddUsize_eq_ok.mpr ⟨hlt, rfl⟩, ?_⟩
    rw [hslice]
    rfl

theorem readExact_at {part rest : List UInt8} (h : c.At (part ++ rest)) :
    ∃ c', c.readExact part.length = .ok (part, c') ∧ c'.At rest := by
  have hlength : c.bytes.length - c.position = part.length + rest.length := by
    rw [← length_drop, h.drop, length_append]
  have hposition := h.position
  have hlt := h.length
  refine ⟨⟨c.bytes, c.position + part.length⟩, readExact_eq_ok.mpr ⟨by omega, ?_, rfl⟩,
    ⟨?_, ?_, hlt⟩⟩
  · refine slice_eq_some.mpr ⟨⟨Nat.le_add_right _ _, by omega⟩, ?_⟩
    rw [drop_take, h.drop, Nat.add_sub_cancel_left, take_left]
  · change c.bytes.drop (c.position + part.length) = rest
    rw [← drop_drop, h.drop, drop_left]
  · change c.position + part.length ≤ c.bytes.length
    omega

theorem readLe_at {width n : ℕ} {rest : List UInt8} (hn : n < 256 ^ width)
    (h : c.At (le width n ++ rest)) : ∃ c', c.readLe width = .ok (n, c') ∧ c'.At rest := by
  obtain ⟨c', hread, hrest⟩ := readExact_at h
  rw [length_le] at hread
  refine ⟨c', ?_, hrest⟩
  unfold readLe
  rw [hread]
  change Except.ok (ofLe (le width n), c') = _
  rw [ofLe_le, Nat.mod_eq_of_lt hn]

/-- What has been read is what stands there. -/
theorem readLe_eq_ok {width n : ℕ} {c' : BinaryCursor} (h : c.readLe width = .ok (n, c')) :
    n = ofLe ((c.bytes.drop c.position).take width) ∧ c' = ⟨c.bytes, c.position + width⟩ := by
  obtain ⟨⟨part, c''⟩, hread, h⟩ := bind_eq_ok.mp h
  obtain ⟨-, hslice, rfl⟩ := readExact_eq_ok.mp hread
  obtain ⟨-, rfl⟩ := slice_eq_some.mp hslice
  cases h
  rw [drop_take, Nat.add_sub_cancel_left]
  exact ⟨rfl, rfl⟩

end BinaryCursor

open BinaryCursor (readLe_at readU16 readU32 readU64 at_start readLe_eq_ok)

/-! ## Reading what has been written -/

theorem ArchiveKind.fromRaw_raw (kind : ArchiveKind) : fromRaw kind.raw = .ok kind := by
  cases kind <;> rfl

theorem ArchiveKind.raw_lt (kind : ArchiveKind) : kind.raw < 256 ^ 2 := by
  cases kind <;> decide

/-- A header is taken for its own kind, and for so many sections. -/
theorem readHeader_header (expected : ArchiveKind) {sectionCount : ℕ} {bytes rest : List UInt8}
    (hbytes : bytes = header kind sectionCount bytes.length ++ rest) (hlt : bytes.length < 2 ^ 64)
    (hcount : sectionCount < 2 ^ 32) :
    if kind = expected ∧ sectionCount ≠ 0 ∧ sectionCount ≤ MAX_SECTION_COUNT then
      readHeader bytes expected = .ok sectionCount
    else ∃ e, readHeader bytes expected = .error e := by
  have hstart : BinaryCursor.At ⟨bytes, 0⟩ (MAGIC ++ (le 2 kind.raw ++ (le 2 0 ++
      (le 4 HEADER_LEN ++ (le 4 sectionCount ++ (le 8 bytes.length ++ (le 8 0 ++ rest))))))) := by
    refine ⟨?_, Nat.zero_le _, hlt⟩
    have hsame := hbytes
    simp only [header, append_assoc] at hsame
    exact drop_zero.trans hsame
  obtain ⟨c₁, hmagic, h₁⟩ := BinaryCursor.readExact_at hstart
  obtain ⟨c₂, hkind, h₂⟩ := readLe_at kind.raw_lt h₁
  obtain ⟨c₃, hflags, h₃⟩ := readLe_at (by decide) h₂
  obtain ⟨c₄, hheader, h₄⟩ := readLe_at (by decide) h₃
  obtain ⟨c₅, hsections, h₅⟩ := readLe_at (hcount.trans_eq (by norm_num)) h₄
  obtain ⟨c₆, hlen, h₆⟩ := readLe_at (hlt.trans_eq (by norm_num)) h₅
  obtain ⟨c₇, hreserved, -⟩ := readLe_at (by decide) h₆
  have hfits : usizeToU64 bytes.length = .ok bytes.length := usizeToU64_eq_ok.mpr ⟨hlt, rfl⟩
  have hmagic' : BinaryCursor.readExact ⟨bytes, 0⟩ 8 = .ok (MAGIC, c₁) := hmagic
  unfold readHeader
  simp only [readU16, readU32, readU64, hmagic', hkind,
    hflags, hheader, hsections, hlen, hreserved, hfits, ArchiveKind.fromRaw_raw, bind, Except.bind,
    ne_eq, not_true_eq_false, if_false]
  by_cases hexpected : kind = expected
  · by_cases hmany : sectionCount = 0 ∨ MAX_SECTION_COUNT < sectionCount
    · rw [if_neg (by omega), if_neg (not_not.mpr hexpected), if_pos hmany]
      exact ⟨_, rfl⟩
    · rw [if_pos ⟨hexpected, by omega, by omega⟩, if_neg (not_not.mpr hexpected), if_neg hmany]
      rfl
  · rw [if_neg (fun h => hexpected h.1), if_pos hexpected]
    exact ⟨_, rfl⟩

theorem validateFooter_footer {output : List UInt8} (hlt : output.length < 2 ^ 64) :
    validateFooter crc (output ++ footer crc output) output.length = .ok () := by
  have hstart : BinaryCursor.At ⟨(output ++ footer crc output).drop output.length, 0⟩
      (le 4 (crc output).toNat ++ (le 8 output.length ++ [])) := by
    rw [drop_left, append_nil]
    exact at_start (by rw [length_footer]; decide)
  obtain ⟨c₁, hcrc, h₁⟩ := readLe_at ((crc output).toNat_lt.trans_eq (by norm_num))
    hstart
  obtain ⟨c₂, hlen, -⟩ := readLe_at (hlt.trans_eq (by norm_num)) h₁
  have hfits : usizeToU64 output.length = .ok output.length := usizeToU64_eq_ok.mpr ⟨hlt, rfl⟩
  unfold validateFooter
  simp only [readU32, readU64, hcrc, hlen, hfits, take_left, bind,
    Except.bind, ne_eq, not_true_eq_false, if_false]
  rfl

/-- The entry that is written for a section. -/
def entryOf (s : ArchiveSection) (offset : ℕ) : DirectoryEntry :=
  ⟨s.kind, s.flags, offset, s.bytes.length, s.rowCount⟩

def entriesOf : ℕ → List ArchiveSection → List DirectoryEntry
  | _, [] => []
  | offset, s :: sections => entryOf s offset :: entriesOf (offset + s.bytes.length) sections

theorem readEntry_at {c : BinaryCursor} {s : ArchiveSection} {rest : List UInt8}
    (hoffset : offset < 2 ^ 64) (hlen : s.bytes.length < 2 ^ 64)
    (h : c.At (directoryEntry s offset ++ rest)) :
    ∃ c', readEntry c = .ok (entryOf s offset, c') ∧ c'.At rest := by
  simp only [directoryEntry, append_assoc] at h
  obtain ⟨c₁, hkind, h₁⟩ := readLe_at (s.kind.toNat_lt.trans_eq (by norm_num)) h
  obtain ⟨c₂, hflags, h₂⟩ := readLe_at (s.flags.toNat_lt.trans_eq (by norm_num)) h₁
  obtain ⟨c₃, hat, h₃⟩ := readLe_at (hoffset.trans_eq (by norm_num)) h₂
  obtain ⟨c₄, hbytes, h₄⟩ := readLe_at (hlen.trans_eq (by norm_num)) h₃
  obtain ⟨c₅, hrows, h₅⟩ := readLe_at (s.rowCount.toNat_lt.trans_eq (by norm_num)) h₄
  refine ⟨c₅, ?_, h₅⟩
  unfold readEntry
  simp only [readU16, readU64, hkind, hflags, hat, hbytes, hrows, bind,
    Except.bind, UInt16.ofNat_toNat, UInt64.ofNat_toNat]
  rfl

theorem checkSections_cons {seen : List UInt16} {s : ArchiveSection}
    (h : checkSections seen (s :: sections) = .ok ()) :
    s.kind ≠ 0 ∧ s.flags = 0 ∧ s.kind ∉ seen ∧
      checkSections (s.kind :: seen) sections = .ok () := by
  unfold checkSections at h
  split_ifs at h with hkind hflags hseen
  exact ⟨hkind, not_not.mp hflags, hseen, h⟩

theorem readEntries_directoryOf {c : BinaryCursor} {seen : List UInt16} {rest : List UInt8}
    (hfits : offset + total sections < 2 ^ 64) (hchecked : checkSections seen sections = .ok ())
    (h : c.At (directoryOf offset sections ++ rest)) :
    readEntries sections.length c seen = .ok (entriesOf offset sections) := by
  induction sections generalizing offset seen c with
  | nil => rfl
  | cons s sections ih =>
      obtain ⟨-, hflags, hseen, hchecked⟩ := checkSections_cons hchecked
      rw [total_cons] at hfits
      rw [directoryOf, append_assoc] at h
      obtain ⟨c', hentry, h'⟩ := readEntry_at (by omega) (by omega) h
      have hrest := ih (by omega) hchecked h'
      rw [length_cons]
      unfold readEntries
      rw [hentry]
      change (if s.flags ≠ 0 then _ else _) = _
      rw [if_neg (not_not.mpr hflags)]
      change (if s.kind ∈ seen then _ else _) = _
      rw [if_neg hseen]
      change (readEntries sections.length c' (s.kind :: seen) >>= fun entries =>
        pure (entryOf s offset :: entries)) = _
      rw [hrest]
      rfl

theorem offset_le_of_mem {entry : DirectoryEntry} (h : entry ∈ entriesOf offset sections) :
    offset ≤ entry.offset := by
  induction sections generalizing offset with
  | nil => cases h
  | cons s sections ih =>
      rcases mem_cons.mp h with rfl | h
      · exact le_rfl
      · exact (Nat.le_add_right _ _).trans (ih h)

theorem byOffset_entriesOf : byOffset (entriesOf offset sections) = entriesOf offset sections := by
  refine mergeSort_of_pairwise ?_
  induction sections generalizing offset with
  | nil => exact List.Pairwise.nil
  | cons s sections ih =>
      refine List.Pairwise.cons (fun entry hentry => decide_eq_true ?_) ih
      exact (Nat.le_add_right _ _).trans (offset_le_of_mem hentry)

theorem checkRanges_entriesOf {directoryEnd footerStart : ℕ} (hstart : directoryEnd ≤ offset)
    (hfits : offset + total sections ≤ footerStart) (hlt : footerStart < 2 ^ 64) :
    checkRanges directoryEnd footerStart offset (entriesOf offset sections) = .ok () := by
  induction sections generalizing offset with
  | nil => rfl
  | cons s sections ih =>
      rw [total_cons] at hfits
      have hadd : checkedAddUsize offset s.bytes.length = .ok (offset + s.bytes.length) :=
        checkedAddUsize_eq_ok.mpr ⟨by omega, rfl⟩
      unfold entriesOf checkRanges
      refine bind_eq_ok.mpr ⟨_, hadd, ?_⟩
      change (if offset < directoryEnd ∨ footerStart < offset + s.bytes.length ∨ offset < offset
        then _ else _) = _
      rw [if_neg (by omega)]
      exact ih (by omega) (by omega)

theorem readSections_entriesOf {front rest bytes : List UInt8} (hfront : front.length = offset)
    (hbytes : bytes = front ++ (sections.flatMap ArchiveSection.bytes ++ rest))
    (hlt : bytes.length < 2 ^ 64) :
    readSections bytes none (entriesOf offset sections) = .ok sections := by
  induction sections generalizing offset front with
  | nil => rfl
  | cons s sections ih =>
      rw [flatMap_cons, append_assoc] at hbytes
      have hslice : slice bytes offset (offset + s.bytes.length) = some s.bytes := by
        rw [hbytes, ← hfront]
        exact slice_append _ _ _
      have hadd : checkedAddUsize offset s.bytes.length = .ok (offset + s.bytes.length) := by
        obtain ⟨⟨-, hle⟩, -⟩ := slice_eq_some.mp hslice
        exact checkedAddUsize_eq_ok.mpr ⟨hle.trans_lt hlt, rfl⟩
      have hnext : (front ++ s.bytes).length = offset + s.bytes.length := by
        rw [length_append, hfront]
      have hrest := ih hnext (by rw [append_assoc]; exact hbytes)
      unfold entriesOf readSections
      change (checkedAddUsize offset s.bytes.length >>= _) = _
      rw [hadd]
      change (match slice bytes offset (offset + s.bytes.length) with
        | none => _
        | some part => _) = _
      rw [hslice]
      change (readSections bytes none (entriesOf (offset + s.bytes.length) sections) >>= _) = _
      rw [hrest]
      rfl

/-- An archive is read back for its own kind, if it does not have too many sections. -/
theorem parseArchive_written (h : Writable sections) {archive : List UInt8}
    (harchive : archive = body kind (byKind sections) ++ footer crc (body kind (byKind sections)))
    (expected : ArchiveKind) :
    if kind = expected ∧ sections.length ≤ MAX_SECTION_COUNT then
      parseArchive crc archive expected = .ok (byKind sections)
    else ∃ e, parseArchive crc archive expected = .error e := by
  have hsize : startOf (byKind sections) + total (byKind sections) + FOOTER_LEN < 2 ^ 64 := by
    rw [startOf_byKind, total_byKind]
    exact h.size
  have hlength : archive.length = startOf (byKind sections) + total (byKind sections) +
      FOOTER_LEN := by
    rw [harchive, length_append, length_body, length_footer]
  have hpositive : 0 < sections.length := length_pos_iff.mpr h.nonempty
  have hbytes : archive = header kind sections.length archive.length ++
      (directoryOf (startOf (byKind sections)) (byKind sections) ++
        ((byKind sections).flatMap ArchiveSection.bytes ++
          footer crc (body kind (byKind sections)))) := by
    rw [hlength, ← length_byKind sections]
    rw [harchive]
    unfold body
    rw [append_assoc, append_assoc]
  have hheader := readHeader_header expected hbytes (by omega) h.count
  have hmin : checkedAddUsize HEADER_LEN FOOTER_LEN = .ok (HEADER_LEN + FOOTER_LEN) :=
    checkedAddUsize_eq_ok.mpr ⟨by decide, rfl⟩
  have hlong : ¬archive.length < HEADER_LEN + FOOTER_LEN := by
    rw [hlength]
    unfold startOf
    omega
  have hfooterStart : archive.length - FOOTER_LEN = (body kind (byKind sections)).length := by
    rw [hlength, length_body, Nat.add_sub_cancel]
  have hfooter : validateFooter crc archive (archive.length - FOOTER_LEN) = .ok () := by
    rw [hfooterStart, harchive]
    exact validateFooter_footer (by rw [length_body]; omega)
  unfold parseArchive parseArchiveLimited
  by_cases hok : kind = expected ∧ sections.length ≤ MAX_SECTION_COUNT
  · rw [if_pos ⟨hok.1, hpositive.ne', hok.2⟩] at hheader
    rw [if_pos hok]
    have hmul : checkedMulUsize sections.length DIRECTORY_ENTRY_LEN =
        .ok (sections.length * DIRECTORY_ENTRY_LEN) := by
      refine checkedMulUsize_eq_ok.mpr ⟨?_, rfl⟩
      have hle : sections.length * DIRECTORY_ENTRY_LEN ≤ 4096 * DIRECTORY_ENTRY_LEN :=
        Nat.mul_le_mul_right _ hok.2
      exact hle.trans_lt (by decide)
    have hend : checkedAddUsize HEADER_LEN (sections.length * DIRECTORY_ENTRY_LEN) =
        .ok (startOf (byKind sections)) := by
      refine checkedAddUsize_eq_ok.mpr ⟨?_, ?_⟩
      · rw [startOf_byKind] at hsize
        change startOf sections < 2 ^ 64
        omega
      · rw [startOf_byKind]
        rfl
    have hdirectory : slice archive HEADER_LEN (startOf (byKind sections)) =
        some (directoryOf (startOf (byKind sections)) (byKind sections)) := by
      have hslice := slice_append (header kind sections.length archive.length)
        (directoryOf (startOf (byKind sections)) (byKind sections))
        ((byKind sections).flatMap ArchiveSection.bytes ++
          footer crc (body kind (byKind sections)))
      rwa [← hbytes, length_header, length_directoryOf] at hslice
    have hentries : readEntries sections.length
        ⟨directoryOf (startOf (byKind sections)) (byKind sections), 0⟩ [] =
          .ok (entriesOf (startOf (byKind sections)) (byKind sections)) := by
      have hshort : (directoryOf (startOf (byKind sections)) (byKind sections)).length <
          2 ^ 64 := by
        rw [length_directoryOf]
        change HEADER_LEN + (byKind sections).length * DIRECTORY_ENTRY_LEN + _ + _ < _ at hsize
        omega
      have hat : BinaryCursor.At ⟨directoryOf (startOf (byKind sections)) (byKind sections), 0⟩
          (directoryOf (startOf (byKind sections)) (byKind sections) ++ []) := by
        rw [append_nil]
        exact at_start hshort
      rw [← length_byKind sections]
      exact readEntries_directoryOf (by omega) h.checked hat
    have hranges : checkRanges (startOf (byKind sections)) (archive.length - FOOTER_LEN)
        (startOf (byKind sections))
          (byOffset (entriesOf (startOf (byKind sections)) (byKind sections))) = .ok () := by
      rw [byOffset_entriesOf]
      refine checkRanges_entriesOf le_rfl ?_ ?_
      · rw [hfooterStart, length_body]
      · omega
    have hsections : readSections archive none
        (byOffset (entriesOf (startOf (byKind sections)) (byKind sections))) =
          .ok (byKind sections) := by
      rw [byOffset_entriesOf]
      have hfront : (header kind sections.length archive.length ++
          directoryOf (startOf (byKind sections)) (byKind sections)).length =
            startOf (byKind sections) := by
        rw [length_append, length_header, length_directoryOf]
        rfl
      exact readSections_entriesOf hfront (by rw [append_assoc]; exact hbytes) (by omega)
    refine bind_eq_ok.mpr ⟨_, hmin, ?_⟩
    rw [if_neg hlong]
    refine bind_eq_ok.mpr ⟨_, hheader, ?_⟩
    refine bind_eq_ok.mpr ⟨_, hfooter, ?_⟩
    refine bind_eq_ok.mpr ⟨_, hmul, ?_⟩
    refine bind_eq_ok.mpr ⟨_, hend, ?_⟩
    rw [if_neg (by rw [hfooterStart, length_body]; omega), hdirectory]
    refine bind_eq_ok.mpr ⟨_, hentries, ?_⟩
    exact bind_eq_ok.mpr ⟨_, hranges, hsections⟩
  · rw [if_neg (by tauto)] at hheader
    rw [if_neg hok]
    obtain ⟨e, he⟩ := hheader
    refine ⟨e, ?_⟩
    rw [hmin]
    change (if archive.length < HEADER_LEN + FOOTER_LEN then _
      else (readHeader archive expected >>= _)) = _
    rw [if_neg hlong, he]
    rfl

/-! ## What is read is safe -/

/-- The section that an entry stands for. -/
def sectionOf (bytes : List UInt8) (entry : DirectoryEntry) : ArchiveSection :=
  { kind := entry.kind
    flags := entry.flags
    rowCount := entry.rowCount
    bytes := (bytes.take (entry.offset + entry.len)).drop entry.offset }

/-- Sections that lie apart between the directory and the footer, as the directory says. -/
structure ReadSafely (bytes : List UInt8) (sections : List ArchiveSection) : Prop where
  length : ofLe ((bytes.drop 20).take 8) = bytes.length
  kinds : (sections.map ArchiveSection.kind).Nodup
  ranges : ∃ (directory : List UInt8) (listed entries : List DirectoryEntry),
    slice bytes HEADER_LEN (startOf sections) = some directory ∧
      readEntries sections.length ⟨directory, 0⟩ [] = .ok listed ∧ entries.Perm listed ∧
      sections = entries.map (sectionOf bytes) ∧
      (∀ entry ∈ entries, startOf sections ≤ entry.offset ∧
        entry.offset + entry.len ≤ bytes.length - FOOTER_LEN) ∧
      entries.Pairwise fun a b => a.offset + a.len ≤ b.offset

theorem readEntries_eq_ok {count : ℕ} {c : BinaryCursor} {seen : List UInt16}
    {entries : List DirectoryEntry} (h : readEntries count c seen = .ok entries) :
    entries.length = count ∧ (entries.map DirectoryEntry.kind).Nodup ∧
      ∀ entry ∈ entries, entry.kind ∉ seen := by
  induction count generalizing c seen entries with
  | zero =>
      cases h
      exact ⟨rfl, nodup_nil, fun _ h => absurd h not_mem_nil⟩
  | succ count ih =>
      obtain ⟨⟨entry, c'⟩, -, h⟩ := bind_eq_ok.mp h
      dsimp only at h
      split at h
      · cases h
      · split at h
        · cases h
        · next hseen =>
            obtain ⟨rest, hrest, h⟩ := bind_eq_ok.mp h
            cases h
            obtain ⟨hlength, hnodup, hapart⟩ := ih hrest
            refine ⟨congrArg Nat.succ hlength, nodup_cons.mpr ⟨?_, hnodup⟩, ?_⟩
            · intro hmem
              obtain ⟨other, hother, hkind⟩ := mem_map.mp hmem
              exact hapart other hother (hkind ▸ mem_cons_self)
            · intro other hother
              rcases mem_cons.mp hother with rfl | hother
              · exact hseen
              · exact fun hmem => hapart other hother (.tail _ hmem)

theorem checkRanges_eq_ok {directoryEnd footerStart previousEnd : ℕ}
    {entries : List DirectoryEntry}
    (h : checkRanges directoryEnd footerStart previousEnd entries = .ok ()) :
    (∀ entry ∈ entries, previousEnd ≤ entry.offset ∧ directoryEnd ≤ entry.offset ∧
        entry.offset + entry.len ≤ footerStart) ∧
      entries.Pairwise fun a b => a.offset + a.len ≤ b.offset := by
  induction entries generalizing previousEnd with
  | nil => exact ⟨fun _ h => absurd h not_mem_nil, List.Pairwise.nil⟩
  | cons entry entries ih =>
      obtain ⟨_, hadd, h⟩ := bind_eq_ok.mp h
      obtain ⟨-, rfl⟩ := checkedAddUsize_eq_ok.mp hadd
      split at h
      · cases h
      · next hrange =>
          obtain ⟨hall, hpairs⟩ := ih h
          refine ⟨fun other hother => ?_, List.Pairwise.cons (fun b hb => (hall b hb).1) hpairs⟩
          rcases mem_cons.mp hother with rfl | hother
          · omega
          · have := hall other hother
            omega

theorem readSections_eq_ok {bytes : List UInt8} {payload : Option ℕ}
    {entries : List DirectoryEntry} (h : readSections bytes payload entries = .ok sections) :
    sections = entries.map (sectionOf bytes) := by
  induction entries generalizing sections with
  | nil =>
      cases h
      rfl
  | cons entry entries ih =>
      unfold readSections at h
      split at h
      · cases h
      · obtain ⟨_, hadd, h⟩ := bind_eq_ok.mp h
        obtain ⟨-, rfl⟩ := checkedAddUsize_eq_ok.mp hadd
        split at h
        · cases h
        · next part hslice =>
            obtain ⟨rest, hrest, h⟩ := bind_eq_ok.mp h
            cases h
            obtain ⟨-, rfl⟩ := slice_eq_some.mp hslice
            rw [map_cons, ← ih hrest]
            rfl

/-- The length in the header is that of the archive. -/
theorem readHeader_eq_ok {bytes : List UInt8} {expected : ArchiveKind} {sectionCount : ℕ}
    (h : readHeader bytes expected = .ok sectionCount) :
    ofLe ((bytes.drop 20).take 8) = bytes.length := by
  obtain ⟨⟨magic, c₁⟩, hmagic, h⟩ := bind_eq_ok.mp h
  obtain ⟨-, -, rfl⟩ := BinaryCursor.readExact_eq_ok.mp hmagic
  obtain ⟨-, h⟩ := guard_eq_ok h
  obtain ⟨⟨raw, c₂⟩, hraw, h⟩ := bind_eq_ok.mp h
  obtain ⟨-, rfl⟩ := readLe_eq_ok hraw
  obtain ⟨_, -, h⟩ := bind_eq_ok.mp h
  obtain ⟨-, h⟩ := guard_eq_ok h
  obtain ⟨⟨flags, c₃⟩, hflags, h⟩ := bind_eq_ok.mp h
  obtain ⟨-, rfl⟩ := readLe_eq_ok hflags
  obtain ⟨-, h⟩ := guard_eq_ok h
  obtain ⟨⟨headerLen, c₄⟩, hlen, h⟩ := bind_eq_ok.mp h
  obtain ⟨-, rfl⟩ := readLe_eq_ok hlen
  obtain ⟨-, h⟩ := guard_eq_ok h
  obtain ⟨⟨count, c₅⟩, hcount, h⟩ := bind_eq_ok.mp h
  obtain ⟨-, rfl⟩ := readLe_eq_ok hcount
  obtain ⟨-, h⟩ := guard_eq_ok h
  obtain ⟨⟨fileLen, c₆⟩, hfile, h⟩ := bind_eq_ok.mp h
  obtain ⟨hvalue, -⟩ := readLe_eq_ok hfile
  obtain ⟨_, hlength, h⟩ := bind_eq_ok.mp h
  obtain ⟨-, rfl⟩ := usizeToU64_eq_ok.mp hlength
  obtain ⟨hsame, -⟩ := guard_eq_ok h
  exact hvalue.symm.trans (not_not.mp hsame)

theorem readSafely_of_parse {bytes : List UInt8} {expected : ArchiveKind} {payload : Option ℕ}
    (h : parseArchiveLimited crc bytes expected payload = .ok sections) :
    ReadSafely bytes sections := by
  obtain ⟨_, -, h⟩ := bind_eq_ok.mp h
  obtain ⟨-, h⟩ := guard_eq_ok h
  obtain ⟨sectionCount, hheader, h⟩ := bind_eq_ok.mp h
  obtain ⟨_, -, h⟩ := bind_eq_ok.mp h
  obtain ⟨_, hmul, h⟩ := bind_eq_ok.mp h
  obtain ⟨-, rfl⟩ := checkedMulUsize_eq_ok.mp hmul
  obtain ⟨_, hend, h⟩ := bind_eq_ok.mp h
  obtain ⟨-, rfl⟩ := checkedAddUsize_eq_ok.mp hend
  obtain ⟨-, h⟩ := guard_eq_ok h
  dsimp only at h
  split at h
  · cases h
  · next directory hdirectory =>
      obtain ⟨listed, hlisted, h⟩ := bind_eq_ok.mp h
      obtain ⟨⟨⟩, hranges, h⟩ := bind_eq_ok.mp h
      have hsections := readSections_eq_ok h
      obtain ⟨hcount, hnodup, -⟩ := readEntries_eq_ok hlisted
      obtain ⟨hall, hpairs⟩ := checkRanges_eq_ok hranges
      have hperm : (byOffset listed).Perm listed := mergeSort_perm _ _
      have hlength : sections.length = sectionCount := by
        rw [hsections, length_map, hperm.length_eq, hcount]
      subst hlength
      refine ⟨readHeader_eq_ok hheader, ?_, directory, listed, byOffset listed, hdirectory,
        hlisted, hperm, hsections, fun entry hentry => (hall entry hentry).2, hpairs⟩
      rw [hsections, map_map]
      exact ((hperm.map DirectoryEntry.kind).nodup_iff).mpr hnodup

/-! ## The format -/

/-- An archive is read back for its own kind and for no other, and whatever is read is safe. -/
structure Faithful (crc : List UInt8 → UInt32) (kind : ArchiveKind)
    (sections : List ArchiveSection) (archive : List UInt8) : Prop where
  parsed : parseArchive crc archive kind = .ok (byKind sections)
  refused : ∀ other, other ≠ kind → ∃ e, parseArchive crc archive other = .error e
  safe : ∀ bytes expected parsed, parseArchive crc bytes expected = .ok parsed →
    ReadSafely bytes parsed

/-- The reader has a limit on the number of sections that the writer does not have. -/
theorem not_faithful_of_many {archive : List UInt8}
    (h : encodeArchive crc kind sections = .ok archive)
    (hmany : ¬sections.length ≤ MAX_SECTION_COUNT) :
    ¬Faithful crc kind sections archive := by
  intro hfaithful
  obtain ⟨hwritable, harchive⟩ := encodeArchive_eq_ok.mp h
  have herror := parseArchive_written hwritable harchive kind
  rw [if_neg (fun h => hmany h.2), hfaithful.parsed] at herror
  obtain ⟨e, he⟩ := herror
  cases he

/-- What the writer accepts is read back exactly where it has no more than `4096` sections. -/
theorem faithful_iff {archive : List UInt8} (h : encodeArchive crc kind sections = .ok archive) :
    Faithful crc kind sections archive ↔ sections.length ≤ MAX_SECTION_COUNT := by
  obtain ⟨hwritable, harchive⟩ := encodeArchive_eq_ok.mp h
  have hparse := parseArchive_written hwritable harchive
  constructor
  · intro hfaithful
    by_contra hmany
    exact not_faithful_of_many h hmany hfaithful
  · intro hfew
    refine ⟨?_, fun other hother => ?_, fun bytes expected parsed => readSafely_of_parse⟩
    · have hok := hparse kind
      rwa [if_pos ⟨rfl, hfew⟩] at hok
    · have herror := hparse other
      rwa [if_neg (fun h => hother h.1.symm)] at herror

/-- So many empty sections. -/
def emptySections (n : ℕ) : List ArchiveSection :=
  (List.range n).map fun i => ⟨UInt16.ofNat (i + 1), 0, 0, []⟩

theorem checkSections_of {seen : List UInt16}
    (hkinds : ∀ s ∈ sections, s.kind ≠ 0 ∧ s.flags = 0 ∧ s.kind ∉ seen)
    (hnodup : (sections.map ArchiveSection.kind).Nodup) : checkSections seen sections = .ok () := by
  induction sections generalizing seen with
  | nil => rfl
  | cons s sections ih =>
      obtain ⟨hkind, hflags, hseen⟩ := hkinds s (.head _)
      obtain ⟨hapart, hnodup⟩ := nodup_cons.mp hnodup
      unfold checkSections
      rw [if_neg hkind, if_neg (not_not.mpr hflags), if_neg hseen]
      refine ih (fun other hother => ?_) hnodup
      obtain ⟨hkind', hflags', hseen'⟩ := hkinds other (.tail _ hother)
      refine ⟨hkind', hflags', fun hmem => ?_⟩
      rcases mem_cons.mp hmem with hsame | hmem
      · exact hapart (hsame ▸ mem_map_of_mem hother)
      · exact hseen' hmem

/-- The writer accepts any number of empty sections below the number of kinds. -/
theorem writable_emptySections {n : ℕ} (hpos : 0 < n) (hlt : n < 2 ^ 16) :
    Writable (emptySections n) := by
  have hkind : ∀ i < n, (UInt16.ofNat (i + 1)).toNat = i + 1 := fun i hi => by
    rw [UInt16.toNat_ofNat', Nat.mod_eq_of_lt (by omega)]
  have hlength : (emptySections n).length = n := by
    rw [emptySections, length_map, length_range]
  have htotal : total (emptySections n) = 0 := by
    unfold total emptySections
    rw [length_eq_zero_iff, flatMap_eq_nil_iff]
    intro s hs
    obtain ⟨i, -, rfl⟩ := mem_map.mp hs
    rfl
  refine ⟨fun hnil => ?_, checkSections_of (fun s hs => ?_) ?_, by rw [hlength]; omega, ?_⟩
  · rw [← length_eq_zero_iff, hlength] at hnil
    omega
  · obtain ⟨i, hi, rfl⟩ := mem_map.mp ((byKind_perm _).mem_iff.mp hs)
    refine ⟨fun hzero => ?_, rfl, not_mem_nil⟩
    have hval := congrArg UInt16.toNat hzero
    rw [hkind i (mem_range.mp hi)] at hval
    exact absurd hval (Nat.succ_ne_zero i)
  · refine (((byKind_perm _).map ArchiveSection.kind).nodup_iff).mpr ?_
    unfold emptySections
    rw [map_map]
    refine List.Nodup.map_on (fun i hi j hj hij => ?_) nodup_range
    have hval := congrArg UInt16.toNat hij
    change (UInt16.ofNat (i + 1)).toNat = (UInt16.ofNat (j + 1)).toNat at hval
    rw [hkind i (mem_range.mp hi), hkind j (mem_range.mp hj)] at hval
    omega
  · rw [htotal]
    unfold startOf
    rw [hlength]
    unfold HEADER_LEN DIRECTORY_ENTRY_LEN FOOTER_LEN
    omega

/-- CRC-32, bit by bit. -/
def crc32 (bytes : List UInt8) : UInt32 :=
  ~~~bytes.foldl (fun crc byte => (range 8).foldl (fun c _ =>
    if c &&& 1 = 1 then (c >>> 1) ^^^ 0xEDB88320 else c >>> 1) (crc ^^^ byte.toUInt32)) 0xFFFFFFFF

/-- Two sections, the later kind first. -/
def twoSections : List ArchiveSection := [⟨7, 0, 2, [1, 2, 3]⟩, ⟨2, 0, 1, [9]⟩]

theorem faithful_two : ∃ archive,
    encodeArchive crc32 .serviceData twoSections = .ok archive ∧
      (Faithful crc32 .serviceData twoSections archive ↔
        twoSections.length ≤ MAX_SECTION_COUNT) := by
  have hwritable : Writable twoSections := by
    refine ⟨by decide, checkSections_of (fun s hs => ?_) ?_, by decide, by decide⟩
    · have hmem : s ∈ twoSections := (byKind_perm _).mem_iff.mp hs
      rcases mem_cons.mp hmem with rfl | hmem
      · exact ⟨by decide, rfl, not_mem_nil⟩
      · rw [mem_singleton.mp hmem]
        exact ⟨by decide, rfl, not_mem_nil⟩
    · exact (((byKind_perm _).map ArchiveSection.kind).nodup_iff).mpr (by decide)
  have hencode : encodeArchive crc32 .serviceData twoSections = .ok _ :=
    encodeArchive_eq_ok.mpr ⟨hwritable, rfl⟩
  exact ⟨_, hencode, faithful_iff hencode⟩

/-- An archive of `4097` sections is written, but not read back. -/
theorem not_faithful_many : ¬ ∀ crc kind sections archive,
    encodeArchive crc kind sections = .ok archive → Faithful crc kind sections archive := by
  intro h
  have hwritable : Writable (emptySections 4097) :=
    writable_emptySections (by decide) (by decide)
  obtain ⟨archive, hencode⟩ : ∃ archive,
      encodeArchive (fun _ => 0) .manifest (emptySections 4097) = .ok archive :=
    ⟨_, encodeArchive_eq_ok.mpr ⟨hwritable, rfl⟩⟩
  have hlength : (emptySections 4097).length = 4097 := by
    rw [emptySections, length_map, length_range]
  exact not_faithful_of_many hencode (by rw [hlength]; decide) (h _ _ _ _ hencode)

end Rustack.Snapshot
