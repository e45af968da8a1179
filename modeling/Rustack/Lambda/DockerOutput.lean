import Rustack.Lambda.Frames

/-!
# Output of a container

Docker multiplexes two channels over one connection.  A record has a header of eight bytes and a
payload, which is handed on in chunks of at most 16 KiB, one for each call.  The bytes come in
pieces of any size.  A call that fails poisons the reader; deadlines that pass between two reads
are left out.
-/

namespace Rustack.Lambda

open Bytes List

/-- The errors of the reader. -/
inductive DockerError where
  | protocol
  | tooLarge
  | poisoned
  | deadline
  | io (kind : String)
  deriving DecidableEq

def MAX_DOCKER_RECORD : ℕ := 8 * 1024 * 1024

def CHUNK_BYTES : ℕ := 16 * 1024

inductive OutputChannel where
  | stdout
  | stderr
  deriving DecidableEq

structure OutputChunk where
  channel : OutputChannel
  bytes : List UInt8
  deriving DecidableEq

/-- The record that is being handed on. -/
structure DockerRecord where
  channel : OutputChannel
  remaining : ℕ
  deriving DecidableEq

structure DockerOutputReader where
  pieces : List (List UInt8)
  ending : Ending
  record : Option DockerRecord
  poisoned : Bool
  closed : Bool

/-! ## Reading -/

def Ending.dockerError : Ending → DockerError
  | .eof => .io "UnexpectedEof"
  | .broken kind => .io kind
  | .stalled => .deadline

def parseChannel : Option UInt8 → Except DockerError OutputChannel
  | some 1 => .ok .stdout
  | some 2 => .ok .stderr
  | _ => .error .protocol

/-- The record that the eight bytes of a header announce. -/
def parseHeader (header : List UInt8) : Except DockerError DockerRecord := do
  let channel ← parseChannel header.head?
  if (header.drop 1).take 3 ≠ [0, 0, 0] then .error .protocol
  else if MAX_DOCKER_RECORD < ofBe (header.drop 4) then .error .tooLarge
  else .ok ⟨channel, ofBe (header.drop 4)⟩

/-- The next header, if the connection does not end in front of it. -/
def readHeader (ending : Ending) (pieces : List (List UInt8)) :
    Except DockerError (Option DockerRecord × List (List UInt8)) := do
  let (first, pieces) ← (read ending 1 pieces).mapError fun _ => ending.dockerError
  if first = [] then .ok (none, pieces)
  else
    let (rest, pieces) ← (readExact ending pieces 7).mapError fun _ => ending.dockerError
    let record ← parseHeader (first ++ rest)
    .ok (some record, pieces)

theorem flatten_readExact {ending : Ending} {pieces pieces' : List (List UInt8)} {length : ℕ}
    {bytes : List UInt8} (h : readExact ending pieces length = .ok (bytes, pieces')) :
    length ≤ pieces.flatten.length ∧ bytes = pieces.flatten.take length ∧
      pieces'.flatten = pieces.flatten.drop length := by
  by_cases hle : length ≤ pieces.flatten.length
  · obtain ⟨rest, hread, hrest⟩ := readExact_of_le ending hle
    rw [hread] at h
    cases h
    exact ⟨hle, rfl, hrest⟩
  · rw [readExact_of_lt (not_le.mp hle)] at h
    cases h

theorem flatten_read {ending : Ending} {pieces pieces' : List (List UInt8)} {length : ℕ}
    {bytes : List UInt8} (h : read ending length pieces = .ok (bytes, pieces')) :
    pieces.flatten = bytes ++ pieces'.flatten := by
  cases pieces with
  | nil =>
      cases ending with
      | eof =>
          obtain ⟨rfl, rfl⟩ := Prod.mk.inj (Except.ok.inj h)
          rfl
      | broken | stalled => exact absurd h (by simp [read])
  | cons piece pieces =>
      by_cases hle : piece.length ≤ length
      · obtain ⟨rfl, rfl⟩ := Prod.mk.inj (Except.ok.inj ((if_pos hle).symm.trans h))
        rfl
      · obtain ⟨rfl, rfl⟩ := Prod.mk.inj (Except.ok.inj ((if_neg hle).symm.trans h))
        rw [flatten_cons, flatten_cons, ← append_assoc, take_append_drop]

theorem readHeader_shorter {ending : Ending} {pieces pieces' : List (List UInt8)}
    {record : DockerRecord} (h : readHeader ending pieces = .ok (some record, pieces')) :
    pieces'.flatten.length < pieces.flatten.length := by
  obtain ⟨⟨first, pieces₁⟩, hfirst, h⟩ := Except.bind_eq_ok.mp h
  dsimp only at h
  split at h
  · cases h
  next hne =>
    obtain ⟨⟨rest, pieces₂⟩, hrest, h⟩ := Except.bind_eq_ok.mp h
    obtain ⟨record', -, h⟩ := Except.bind_eq_ok.mp h
    cases h
    have hone := flatten_read (Outcome.except_mapError_eq_ok.mp hfirst)
    obtain ⟨hle, -, hseven⟩ := flatten_readExact (Outcome.except_mapError_eq_ok.mp hrest)
    rw [hone, hseven, length_append, length_drop]
    have hpos := length_pos_iff.mpr hne
    omega

/-- The loop that passes over empty records.  Its pauses are left out. -/
def openRecord (ending : Ending) (pieces : List (List UInt8)) :
    Except DockerError (Option DockerRecord × List (List UInt8)) :=
  match _h : readHeader ending pieces with
  | .error e => .error e
  | .ok (none, pieces) => .ok (none, pieces)
  | .ok (some record, pieces') =>
    if record.remaining = 0 then openRecord ending pieces' else .ok (some record, pieces')
  termination_by pieces.flatten.length
  decreasing_by exact readHeader_shorter _h

namespace DockerOutputReader

def new (reader : Reader) : DockerOutputReader where
  pieces := reader.pieces
  ending := reader.ending
  record := none
  poisoned := false
  closed := false

/-- One chunk of a record. -/
def readChunk (r : DockerOutputReader) (record : DockerRecord) :
    Except DockerError (Option OutputChunk) × DockerOutputReader :=
  match readExact r.ending r.pieces (min record.remaining CHUNK_BYTES) with
  | .error _ => (.error r.ending.dockerError, r)
  | .ok (output, pieces) =>
    let remaining := record.remaining - min record.remaining CHUNK_BYTES
    (.ok (some ⟨record.channel, output⟩),
      { r with
        pieces
        record := if remaining = 0 then none else some { record with remaining } })

/-- The bytes that a failing read has taken are not looked at again. -/
def read (r : DockerOutputReader) : Except DockerError (Option OutputChunk) × DockerOutputReader :=
  match r.record with
  | some record => r.readChunk record
  | none =>
    match openRecord r.ending r.pieces with
    | .error e => (.error e, r)
    | .ok (none, pieces) => (.ok none, { r with pieces, closed := true })
    | .ok (some record, pieces) => { r with pieces, record := some record }.readChunk record

def next (r : DockerOutputReader) : Except DockerError (Option OutputChunk) × DockerOutputReader :=
  if r.poisoned then (.error .poisoned, r)
  else if r.closed then (.ok none, r)
  else
    match { r with poisoned := true }.read with
    | (.ok chunk, r) => (.ok chunk, { r with poisoned := false })
    | (.error e, r) => (.error e, r)

/-- What some calls in a row return. -/
def calls : ℕ → DockerOutputReader → List (Except DockerError (Option OutputChunk))
  | 0, _ => []
  | n + 1, r => r.next.1 :: calls n r.next.2

end DockerOutputReader

/-! ## Records on the wire -/

def OutputChannel.byte : OutputChannel → UInt8
  | .stdout => 1
  | .stderr => 2

def recordHeader (channel : OutputChannel) (length : ℕ) : List UInt8 :=
  channel.byte :: 0 :: 0 :: 0 :: be 4 length

@[simp] theorem length_recordHeader (channel : OutputChannel) (length : ℕ) :
    (recordHeader channel length).length = 8 := by
  simp [recordHeader]

theorem parseHeader_recordHeader (channel : OutputChannel) {length : ℕ}
    (h : length ≤ MAX_DOCKER_RECORD) :
    parseHeader (recordHeader channel length) = .ok ⟨channel, length⟩ := by
  have hbound : MAX_DOCKER_RECORD < 256 ^ 4 := by decide
  have hlength : ofBe ((recordHeader channel length).drop 4) = length :=
    (ofBe_be 4 length).trans (Nat.mod_eq_of_lt (h.trans_lt hbound))
  have hchannel : parseChannel (recordHeader channel length).head? = .ok channel := by
    cases channel <;> rfl
  refine Except.bind_eq_ok.mpr ⟨channel, hchannel, ?_⟩
  rw [hlength, if_neg (not_lt.mpr h)]
  rfl

theorem byte_of_parseChannel {b : UInt8} {channel : OutputChannel}
    (h : parseChannel (some b) = .ok channel) : b = channel.byte := by
  unfold parseChannel at h
  split at h
  · next hone =>
      cases h
      exact Option.some.inj hone
  · next htwo =>
      cases h
      exact Option.some.inj htwo
  · cases h

/-- A header that is accepted is that of a record. -/
theorem parseHeader_eq_ok {bytes : List UInt8} {record : DockerRecord} (hlength : bytes.length = 8)
    (h : parseHeader bytes = .ok record) :
    bytes = recordHeader record.channel record.remaining ∧
      record.remaining ≤ MAX_DOCKER_RECORD := by
  obtain ⟨b, rest, rfl⟩ := exists_cons_of_length_eq_add_one hlength
  obtain ⟨channel, hchannel, h⟩ := Except.bind_eq_ok.mp h
  split at h
  · cases h
  next hzeros =>
    split at h
    · cases h
    next hbound =>
      cases h
      rw [not_not] at hzeros
      refine ⟨?_, not_lt.mp hbound⟩
      have hbyte : b = channel.byte := byte_of_parseChannel hchannel
      have hrest : rest = [0, 0, 0] ++ rest.drop 3 := by
        rw [drop_one, tail_cons] at hzeros
        rw [← hzeros, take_append_drop]
      have hfour : (rest.drop 3).length = 4 := by
        rw [length_drop]
        simp only [length_cons] at hlength
        omega
      have hlast := be_ofBe (rest.drop 3)
      rw [hfour] at hlast
      unfold recordHeader
      rw [drop_succ_cons, hlast, hbyte]
      exact congrArg (channel.byte :: ·) hrest

/-! ## Pieces -/

section Pieces

variable {ending : Ending} {pieces : List (List UInt8)} {bytes : List UInt8} {b : UInt8}

/-- None of the pieces is empty. -/
def Full (pieces : List (List UInt8)) : Prop := ∀ piece ∈ pieces, piece ≠ []

theorem Full.readExact {pieces' : List (List UInt8)} {length : ℕ} (hfull : Full pieces)
    (h : readExact ending pieces length = .ok (bytes, pieces')) : Full pieces' := by
  induction pieces generalizing length bytes with
  | nil =>
      unfold Lambda.readExact at h
      split at h
      · cases h
        exact hfull
      · cases h
  | cons piece pieces ih =>
      obtain ⟨hpiece, hrest⟩ := forall_mem_cons.mp hfull
      unfold Lambda.readExact at h
      split at h
      · cases h
        exact hfull
      split at h
      · obtain ⟨⟨rest, pieces''⟩, hread, h⟩ := Except.bind_eq_ok.mp h
        cases h
        exact ih hrest hread
      · next hlong =>
          cases h
          refine forall_mem_cons.mpr ⟨fun hnil => ?_, hrest⟩
          exact hlong (drop_eq_nil_iff.mp hnil)

theorem exists_readExact (ending : Ending) {length : ℕ} (hfull : Full pieces)
    (h : length ≤ pieces.flatten.length) :
    ∃ pieces', readExact ending pieces length = .ok (pieces.flatten.take length, pieces') ∧
      pieces'.flatten = pieces.flatten.drop length ∧ Full pieces' := by
  obtain ⟨pieces', hread, hflatten⟩ := readExact_of_le ending h
  exact ⟨pieces', hread, hflatten, hfull.readExact hread⟩

theorem read_one (ending : Ending) (hfull : Full pieces) (h : pieces.flatten = b :: bytes) :
    ∃ pieces', read ending 1 pieces = .ok ([b], pieces') ∧ pieces'.flatten = bytes ∧
      Full pieces' := by
  cases pieces with
  | nil => cases h
  | cons piece pieces =>
      obtain ⟨hpiece, hrest⟩ := forall_mem_cons.mp hfull
      obtain ⟨b', tail, rfl⟩ := exists_cons_of_ne_nil hpiece
      rw [flatten_cons, cons_append] at h
      obtain ⟨rfl, rfl⟩ := cons.inj h
      cases tail with
      | nil => exact ⟨pieces, rfl, rfl, hrest⟩
      | cons c tail =>
          exact ⟨(c :: tail) :: pieces, rfl, rfl,
            forall_mem_cons.mpr ⟨cons_ne_nil c tail, hrest⟩⟩

theorem readHeader_of_lt (hfull : Full pieces) (h : pieces.flatten = b :: bytes)
    (hlt : bytes.length < 7) : readHeader ending pieces = .error ending.dockerError := by
  obtain ⟨pieces', hread, hflatten, -⟩ := read_one ending hfull h
  unfold readHeader
  rw [hread]
  change ((readExact ending pieces' 7).mapError _ >>= _) = _
  rw [readExact_of_lt (by rw [hflatten]; exact hlt)]
  rfl

/-- The first eight bytes decide. -/
theorem readHeader_eq (ending : Ending) (hfull : Full pieces) (h : 8 ≤ pieces.flatten.length) :
    ∃ pieces', pieces'.flatten = pieces.flatten.drop 8 ∧ Full pieces' ∧
      readHeader ending pieces =
        (parseHeader (pieces.flatten.take 8)).map fun record => (some record, pieces') := by
  cases hbytes : pieces.flatten with
  | nil =>
      rw [hbytes] at h
      cases h
  | cons b bytes =>
      rw [hbytes, length_cons] at h
      obtain ⟨pieces₁, hread, hflatten, hfull₁⟩ := read_one ending hfull hbytes
      have hseven : 7 ≤ pieces₁.flatten.length := by
        rw [hflatten]
        omega
      obtain ⟨pieces₂, hexact, hrest, hfull₂⟩ := exists_readExact ending hfull₁ hseven
      refine ⟨pieces₂, by rw [hrest, hflatten]; rfl, hfull₂, ?_⟩
      unfold readHeader
      rw [hread]
      change ((readExact ending pieces₁ 7).mapError _ >>= _) = _
      rw [hexact, hflatten]
      change (parseHeader (b :: bytes.take 7) >>= _) = _
      rw [take_succ_cons]
      cases parseHeader (b :: bytes.take 7) <;> rfl

end Pieces

/-! ## One call -/

/-- What is left of a record behind one chunk. -/
def DockerRecord.rest (record : DockerRecord) : Option DockerRecord :=
  if record.remaining - min record.remaining CHUNK_BYTES = 0 then none
  else some { record with remaining := record.remaining - min record.remaining CHUNK_BYTES }

namespace DockerOutputReader

/-- A reader that can be read on, between two calls. -/
structure Holds (r : DockerOutputReader) (record : Option DockerRecord) (bytes : List UInt8) :
    Prop where
  record : r.record = record
  bytes : r.pieces.flatten = bytes
  full : Full r.pieces
  poisoned : r.poisoned = false
  closed : r.closed = false

variable {r : DockerOutputReader} {record : DockerRecord} {bytes part : List UInt8}

theorem calls_succ (n : ℕ) (r : DockerOutputReader) :
    r.calls (n + 1) = r.next.1 :: calls n r.next.2 := rfl

theorem calls_poisoned (h : r.poisoned = true) (n : ℕ) :
    r.calls n = replicate n (.error .poisoned) := by
  induction n with
  | zero => rfl
  | succ n ih =>
      have hnext : r.next = (.error .poisoned, r) := if_pos h
      rw [calls_succ, hnext, ih, replicate_succ]

theorem calls_closed (hpoisoned : r.poisoned = false) (h : r.closed = true) (n : ℕ) :
    r.calls n = replicate n (.ok none) := by
  induction n with
  | zero => rfl
  | succ n ih =>
      have hnext : r.next = (.ok none, r) := by
        rw [next, hpoisoned, if_neg Bool.false_ne_true, if_pos h]
      rw [calls_succ, hnext, ih, replicate_succ]

theorem Holds.next_eq {r : DockerOutputReader} {record : Option DockerRecord} {bytes : List UInt8}
    (h : r.Holds record bytes) : r.next =
      match { r with poisoned := true }.read with
      | (.ok chunk, r) => (.ok chunk, { r with poisoned := false })
      | (.error e, r) => (.error e, r) := by
  rw [next, h.poisoned, h.closed, if_neg Bool.false_ne_true, if_neg Bool.false_ne_true]

/-- A chunk that has come is handed on. -/
theorem Holds.chunk (h : r.Holds (some record) bytes)
    (hle : min record.remaining CHUNK_BYTES ≤ bytes.length) : ∃ r' : DockerOutputReader,
      r.next = (.ok (some ⟨record.channel, bytes.take (min record.remaining CHUNK_BYTES)⟩), r') ∧
        r'.ending = r.ending ∧
        r'.Holds record.rest (bytes.drop (min record.remaining CHUNK_BYTES)) := by
  rw [← h.bytes] at hle
  obtain ⟨pieces', hread, hflatten, hfull⟩ := exists_readExact r.ending h.full hle
  refine ⟨{ r with pieces := pieces', record := record.rest, poisoned := false }, ?_, rfl,
    ⟨rfl, ?_, hfull, rfl, h.closed⟩⟩
  · rw [h.next_eq]
    unfold read readChunk
    dsimp only
    rw [h.record]
    dsimp only
    rw [hread, h.bytes]
    rfl
  · rw [← h.bytes]
    exact hflatten

/-- A chunk that does not come poisons the reader. -/
theorem Holds.stuck (h : r.Holds (some record) bytes)
    (hlt : bytes.length < min record.remaining CHUNK_BYTES) (n : ℕ) :
    r.calls (n + 1) = .error r.ending.dockerError :: replicate n (.error .poisoned) := by
  have hread : readExact r.ending r.pieces (min record.remaining CHUNK_BYTES) =
      .error r.ending.stop := readExact_of_lt (h.bytes ▸ hlt)
  have hnext : r.next = (.error r.ending.dockerError, { r with poisoned := true }) := by
    rw [h.next_eq]
    unfold read readChunk
    dsimp only
    rw [h.record]
    dsimp only
    rw [hread]
  rw [calls_succ, hnext, calls_poisoned rfl]

theorem openRecord_eq (ending : Ending) (pieces : List (List UInt8)) :
    openRecord ending pieces =
      match readHeader ending pieces with
      | .error e => .error e
      | .ok (none, pieces) => .ok (none, pieces)
      | .ok (some record, pieces') =>
        if record.remaining = 0 then openRecord ending pieces' else .ok (some record, pieces') := by
  rw [openRecord]
  split <;> simp_all

theorem Holds.failed (h : r.Holds none bytes) {e : DockerError}
    (hopen : openRecord r.ending r.pieces = .error e) (n : ℕ) :
    r.calls (n + 1) = .error e :: replicate n (.error .poisoned) := by
  have hnext : r.next = (.error e, { r with poisoned := true }) := by
    rw [h.next_eq]
    unfold read
    dsimp only
    rw [h.record]
    dsimp only
    rw [hopen]
  rw [calls_succ, hnext, calls_poisoned rfl]

theorem Holds.ended (h : r.Holds none bytes) {pieces' : List (List UInt8)}
    (hopen : openRecord r.ending r.pieces = .ok (none, pieces')) (n : ℕ) :
    r.calls n = replicate n (.ok none) := by
  have hnext : r.next =
      (.ok none, { r with pieces := pieces', closed := true, poisoned := false }) := by
    rw [h.next_eq]
    unfold read
    dsimp only
    rw [h.record]
    dsimp only
    rw [hopen]
  cases n with
  | zero => rfl
  | succ n => rw [calls_succ, hnext, calls_closed rfl rfl, replicate_succ]

/-- A header is read in the same call as the first chunk. -/
theorem Holds.opened (h : r.Holds none bytes) {pieces' : List (List UInt8)}
    (hopen : openRecord r.ending r.pieces = .ok (some record, pieces')) :
    r.next = { r with pieces := pieces', record := some record }.next := by
  have h' : ({ r with pieces := pieces', record := some record } : DockerOutputReader).poisoned =
      false := h.poisoned
  have h'' : ({ r with pieces := pieces', record := some record } : DockerOutputReader).closed =
      false := h.closed
  rw [h.next_eq, next, h', h'', if_neg Bool.false_ne_true, if_neg Bool.false_ne_true]
  unfold read
  dsimp only
  rw [h.record]
  dsimp only
  rw [hopen]

/-! ## The front of the bytes -/

/-- What an opened record leaves does not matter for the calls before it. -/
theorem Holds.calls_congr {r' : DockerOutputReader} {bytes' : List UInt8} (h : r.Holds none bytes)
    (h' : r'.Holds none bytes') (hending : r'.ending = r.ending)
    (hopen : openRecord r.ending r.pieces = openRecord r'.ending r'.pieces) (n : ℕ) :
    r.calls n = r'.calls n := by
  cases n with
  | zero => rfl
  | succ n =>
      cases heq : openRecord r.ending r.pieces with
      | error e => rw [h.failed heq, h'.failed (hopen ▸ heq)]
      | ok opened =>
          obtain ⟨record, pieces⟩ := opened
          cases record with
          | none => rw [h.ended heq, h'.ended (hopen ▸ heq)]
          | some record =>
              have hsame : ({ r with pieces, record := some record } : DockerOutputReader) =
                  { r' with pieces, record := some record } := by
                rw [DockerOutputReader.mk.injEq]
                exact ⟨rfl, hending.symm, rfl, h.poisoned.trans h'.poisoned.symm,
                  h.closed.trans h'.closed.symm⟩
              rw [calls_succ, calls_succ, h.opened heq, h'.opened (hopen ▸ heq), hsame]

/-- Behind the header of a record its payload is read. -/
theorem Holds.header {channel : OutputChannel} {length : ℕ} {more : List UInt8}
    (h : r.Holds none (recordHeader channel length ++ more)) (hle : length ≤ MAX_DOCKER_RECORD) :
    ∃ r' : DockerOutputReader, r'.ending = r.ending ∧
      r'.Holds (if length = 0 then none else some ⟨channel, length⟩) more ∧
      ∀ n, r.calls n = r'.calls n := by
  have height : 8 ≤ r.pieces.flatten.length := by
    rw [h.bytes, length_append, length_recordHeader]
    omega
  obtain ⟨pieces', hflatten, hfull, hread⟩ := readHeader_eq r.ending h.full height
  rw [h.bytes, take_left' (length_recordHeader channel length),
    parseHeader_recordHeader channel hle] at hread
  rw [h.bytes, drop_left' (length_recordHeader channel length)] at hflatten
  have hopen := openRecord_eq r.ending r.pieces
  rw [hread] at hopen
  dsimp only [Except.map] at hopen
  by_cases hzero : length = 0
  · rw [if_pos hzero] at hopen
    have h' : ({ r with pieces := pieces' } : DockerOutputReader).Holds none more :=
      ⟨h.record, hflatten, hfull, h.poisoned, h.closed⟩
    rw [if_pos hzero]
    exact ⟨{ r with pieces := pieces' }, rfl, h', h.calls_congr h' rfl hopen⟩
  · rw [if_neg hzero] at hopen
    rw [if_neg hzero]
    refine ⟨{ r with pieces := pieces', record := some ⟨channel, length⟩ }, rfl,
      ⟨rfl, hflatten, hfull, h.poisoned, h.closed⟩, fun n => ?_⟩
    cases n with
    | zero => rfl
    | succ n => rw [calls_succ, calls_succ, h.opened hopen]

theorem Holds.atEnd (h : r.Holds none []) (hending : r.ending = .eof) (n : ℕ) :
    r.calls n = replicate n (.ok none) := by
  have hpieces : r.pieces = [] := by
    by_contra hne
    obtain ⟨piece, pieces, heq⟩ := exists_cons_of_ne_nil hne
    have hpiece := h.full piece (heq ▸ mem_cons_self)
    have hflatten := h.bytes
    rw [heq, flatten_cons] at hflatten
    exact hpiece (append_eq_nil_iff.mp hflatten).1
  have hopen := openRecord_eq r.ending r.pieces
  rw [hpieces, hending] at hopen
  exact h.ended (by rw [hpieces, hending]; exact hopen) n

/-- A header that is cut off, or that no record has. -/
theorem Holds.noHeader (h : r.Holds none bytes) (hne : bytes ≠ [])
    (hbad : 8 ≤ bytes.length → ∀ channel length more, length ≤ MAX_DOCKER_RECORD →
      bytes ≠ recordHeader channel length ++ more) :
    ∃ e, ∀ n, r.calls (n + 1) = .error e :: replicate n (.error .poisoned) := by
  obtain ⟨e, he⟩ : ∃ e, readHeader r.ending r.pieces = .error e := by
    by_cases height : 8 ≤ bytes.length
    · obtain ⟨pieces', -, -, hread⟩ := readHeader_eq r.ending h.full
        (h.bytes ▸ height)
      rw [h.bytes] at hread
      cases hparse : parseHeader (bytes.take 8) with
      | error e =>
          rw [hparse] at hread
          exact ⟨e, hread⟩
      | ok record =>
          obtain ⟨hheader, hle⟩ := parseHeader_eq_ok (length_take_of_le height) hparse
          refine absurd ?_ (hbad height record.channel record.remaining (bytes.drop 8) hle)
          rw [← hheader, take_append_drop]
    · obtain ⟨b, rest, rfl⟩ := exists_cons_of_ne_nil hne
      rw [length_cons] at height
      exact ⟨_, readHeader_of_lt h.full h.bytes (by omega)⟩
  have hopen := openRecord_eq r.ending r.pieces
  rw [he] at hopen
  exact ⟨e, h.failed hopen⟩

end DockerOutputReader

/-! ## Runs -/

/-- The chunks that a payload is handed on in. -/
structure Cut (channel : OutputChannel) (payload : List UInt8) (chunks : List OutputChunk) :
    Prop where
  channel : ∀ c ∈ chunks, c.channel = channel
  ne_nil : ∀ c ∈ chunks, c.bytes ≠ []
  length : ∀ c ∈ chunks, c.bytes.length ≤ CHUNK_BYTES
  payload : chunks.flatMap OutputChunk.bytes = payload

def delivered (chunks : List OutputChunk) : List (Except DockerError (Option OutputChunk)) :=
  chunks.map fun c => .ok (some c)

namespace DockerOutputReader

theorem Holds.payload {r : DockerOutputReader} {channel : OutputChannel}
    {payload more : List UInt8} (h : r.Holds (some ⟨channel, payload.length⟩) (payload ++ more))
    (hne : payload ≠ []) : ∃ chunks, ∃ r' : DockerOutputReader, Cut channel payload chunks ∧
      r'.ending = r.ending ∧ r'.Holds none more ∧
      ∀ n, r.calls (chunks.length + n) = delivered chunks ++ r'.calls n := by
  induction hlength : payload.length using Nat.strong_induction_on generalizing r payload with
  | _ k ih =>
      have hpos := length_pos_iff.mpr hne
      have hchunk : 0 < CHUNK_BYTES := by decide
      have hle : min payload.length CHUNK_BYTES ≤ payload.length := Nat.min_le_left _ _
      obtain ⟨r₁, hnext, hending, h₁⟩ := h.chunk (hle.trans (by
        rw [length_append]
        exact Nat.le_add_right _ _))
      dsimp only at hnext h₁
      rw [take_append_of_le_length hle] at hnext
      rw [drop_append_of_le_length hle] at h₁
      have hsize : (payload.take (min payload.length CHUNK_BYTES)).length =
          min payload.length CHUNK_BYTES := length_take_of_le hle
      have htake : payload.take (min payload.length CHUNK_BYTES) ≠ [] := by
        intro hnil
        rw [hnil, length_nil] at hsize
        omega
      have hbound : (payload.take (min payload.length CHUNK_BYTES)).length ≤ CHUNK_BYTES := by
        omega
      unfold DockerRecord.rest at h₁
      dsimp only at h₁
      split at h₁
      · next hzero =>
          rw [drop_eq_nil_iff.mpr (by omega), nil_append] at h₁
          refine ⟨[⟨channel, payload.take (min payload.length CHUNK_BYTES)⟩], r₁, ⟨?_, ?_, ?_, ?_⟩,
            hending, h₁, fun n => ?_⟩
          · exact forall_mem_singleton.mpr rfl
          · exact forall_mem_singleton.mpr htake
          · exact forall_mem_singleton.mpr hbound
          · rw [flatMap_singleton]
            exact take_of_length_le (by omega)
          · rw [length_singleton, Nat.add_comm, calls_succ, hnext]
            rfl
      · next hrest =>
          rw [← length_drop] at h₁
          have hdrop : payload.drop (min payload.length CHUNK_BYTES) ≠ [] := by
            intro hnil
            rw [drop_eq_nil_iff] at hnil
            omega
          obtain ⟨chunks, r', hcut, hending', h', hcalls⟩ := ih _ (by
            rw [length_drop]
            omega) h₁ hdrop rfl
          refine ⟨⟨channel, payload.take (min payload.length CHUNK_BYTES)⟩ :: chunks, r',
            ⟨?_, ?_, ?_, ?_⟩, hending'.trans hending, h', fun n => ?_⟩
          · exact forall_mem_cons.mpr ⟨rfl, hcut.channel⟩
          · exact forall_mem_cons.mpr ⟨htake, hcut.ne_nil⟩
          · exact forall_mem_cons.mpr ⟨hbound, hcut.length⟩
          · rw [flatMap_cons, hcut.payload]
            exact take_append_drop _ _
          · rw [length_cons, Nat.add_right_comm, calls_succ, hnext, hcalls]
            rfl

/-- Of a payload that does not come to its end, the whole chunks are handed on. -/
theorem Holds.cutOff {r : DockerOutputReader} {channel : OutputChannel} {length : ℕ}
    {part : List UInt8} (h : r.Holds (some ⟨channel, length⟩) part) (hlt : part.length < length) :
    ∃ chunks, (∀ c ∈ chunks, c.channel = channel ∧ c.bytes.length = CHUNK_BYTES) ∧
      chunks.flatMap OutputChunk.bytes = part.take (part.length / CHUNK_BYTES * CHUNK_BYTES) ∧
      ∃ e, ∀ n, r.calls (chunks.length + (n + 1)) =
        delivered chunks ++ .error e :: replicate n (.error .poisoned) := by
  induction hlength : part.length using Nat.strong_induction_on
    generalizing r part length with
  | _ k ih =>
      have hchunk : 0 < CHUNK_BYTES := by decide
      by_cases hle : min length CHUNK_BYTES ≤ part.length
      · have hmin : min length CHUNK_BYTES = CHUNK_BYTES := by omega
        obtain ⟨r₁, hnext, hending, h₁⟩ := h.chunk hle
        have hrest : DockerRecord.rest ⟨channel, length⟩ =
            some ⟨channel, length - CHUNK_BYTES⟩ := by
          unfold DockerRecord.rest
          dsimp only
          rw [hmin, if_neg (by omega)]
        rw [hrest] at h₁
        dsimp only at hnext h₁
        rw [hmin] at hnext h₁ hle
        have hdrop : (part.drop CHUNK_BYTES).length = part.length - CHUNK_BYTES :=
          length_drop
        obtain ⟨chunks, hchunks, hflat, e, hcalls⟩ := ih _ (by omega) h₁ (by omega) rfl
        refine ⟨⟨channel, part.take CHUNK_BYTES⟩ :: chunks, ?_, ?_, e, fun n => ?_⟩
        · exact forall_mem_cons.mpr ⟨⟨rfl, length_take_of_le hle⟩, hchunks⟩
        · have hdiv : part.length / CHUNK_BYTES * CHUNK_BYTES =
              CHUNK_BYTES + (part.drop CHUNK_BYTES).length / CHUNK_BYTES * CHUNK_BYTES := by
            rw [hdrop, Nat.div_eq_sub_div hchunk hle, Nat.add_mul, Nat.one_mul, Nat.add_comm]
          rw [flatMap_cons, hflat, ← hlength, hdiv, take_add]
        · rw [length_cons, Nat.add_right_comm, calls_succ, hnext, hcalls]
          rfl
      · have hzero : part.length / CHUNK_BYTES = 0 := Nat.div_eq_of_lt (by omega)
        refine ⟨[], fun c hc => absurd hc not_mem_nil, ?_, r.ending.dockerError, fun n => ?_⟩
        · rw [← hlength, hzero, Nat.zero_mul]
          rfl
        · rw [length_nil, Nat.zero_add]
          exact h.stuck (not_le.mp hle) n

end DockerOutputReader

/-- A whole record. -/
structure WireRecord where
  channel : OutputChannel
  payload : List UInt8
  bounded : payload.length ≤ MAX_DOCKER_RECORD

def WireRecord.encode (record : WireRecord) : List UInt8 :=
  recordHeader record.channel record.payload.length ++ record.payload

/-- The chunks are those of the payloads, one after the other. -/
def Carries (records : List WireRecord) (chunks : List OutputChunk) : Prop :=
  ∃ parts, List.Forall₂ (fun record part => Cut record.channel record.payload part) records parts ∧
    parts.flatten = chunks

/-- What no record starts with, and the chunks that it still gives: none, but for a payload that is
cut off. -/
inductive Unfinished : List UInt8 → List OutputChunk → Prop where
  | header (bytes : List UInt8) : bytes ≠ [] → bytes.length < 8 → Unfinished bytes []
  | malformed (bytes : List UInt8) : 8 ≤ bytes.length →
      (∀ channel length more, length ≤ MAX_DOCKER_RECORD →
        bytes ≠ recordHeader channel length ++ more) → Unfinished bytes []
  | payload (channel : OutputChannel) (length : ℕ) (part : List UInt8)
      (chunks : List OutputChunk) : length ≤ MAX_DOCKER_RECORD → part.length < length →
      (∀ c ∈ chunks, c.channel = channel ∧ c.bytes.length = CHUNK_BYTES) →
      chunks.flatMap OutputChunk.bytes = part.take (part.length / CHUNK_BYTES * CHUNK_BYTES) →
      Unfinished (recordHeader channel length ++ part) chunks

/-- Whole chunks are determined by their bytes. -/
theorem wholeChunks_unique {channel : OutputChannel} {chunks chunks' : List OutputChunk}
    (h : ∀ c ∈ chunks, c.channel = channel ∧ c.bytes.length = CHUNK_BYTES)
    (h' : ∀ c ∈ chunks', c.channel = channel ∧ c.bytes.length = CHUNK_BYTES)
    (heq : chunks.flatMap OutputChunk.bytes = chunks'.flatMap OutputChunk.bytes) :
    chunks = chunks' := by
  have hempty : ∀ {c : OutputChunk} {rest : List UInt8}, c.bytes.length = CHUNK_BYTES →
      c.bytes ++ rest ≠ [] := by
    intro c rest hlength hnil
    rw [(append_eq_nil_iff.mp hnil).1] at hlength
    cases hlength
  induction chunks generalizing chunks' with
  | nil =>
      cases chunks' with
      | nil => rfl
      | cons c' chunks' => exact absurd heq.symm (hempty (h' c' (.head _)).2)
  | cons c chunks ih =>
      obtain ⟨⟨hchannel, hlength⟩, hrest⟩ := forall_mem_cons.mp h
      cases chunks' with
      | nil => exact absurd heq (hempty hlength)
      | cons c' chunks' =>
          obtain ⟨⟨hchannel', hlength'⟩, hrest'⟩ := forall_mem_cons.mp h'
          rw [flatMap_cons, flatMap_cons] at heq
          obtain ⟨hbytes, htail⟩ := append_inj heq (hlength.trans hlength'.symm)
          rw [ih hrest hrest' htail]
          congr 1
          rw [OutputChunk.mk.injEq]
          exact ⟨hchannel.trans hchannel'.symm, hbytes⟩

theorem exists_wholeChunks (channel : OutputChannel) (part : List UInt8) :
    ∃ chunks : List OutputChunk,
      (∀ c ∈ chunks, c.channel = channel ∧ c.bytes.length = CHUNK_BYTES) ∧
      chunks.flatMap OutputChunk.bytes = part.take (part.length / CHUNK_BYTES * CHUNK_BYTES) := by
  let r : DockerOutputReader := ⟨[part].filter (· ≠ []), .eof, some ⟨channel, part.length + 1⟩,
    false, false⟩
  have hflatten : r.pieces.flatten = part := by
    by_cases hpart : part = [] <;> simp [r, hpart]
  have hfull : Full r.pieces := fun piece hpiece => by simpa using (mem_filter.mp hpiece).2
  have h : r.Holds (some ⟨channel, part.length + 1⟩) part := ⟨rfl, hflatten, hfull, rfl, rfl⟩
  obtain ⟨chunks, hchunks, hflat, -⟩ := h.cutOff (Nat.lt_succ_self _)
  exact ⟨chunks, hchunks, hflat⟩

/-- Bytes are records and something unfinished. -/
theorem exists_records (bytes : List UInt8) : ∃ records rest,
    bytes = flatMap WireRecord.encode records ++ rest ∧
      (rest = [] ∨ ∃ chunks, Unfinished rest chunks) := by
  induction hlength : bytes.length using Nat.strong_induction_on generalizing bytes with
  | _ k ih =>
      by_cases hempty : bytes = []
      · exact ⟨[], [], hempty, .inl rfl⟩
      by_cases hshort : bytes.length < 8
      · exact ⟨[], bytes, rfl, .inr ⟨[], .header bytes hempty hshort⟩⟩
      by_cases hbad : ∀ channel length more, length ≤ MAX_DOCKER_RECORD →
          bytes ≠ recordHeader channel length ++ more
      · exact ⟨[], bytes, rfl, .inr ⟨[], .malformed bytes (not_lt.mp hshort) hbad⟩⟩
      push Not at hbad
      obtain ⟨channel, length, more, hle, rfl⟩ := hbad
      rw [length_append, length_recordHeader] at hlength
      by_cases hwhole : length ≤ more.length
      · obtain ⟨records, rest, hmore, hrest⟩ := ih (more.drop length).length (by
          rw [length_drop]
          omega) (more.drop length) rfl
        have htake := length_take_of_le hwhole
        have hbounded : (more.take length).length ≤ MAX_DOCKER_RECORD := htake.symm ▸ hle
        have hencode : (WireRecord.mk channel (more.take length) hbounded).encode =
            recordHeader channel length ++ more.take length :=
          congrArg (recordHeader channel · ++ more.take length) htake
        refine ⟨⟨channel, more.take length, hbounded⟩ :: records, rest, ?_, hrest⟩
        rw [flatMap_cons, hencode, append_assoc, ← hmore, append_assoc,
          take_append_drop]
      · obtain ⟨chunks, hchunks, hflat⟩ := exists_wholeChunks channel more
        exact ⟨[], _, rfl, .inr ⟨chunks, .payload channel length more chunks hle
          (not_le.mp hwhole) hchunks hflat⟩⟩

namespace DockerOutputReader

/-- The records in front are handed on. -/
theorem Holds.records {r : DockerOutputReader} {records : List WireRecord} {rest : List UInt8}
    (h : r.Holds none (records.flatMap WireRecord.encode ++ rest)) :
    ∃ chunks, ∃ r' : DockerOutputReader, Carries records chunks ∧ r'.ending = r.ending ∧
      r'.Holds none rest ∧ ∀ n, r.calls (chunks.length + n) = delivered chunks ++ r'.calls n := by
  induction records generalizing r with
  | nil => exact ⟨[], r, ⟨[], .nil, rfl⟩, rfl, h, fun n => by rw [length_nil, Nat.zero_add]; rfl⟩
  | cons record records ih =>
      rw [flatMap_cons, WireRecord.encode, append_assoc, append_assoc] at h
      obtain ⟨r₁, hending₁, h₁, hcalls₁⟩ := h.header record.bounded
      obtain ⟨part, r₂, hcut, hending₂, h₂, hcalls₂⟩ : ∃ part, ∃ r₂ : DockerOutputReader,
          Cut record.channel record.payload part ∧ r₂.ending = r₁.ending ∧
            r₂.Holds none (records.flatMap WireRecord.encode ++ rest) ∧
            ∀ n, r₁.calls (part.length + n) = delivered part ++ r₂.calls n := by
        by_cases hempty : record.payload = []
        · rw [hempty, length_nil, if_pos rfl, nil_append] at h₁
          refine ⟨[], r₁, ⟨?_, ?_, ?_, hempty.symm⟩, rfl, h₁, fun n => ?_⟩
          · exact fun c hc => absurd hc not_mem_nil
          · exact fun c hc => absurd hc not_mem_nil
          · exact fun c hc => absurd hc not_mem_nil
          · rw [length_nil, Nat.zero_add]
            rfl
        · rw [if_neg fun hzero => hempty (length_eq_zero_iff.mp hzero)] at h₁
          exact h₁.payload hempty
      obtain ⟨chunks, r₃, ⟨parts, hparts, hflatten⟩, hending₃, h₃, hcalls₃⟩ := ih h₂
      refine ⟨part ++ chunks, r₃, ⟨part :: parts, .cons hcut hparts, ?_⟩,
        hending₃.trans (hending₂.trans hending₁), h₃, fun n => ?_⟩
      · rw [flatten_cons, hflatten]
      · rw [hcalls₁, length_append, Nat.add_assoc, hcalls₂, hcalls₃, ← append_assoc]
        exact congrArg (· ++ _) map_append.symm

theorem Holds.unfinished {r : DockerOutputReader} {rest : List UInt8} {tail : List OutputChunk}
    (h : r.Holds none rest) (hrest : Unfinished rest tail) :
    ∃ e, ∀ n, r.calls (tail.length + (n + 1)) =
      delivered tail ++ .error e :: replicate n (.error .poisoned) := by
  cases hrest with
  | header _ hne hshort =>
      obtain ⟨e, he⟩ := h.noHeader hne fun hlong => absurd hlong (not_le.mpr hshort)
      exact ⟨e, fun n => by rw [length_nil, Nat.zero_add, he]; rfl⟩
  | malformed _ hlong hbad =>
      have hne : rest ≠ [] := by
        rintro rfl
        cases hlong
      obtain ⟨e, he⟩ := h.noHeader hne fun _ => hbad
      exact ⟨e, fun n => by rw [length_nil, Nat.zero_add, he]; rfl⟩
  | payload channel length part _ hle hlt htail hflat =>
      obtain ⟨r', -, h', hcalls⟩ := h.header hle
      rw [if_neg (Nat.ne_zero_of_lt hlt)] at h'
      obtain ⟨chunks, hchunks, hflat', e, he⟩ := h'.cutOff hlt
      obtain rfl := wholeChunks_unique hchunks htail (hflat'.trans hflat.symm)
      exact ⟨e, fun n => by rw [hcalls, he]⟩

theorem holds_new (reader : Reader) : (new reader).Holds none reader.bytes :=
  ⟨rfl, rfl, reader.full, rfl, rfl⟩

end DockerOutputReader

open DockerOutputReader (calls new)

/-- However the bytes come in pieces: of whole records the payloads are handed on, and then nothing
for ever; of bytes that go on otherwise the records in front, the whole chunks of a payload that is
cut off, and then errors for ever. -/
theorem docker_output_exact (reader : Reader) :
    (∃ (records : List WireRecord) (rest : List UInt8),
      reader.bytes = records.flatMap WireRecord.encode ++ rest ∧
      (rest = [] ∨ ∃ tail, Unfinished rest tail)) ∧
    (∀ records : List WireRecord, reader.bytes = records.flatMap WireRecord.encode →
      reader.ending = .eof →
      ∃ chunks, Carries records chunks ∧ ∀ n, calls (chunks.length + n) (new reader) =
        delivered chunks ++ replicate n (.ok none)) ∧
    ∀ (records : List WireRecord) (rest : List UInt8) (tail : List OutputChunk),
      reader.bytes = records.flatMap WireRecord.encode ++ rest →
      Unfinished rest tail → ∃ chunks e, Carries records chunks ∧
        ∀ n, calls (chunks.length + (tail.length + (n + 1))) (new reader) =
          delivered (chunks ++ tail) ++ .error e :: replicate n (.error .poisoned) := by
  have hnew := DockerOutputReader.holds_new reader
  refine ⟨exists_records reader.bytes, fun records hbytes hending => ?_,
    fun records rest tail hbytes hrest => ?_⟩
  · rw [hbytes, ← append_nil (records.flatMap _)] at hnew
    obtain ⟨chunks, r', hcarries, hending', h', hcalls⟩ := hnew.records
    refine ⟨chunks, hcarries, fun n => ?_⟩
    rw [hcalls, h'.atEnd (hending'.trans hending)]
  · rw [hbytes] at hnew
    obtain ⟨chunks, r', hcarries, -, h', hcalls⟩ := hnew.records
    obtain ⟨e, he⟩ := h'.unfinished hrest
    refine ⟨chunks, e, hcarries, fun n => ?_⟩
    rw [hcalls, he, ← append_assoc]
    exact congrArg (· ++ _) map_append.symm

/-- A payload of 20480 bytes that ends behind 18432. -/
def cutOffReader : Reader where
  pieces := [recordHeader .stdout 20480 ++ List.replicate 18432 0]
  full piece hpiece := by
    rw [List.mem_singleton.mp hpiece]
    exact List.cons_ne_nil _ _
  ending := .eof

/-- A chunk of a record that is cut off is handed on, and not only those of the records before. -/
theorem docker_output_cutOff :
    ¬∀ (reader : Reader) (records : List WireRecord) (rest : List UInt8),
      reader.bytes = records.flatMap WireRecord.encode ++ rest →
      (∃ tail, Unfinished rest tail) →
      ∃ chunks e, Carries records chunks ∧ ∀ n, calls (chunks.length + (n + 1)) (new reader) =
        delivered chunks ++ .error e :: replicate n (.error .poisoned) := by
  intro hclaim
  have hbytes : cutOffReader.bytes = recordHeader .stdout 20480 ++ replicate 18432 0 :=
    flatten_singleton
  have hle : 20480 ≤ MAX_DOCKER_RECORD := by decide
  have hpart : (replicate 18432 (0 : UInt8)).length = 18432 := length_replicate
  have hnew := DockerOutputReader.holds_new cutOffReader
  rw [hbytes] at hnew
  obtain ⟨tail, htail, hflat⟩ := exists_wholeChunks .stdout (replicate 18432 0)
  obtain ⟨chunks, e, ⟨parts, hparts, hflatten⟩, hcalls⟩ := hclaim cutOffReader [] _ hbytes
    ⟨tail, .payload .stdout 20480 _ tail hle (by rw [hpart]; decide) htail hflat⟩
  cases hparts
  cases hflatten
  obtain ⟨r, -, hr, hsame⟩ := hnew.header hle
  rw [if_neg (by decide)] at hr
  obtain ⟨r', hnext, -⟩ := hr.chunk (by rw [hpart]; decide)
  have hone := hcalls 0
  rw [hsame] at hone
  have hfirst := (cons.inj hone).1
  rw [hnext] at hfirst
  cases hfirst

end Rustack.Lambda
