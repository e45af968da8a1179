import Rustack.Lib.Runs
import Rustack.Streams.Names

/-!
# Readers that outlive snapshots

A world is a store with the snapshots that were taken of it and the clients that read from it.
What a client has been given is compared with the log of its shard, over every order of writes,
saves, restores and reads.  A restore can take records back that a client has already been given,
and then its iterator lies beyond the log.
-/

namespace Rustack.Streams

open List TableStream SortedMap StreamStore

variable {created : ℕ} {token : String} {store : StreamStore} {stream : TableStream}

/-! ## The world -/

/-- A client that follows one iterator: where it began, and what it has been given. -/
structure Reader where
  streamArn : String
  shardId : String
  start : ℕ
  received : List Record
  iterator : Option String

structure World where
  store : StreamStore
  exported : List (List TableStream)
  readers : List Reader
  created : ℕ

inductive Move where
  | create (tableName : TableName) (tableArn : String) (keySchema : List KeySchemaElement)
      (streamViewType : StreamViewType) (label : StreamLabel)
  | append (event : ChangeEvent) (eventId : String) (now : ℤ)
  | disable (tableName : String)
  | remove (tableName : String)
  | save
  | restore (snapshot : ℕ)
  | begin (input : GetShardIteratorInput)
  | poll (reader : ℕ) (limit : Option Int32)
  | present (token : String) (limit : Option Int32)

def World.empty : World :=
  ⟨SortedMap.empty, [], [], 0⟩

/-- The position that a new reader begins at. -/
def beginning (store : StreamStore) (input : GetShardIteratorInput) : ℕ :=
  match store.getStreamByArn input.streamArn with
  | some stream =>
    match iteratorPosition stream.shard.records input with
    | .ok position => position
    | .error _ => 0
  | none => 0

/-- One page; an error or a panic leaves the client with its iterator. -/
def Reader.poll (r : Reader) (store : StreamStore) (limit : Option Int32) : Reader :=
  match r.iterator with
  | none => r
  | some token =>
    match handleGetRecords store token limit with
    | .ok output =>
      { r with received := r.received ++ output.records, iterator := output.nextShardIterator }
    | _ => r

def step (env : Env) (s : World) : Move → Option World
  | .create tableName tableArn keySchema streamViewType label =>
    some { s with
      store := s.store.createStream env tableName tableArn keySchema streamViewType label
        (env.shardId s.created)
      created := s.created + 1 }
  | .append event eventId now =>
    match s.store.appendChangeEvent event env.region eventId now with
    | some store => some { s with store }
    | none => none
  | .disable tableName => some { s with store := s.store.disableStream tableName }
  | .remove tableName => some { s with store := s.store.removeStream tableName }
  | .save => some { s with exported := s.exported ++ [s.store.exportSnapshot] }
  | .restore n =>
    match s.exported[n]? with
    | some snapshot => some { s with store := .importSnapshot snapshot }
    | none => none
  | .begin input =>
    match handleGetShardIterator s.store input with
    | .ok token =>
      some { s with
        readers := s.readers ++
          [⟨input.streamArn, input.shardId, beginning s.store input, [], some token⟩] }
    | .error _ => some s
  | .poll n limit =>
    match s.readers[n]? with
    | some r => some { s with readers := s.readers.set n (r.poll s.store limit) }
    | none => none
  | .present _ _ => some s

/-! ## The promise -/

/-- The shard is in the store. -/
def Live (store : StreamStore) (arn shardId : String) (stream : TableStream) : Prop :=
  store.getStreamByArn arn = some stream ∧ stream.shard.shardId = shardId

/-- A reader has been given what stands in the log from its beginning on. -/
structure Given (r : Reader) (records : List StreamChangeRecord) : Prop where
  within : r.start + r.received.length ≤ records.length
  received : r.received = ((records.drop r.start).take r.received.length).map recordToOutput

structure World.Good (s : World) : Prop where
  ordered : ∀ table stream, s.store.get? table = some stream → stream.shard.Ordered
  given : ∀ r ∈ s.readers, r.iterator.isSome = true → ∀ stream,
    Live s.store r.streamArn r.shardId stream → Given r stream.shard.records

/-- The iterator that was asked for is at a position. -/
def Places (input : GetShardIteratorInput) (response : Except StreamsError String)
    (position : ℕ) : Prop :=
  response = .ok (encodeIterator input.streamArn input.shardId position)

/-- An iterator for a shard that is there begins where its type says. -/
def Begins (records : List StreamChangeRecord) (input : GetShardIteratorInput)
    (response : Except StreamsError String) : Prop :=
  match input.shardIteratorType with
  | .trimHorizon => Places input response 0
  | .latest => Places input response records.length
  | .atSequenceNumber => ∀ index record, records[index]? = some record →
      input.sequenceNumber.isSome = true →
      record.dynamodb.sequenceNumber = input.sequenceNumber → Places input response index
  | .afterSequenceNumber => ∀ index record, records[index]? = some record →
      input.sequenceNumber.isSome = true →
      record.dynamodb.sequenceNumber = input.sequenceNumber →
        Places input response (index + 1)

/-- A page holds the records that come next, and takes the iterator away only at the end of a
disabled stream; a shard that is not there is an error. -/
structure PageRight (store : StreamStore) (r : Reader)
    (response : Outcome StreamsError GetRecordsOutput) : Prop where
  live : ∀ stream, Live store r.streamArn r.shardId stream → ∃ n next, 1 ≤ n ∧
    response = .ok ⟨((stream.shard.records.drop (r.start + r.received.length)).take n).map
      recordToOutput, next⟩ ∧
    (next = none → stream.streamStatus = .disabled ∧
      stream.shard.records.length ≤ r.start + r.received.length + n)
  gone : (∀ stream, ¬Live store r.streamArn r.shardId stream) → response = .err expiredIterator

/-- What readers see of a stream. -/
structure Log where
  streamArn : String
  shardId : String
  streamStatus : StreamStatus
  records : List StreamChangeRecord

def TableStream.log (stream : TableStream) : Log :=
  ⟨stream.streamArn, stream.shard.shardId, stream.streamStatus, stream.shard.records⟩

/-- The log of a table after a move: a change is put behind what an enabled stream has, under the
number of its place, and only a new stream or a removal takes records away. -/
def logAfter (env : Env) (s : World) (table : String) (before : Option Log) : Move → Option Log
  | .create tableName _ _ _ label =>
    if tableName.text = table then
      some ⟨streamArn env table label.text, env.shardId s.created, .enabled, []⟩
    else before
  | .append event eventId now =>
    if event.tableName = table then
      (s.store.get? table).map fun stream =>
        if stream.streamStatus = .enabled then
          { stream.log with
            records := stream.shard.records ++ [ShardRecord.numbered
              (createRecord stream event env.region eventId now)
              (stream.shard.records.length + 1)] }
        else stream.log
    else before
  | .disable tableName =>
    if tableName = table then before.map fun log => { log with streamStatus := .disabled }
    else before
  | .remove tableName => if tableName = table then none else before
  | _ => before

/-- The streams of a store are those of the snapshot. -/
def Holds (snapshot : List TableStream) (store : StreamStore) : Prop :=
  ∀ table stream, store.get? table = some stream ↔ stream ∈ snapshot ∧ stream.tableName = table

def Answered (env : Env) (s : World) : Move → Prop
  | .save => Holds s.store.exportSnapshot s.store
  | .restore n => ∀ snapshot, s.exported[n]? = some snapshot →
    Holds snapshot (.importSnapshot snapshot)
  | .begin input => ∀ stream, Live s.store input.streamArn input.shardId stream →
      Begins stream.shard.records input (handleGetShardIterator s.store input)
  | .poll n limit => ∀ r token, s.readers[n]? = some r → r.iterator = some token →
      PageRight s.store r (handleGetRecords s.store token limit)
  | .present token limit => handleGetRecords s.store token limit ≠ .panic
  | m => ∀ s', step env s m = some s' → ∀ table, (s'.store.get? table).map TableStream.log =
      logAfter env s table ((s.store.get? table).map TableStream.log) m

/-- A restore that holds what the readers of its shards have been given, and a token that does not
lie beyond its shard. -/
def Mild (s : World) : Move → Prop
  | .restore n => ∀ snapshot, s.exported[n]? = some snapshot → ∀ r ∈ s.readers,
      r.iterator.isSome = true → ∀ stream ∈ snapshot, stream.streamArn = r.streamArn →
      stream.shard.shardId = r.shardId → Given r stream.shard.records
  | .present token _ => ¬Beyond s.store token
  | _ => True

/-! ## The invariant -/

/-- A reader of a shard that was there when it began. -/
structure ReaderKnown (env : Env) (created : ℕ) (r : Reader) : Prop where
  arn : '|' ∉ r.streamArn.toList
  shard : ∃ i < created, r.shardId = env.shardId i
  bounded : r.start + r.received.length ≤ MAX_RECORDS
  token : ∀ token, r.iterator = some token →
    token = encodeIterator r.streamArn r.shardId (r.start + r.received.length)

structure World.Inv (env : Env) (s : World) : Prop where
  store : StoreKnown env s.created s.store
  exported : ∀ snapshot ∈ s.exported, SnapshotKnown env s.created snapshot
  readers : ∀ r ∈ s.readers, ReaderKnown env s.created r
  given : ∀ r ∈ s.readers, r.iterator.isSome = true → ∀ stream,
    Live s.store r.streamArn r.shardId stream → Given r stream.shard.records

variable {env : Env}

theorem World.Inv.good {s : World} (h : s.Inv env) : s.Good := by
  refine ⟨?_, h.given⟩
  intro table stream hget
  exact (h.store table stream hget).2.sound.ordered

theorem inv_empty : World.empty.Inv env :=
  ⟨storeKnown_empty, by simp [World.empty], by simp [World.empty], by simp [World.empty]⟩

theorem ReaderKnown.mono {created' : ℕ} {r : Reader} (h : ReaderKnown env created r)
    (hle : created ≤ created') : ReaderKnown env created' r := by
  obtain ⟨i, hi, hshard⟩ := h.shard
  exact ⟨h.arn, ⟨i, Nat.lt_of_lt_of_le hi hle, hshard⟩, h.bounded, h.token⟩

theorem ReaderKnown.decode {r : Reader} (h : ReaderKnown env created r)
    (htoken : r.iterator = some token) :
    decodeIterator token = .ok (r.streamArn, r.shardId, r.start + r.received.length) := by
  obtain ⟨i, -, hshard⟩ := h.shard
  rw [h.token token htoken]
  apply decodeIterator_encodeIterator h.arn
  · rw [hshard]
    exact env.shardId_plain i
  · exact Nat.lt_of_le_of_lt h.bounded (by decide)

/-- A log that grows keeps what readers have been given. -/
theorem Given.mono {r : Reader} {records records' : List StreamChangeRecord}
    (h : Given r records) (hle : records <+: records') : Given r records' := by
  obtain ⟨more, rfl⟩ := hle
  have hstart : r.start ≤ records.length := Nat.le_trans (Nat.le_add_right _ _) h.within
  have htake : r.received.length ≤ (records.drop r.start).length := by
    have hwithin := h.within
    rw [length_drop]
    omega
  constructor
  · rw [length_append]
    exact Nat.le_trans h.within (Nat.le_add_right _ _)
  · rw [drop_append_of_le_length hstart, take_append_of_le_length htake]
    exact h.received

/-- The next page is put behind what the reader has. -/
theorem Given.page {r : Reader} {records : List StreamChangeRecord} (h : Given r records)
    {last : ℕ} (hfirst : r.start + r.received.length ≤ last) (hlast : last ≤ records.length)
    (iterator : Option String) :
    let page := ((records.take last).drop (r.start + r.received.length)).map recordToOutput
    Given { r with received := r.received ++ page, iterator } records ∧
      r.start + (r.received ++ page).length = last := by
  intro page
  have hlength : page.length = last - (r.start + r.received.length) := by
    simp only [page, length_map, length_drop, length_take, Nat.min_eq_left hlast]
  have hend : r.start + (r.received ++ page).length = last := by
    rw [length_append, hlength]
    omega
  refine ⟨⟨?_, ?_⟩, hend⟩
  · exact hend ▸ hlast
  · have htake : (records.drop r.start).take (r.received ++ page).length =
        (records.drop r.start).take r.received.length ++
          ((records.drop (r.start + r.received.length)).take page.length) := by
      rw [length_append, take_add, drop_drop]
    have hpage : page =
        ((records.drop (r.start + r.received.length)).take page.length).map recordToOutput := by
      rw [hlength, ← drop_take]
    rw [htake, map_append, ← h.received, ← hpage]

/-! ## Shards over a step -/

theorem live_insert {table arn shardId : String} {stream' : TableStream}
    (hstore : StoreKnown env created store)
    (hstore' : StoreKnown env created (insert store table stream))
    (h : Live (insert store table stream) arn shardId stream') :
    stream' = stream ∨ Live store arn shardId stream' := by
  obtain ⟨hget, harn⟩ := (getStreamByArn_iff hstore').mp h.1
  rw [get?_insert_eq] at hget
  split at hget
  · exact Or.inl (Option.some.inj hget).symm
  · exact Or.inr ⟨(getStreamByArn_iff hstore).mpr ⟨hget, harn⟩, h.2⟩

/-- A stream whose log grows in its place. -/
theorem live_update {table arn shardId : String} {stream' found : TableStream}
    (hstore : StoreKnown env created store)
    (hstore' : StoreKnown env created (insert store table stream'))
    (hget : store.get? table = some stream) (harn : stream'.streamArn = stream.streamArn)
    (hshard : stream'.shard.shardId = stream.shard.shardId)
    (hrecords : stream.shard.records <+: stream'.shard.records)
    (h : Live (insert store table stream') arn shardId found) :
    ∃ stream₀, Live store arn shardId stream₀ ∧
      stream₀.shard.records <+: found.shard.records := by
  rcases live_insert hstore hstore' h with rfl | hlive
  · obtain ⟨-, hfound⟩ := (getStreamByArn_iff hstore').mp h.1
    refine ⟨stream, ⟨(getStreamByArn_iff hstore).mpr ⟨?_, harn.symm.trans hfound⟩,
      hshard.symm.trans h.2⟩, hrecords⟩
    rw [(hstore table stream hget).1]
    exact hget
  · exact ⟨found, hlive, prefix_refl _⟩

/-! ## One step -/

/-- A store in which every shard that is there was there before, with less in its log. -/
theorem World.Inv.withStore {s : World} (h : s.Inv env) (hstore : StoreKnown env s.created store)
    (hlive : ∀ arn shardId found, Live store arn shardId found →
      ∃ stream, Live s.store arn shardId stream ∧
      stream.shard.records <+: found.shard.records) : ({ s with store } : World).Inv env := by
  refine ⟨hstore, h.exported, h.readers, ?_⟩
  intro r hr hsome found hfound
  obtain ⟨stream, hstream, hle⟩ := hlive r.streamArn r.shardId found hfound
  exact (h.given r hr hsome stream hstream).mono hle

theorem World.Inv.create {s : World} (h : s.Inv env) (tableName : TableName) (tableArn : String)
    (keySchema : List KeySchemaElement) (viewType : StreamViewType) (label : StreamLabel) :
    ({ s with
      store := s.store.createStream env tableName tableArn keySchema viewType label
        (env.shardId s.created)
      created := s.created + 1 } : World).Inv env := by
  have hle := Nat.le_succ s.created
  have hstore := h.store.createStream tableName tableArn keySchema viewType label
  refine ⟨hstore, fun snapshot hmem => (h.exported snapshot hmem).mono hle,
    fun r hr => (h.readers r hr).mono hle, ?_⟩
  intro r hr hsome found hfound
  rcases live_insert (h.store.mono hle) hstore hfound with rfl | hlive
  · obtain ⟨i, hi, hshard⟩ := (h.readers r hr).shard
    have hsame : env.shardId s.created = env.shardId i := hfound.2.trans hshard
    rw [env.shardId_injective hsame] at hi
    exact absurd hi (Nat.lt_irrefl i)
  · exact h.given r hr hsome found hlive

theorem World.Inv.append {s : World} (h : s.Inv env) {event : ChangeEvent} {eventId : String}
    {now : ℤ} (happend : s.store.appendChangeEvent event env.region eventId now = some store) :
    ({ s with store } : World).Inv env := by
  have hstore := h.store.appendChangeEvent happend
  refine h.withStore hstore ?_
  unfold appendChangeEvent at happend
  split at happend
  · cases happend
    exact fun _ _ found hfound => ⟨found, hfound, prefix_refl _⟩
  · next stream hget =>
    split at happend
    · cases happend
      exact fun _ _ found hfound => ⟨found, hfound, prefix_refl _⟩
    · split at happend
      · cases happend
      · next shard hshard =>
        cases happend
        obtain ⟨-, hid, hrecords, -⟩ := ShardRecord.append_eq_some hshard
        intro arn shardId found hfound
        exact live_update h.store hstore hget rfl hid ⟨_, hrecords.symm⟩ hfound

theorem World.Inv.disable {s : World} (h : s.Inv env) (tableName : String) :
    ({ s with store := s.store.disableStream tableName } : World).Inv env := by
  have hstore := h.store.disableStream tableName
  refine h.withStore hstore ?_
  intro arn shardId found hfound
  cases hget : s.store.get? tableName with
  | none =>
    simp only [disableStream, hget] at hfound
    exact ⟨found, hfound, prefix_refl _⟩
  | some stream =>
    simp only [disableStream, hget] at hfound hstore
    refine live_update h.store hstore hget ?_ ?_ ?_ hfound
    · rfl
    · exact stream.shard.close_shardId
    · exact (stream.shard.close_records).symm ▸ prefix_refl _

theorem World.Inv.remove {s : World} (h : s.Inv env) (tableName : String) :
    ({ s with store := s.store.removeStream tableName } : World).Inv env := by
  have hstore := h.store.removeStream tableName
  refine h.withStore hstore ?_
  intro arn shardId found hfound
  obtain ⟨hget, harn⟩ := (getStreamByArn_iff hstore).mp hfound.1
  unfold removeStream at hget
  rw [get?_erase_eq] at hget
  split at hget
  · cases hget
  · exact ⟨found, ⟨(getStreamByArn_iff h.store).mpr ⟨hget, harn⟩, hfound.2⟩, prefix_refl _⟩

theorem World.Inv.save {s : World} (h : s.Inv env) :
    ({ s with exported := s.exported ++ [s.store.exportSnapshot] } : World).Inv env := by
  refine ⟨h.store, ?_, h.readers, h.given⟩
  intro snapshot hmem
  rcases mem_append.mp hmem with hold | hnew
  · exact h.exported snapshot hold
  · rw [mem_singleton.mp hnew]
    exact h.store.exportSnapshot

theorem live_importSnapshot {snapshot : List TableStream} (h : SnapshotKnown env created snapshot)
    {arn shardId : String} :
    Live (.importSnapshot snapshot) arn shardId stream ↔
      stream ∈ snapshot ∧ stream.streamArn = arn ∧ stream.shard.shardId = shardId := by
  unfold Live
  rw [getStreamByArn_iff h.importSnapshot, get?_importSnapshot h]
  constructor
  · rintro ⟨⟨⟨hmem, -⟩, harn⟩, hshard⟩
    exact ⟨hmem, harn, hshard⟩
  · rintro ⟨hmem, harn, hshard⟩
    exact ⟨⟨⟨hmem, rfl⟩, harn⟩, hshard⟩

theorem World.Inv.restore {s : World} (h : s.Inv env) {n : ℕ} {snapshot : List TableStream}
    (hget : s.exported[n]? = some snapshot) (hmild : Mild s (.restore n)) :
    ({ s with store := .importSnapshot snapshot } : World).Inv env := by
  have hknown := h.exported snapshot (mem_of_getElem? hget)
  refine ⟨hknown.importSnapshot, h.exported, h.readers, ?_⟩
  intro r hr hsome stream hlive
  obtain ⟨hmem, harn, hshard⟩ := (live_importSnapshot hknown).mp hlive
  exact hmild snapshot hget r hr hsome stream hmem harn hshard

/-- An iterator is given for a shard that is there, at a place of its log. -/
theorem handleGetShardIterator_ok {input : GetShardIteratorInput}
    (h : handleGetShardIterator store input = .ok token) :
    ∃ stream, Live store input.streamArn input.shardId stream ∧
      beginning store input ≤ stream.shard.records.length ∧
        token = encodeIterator input.streamArn input.shardId (beginning store input) := by
  unfold handleGetShardIterator at h
  split at h
  · cases h
  · next stream hstream =>
    split at h
    · cases h
    · next hshard =>
      split at h
      · cases h
      · next position hposition =>
        cases h
        have hbeginning : beginning store input = position := by
          simp only [beginning, hstream, hposition]
        rw [hbeginning]
        exact ⟨stream, ⟨hstream, not_not.mp hshard⟩, iteratorPosition_le hposition, rfl⟩

theorem World.Inv.begin {s : World} (h : s.Inv env) (hplain : env.Plain)
    {input : GetShardIteratorInput} (hok : handleGetShardIterator s.store input = .ok token) :
    ({ s with
      readers := s.readers ++
        [⟨input.streamArn, input.shardId, beginning s.store input, [], some token⟩] } :
      World).Inv env := by
  obtain ⟨stream, hlive, hle, htoken⟩ := handleGetShardIterator_ok hok
  have hknown := h.store.of_getStreamByArn hlive.1
  refine ⟨h.store, h.exported, ?_, ?_⟩
  · intro r hr
    rcases mem_append.mp hr with hold | hnew
    · exact h.readers r hold
    · rw [mem_singleton.mp hnew]
      refine ⟨?_, ?_, ?_, ?_⟩
      · rw [← ((getStreamByArn_iff h.store).mp hlive.1).2]
        exact hknown.plain hplain
      · rw [← hlive.2]
        exact hknown.shard
      · exact Nat.le_trans hle hknown.sound.bounded
      · intro token' htoken'
        cases htoken'
        exact htoken
  · intro r hr hsome found hfound
    rcases mem_append.mp hr with hold | hnew
    · exact h.given r hold hsome found hfound
    · rw [mem_singleton.mp hnew] at hfound ⊢
      have hsame : found = stream := Option.some.inj (hfound.1.symm.trans hlive.1)
      rw [hsame]
      exact ⟨hle, by simp⟩

/-! ## Pages -/

/-- The place where a page ends. -/
def Reader.last (r : Reader) (limit : Option Int32) (records : List StreamChangeRecord) : ℕ :=
  min (r.start + r.received.length + pageLimit limit) records.length

/-- The page of a reader whose shard is there. -/
def Reader.page (r : Reader) (limit : Option Int32) (stream : TableStream) : GetRecordsOutput :=
  ⟨((stream.shard.records.take (r.last limit stream.shard.records)).drop
    (r.start + r.received.length)).map recordToOutput,
    nextIterator stream (r.last limit stream.shard.records)⟩

theorem World.Inv.page_cases {s : World} (h : s.Inv env) {r : Reader} (hr : r ∈ s.readers)
    (htoken : r.iterator = some token) (limit : Option Int32) :
    (∃ stream, Live s.store r.streamArn r.shardId stream ∧
      handleGetRecords s.store token limit = .ok (r.page limit stream)) ∨
    ((∀ stream, ¬Live s.store r.streamArn r.shardId stream) ∧
      handleGetRecords s.store token limit = .err expiredIterator) := by
  have hdecode := (h.readers r hr).decode htoken
  by_cases hlive : ∃ stream, Live s.store r.streamArn r.shardId stream
  · obtain ⟨stream, hstream⟩ := hlive
    have hgiven := h.given r hr (by rw [htoken]; rfl) stream hstream
    have hknown := h.store.of_getStreamByArn hstream.1
    exact Or.inl ⟨stream, hstream, handleGetRecords_live limit hdecode hstream.1 hstream.2
      hknown.sound.bounded hgiven.within⟩
  · refine Or.inr ⟨fun stream hstream => hlive ⟨stream, hstream⟩, ?_⟩
    exact handleGetRecords_gone limit hdecode fun stream hget hshard =>
      hlive ⟨stream, hget, hshard⟩

/-- What a page holds. -/
theorem Reader.page_records (r : Reader) (limit : Option Int32) (stream : TableStream) :
    (r.page limit stream).records =
      ((stream.shard.records.drop (r.start + r.received.length)).take
        (pageLimit limit)).map recordToOutput := by
  unfold page last
  rw [drop_take]
  rcases Nat.le_total (r.start + r.received.length + pageLimit limit)
    stream.shard.records.length with hle | hge
  · rw [Nat.min_eq_left hle, Nat.add_sub_cancel_left]
  · rw [Nat.min_eq_right hge, ← length_drop, take_length, take_of_length_le]
    rw [length_drop]
    omega

theorem World.Inv.pageRight {s : World} (h : s.Inv env) {r : Reader} (hr : r ∈ s.readers)
    (htoken : r.iterator = some token) (limit : Option Int32) :
    PageRight s.store r (handleGetRecords s.store token limit) := by
  rcases h.page_cases hr htoken limit with ⟨stream, hlive, hpage⟩ | ⟨hgone, herr⟩
  · constructor
    · intro found hfound
      have hsame : found = stream := Option.some.inj (hfound.1.symm.trans hlive.1)
      rw [hsame]
      refine ⟨pageLimit limit, (r.page limit stream).nextShardIterator, one_le_pageLimit limit,
        ?_, ?_⟩
      · rw [hpage, ← r.page_records limit stream]
      · intro hnone
        have hend : stream.streamStatus = .disabled ∧
            stream.shard.records.length ≤ r.last limit stream.shard.records := by
          by_contra hnot
          simp only [Reader.page, nextIterator, if_neg hnot] at hnone
          cases hnone
        exact ⟨hend.1, Nat.le_trans hend.2 (Nat.min_le_left _ _)⟩
    · intro hgone
      exact absurd hlive (hgone stream)
  · constructor
    · intro found hfound
      exact absurd hfound (hgone found)
    · intro _
      exact herr

theorem World.Inv.polled {s : World} (h : s.Inv env) {r : Reader} (hr : r ∈ s.readers)
    (limit : Option Int32) :
    ReaderKnown env s.created (r.poll s.store limit) ∧
      ((r.poll s.store limit).iterator.isSome = true → ∀ stream,
        Live s.store (r.poll s.store limit).streamArn (r.poll s.store limit).shardId stream →
        Given (r.poll s.store limit) stream.shard.records) := by
  cases htoken : r.iterator with
  | none =>
    have hsame : r.poll s.store limit = r := by
      unfold Reader.poll
      rw [htoken]
    rw [hsame]
    exact ⟨h.readers r hr, h.given r hr⟩
  | some token =>
    rcases h.page_cases hr htoken limit with ⟨stream, hlive, hpage⟩ | ⟨hgone, herr⟩
    · have hknown := h.store.of_getStreamByArn hlive.1
      have hgiven := h.given r hr (by rw [htoken]; rfl) stream hlive
      have hpoll : r.poll s.store limit =
          { r with
            received := r.received ++ (r.page limit stream).records
            iterator := (r.page limit stream).nextShardIterator } := by
        unfold Reader.poll
        rw [htoken]
        simp only [hpage]
      have hfirst : r.start + r.received.length ≤ r.last limit stream.shard.records :=
        Nat.le_min.mpr ⟨Nat.le_add_right _ _, hgiven.within⟩
      obtain ⟨hnext, hend⟩ := hgiven.page hfirst (Nat.min_le_right _ _)
        (r.page limit stream).nextShardIterator
      have hreader := h.readers r hr
      rw [hpoll]
      refine ⟨⟨hreader.arn, hreader.shard, ?_, ?_⟩, ?_⟩
      · exact Nat.le_trans (Nat.le_of_eq hend)
          (Nat.le_trans (Nat.min_le_right _ _) hknown.sound.bounded)
      · intro token' htoken'
        have hencode : encodeIterator stream.streamArn stream.shard.shardId
            (r.last limit stream.shard.records) = token' := by
          simp only [Reader.page, nextIterator] at htoken'
          split at htoken'
          · cases htoken'
          · exact Option.some.inj htoken'
        rw [((getStreamByArn_iff h.store).mp hlive.1).2, hlive.2, ← hend] at hencode
        exact hencode.symm
      · intro _ found hfound
        have hsame : found = stream := Option.some.inj (hfound.1.symm.trans hlive.1)
        rw [hsame]
        exact hnext
    · have hsame : r.poll s.store limit = r := by
        unfold Reader.poll
        rw [htoken]
        simp only [herr]
      rw [hsame]
      exact ⟨h.readers r hr, h.given r hr⟩

theorem World.Inv.poll {s : World} (h : s.Inv env) {n : ℕ} {r : Reader}
    (hget : s.readers[n]? = some r) (limit : Option Int32) :
    ({ s with readers := s.readers.set n (r.poll s.store limit) } : World).Inv env := by
  obtain ⟨hknown, hgiven⟩ := h.polled (mem_of_getElem? hget) limit
  refine ⟨h.store, h.exported, ?_, ?_⟩
  · intro r' hr'
    rcases mem_or_eq_of_mem_set hr' with hold | rfl
    · exact h.readers r' hold
    · exact hknown
  · intro r' hr'
    rcases mem_or_eq_of_mem_set hr' with hold | rfl
    · exact h.given r' hold
    · exact hgiven

theorem World.Inv.step {s s' : World} (h : s.Inv env) (hplain : env.Plain) {m : Move}
    (hmild : Mild s m) (hstep : step env s m = some s') : s'.Inv env := by
  cases m with
  | create tableName tableArn keySchema viewType label =>
    cases hstep
    exact h.create tableName tableArn keySchema viewType label
  | append event eventId now =>
    simp only [Streams.step] at hstep
    split at hstep
    · next store happend =>
      cases hstep
      exact h.append happend
    · cases hstep
  | disable tableName =>
    cases hstep
    exact h.disable tableName
  | remove tableName =>
    cases hstep
    exact h.remove tableName
  | save =>
    cases hstep
    exact h.save
  | restore n =>
    simp only [Streams.step] at hstep
    split at hstep
    · next snapshot hget =>
      cases hstep
      exact h.restore hget hmild
    · cases hstep
  | begin input =>
    simp only [Streams.step] at hstep
    split at hstep
    · next token hok =>
      cases hstep
      exact h.begin hplain hok
    · cases hstep
      exact h
  | poll n limit =>
    simp only [Streams.step] at hstep
    split at hstep
    · next r hget =>
      cases hstep
      exact h.poll hget limit
    · cases hstep
  | present token limit =>
    cases hstep
    exact h

/-! ## Answers -/

theorem begins_of_live {input : GetShardIteratorInput}
    (hlive : Live store input.streamArn input.shardId stream) (hsound : stream.shard.Sound) :
    Begins stream.shard.records input (handleGetShardIterator store input) := by
  have hplaces : ∀ position, iteratorPosition stream.shard.records input = .ok position →
      Places input (handleGetShardIterator store input) position := by
    intro position hposition
    unfold Places handleGetShardIterator
    simp only [hlive.1, hlive.2, ne_eq, not_true_eq_false, if_false, hposition]
  unfold Begins
  cases htype : input.shardIteratorType with
  | trimHorizon | latest =>
    apply hplaces
    simp only [iteratorPosition, htype]
  | atSequenceNumber =>
    intro index record hget hsome hnumber
    obtain ⟨seq, hseq⟩ := Option.isSome_iff_exists.mp hsome
    apply hplaces
    simp only [iteratorPosition, htype, hseq]
    exact findSequencePosition_eq hsound hget (hnumber.trans hseq)
  | afterSequenceNumber =>
    intro index record hget hsome hnumber
    obtain ⟨seq, hseq⟩ := Option.isSome_iff_exists.mp hsome
    apply hplaces
    simp only [iteratorPosition, htype, hseq,
      findSequencePosition_eq hsound hget (hnumber.trans hseq)]
    rfl

theorem World.Inv.bounded {s : World} (h : s.Inv env) (arn : String) (stream : TableStream)
    (hget : s.store.getStreamByArn arn = some stream) :
    stream.shard.records.length ≤ MAX_RECORDS :=
  (h.store.of_getStreamByArn hget).sound.bounded

theorem log_insert (store : StreamStore) (table probe : String) (stream : TableStream) :
    ((insert store table stream).get? probe).map log =
      if table = probe then some stream.log else (store.get? probe).map log := by
  rw [get?_insert_eq, apply_ite (Option.map log)]
  rfl

theorem log_append {s : World} (h : StoreKnown env created s.store) {event : ChangeEvent}
    {eventId : String} {now : ℤ}
    (happend : s.store.appendChangeEvent event env.region eventId now = some store)
    (table : String) : (store.get? table).map log =
      logAfter env s table ((s.store.get? table).map log)
        (.append event eventId now) := by
  rw [logAfter]
  unfold appendChangeEvent at happend
  by_cases htable : event.tableName = table
  · subst htable
    rw [if_pos rfl]
    cases hget : s.store.get? event.tableName with
    | none =>
      rw [hget] at happend
      cases happend
      rw [hget]
      rfl
    | some stream =>
      simp only [hget] at happend
      split at happend
      · next hstatus =>
        cases happend
        rw [hget, Option.map_some, Option.map_some, if_neg hstatus]
      · next hstatus =>
        split at happend
        · cases happend
        · next shard hshard =>
          cases happend
          obtain ⟨-, hid, hrecords, -⟩ := ShardRecord.append_eq_some hshard
          rw [log_insert, if_pos rfl, Option.map_some, if_pos (not_not.mp hstatus),
            ← (h _ _ hget).2.sound.next, ← hrecords]
          simp only [log, hid]
  · rw [if_neg htable]
    split at happend
    · cases happend
      rfl
    · split at happend
      · cases happend
        rfl
      · split at happend
        · cases happend
        · cases happend
          rw [log_insert, if_neg htable]

theorem World.Inv.answered {s : World} (h : s.Inv env) {m : Move} (hmild : Mild s m) :
    Answered env s m := by
  cases m with
  | create tableName tableArn keySchema viewType label =>
    rintro s' hs' table
    cases hs'
    rw [createStream, log_insert, logAfter]
    by_cases htable : tableName.text = table
    · rw [if_pos htable, if_pos htable, ← htable]
      rfl
    · rw [if_neg htable, if_neg htable]
  | append event eventId now =>
    intro s' hs' table
    simp only [Streams.step] at hs'
    split at hs'
    · next store happend =>
      cases hs'
      exact log_append h.store happend table
    · cases hs'
  | disable tableName =>
    rintro s' hs' table
    cases hs'
    rw [logAfter]
    simp only [disableStream]
    cases hget : s.store.get? tableName with
    | none =>
      by_cases htable : tableName = table
      · rw [if_pos htable, ← htable, hget]
        rfl
      · rw [if_neg htable]
    | some stream =>
      dsimp only
      rw [log_insert]
      by_cases htable : tableName = table
      · rw [if_pos htable, if_pos htable, ← htable, hget]
        simp only [log, Option.map_some, ShardRecord.close_records,
          ShardRecord.close_shardId]
      · rw [if_neg htable, if_neg htable]
  | remove tableName =>
    rintro s' hs' table
    cases hs'
    rw [removeStream, get?_erase_eq,
      apply_ite (Option.map log)]
    rfl
  | save => exact fun table stream => h.store.mem_exportSnapshot
  | restore n =>
    intro snapshot hget table stream
    exact get?_importSnapshot (h.exported snapshot (mem_of_getElem? hget))
  | begin input =>
    intro stream hlive
    exact begins_of_live hlive (h.store.of_getStreamByArn hlive.1).sound
  | poll n limit =>
    intro r token hget htoken
    exact h.pageRight (mem_of_getElem? hget) htoken limit
  | present token limit =>
    intro hpanic
    exact hmild ((handleGetRecords_eq_panic_iff h.bounded).mp hpanic)

/-- A snapshot can be restored while the readers have no more than when it was taken. -/
theorem World.Inv.restore_mild {s before : World} (h : before.Inv env)
    (hreaders : s.readers = before.readers) {n : ℕ}
    (hget : s.exported[n]? = some before.store.exportSnapshot) : Mild s (.restore n) := by
  intro snapshot hsnapshot r hr hsome stream hmem harn hshard
  rw [hget] at hsnapshot
  cases hsnapshot
  have hstream := h.store.mem_exportSnapshot.mpr ⟨hmem, rfl⟩
  exact h.given r (hreaders ▸ hr) hsome stream
    ⟨(getStreamByArn_iff h.store).mpr ⟨hstream, harn⟩, hshard⟩

/-- A step that is not mild breaks the promise at once. -/
theorem World.Inv.mild {s : World} (h : s.Inv env) {m : Move} (hanswered : Answered env s m)
    (hgood : ∀ s', Streams.step env s m = some s' → s'.Good) : Mild s m := by
  cases m with
  | restore n =>
    intro snapshot hget r hr hsome stream hmem harn hshard
    have hknown := h.exported snapshot (mem_of_getElem? hget)
    have hrestored := hgood { s with store := .importSnapshot snapshot } (by
      simp only [Streams.step, hget])
    exact hrestored.given r hr hsome stream
      ((live_importSnapshot hknown).mpr ⟨hmem, harn, hshard⟩)
  | present token limit =>
    intro hbeyond
    exact hanswered (handleGetRecords_beyond limit hbeyond)
  | _ => trivial

/-- Readers are served in every state of a run, and no token brings the service down, exactly if
no restore takes records back that a reader was given and no token lies beyond its shard. -/
theorem upheld_iff_mild (env : Env) (hplain : env.Plain) (moves : List Move) :
    Runs.Upheld (step env) World.Good (Answered env) World.empty moves ↔
      Runs.Steady (step env) Mild World.empty moves :=
  Runs.upheld_iff (fun _ h => h.good) (fun _ _ h => h.answered)
    (fun _ _ _ h hmild hstep => h.step hplain hmild hstep) (fun _ _ h => h.mild) inv_empty moves

def localEnv : Env where
  region := "us-east-1"
  accountId := "000000000000"
  shardId := fun n => "shardId-" ++ Decimal.padded 0 n
  shardId_injective := fun _ _ h =>
    Decimal.padded_injective 0 (String.append_right_inj "shardId-" |>.mp h)
  shardId_plain := by
    intro n h
    rw [String.toList_append, List.mem_append] at h
    rcases h with h | h
    · exact absurd h (by decide)
    · exact absurd (Decimal.isDigit_of_mem_padded h) (by decide)

def orders : TableName := ⟨"Orders", by simp⟩

def ordersLabel : StreamLabel := ⟨"2026-01-01T00:00:00.000", by simp⟩

def ordersCreated : Move := .create orders "" [] .keysOnly ordersLabel

def orderInserted : Move := .append ⟨"Orders", .insert, [], none, none, 0⟩ "" 0

def ordersIterator (position : ℕ) : String :=
  encodeIterator (streamArn localEnv "Orders" ordersLabel.text) (localEnv.shardId 0) position

def readAll : Move :=
  .begin ⟨streamArn localEnv "Orders" ordersLabel.text, localEnv.shardId 0, .trimHorizon, none⟩

/-- A reader that has been given the first record. -/
def readRun : List Move :=
  [ordersCreated, orderInserted, readAll, .poll 0 none]

/-- Its iterator is presented once more, and a snapshot that holds the record is restored. -/
theorem localEnv_upheld :
    Runs.Upheld (step localEnv) World.Good (Answered localEnv) World.empty
      (readRun ++ [.present (ordersIterator 1) none, .save, orderInserted, .restore 0,
        .poll 0 none]) := by
  refine (upheld_iff_mild localEnv ⟨by decide, by decide⟩ _).mpr ?_
  have hread : Runs.Steady (step localEnv) Mild World.empty readRun :=
    ⟨trivial, fun _ _ => ⟨trivial, fun _ _ => ⟨trivial, fun _ _ => ⟨trivial, fun _ _ => trivial⟩⟩⟩⟩
  have hstate : (Runs.run (step localEnv) World.empty readRun).map (fun s =>
      ((handleGetRecords s.store (ordersIterator 1) none).isPanic, s.exported.length)) =
        some (false, 0) := by decide +kernel
  refine hread.append fun s hrun => ?_
  have hinv := hread.invariant (fun s m s' h => h.step ⟨by decide, by decide⟩) inv_empty hrun
  rw [hrun, Option.map_some, Option.some.injEq, Prod.mk.injEq, length_eq_zero_iff] at hstate
  refine ⟨fun hbeyond => ?_, fun s₁ h₁ => ⟨trivial, fun s₂ h₂ => ⟨trivial, fun s₃ h₃ =>
    ⟨?_, fun _ _ => ⟨trivial, fun _ _ => trivial⟩⟩⟩⟩⟩
  · rw [handleGetRecords_beyond none hbeyond] at hstate
    cases hstate.1
  · cases h₁
    cases h₂
    simp only [step, orderInserted] at h₃
    split at h₃
    · cases h₃
      refine hinv.restore_mild (by rfl) ?_
      rw [hstate.2]
      rfl
    · cases h₃

/-- A snapshot from before a record was read leaves its iterator beyond the log. -/
def restoreRun : List Move :=
  [ordersCreated, .save, orderInserted, readAll, .poll 0 none, .restore 0]

theorem restore_not_upheld :
    ¬Runs.Upheld (step localEnv) World.Good (Answered localEnv) World.empty
      (restoreRun ++ [.present (ordersIterator 1) none]) := by
  intro h
  have hpanic : (Runs.run (step localEnv) World.empty restoreRun).map (fun s =>
      (handleGetRecords s.store (ordersIterator 1) none).isPanic) = some true := by decide +kernel
  obtain ⟨s, hrun, hpanics⟩ := Option.map_eq_some_iff.mp hpanic
  exact h.answer hrun (Outcome.isPanic_iff.mp hpanics)

end Rustack.Streams
