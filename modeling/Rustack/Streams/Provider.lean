import Rustack.Lib.Fields
import Rustack.Lib.Outcome
import Rustack.Streams.Storage

/-!
# Reading a stream

An iterator is a text that names a stream, a shard and a position in its log.  It is in the hands
of the client, and outlives what happens to the store.
-/

namespace Rustack.Streams

open DynamoDB (Item)

/-! ## Errors -/

inductive ErrorCode where
  | resourceNotFound
  | validation
  | expiredIterator
  | trimmedDataAccess
  deriving DecidableEq

structure StreamsError where
  code : ErrorCode
  message : String
  deriving DecidableEq

def streamNotFound (arn : String) : StreamsError :=
  ⟨.resourceNotFound, "Requested resource not found: Stream: " ++ arn ++ " not found"⟩

def shardNotFound (shardId arn : String) : StreamsError :=
  ⟨.resourceNotFound,
    "Requested resource not found: Shard: " ++ shardId ++ " in Stream: " ++ arn ++ " not found"⟩

def expiredIterator : StreamsError :=
  ⟨.expiredIterator, "The shard iterator is expired or invalid."⟩

def trimmedDataAccess : StreamsError :=
  ⟨.trimmedDataAccess, "The requested sequence number is beyond the trim horizon."⟩

/-! ## Iterators -/

/-- The number of values of a `u64` or a `usize`. -/
def U64_RANGE : ℕ := 18446744073709551616

def encodeIterator (streamArn shardId : String) (position : ℕ) : String :=
  streamArn ++ "|" ++ shardId ++ "|" ++ Decimal.padded 0 position

def decodeIterator (token : String) : Except StreamsError (String × String × ℕ) :=
  match Text.splitN '|' 3 token.toList with
  | [streamArn, shardId, position] =>
    match Decimal.parse U64_RANGE (String.ofList position) with
    | .error _ => .error expiredIterator
    | .ok position => .ok (String.ofList streamArn, String.ofList shardId, position)
  | _ => .error expiredIterator

theorem decodeIterator_encodeIterator {streamArn shardId : String} {position : ℕ}
    (harn : '|' ∉ streamArn.toList) (hshard : '|' ∉ shardId.toList)
    (hposition : position < U64_RANGE) :
    decodeIterator (encodeIterator streamArn shardId position) =
      .ok (streamArn, shardId, position) := by
  have htext : (encodeIterator streamArn shardId position).toList = streamArn.toList ++ '|' ::
      (shardId.toList ++ '|' :: (Decimal.padded 0 position).toList) := by
    simp [encodeIterator]
  have hparts : Text.splitN '|' 3 (encodeIterator streamArn shardId position).toList =
      [streamArn.toList, shardId.toList, (Decimal.padded 0 position).toList] := by
    rw [htext, Text.splitN_field harn, Text.splitN_field hshard]
    rfl
  unfold decodeIterator
  rw [hparts]
  simp only [String.ofList_toList, Decimal.parse_padded 0 hposition]

/-! ## GetShardIterator -/

inductive ShardIteratorType where
  | afterSequenceNumber
  | atSequenceNumber
  | latest
  | trimHorizon
  deriving DecidableEq

structure GetShardIteratorInput where
  streamArn : String
  shardId : String
  shardIteratorType : ShardIteratorType
  sequenceNumber : Option String

/-- The position of the record with a sequence number. -/
def findSequencePosition (records : List StreamChangeRecord) (sequenceNumber : String) :
    Except StreamsError ℕ :=
  match records.findIdx? fun r => r.dynamodb.sequenceNumber == some sequenceNumber with
  | some position => .ok position
  | none => .error trimmedDataAccess

def iteratorPosition (records : List StreamChangeRecord) (input : GetShardIteratorInput) :
    Except StreamsError ℕ :=
  match input.shardIteratorType with
  | .trimHorizon => .ok 0
  | .latest => .ok records.length
  | .atSequenceNumber =>
    match input.sequenceNumber with
    | none => .error ⟨.validation, "SequenceNumber is required for AT_SEQUENCE_NUMBER"⟩
    | some seq => findSequencePosition records seq
  | .afterSequenceNumber =>
    match input.sequenceNumber with
    | none => .error ⟨.validation, "SequenceNumber is required for AFTER_SEQUENCE_NUMBER"⟩
    | some seq => (findSequencePosition records seq).map (· + 1)

def handleGetShardIterator (store : StreamStore) (input : GetShardIteratorInput) :
    Except StreamsError String :=
  match store.getStreamByArn input.streamArn with
  | none => .error (streamNotFound input.streamArn)
  | some stream =>
    if stream.shard.shardId ≠ input.shardId then
      .error (shardNotFound input.shardId input.streamArn)
    else
      match iteratorPosition stream.shard.records input with
      | .error e => .error e
      | .ok position => .ok (encodeIterator input.streamArn input.shardId position)

/-- A new iterator does not lie beyond the log. -/
theorem iteratorPosition_le {records : List StreamChangeRecord} {input : GetShardIteratorInput}
    {position : ℕ} (h : iteratorPosition records input = .ok position) :
    position ≤ records.length := by
  have hfind : ∀ seq p, findSequencePosition records seq = .ok p → p < records.length := by
    intro seq p hp
    unfold findSequencePosition at hp
    split at hp
    · next hidx =>
      cases hp
      exact (List.findIdx?_eq_some_iff_getElem.mp hidx).1
    · cases hp
  unfold iteratorPosition at h
  split at h
  · cases h
    exact Nat.zero_le _
  · cases h
    exact Nat.le_refl _
  · split at h
    · cases h
    · exact Nat.le_of_lt (hfind _ _ h)
  · split at h
    · cases h
    · next seq _ =>
      cases hp : findSequencePosition records seq with
      | error e =>
        rw [hp] at h
        cases h
      | ok p =>
        rw [hp] at h
        cases h
        exact hfind _ _ hp

theorem findSequencePosition_eq {shard : ShardRecord} (hsound : shard.Sound) {index : ℕ}
    {record : StreamChangeRecord} (hget : shard.records[index]? = some record) {seq : String}
    (hseq : record.dynamodb.sequenceNumber = some seq) :
    findSequencePosition shard.records seq = .ok index := by
  obtain ⟨hlt, hrecord⟩ := List.getElem?_eq_some_iff.mp hget
  have hidx : shard.records.findIdx? (fun r => r.dynamodb.sequenceNumber == some seq) =
      some index := by
    refine List.findIdx?_eq_some_iff_getElem.mpr ⟨hlt, ?_, ?_⟩
    · rw [hrecord, hseq]
      exact beq_self_eq_true _
    · intro j hj hsame
      have hnumber := hsound.number (List.getElem?_eq_getElem (Nat.lt_trans hj hlt))
      rw [beq_iff_eq, hnumber, ← hseq, hsound.number hget] at hsame
      have heq := Decimal.padded_injective 21 (Option.some.inj hsame)
      omega
  unfold findSequencePosition
  rw [hidx]

/-! ## GetRecords -/

inductive OperationType where
  | insert
  | modify
  | remove
  deriving DecidableEq

structure StreamRecord where
  keys : Item
  newImage : Item
  oldImage : Item
  sequenceNumber : Option String
  sizeBytes : ℕ
  streamViewType : StreamViewType
  approximateCreationDateTime : ℤ

structure Record where
  eventId : String
  eventName : OperationType
  eventVersion : String
  eventSource : String
  awsRegion : String
  dynamodb : StreamRecord

def recordToOutput (record : StreamChangeRecord) : Record :=
  { eventId := record.eventId
    eventName := if record.eventName = "MODIFY" then .modify
      else if record.eventName = "REMOVE" then .remove else .insert
    eventVersion := record.eventVersion
    eventSource := record.eventSource
    awsRegion := record.awsRegion
    dynamodb :=
      { keys := record.dynamodb.keys
        newImage := record.dynamodb.newImage.getD []
        oldImage := record.dynamodb.oldImage.getD []
        sequenceNumber := record.dynamodb.sequenceNumber
        sizeBytes := record.dynamodb.sizeBytes
        streamViewType := record.dynamodb.streamViewType
        approximateCreationDateTime := record.dynamodb.approximateCreationDateTime } }

structure GetRecordsOutput where
  records : List Record
  nextShardIterator : Option String

/-- A limit is cast to `usize` and brought into range. -/
def pageLimit : Option Int32 → ℕ
  | none => 1000
  | some limit => max 1 (min 1000 (limit.toInt % U64_RANGE).toNat)

/-- A range of a log panics unless it starts before it ends and ends in the log. -/
def range (records : List StreamChangeRecord) (first last : ℕ) :
    Outcome StreamsError (List StreamChangeRecord) :=
  if first ≤ last ∧ last ≤ records.length then .ok ((records.take last).drop first) else .panic

/-- The end of a page: the sum wraps around. -/
def pageEnd (records : List StreamChangeRecord) (position : ℕ) (limit : Option Int32) : ℕ :=
  min ((position + pageLimit limit) % U64_RANGE) records.length

def nextIterator (stream : TableStream) (position : ℕ) : Option String :=
  if stream.streamStatus = .disabled ∧ stream.shard.records.length ≤ position then none
  else some (encodeIterator stream.streamArn stream.shard.shardId position)

def handleGetRecords (store : StreamStore) (token : String) (limit : Option Int32) :
    Outcome StreamsError GetRecordsOutput := do
  let (arn, shardId, position) ← decodeIterator token
  match store.getStreamByArn arn with
  | none => .err expiredIterator
  | some stream =>
    if stream.shard.shardId ≠ shardId then .err expiredIterator
    else
      let last := pageEnd stream.shard.records position limit
      let records ← range stream.shard.records position last
      return ⟨records.map recordToOutput, nextIterator stream last⟩

/-! ## When a page is refused -/

theorem one_le_pageLimit (limit : Option Int32) : 1 ≤ pageLimit limit := by
  cases limit with
  | none => exact Nat.le_of_ble_eq_true rfl
  | some limit => exact Nat.le_max_left _ _

theorem pageLimit_le (limit : Option Int32) : pageLimit limit ≤ 1000 := by
  cases limit with
  | none => exact Nat.le_refl _
  | some limit => exact Nat.max_le.mpr ⟨by decide, Nat.min_le_left _ _⟩

theorem pageEnd_of_le {records : List StreamChangeRecord} {position : ℕ} (limit : Option Int32)
    (hrecords : records.length ≤ MAX_RECORDS) (h : position ≤ records.length) :
    pageEnd records position limit = min (position + pageLimit limit) records.length := by
  have hlimit := pageLimit_le limit
  have hlt : position + pageLimit limit < U64_RANGE := by
    unfold MAX_RECORDS at hrecords
    unfold U64_RANGE
    omega
  unfold pageEnd
  rw [Nat.mod_eq_of_lt hlt]

/-- A token names a place beyond the log of a shard that is there. -/
def Beyond (store : StreamStore) (token : String) : Prop :=
  ∃ arn shardId position stream, decodeIterator token = .ok (arn, shardId, position) ∧
    store.getStreamByArn arn = some stream ∧ stream.shard.shardId = shardId ∧
      stream.shard.records.length < position

/-- The page of a shard that is there and whose log the iterator does not leave. -/
theorem handleGetRecords_live {store : StreamStore} {token arn shardId : String} {position : ℕ}
    {stream : TableStream} (limit : Option Int32)
    (htoken : decodeIterator token = .ok (arn, shardId, position))
    (hstream : store.getStreamByArn arn = some stream) (hshard : stream.shard.shardId = shardId)
    (hbounded : stream.shard.records.length ≤ MAX_RECORDS)
    (hle : position ≤ stream.shard.records.length) :
    let last := min (position + pageLimit limit) stream.shard.records.length
    handleGetRecords store token limit =
      .ok ⟨((stream.shard.records.take last).drop position).map recordToOutput,
        nextIterator stream last⟩ := by
  have hend := pageEnd_of_le limit hbounded hle
  have hrange : range stream.shard.records position
      (min (position + pageLimit limit) stream.shard.records.length) = .ok
        ((stream.shard.records.take
          (min (position + pageLimit limit) stream.shard.records.length)).drop position) :=
    if_pos ⟨Nat.le_min.mpr ⟨Nat.le_add_right _ _, hle⟩, Nat.min_le_right _ _⟩
  unfold handleGetRecords
  rw [htoken]
  simp only [Outcome.liftM_eq, Outcome.ofExcept, Outcome.ok_bind, hstream, hshard, ne_eq,
    not_true_eq_false, if_false, hend, hrange]
  rfl

/-- Where the shard is not there, an iterator for it has expired. -/
theorem handleGetRecords_gone {store : StreamStore} {token arn shardId : String} {position : ℕ}
    (limit : Option Int32) (htoken : decodeIterator token = .ok (arn, shardId, position))
    (hgone : ∀ stream, store.getStreamByArn arn = some stream → stream.shard.shardId ≠ shardId) :
    handleGetRecords store token limit = .err expiredIterator := by
  unfold handleGetRecords
  rw [htoken]
  cases hstream : store.getStreamByArn arn with
  | none => simp only [Outcome.liftM_eq, Outcome.ofExcept, Outcome.ok_bind, hstream]
  | some stream =>
    simp only [Outcome.liftM_eq, Outcome.ofExcept, Outcome.ok_bind, hstream, ne_eq,
      hgone stream hstream, not_false_eq_true, if_true]

theorem handleGetRecords_beyond {store : StreamStore} {token : String} (limit : Option Int32)
    (h : Beyond store token) : handleGetRecords store token limit = .panic := by
  obtain ⟨arn, shardId, position, stream, htoken, hstream, hshard, hlt⟩ := h
  have hrange : range stream.shard.records position
      (pageEnd stream.shard.records position limit) = .panic := by
    apply if_neg
    rintro ⟨hle, -⟩
    exact Nat.not_le.mpr hlt (Nat.le_trans hle (Nat.min_le_right _ _))
  unfold handleGetRecords
  rw [htoken]
  simp only [Outcome.liftM_eq, Outcome.ofExcept, Outcome.ok_bind, hstream, hshard, ne_eq,
    not_true_eq_false, if_false, hrange]
  rfl

/-- A page panics exactly where the iterator lies beyond the log. -/
theorem handleGetRecords_eq_panic_iff {store : StreamStore} {token : String}
    {limit : Option Int32} (hbounded : ∀ arn stream, store.getStreamByArn arn = some stream →
      stream.shard.records.length ≤ MAX_RECORDS) :
    handleGetRecords store token limit = .panic ↔ Beyond store token := by
  constructor
  · intro h
    by_contra hnot
    cases htoken : decodeIterator token with
    | error e =>
      unfold handleGetRecords at h
      rw [htoken] at h
      cases h
    | ok parts =>
      obtain ⟨arn, shardId, position⟩ := parts
      cases hstream : store.getStreamByArn arn with
      | none =>
        rw [handleGetRecords_gone limit htoken] at h
        · cases h
        · intro found hfound
          rw [hstream] at hfound
          cases hfound
      | some stream =>
        by_cases hshard : stream.shard.shardId = shardId
        · have hle : position ≤ stream.shard.records.length := by
            by_contra hgt
            exact hnot ⟨arn, shardId, position, stream, htoken, hstream, hshard,
              Nat.lt_of_not_le hgt⟩
          rw [handleGetRecords_live limit htoken hstream hshard (hbounded arn stream hstream)
            hle] at h
          cases h
        · rw [handleGetRecords_gone limit htoken] at h
          · cases h
          · intro found hfound
            rw [hstream] at hfound
            cases hfound
            exact hshard
  · exact handleGetRecords_beyond limit

end Rustack.Streams
