import Rustack.DynamoDB.AttributeValue
import Rustack.Lib.Decimal
import Rustack.Lib.SortedMap

/-!
# The streams of tables

A table has at most one stream, and a stream one shard: a log of changes that only grows, with
numbers that are counted up.  A snapshot holds the streams as they are.
-/

namespace Rustack.Streams

open DynamoDB (Item)
open List

/-! ## Changes and records -/

inductive ChangeEventName where
  | insert
  | modify
  | remove
  deriving DecidableEq

def ChangeEventName.asStr : ChangeEventName → String
  | insert => "INSERT"
  | modify => "MODIFY"
  | remove => "REMOVE"

structure ChangeEvent where
  tableName : String
  eventName : ChangeEventName
  keys : Item
  oldImage : Option Item
  newImage : Option Item
  sizeBytes : ℕ

inductive StreamViewType where
  | keysOnly
  | newImage
  | oldImage
  | newAndOldImages
  deriving DecidableEq

inductive StreamStatus where
  | disabled
  | disabling
  | enabled
  | enabling
  deriving DecidableEq

structure StreamRecordData where
  keys : Item
  newImage : Option Item
  oldImage : Option Item
  sequenceNumber : Option String
  sizeBytes : ℕ
  streamViewType : StreamViewType
  approximateCreationDateTime : ℤ

structure StreamChangeRecord where
  eventId : String
  eventName : String
  eventVersion : String
  eventSource : String
  awsRegion : String
  dynamodb : StreamRecordData

/-! ## Shards -/

/-- So many records fit into one allocation at most. -/
def MAX_RECORDS : ℕ := 9223372036854775807

structure ShardRecord where
  shardId : String
  parentShardId : Option String
  startingSequenceNumber : Option String
  endingSequenceNumber : Option String
  records : List StreamChangeRecord
  nextSequenceNumber : ℕ

namespace ShardRecord

def new (shardId : String) : ShardRecord :=
  ⟨shardId, none, none, none, [], 1⟩

def sequenceText (number : ℕ) : String :=
  Decimal.padded 21 number

/-- Append a record under the next number.  A log that fills the address space cannot grow. -/
def append (shard : ShardRecord) (record : StreamChangeRecord) : Option ShardRecord :=
  if MAX_RECORDS ≤ shard.records.length then none
  else
    let text := sequenceText shard.nextSequenceNumber
    let record := { record with dynamodb := { record.dynamodb with sequenceNumber := some text } }
    some { shard with
      startingSequenceNumber := some (shard.startingSequenceNumber.getD text)
      records := shard.records ++ [record]
      nextSequenceNumber := shard.nextSequenceNumber + 1 }

def close (shard : ShardRecord) : ShardRecord :=
  match shard.records.getLast? with
  | some last => { shard with endingSequenceNumber := last.dynamodb.sequenceNumber }
  | none => shard

end ShardRecord

/-! ## Streams -/

inductive KeyType where
  | hash
  | range
  deriving DecidableEq

structure KeySchemaElement where
  attributeName : String
  keyType : KeyType

structure TableStream where
  streamArn : String
  tableName : String
  streamLabel : String
  streamViewType : StreamViewType
  streamStatus : StreamStatus
  keySchema : List KeySchemaElement
  tableArn : String
  shard : ShardRecord

/-- What one process is set up with, and the shard identifiers it draws. -/
structure Env where
  region : String
  accountId : String
  shardId : ℕ → String
  shardId_injective : Function.Injective shardId
  shardId_plain : ∀ n, '|' ∉ (shardId n).toList

/-- The names that tables may have. -/
structure TableName where
  text : String
  valid : ∀ c ∈ text.toList, c.isAlphanum = true ∨ c ∈ ['.', '_', '-']

/-- A point in time as text. -/
structure StreamLabel where
  text : String
  valid : ∀ c ∈ text.toList, c.isDigit = true ∨ c ∈ ['-', ':', '.', 'T', '+']

def streamArn (env : Env) (tableName streamLabel : String) : String :=
  "arn:aws:dynamodb:" ++ env.region ++ ":" ++ env.accountId ++ ":table/" ++ tableName ++
    "/stream/" ++ streamLabel

def createRecord (stream : TableStream) (event : ChangeEvent) (region eventId : String)
    (now : ℤ) : StreamChangeRecord :=
  let images : Option Item × Option Item := match stream.streamViewType with
    | .keysOnly => (none, none)
    | .newImage => (event.newImage, none)
    | .oldImage => (none, event.oldImage)
    | .newAndOldImages => (event.newImage, event.oldImage)
  { eventId
    eventName := event.eventName.asStr
    eventVersion := "1.1"
    eventSource := "aws:dynamodb"
    awsRegion := region
    dynamodb :=
      { keys := event.keys
        newImage := images.1
        oldImage := images.2
        sequenceNumber := none
        sizeBytes := event.sizeBytes
        streamViewType := stream.streamViewType
        approximateCreationDateTime := now } }

abbrev StreamStore := SortedMap String TableStream compare

namespace StreamStore

def createStream (store : StreamStore) (env : Env) (tableName : TableName) (tableArn : String)
    (keySchema : List KeySchemaElement) (streamViewType : StreamViewType) (label : StreamLabel)
    (shardId : String) : StreamStore :=
  SortedMap.insert store tableName.text
    { streamArn := streamArn env tableName.text label.text
      tableName := tableName.text
      streamLabel := label.text
      streamViewType
      streamStatus := .enabled
      keySchema
      tableArn
      shard := .new shardId }

def disableStream (store : StreamStore) (tableName : String) : StreamStore :=
  match store.get? tableName with
  | some stream =>
    SortedMap.insert store tableName
      { stream with streamStatus := .disabled, shard := stream.shard.close }
  | none => store

def removeStream (store : StreamStore) (tableName : String) : StreamStore :=
  SortedMap.erase store tableName

/-- Append a change to the stream of its table, if that has an active one. -/
def appendChangeEvent (store : StreamStore) (event : ChangeEvent) (region eventId : String)
    (now : ℤ) : Option StreamStore :=
  match store.get? event.tableName with
  | none => some store
  | some stream =>
    if stream.streamStatus ≠ .enabled then some store
    else
      match stream.shard.append (createRecord stream event region eventId now) with
      | none => none
      | some shard => some (SortedMap.insert store event.tableName { stream with shard })

def getStreamByArn (store : StreamStore) (arn : String) : Option TableStream :=
  match store.entries.find? fun entry => entry.2.streamArn == arn with
  | none => none
  | some entry => store.get? entry.1

/-- The streams in the order of their table names. -/
def exportSnapshot (store : StreamStore) : List TableStream :=
  store.entries.map Prod.snd

def importSnapshot (snapshot : List TableStream) : StreamStore :=
  snapshot.foldl (fun store stream => SortedMap.insert store stream.tableName stream)
    SortedMap.empty

end StreamStore

/-! ## Shards in order -/

namespace ShardRecord

/-- The log is counted from one. -/
structure Sound (shard : ShardRecord) : Prop where
  next : shard.nextSequenceNumber = shard.records.length + 1
  bounded : shard.records.length ≤ MAX_RECORDS
  numbers : shard.records.map (fun r => r.dynamodb.sequenceNumber) =
    (List.range' 1 shard.records.length).map fun n => some (sequenceText n)
  starting : shard.startingSequenceNumber =
    shard.records.head?.bind fun r => r.dynamodb.sequenceNumber

/-- Two texts are in order, as they are and as the numbers they show. -/
def Before (text text' : String) : Prop :=
  text < text' ∧ ∃ n n', Decimal.parse 18446744073709551616 text = .ok n ∧
    Decimal.parse 18446744073709551616 text' = .ok n' ∧ n < n'

/-- The sequence numbers of a shard grow, and its starting number is the first of them. -/
structure Ordered (shard : ShardRecord) : Prop where
  growing : shard.records.Pairwise fun r r' => ∃ text text',
    r.dynamodb.sequenceNumber = some text ∧ r'.dynamodb.sequenceNumber = some text' ∧
      Before text text'
  starting : shard.startingSequenceNumber =
    shard.records.head?.bind fun r => r.dynamodb.sequenceNumber

theorem new_sound (shardId : String) : (new shardId).Sound :=
  ⟨rfl, Nat.zero_le _, rfl, rfl⟩

theorem Sound.close {shard : ShardRecord} (h : shard.Sound) : shard.close.Sound := by
  unfold ShardRecord.close
  split
  · exact ⟨h.next, h.bounded, h.numbers, h.starting⟩
  · exact h

@[simp] theorem close_records (shard : ShardRecord) : shard.close.records = shard.records := by
  unfold close
  split <;> rfl

@[simp] theorem close_shardId (shard : ShardRecord) : shard.close.shardId = shard.shardId := by
  unfold close
  split <;> rfl

/-- A record under its number. -/
def numbered (record : StreamChangeRecord) (number : ℕ) : StreamChangeRecord :=
  { record with
    dynamodb := { record.dynamodb with sequenceNumber := some (sequenceText number) } }

/-- What an append does. -/
theorem append_eq_some {shard shard' : ShardRecord} {record : StreamChangeRecord}
    (h : shard.append record = some shard') :
    shard.records.length < MAX_RECORDS ∧ shard'.shardId = shard.shardId ∧
      shard'.records = shard.records ++ [numbered record shard.nextSequenceNumber] ∧
        shard'.nextSequenceNumber = shard.nextSequenceNumber + 1 ∧
          shard'.startingSequenceNumber =
            some (shard.startingSequenceNumber.getD (sequenceText shard.nextSequenceNumber)) := by
  unfold append at h
  split at h
  · cases h
  · next hroom =>
    rw [Option.some.injEq] at h
    subst h
    exact ⟨Nat.lt_of_not_le hroom, rfl, rfl, rfl, rfl⟩

theorem Sound.append {shard shard' : ShardRecord} {record : StreamChangeRecord}
    (h : shard.Sound) (happend : shard.append record = some shard') : shard'.Sound := by
  obtain ⟨hroom, -, hrecords, hnext, hstarting⟩ := append_eq_some happend
  have hnumber : (numbered record shard.nextSequenceNumber).dynamodb.sequenceNumber =
      some (sequenceText shard.nextSequenceNumber) := rfl
  refine ⟨?_, ?_, ?_, ?_⟩
  · rw [hnext, hrecords, h.next, length_append, length_singleton]
  · rw [hrecords, length_append, length_singleton]
    exact hroom
  · rw [hrecords, map_append, h.numbers, length_append, length_singleton,
      range'_concat, map_append, map_singleton, map_singleton, hnumber, h.next,
      Nat.one_mul, Nat.add_comm]
  · rw [hstarting, hrecords, h.starting]
    cases hcases : shard.records with
    | nil =>
      rw [nil_append, head?_cons, Option.bind_some, hnumber]
      rfl
    | cons first rest =>
      have hnumbers := congrArg head? h.numbers
      rw [hcases, length_cons, range'_succ] at hnumbers
      have hfirst : first.dynamodb.sequenceNumber = some (sequenceText 1) :=
        Option.some.inj hnumbers
      rw [cons_append, head?_cons, head?_cons, Option.bind_some, hfirst]
      rfl

theorem sequenceText_before {n n' : ℕ} (h : n < n') (hle : n' ≤ MAX_RECORDS) :
    Before (sequenceText n) (sequenceText n') := by
  have hlt : n' < 18446744073709551616 := Nat.lt_of_le_of_lt hle (by decide)
  refine ⟨?_, n, n', ?_, ?_, h⟩
  · apply Decimal.padded_lt (by decide) _ h
    exact Nat.lt_of_lt_of_le hlt (by decide)
  · exact Decimal.parse_padded 21 (Nat.lt_trans h hlt)
  · exact Decimal.parse_padded 21 hlt

/-- The number of the record at an index. -/
theorem Sound.number {shard : ShardRecord} (h : shard.Sound) {index : ℕ}
    {record : StreamChangeRecord} (hget : shard.records[index]? = some record) :
    record.dynamodb.sequenceNumber = some (sequenceText (index + 1)) := by
  have hlt := (List.getElem?_eq_some_iff.mp hget).1
  have hnumbers := congrArg (fun l => l[index]?) h.numbers
  simp only [List.getElem?_map, hget, Option.map_some, List.getElem?_range' hlt] at hnumbers
  rw [Option.some.inj hnumbers, Nat.one_mul, Nat.add_comm]

theorem Sound.ordered {shard : ShardRecord} (h : shard.Sound) : shard.Ordered := by
  refine ⟨?_, h.starting⟩
  rw [pairwise_iff_getElem]
  intro i j hi hj hij
  refine ⟨_, _, h.number (getElem?_eq_getElem hi), h.number (getElem?_eq_getElem hj), ?_⟩
  exact sequenceText_before (by omega) (Nat.le_trans hj h.bounded)

end ShardRecord

end Rustack.Streams
