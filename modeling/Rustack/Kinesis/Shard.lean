import Rustack.Kinesis.Hash

/-!
# Shards

A shard is an actor that owns a log of records.  Positions in the log count the records that
have been trimmed.  Sequence numbers combine the time at which the shard was created, the
index of the shard and a counter.
-/

namespace Rustack.Kinesis

/-- Wall clock times and durations in milliseconds. -/
abbrev Millis := ℕ

/-! ## Sequence numbers -/

abbrev SequenceNumber := ℕ

def SequenceNumber.toPaddedString (number : SequenceNumber) : String := Decimal.padded 56 number

def SequenceNumber.fromStr (text : String) : Except Decimal.ParseIntError SequenceNumber :=
  Decimal.parse KEY_SPACE text

structure SequenceNumberGenerator where
  numberPrefix : ℕ
  counter : ℕ
deriving DecidableEq

namespace SequenceNumberGenerator

/-- The time is shifted within 64 bits. -/
def new (shardIndex : ℕ) (creationEpochMillis : Millis) : SequenceNumberGenerator :=
  ⟨(creationEpochMillis * 2 ^ 16 % 2 ^ 64 + shardIndex) * 2 ^ 64, 0⟩

def next (g : SequenceNumberGenerator) : SequenceNumber × SequenceNumberGenerator :=
  (g.numberPrefix + g.counter, { g with counter := (g.counter + 1) % 2 ^ 64 })

def startingSequenceNumber (g : SequenceNumberGenerator) : SequenceNumber := g.numberPrefix

end SequenceNumberGenerator

/-! ## The record log -/

structure StoredRecord where
  sequenceNumber : SequenceNumber
  data : List UInt8
  partitionKey : String
  explicitHashKey : Option String
  arrival : Millis
  encryptionType : Option String
deriving DecidableEq

structure ShardRecordLog where
  records : List StoredRecord
  trimOffset : ℕ
  retentionPeriod : Millis
deriving DecidableEq

namespace ShardRecordLog

def new (retentionPeriod : Millis) : ShardRecordLog := ⟨[], 0, retentionPeriod⟩

def append (log : ShardRecordLog) (record : StoredRecord) : ShardRecordLog :=
  { log with records := log.records ++ [record] }

def getRecords (log : ShardRecordLog) (position limit : ℕ) : List StoredRecord × ℕ :=
  let start := position - log.trimOffset
  if log.records.length ≤ start then ([], log.trimOffset + log.records.length)
  else
    let «end» := min (start + limit) log.records.length
    ((log.records.take «end»).drop start, log.trimOffset + «end»)

/-- The position of the first record that passes a test, or the end of the log. -/
def positionWhere (log : ShardRecordLog) (test : StoredRecord → Bool) : ℕ :=
  log.trimOffset + log.records.findIdx test

def positionAtSequenceNumber (log : ShardRecordLog) (number : SequenceNumber) : ℕ :=
  log.positionWhere fun record => number ≤ record.sequenceNumber

def positionAfterSequenceNumber (log : ShardRecordLog) (number : SequenceNumber) : ℕ :=
  log.positionWhere fun record => number < record.sequenceNumber

def positionAtTimestamp (log : ShardRecordLog) (time : Millis) : ℕ :=
  log.positionWhere fun record => time ≤ record.arrival

def trimHorizonPosition (log : ShardRecordLog) : ℕ := log.trimOffset

def latestPosition (log : ShardRecordLog) : ℕ := log.trimOffset + log.records.length

/-- Whether a record is older than the retention period of the log. -/
def expired (log : ShardRecordLog) (now : Millis) (record : StoredRecord) : Bool :=
  record.arrival + log.retentionPeriod < now

def trimExpired (log : ShardRecordLog) (now : Millis) : ShardRecordLog :=
  let removeCount := (log.records.takeWhile (log.expired now)).length
  { log with
    records := log.records.drop removeCount
    trimOffset := log.trimOffset + removeCount }

def lastSequenceNumber (log : ShardRecordLog) : Option String :=
  log.records.getLast?.map (·.sequenceNumber.toPaddedString)

end ShardRecordLog

/-! ## The actor -/

inductive IteratorRequest where
  | trimHorizon
  | latest
  | atSequenceNumber (text : String)
  | afterSequenceNumber (text : String)
  | atTimestamp (time : Millis)
deriving DecidableEq

inductive ShardCommand where
  | putRecord (data : List UInt8) (partitionKey : String) (explicitHashKey : Option String)
  | getRecords (position limit : ℕ)
  | getShardIterator (request : IteratorRequest)
  | close (endingSequenceNumber : Option String)
  | shutdown
deriving DecidableEq

inductive ShardReply where
  | put (result : Except String (String × String))
  | records (records : List StoredRecord) (position : ℕ) (millisBehindLatest : ℕ)
  | position (result : Except String ℕ)
  | closed (lastSequenceNumber : Option String)
  | stopped
deriving DecidableEq

structure ShardActor where
  shardId : String
  recordLog : ShardRecordLog
  seqGen : SequenceNumberGenerator
  closed : Bool
deriving DecidableEq

namespace ShardActor

def reason : Decimal.ParseIntError → String
  | .empty => "cannot parse integer from empty string"
  | .invalidDigit => "invalid digit found in string"
  | .posOverflow => "number too large to fit in target type"

def position (log : ShardRecordLog) : IteratorRequest → Except String ℕ
  | .trimHorizon => .ok log.trimHorizonPosition
  | .latest => .ok log.latestPosition
  | .atSequenceNumber text =>
    match SequenceNumber.fromStr text with
    | .ok number => .ok (log.positionAtSequenceNumber number)
    | .error error => .error ("Invalid sequence number: " ++ reason error)
  | .afterSequenceNumber text =>
    match SequenceNumber.fromStr text with
    | .ok number => .ok (log.positionAfterSequenceNumber number)
    | .error error => .error ("Invalid sequence number: " ++ reason error)
  | .atTimestamp time => .ok (log.positionAtTimestamp time)

def millisBehind (log : ShardRecordLog) (records : List StoredRecord) (nextPosition : ℕ)
    (now : Millis) : ℕ :=
  match records.getLast? with
  | none => 0
  | some record => if log.latestPosition ≤ nextPosition then 0 else now - record.arrival

def handleCommand (actor : ShardActor) (command : ShardCommand) (now : Millis) :
    ShardReply × ShardActor :=
  match command with
  | .putRecord data partitionKey explicitHashKey =>
    if actor.closed then (.put (.error "Shard is closed"), actor)
    else
      let (number, seqGen) := actor.seqGen.next
      let record : StoredRecord :=
        { sequenceNumber := number
          data
          partitionKey
          explicitHashKey
          arrival := now
          encryptionType := none }
      (.put (.ok (number.toPaddedString, actor.shardId)),
        { actor with seqGen, recordLog := actor.recordLog.append record })
  | .getRecords position limit =>
    let (records, nextPosition) := actor.recordLog.getRecords position limit
    (.records records nextPosition (millisBehind actor.recordLog records nextPosition now), actor)
  | .getShardIterator request => (.position (position actor.recordLog request), actor)
  | .close _ => (.closed actor.recordLog.lastSequenceNumber, { actor with closed := true })
  | .shutdown => (.stopped, { actor with closed := true })

def trim (actor : ShardActor) (now : Millis) : ShardActor :=
  { actor with recordLog := actor.recordLog.trimExpired now }

end ShardActor

/-! ## Handles -/

/-- The range of a shard as it is shown. -/
structure ModelHashKeyRange where
  startingHashKey : String
  endingHashKey : String
deriving DecidableEq

structure ShardInfo where
  shardId : String
  hashKeyRange : ModelHashKeyRange
  startingSequenceNumber : String
  endingSequenceNumber : Option String
  parentShardId : Option String
  adjacentParentShardId : Option String
deriving DecidableEq

/-- What is known of a shard, and the actor that it names. -/
structure ShardHandle where
  info : ShardInfo
  actor : ℕ
deriving DecidableEq

def ShardHandle.spawn (actor : ℕ) (shardId : String) (shardIndex : ℕ) (range : HashKeyRange)
    (retentionPeriod creationEpochMillis : Millis)
    (parentShardId adjacentParentShardId : Option String) : ShardHandle × ShardActor :=
  let seqGen := SequenceNumberGenerator.new shardIndex creationEpochMillis
  ({ info :=
      { shardId
        hashKeyRange := ⟨range.start.toDecimalString, range.end.toDecimalString⟩
        startingSequenceNumber := seqGen.startingSequenceNumber.toPaddedString
        endingSequenceNumber := none
        parentShardId
        adjacentParentShardId }
     actor },
   { shardId
     recordLog := .new retentionPeriod
     seqGen
     closed := false })

def hashKeyOr (default : HashKey) (text : String) : HashKey :=
  match HashKey.fromDecimalStr text with
  | .ok key => key
  | .error _ => default

/-- The range as it is read back. -/
def ShardInfo.range (info : ShardInfo) : HashKeyRange :=
  ⟨hashKeyOr HashKey.MIN info.hashKeyRange.startingHashKey,
    hashKeyOr HashKey.MAX info.hashKeyRange.endingHashKey⟩

theorem hashKeyOr_toDecimalString (default key : HashKey) :
    hashKeyOr default key.toDecimalString = key := by
  unfold hashKeyOr
  rw [HashKey.fromDecimalStr_toDecimalString]

theorem spawn_range (actor : ℕ) (shardId : String) (shardIndex : ℕ) (range : HashKeyRange)
    (retentionPeriod creationEpochMillis : Millis) (parent adjacent : Option String) :
    (ShardHandle.spawn actor shardId shardIndex range retentionPeriod creationEpochMillis parent
      adjacent).1.info.range = range := by
  unfold ShardInfo.range ShardHandle.spawn
  dsimp only
  rw [hashKeyOr_toDecimalString, hashKeyOr_toDecimalString]

end Rustack.Kinesis
