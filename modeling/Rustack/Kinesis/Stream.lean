import Rustack.Kinesis.Shard

/-!
# Streams

A stream lists all of its shards, and it has handles of the open and of the closed ones.  A
reshard removes its parents from the open shards, closes them, and spawns the children once
the parents have answered.
-/

namespace Rustack.Kinesis

inductive KinesisErrorCode where
  | invalidArgumentException
  | resourceNotFoundException
  | internalFailure
deriving DecidableEq

structure KinesisError where
  code : KinesisErrorCode
  message : String
deriving DecidableEq

structure StreamState where
  name : String
  retentionPeriod : Millis
  shards : List ShardInfo
  activeShards : List ShardHandle
  closedShardHandles : List ShardHandle
  nextShardIndex : ℕ
  /-- The actors, in the order in which they were spawned. -/
  actors : List ShardActor

def formatShardId (index : ℕ) : String := "shardId-" ++ Decimal.padded 12 index

namespace StreamState

def invalid (message : String) : KinesisError := ⟨.invalidArgumentException, message⟩

def notFound (message : String) : KinesisError := ⟨.resourceNotFoundException, message⟩

/-! ## New streams -/

def spawnFirst (s : StreamState) (index : ℕ) (range : HashKeyRange) (creationMillis : Millis) :
    StreamState :=
  let (handle, actor) := ShardHandle.spawn s.actors.length (formatShardId index)
    (index % 2 ^ 16) range s.retentionPeriod creationMillis none none
  { s with
    shards := s.shards ++ [handle.info]
    activeShards := s.activeShards ++ [handle]
    actors := s.actors ++ [actor] }

/-- A stream with a number of shards.  There is none where a range overflows. -/
def create (name : String) (shardCount : ℕ) (retentionPeriod creationMillis : Millis) :
    Option StreamState := do
  let ranges ← HashKeyRange.divideEvenly shardCount
  pure (ranges.zipIdx.foldl
    (fun s (range : HashKeyRange × ℕ) => s.spawnFirst range.2 range.1 creationMillis)
    { name
      retentionPeriod
      shards := []
      activeShards := []
      closedShardHandles := []
      nextShardIndex := shardCount
      actors := [] })

/-! ## Routing -/

def routeToShard (md5 : String → HashKey) (activeShards : List ShardHandle) (partitionKey : String)
    (explicitHashKey : Option String) : Except KinesisError ℕ := do
  if activeShards.isEmpty then throw (notFound "No active shards available")
  let key ← match explicitHashKey with
    | none => pure (md5 partitionKey)
    | some text =>
      match HashKey.fromDecimalStr text with
      | .ok key => pure key
      | .error _ => throw (invalid ("Invalid ExplicitHashKey: " ++ text))
  pure ((activeShards.findIdx? fun handle => handle.info.range.contains key).getD 0)

def findShardHandleAny (active closed : List ShardHandle) (shardId : String) :
    Option ShardHandle :=
  (active ++ closed).find? fun handle => handle.info.shardId = shardId

/-! ## Splits and merges -/

/-- Parents that have been taken out of the open shards, with the children they get. -/
structure Reshard where
  parents : List ShardHandle
  children : List HashKeyRange
  parentShardId : String
  adjacentParentShardId : Option String
deriving DecidableEq

def spawnChildShard (s : StreamState) (range : HashKeyRange) (creationMillis : Millis)
    (parentShardId adjacentParentShardId : Option String) : StreamState :=
  let index := s.nextShardIndex
  let (handle, actor) := ShardHandle.spawn s.actors.length (formatShardId index)
    (index % 2 ^ 16) range s.retentionPeriod creationMillis parentShardId adjacentParentShardId
  { s with
    nextShardIndex := (index + 1) % 2 ^ 32
    shards := s.shards ++ [handle.info]
    activeShards := s.activeShards ++ [handle]
    actors := s.actors ++ [actor] }

/-- Note where a shard ends, or that it is empty. -/
def markShardClosed (s : StreamState) (shardId : String) (ending : Option String) : StreamState :=
  match s.shards.findIdx? (·.shardId = shardId) with
  | none => s
  | some i =>
    { s with shards := s.shards.modify i fun info =>
        { info with endingSequenceNumber := some (ending.getD info.startingSequenceNumber) } }

def indexOf (s : StreamState) (shardId : String) : Except KinesisError ℕ :=
  match s.activeShards.findIdx? (·.info.shardId = shardId) with
  | none => .error (notFound ("Shard " ++ shardId ++ " not found"))
  | some i => .ok i

def handleAt (s : StreamState) (shardId : String) : Except KinesisError (ℕ × ShardHandle) := do
  let i ← s.indexOf shardId
  match s.activeShards[i]? with
  | none => throw (notFound ("Shard " ++ shardId ++ " not found"))
  | some handle => pure (i, handle)

/-- The checks of a split, and the removal of the parent. -/
def beginSplit (s : StreamState) (shardToSplit newStartingHashKey : String) :
    Except KinesisError (Reshard × StreamState) := do
  match HashKey.fromDecimalStr newStartingHashKey with
  | .error _ => throw (invalid ("Invalid NewStartingHashKey: " ++ newStartingHashKey))
  | .ok newHash =>
    let (i, parent) ← s.handleAt shardToSplit
    let range := parent.info.range
    if newHash ≤ range.start ∨ range.end < newHash then
      throw (invalid
        "NewStartingHashKey is not within the hash key range of the shard to split")
    let childEnd := (newHash.checkedSub 1).getD range.start
    pure
      ({ parents := [parent]
         children := [⟨range.start, childEnd⟩, ⟨newHash, range.end⟩]
         parentShardId := parent.info.shardId
         adjacentParentShardId := none },
       { s with activeShards := s.activeShards.eraseIdx i })

/-- The checks of a merge, and the removal of the parents, the later one first. -/
def beginMerge (s : StreamState) (shardToMerge adjacentShardToMerge : String) :
    Except KinesisError (Reshard × StreamState) := do
  let (i₁, handle₁) ← s.handleAt shardToMerge
  let (i₂, handle₂) ← s.handleAt adjacentShardToMerge
  let range₁ := handle₁.info.range
  let range₂ := handle₂.info.range
  if range₁.end.checkedAdd 1 ≠ some range₂.start ∧ range₂.end.checkedAdd 1 ≠ some range₁.start then
    throw (invalid
      ("Shards " ++ shardToMerge ++ " and " ++ adjacentShardToMerge ++ " are not adjacent"))
  let merged : HashKeyRange := ⟨min range₁.start range₂.start, max range₁.end range₂.end⟩
  let (firstIndex, secondIndex) := if i₂ < i₁ then (i₁, i₂) else (i₂, i₁)
  let (first, second) := if i₂ < i₁ then (handle₁, handle₂) else (handle₂, handle₁)
  let shard₁ := first.info.shardId
  let shard₂ := second.info.shardId
  -- the ids are those of the removed handles, the ranges those of the request
  let (parent, adjacent) := if range₁.start < range₂.start then (shard₁, shard₂)
    else (shard₂, shard₁)
  pure
    ({ parents := [first, second]
       children := [merged]
       parentShardId := parent
       adjacentParentShardId := some adjacent },
     { s with activeShards := (s.activeShards.eraseIdx firstIndex).eraseIdx secondIndex })

/-- What follows once the parents have answered with their last sequence numbers. -/
def finishReshard (s : StreamState) (reshard : Reshard) (endings : List (Option String))
    (creationMillis : Millis) : StreamState :=
  let s := (reshard.parents.zip endings).foldl
    (fun s (parent : ShardHandle × Option String) =>
      s.markShardClosed parent.1.info.shardId parent.2) s
  let s := { s with closedShardHandles := s.closedShardHandles ++ reshard.parents }
  reshard.children.foldl (fun s range => s.spawnChildShard range creationMillis
    (some reshard.parentShardId) reshard.adjacentParentShardId) s

/-- A split, with what the parent answers when it is closed. -/
def splitShard (s : StreamState) (shardToSplit newStartingHashKey : String)
    (endings : List (Option String)) (creationMillis : Millis) :
    Except KinesisError Unit × StreamState :=
  match s.beginSplit shardToSplit newStartingHashKey with
  | .error error => (.error error, s)
  | .ok (reshard, s) => (.ok (), s.finishReshard reshard endings creationMillis)

def mergeShards (s : StreamState) (shardToMerge adjacentShardToMerge : String)
    (endings : List (Option String)) (creationMillis : Millis) :
    Except KinesisError Unit × StreamState :=
  match s.beginMerge shardToMerge adjacentShardToMerge with
  | .error error => (.error error, s)
  | .ok (reshard, s) => (.ok (), s.finishReshard reshard endings creationMillis)

/-! ## Retention -/

def hours (period : Millis) : ℕ := period / 3600000

/-- The period in hours, as 32 bits show it. -/
def currentHours (s : StreamState) : ℤ := min (hours s.retentionPeriod) (2 ^ 31 - 1)

def setHours (s : StreamState) (retentionPeriodHours : ℤ) : StreamState :=
  { s with retentionPeriod := retentionPeriodHours.toNat * 3600000 }

def increaseStreamRetentionPeriod (s : StreamState) (retentionPeriodHours : ℤ) :
    Except KinesisError Unit × StreamState :=
  if retentionPeriodHours < s.currentHours then
    (.error (invalid ("Requested retention period " ++ toString retentionPeriodHours ++
      " hours is less than current " ++ toString s.currentHours ++ " hours")), s)
  else if 8760 < retentionPeriodHours then
    (.error (invalid "Retention period cannot exceed 8760 hours (365 days)"), s)
  else (.ok (), s.setHours retentionPeriodHours)

def decreaseStreamRetentionPeriod (s : StreamState) (retentionPeriodHours : ℤ) :
    Except KinesisError Unit × StreamState :=
  if s.currentHours < retentionPeriodHours then
    (.error (invalid ("Requested retention period " ++ toString retentionPeriodHours ++
      " hours is greater than current " ++ toString s.currentHours ++ " hours")), s)
  else if retentionPeriodHours < 24 then
    (.error (invalid "Retention period cannot be less than 24 hours"), s)
  else (.ok (), s.setHours retentionPeriodHours)

end StreamState

end Rustack.Kinesis
