import Rustack.Kinesis.Iterator
import Rustack.Kinesis.Resharding

/-!
# A stream and its clients

A call looks its shard up while no reshard holds the stream, and puts a request into the channel
of the actor later.  Every actor takes its requests in the order in which they were sent.  A
reshard holds the stream until its parents have answered.

What the shards have ever stored, and the order in which requests were served, is noted beside
the state of the program.
-/

namespace Rustack.Kinesis

inductive Progress where
  | routed
  | sent
  | answered (reply : ShardReply)
deriving DecidableEq

/-- A request to an actor.  The ticket of a request is its place in the list of requests. -/
structure Request where
  actor : ℕ
  command : ShardCommand
  progress : Progress
deriving DecidableEq

/-- A reshard that holds the stream. -/
structure Closing where
  reshard : StreamState.Reshard
  endings : List (Option String)
  waiting : Option ℕ
deriving DecidableEq

/-- Where a reader stands: it waits for an answer, or it has an iterator, or it was refused. -/
inductive Phase where
  | waiting (ticket : ℕ)
  | holding (token : String)
  | refused
deriving DecidableEq

structure Reader where
  shardId : String
  opened : ℕ
  received : List StoredRecord
  phase : Phase
deriving DecidableEq

structure World where
  stream : StreamState
  clock : Millis
  requests : List Request
  queue : List ℕ
  closing : Option Closing
  readers : List Reader
  /-- Every record that a shard has stored, with the ticket that brought it. -/
  history : List (List (ℕ × StoredRecord))
  /-- The tickets in the order in which they were served. -/
  served : List ℕ

inductive Event where
  | wait (time : Millis)
  | put (data : List UInt8) (partitionKey : String) (explicitHashKey : Option String)
  | getShardIterator (shardId : String) (request : IteratorRequest)
  | getRecords (reader : ℕ) (limit : Option ℤ)
  | take (reader : ℕ) (nonce : String)
  | send (ticket : ℕ)
  | handle (actor : ℕ)
  | cleanup (actor : ℕ)
  | split (shardToSplit newStartingHashKey : String)
  | merge (shardToMerge adjacentShardToMerge : String)
  | close
  | closed
  | finish
  | increase (hours : ℤ)
  | decrease (hours : ℤ)
deriving DecidableEq

namespace World

def start (stream : StreamState) (clock : Millis) : World :=
  { stream
    clock
    requests := []
    queue := []
    closing := none
    readers := []
    history := stream.actors.map fun _ => []
    served := [] }

def issue (w : World) (actor : ℕ) (command : ShardCommand) : World :=
  { w with requests := w.requests ++ [⟨actor, command, .routed⟩] }

/-! ## Calls of clients -/

def MAX_RECORD_SIZE : ℕ := 1048576

def validatePartitionKey (partitionKey : String) : Except KinesisError Unit :=
  if partitionKey.utf8ByteSize = 0 ∨ 256 < partitionKey.utf8ByteSize then
    .error (StreamState.invalid "Partition key must be between 1 and 256 characters")
  else .ok ()

def validateDataSize (data : List UInt8) : Except KinesisError Unit :=
  if MAX_RECORD_SIZE < data.length then
    .error (StreamState.invalid ("Record data size " ++ toString data.length ++
      " exceeds maximum of " ++ toString MAX_RECORD_SIZE ++ " bytes"))
  else .ok ()

/-- The open shard that a record goes to. -/
def routePut (md5 : String → HashKey) (w : World) (data : List UInt8) (partitionKey : String)
    (explicitHashKey : Option String) : Except KinesisError ShardHandle := do
  validatePartitionKey partitionKey
  validateDataSize data
  let i ← StreamState.routeToShard md5 w.stream.activeShards partitionKey explicitHashKey
  match w.stream.activeShards[i]? with
  | none => throw (StreamState.notFound "No active shards available")
  | some handle => pure handle

def put (md5 : String → HashKey) (w : World) (data : List UInt8) (partitionKey : String)
    (explicitHashKey : Option String) : World :=
  match routePut md5 w data partitionKey explicitHashKey with
  | .error _ => w
  | .ok handle => w.issue handle.actor (.putRecord data partitionKey explicitHashKey)

def findShard (w : World) (shardId : String) : Option ShardHandle :=
  StreamState.findShardHandleAny w.stream.activeShards w.stream.closedShardHandles shardId

def getShardIterator (w : World) (shardId : String) (request : IteratorRequest) : World :=
  match w.findShard shardId with
  | none => w
  | some handle =>
    { w.issue handle.actor (.getShardIterator request) with
      readers := w.readers ++ [⟨shardId, w.requests.length, [], .waiting w.requests.length⟩] }

/-- The number of records a read asks for. -/
def limitOf (limit : Option ℤ) : ℕ := (min (limit.getD 10000) 10000).toNat

/-- The shard and the position that a token names. -/
def locate (w : World) (token : String) : Option (ShardHandle × ℕ) :=
  match ShardIteratorToken.decode token with
  | .error _ => none
  | .ok token =>
    if token.streamName = w.stream.name then
      (w.findShard token.shardId).map fun handle => (handle, token.position)
    else none

def setReader (w : World) (i : ℕ) (reader : Reader) : World :=
  { w with readers := w.readers.set i reader }

def readWith (w : World) (i : ℕ) (reader : Reader) (token : String) (limit : ℕ) : World :=
  match w.locate token with
  | none => w.setReader i { reader with phase := .refused }
  | some (handle, position) =>
    (w.issue handle.actor (.getRecords position limit)).setReader i
      { reader with phase := .waiting w.requests.length }

def getRecords (w : World) (i : ℕ) (limit : ℕ) : Option World :=
  match w.readers[i]? with
  | none => none
  | some reader =>
    match reader.phase with
    | .holding token => some (w.readWith i reader token limit)
    | _ => none

def answerOf (w : World) (ticket : ℕ) : Option ShardReply :=
  match w.requests[ticket]? with
  | some ⟨_, _, .answered reply⟩ => some reply
  | _ => none

/-- The iterator that a reader gets for a position. -/
def iterator (w : World) (reader : Reader) (position : ℕ) (nonce : String) : String :=
  ShardIteratorToken.encode ⟨w.stream.name, reader.shardId, position, nonce⟩

/-- What a reader makes of an answer. -/
def taken (w : World) (reader : Reader) (nonce : String) : ShardReply → Reader
  | .position (.ok position) =>
    { reader with phase := .holding (w.iterator reader position nonce) }
  | .records records position _ =>
    { reader with
      received := reader.received ++ records
      phase := .holding (w.iterator reader position nonce) }
  | _ => { reader with phase := .refused }

def take (w : World) (i : ℕ) (nonce : String) : Option World :=
  match w.readers[i]? with
  | none => none
  | some reader =>
    match reader.phase with
    | .waiting ticket =>
      (w.answerOf ticket).map fun reply => w.setReader i (w.taken reader nonce reply)
    | _ => none

/-! ## Channels and actors -/

def CHANNEL_CAPACITY : ℕ := 256

def actorOf (w : World) (ticket : ℕ) : Option ℕ := w.requests[ticket]?.map (·.actor)

/-- The channel of an actor: the requests to it that have been sent, in that order. -/
def channel (w : World) (actor : ℕ) : List ℕ :=
  w.queue.filter fun ticket => w.actorOf ticket = some actor

def setProgress (w : World) (ticket : ℕ) (progress : Progress) : World :=
  { w with requests := w.requests.modify ticket fun request => { request with progress } }

def send (w : World) (ticket : ℕ) : Option World :=
  match w.requests[ticket]? with
  | some ⟨actor, _, .routed⟩ =>
    if (w.channel actor).length < CHANNEL_CAPACITY then
      some { w.setProgress ticket .sent with queue := w.queue ++ [ticket] }
    else none
  | _ => none

def setActor (w : World) (i : ℕ) (actor : ShardActor) : World :=
  { w with stream := { w.stream with actors := w.stream.actors.set i actor } }

/-- The records that an actor has added to its log. -/
def added (actor actor' : ShardActor) : List StoredRecord :=
  actor'.recordLog.records.drop actor.recordLog.records.length

/-- An actor serves a request. -/
def serve (w : World) (i ticket : ℕ) (actor : ShardActor) (command : ShardCommand) : World :=
  let reply := (actor.handleCommand command w.clock).1
  let actor' := (actor.handleCommand command w.clock).2
  { (w.setProgress ticket (.answered reply)).setActor i actor' with
    queue := w.queue.erase ticket
    history := w.history.modify i (· ++ (added actor actor').map fun record => (ticket, record))
    served := w.served ++ [ticket] }

def handle (w : World) (i : ℕ) : Option World := do
  let ticket ← (w.channel i).head?
  let request ← w.requests[ticket]?
  let actor ← w.stream.actors[i]?
  pure (w.serve i ticket actor request.command)

def cleanup (w : World) (i : ℕ) : Option World :=
  (w.stream.actors[i]?).map fun actor => w.setActor i (actor.trim w.clock)

/-! ## Reshards -/

def begin' (w : World) (begun : Except KinesisError (StreamState.Reshard × StreamState)) : World :=
  match begun with
  | .error _ => w
  | .ok (reshard, stream) => { w with stream, closing := some ⟨reshard, [], none⟩ }

/-- Ask the next parent to close. -/
def close (w : World) : Option World :=
  match w.closing with
  | some ⟨reshard, endings, none⟩ =>
    (reshard.parents[endings.length]?).map fun parent =>
      { w.issue parent.actor (.close none) with
        closing := some ⟨reshard, endings, some w.requests.length⟩ }
  | _ => none

/-- The parent has answered. -/
def closed (w : World) : Option World :=
  match w.closing with
  | some ⟨reshard, endings, some ticket⟩ =>
    match w.answerOf ticket with
    | some (.closed ending) => some { w with closing := some ⟨reshard, endings ++ [ending], none⟩ }
    | _ => none
  | _ => none

def finish (w : World) : Option World :=
  match w.closing with
  | some ⟨reshard, endings, none⟩ =>
    if endings.length = reshard.parents.length then
      some { w with
        stream := w.stream.finishReshard reshard endings w.clock
        closing := none
        history := w.history ++ reshard.children.map fun _ => [] }
    else none
  | _ => none

/-! ## Steps -/

/-- An event that needs the stream happens while no reshard holds it. -/
def unlocked (w : World) (next : Option World) : Option World :=
  match w.closing with
  | none => next
  | some _ => none

def step (md5 : String → HashKey) (w : World) : Event → Option World
  | .wait time => if w.clock ≤ time then some { w with clock := time } else none
  | .put data partitionKey explicitHashKey =>
    w.unlocked (some (w.put md5 data partitionKey explicitHashKey))
  | .getShardIterator shardId request => w.unlocked (some (w.getShardIterator shardId request))
  | .getRecords reader limit => w.unlocked (w.getRecords reader (limitOf limit))
  | .take reader nonce => w.take reader nonce
  | .send ticket => w.send ticket
  | .handle actor => w.handle actor
  | .cleanup actor => w.cleanup actor
  | .split shard key => w.unlocked (some (w.begin' (w.stream.beginSplit shard key)))
  | .merge shard adjacent => w.unlocked (some (w.begin' (w.stream.beginMerge shard adjacent)))
  | .close => w.close
  | .closed => w.closed
  | .finish => w.finish
  | .increase hours =>
    w.unlocked (some { w with stream := (w.stream.increaseStreamRetentionPeriod hours).2 })
  | .decrease hours =>
    w.unlocked (some { w with stream := (w.stream.decreaseStreamRetentionPeriod hours).2 })

def run (md5 : String → HashKey) (w : World) (events : List Event) : Option World :=
  events.foldlM (step md5) w

end World

end Rustack.Kinesis
