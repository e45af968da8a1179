import Mathlib.Data.Finset.Basic
import Rustack.Lib.SortedMap
import Rustack.SQS.Message

/-!
# Message storage

The two storages of a queue actor.  A standard queue has three pools; a FIFO queue
has a deque for each group, the groups that are blocked, what is in flight, and the
cache that tells a message sent twice.  The clock is read once in an operation.
-/

namespace Rustack.SQS

/-! ## Standard queues -/

structure InFlightMessage where
  message : QueueMessage
  receiptHandle : String
  visibleAt : Instant

structure StandardQueueStorage where
  available : List QueueMessage
  delayed : List QueueMessage
  inFlight : AList fun _ : String => InFlightMessage

namespace StandardQueueStorage

def empty : StandardQueueStorage where
  available := []
  delayed := []
  inFlight := ∅

def promoteDelayed (now : Instant) (s : StandardQueueStorage) : StandardQueueStorage × Bool :=
  let due := s.delayed.filter fun msg => msg.availableAt ≤ now
  ({ s with
      available := s.available ++ due
      delayed := s.delayed.filter fun msg => ¬msg.availableAt ≤ now }, !due.isEmpty)

/-- The handles of the messages that are visible again, in the order they are met. -/
def expired (m : Moment) (s : StandardQueueStorage) : List String :=
  (m.order s.inFlight.keys).filter fun handle =>
    (s.inFlight.lookup handle).any fun ifm => ifm.visibleAt ≤ m.now

/-- Back to the end of the available messages. -/
def giveBack (s : StandardQueueStorage) (handle : String) : StandardQueueStorage :=
  match s.inFlight.lookup handle with
  | none => s
  | some ifm =>
    { s with
      available := s.available ++ [ifm.message]
      inFlight := s.inFlight.erase handle }

def returnExpiredInflight (m : Moment) (s : StandardQueueStorage) :
    StandardQueueStorage × Bool :=
  ((s.expired m).foldl giveBack s, !(s.expired m).isEmpty)

def counts (s : StandardQueueStorage) : ℕ × ℕ × ℕ :=
  (s.available.length % 2 ^ 32, s.inFlight.keys.length % 2 ^ 32, s.delayed.length % 2 ^ 32)

def purge (_ : StandardQueueStorage) : StandardQueueStorage := empty

end StandardQueueStorage

/-! ## FIFO queues -/

/-- What makes two messages the same one. -/
inductive DedupKey where
  | queue (id : String)
  | redrive (source message : String)
  | group (group id : String)
  deriving DecidableEq

structure DedupCacheEntry where
  expiry : Instant
  messageId : String
  sequenceNumber : ℕ
  deriving DecidableEq

structure FifoInFlightMessage where
  message : QueueMessage
  visibleAt : Instant
  groupId : String

structure FifoQueueStorage where
  groups : SortedMap String (List QueueMessage) compare
  blockedGroups : Finset String
  inFlight : AList fun _ : String => FifoInFlightMessage
  dedupCache : AList fun _ : DedupKey => DedupCacheEntry
  nextSequence : ℕ

/-- Five minutes. -/
def dedupWindow : ℕ := seconds 300

inductive EnqueueResult where
  | enqueued (messageId : String) (sequenceNumber : ℕ)
  | deduplicated (messageId : String) (sequenceNumber : ℕ)
  deriving DecidableEq

namespace FifoQueueStorage

def empty : FifoQueueStorage where
  groups := SortedMap.empty
  blockedGroups := ∅
  inFlight := ∅
  dedupCache := ∅
  nextSequence := 1

/-- The deque of a group, empty for a group there is none of. -/
def waiting (s : FifoQueueStorage) (groupId : String) : List QueueMessage :=
  (s.groups.get? groupId).getD []

def setWaiting (s : FifoQueueStorage) (groupId : String) (queue : List QueueMessage) :
    FifoQueueStorage :=
  { s with groups := s.groups.insert groupId queue }

def pushBack (s : FifoQueueStorage) (groupId : String) (msg : QueueMessage) : FifoQueueStorage :=
  s.setWaiting groupId (s.waiting groupId ++ [msg])

def pushFront (s : FifoQueueStorage) (groupId : String) (msg : QueueMessage) : FifoQueueStorage :=
  s.setWaiting groupId (msg :: s.waiting groupId)

def unblock (s : FifoQueueStorage) (groupId : String) : FifoQueueStorage :=
  { s with blockedGroups := s.blockedGroups.erase groupId }

/-- The cached entry of a key if it is still in its window. -/
def liveEntry (s : FifoQueueStorage) (now : Instant) (key : DedupKey) : Option DedupCacheEntry :=
  (s.dedupCache.lookup key).filter fun entry => now < entry.expiry

def enqueue (s : FifoQueueStorage) (now : Instant) (msg : QueueMessage) (key : DedupKey) :
    FifoQueueStorage × EnqueueResult :=
  match s.liveEntry now key with
  | some entry => (s, .deduplicated entry.messageId entry.sequenceNumber)
  | none =>
    let seq := s.nextSequence
    let entry : DedupCacheEntry :=
      { expiry := now + dedupWindow, messageId := msg.messageId, sequenceNumber := seq }
    let s :=
      { s with
        nextSequence := seq + 1
        dedupCache := s.dedupCache.insert key entry }
    (s.pushBack (msg.messageGroupId.getD "") { msg with sequenceNumber := some seq },
      .enqueued msg.messageId seq)

/-- The loop over the group keys: the head of each group that is not blocked, which blocks it. -/
def receiveLoop (max : ℕ) :
    List String → FifoQueueStorage → List (QueueMessage × String) →
      FifoQueueStorage × List (QueueMessage × String)
  | [], s, result => (s, result)
  | groupId :: keys, s, result =>
    if max ≤ result.length then (s, result)
    else if groupId ∈ s.blockedGroups then receiveLoop max keys s result
    else
      match s.groups.get? groupId with
      | some (msg :: queue) =>
        let s := s.setWaiting groupId queue
        receiveLoop max keys { s with blockedGroups := insert groupId s.blockedGroups }
          (result ++ [(msg, groupId)])
      | _ => receiveLoop max keys s result

def receive (s : FifoQueueStorage) (max : ℕ) : FifoQueueStorage × List (QueueMessage × String) :=
  let (s, result) := receiveLoop max (s.groups.entries.map Prod.fst) s []
  ({ s with groups := s.groups.retain fun _ queue => !queue.isEmpty }, result)

/-- End a redrive; a message that was not taken goes back to the head of its group. -/
def finishRedrive (s : FifoQueueStorage) (groupId : String) (restore : Option QueueMessage) :
    FifoQueueStorage :=
  match restore with
  | none => s.unblock groupId
  | some msg => (s.unblock groupId).pushFront groupId msg

def markInFlight (s : FifoQueueStorage) (receiptHandle : String) (message : QueueMessage)
    (groupId : String) (visibleAt : Instant) : FifoQueueStorage :=
  { s with inFlight := s.inFlight.insert receiptHandle { message, visibleAt, groupId } }

/-- Some message of the group is in flight. -/
def groupInFlight (s : FifoQueueStorage) (groupId : String) : Bool :=
  s.inFlight.entries.any fun e => e.2.groupId = groupId

/-- Unblock the group unless another of its messages is in flight. -/
def unblockIdle (s : FifoQueueStorage) (groupId : String) : FifoQueueStorage :=
  if s.groupInFlight groupId then s else s.unblock groupId

def takeInFlight (s : FifoQueueStorage) (receiptHandle : String) : FifoQueueStorage :=
  { s with inFlight := s.inFlight.erase receiptHandle }

def deleteMessage (s : FifoQueueStorage) (receiptHandle : String) : FifoQueueStorage × Bool :=
  match s.inFlight.lookup receiptHandle with
  | none => (s, false)
  | some ifm => ((s.takeInFlight receiptHandle).unblockIdle ifm.groupId, true)

/-- From in flight to the head of the group. -/
def giveBack (s : FifoQueueStorage) (receiptHandle : String) : FifoQueueStorage :=
  match s.inFlight.lookup receiptHandle with
  | none => s
  | some ifm =>
    ((s.takeInFlight receiptHandle).pushFront ifm.groupId ifm.message).unblockIdle ifm.groupId

def changeVisibility (s : FifoQueueStorage) (now : Instant) (receiptHandle : String)
    (visibleAt : Instant) : FifoQueueStorage × Bool :=
  match s.inFlight.lookup receiptHandle with
  | none => (s, false)
  | some ifm =>
    if visibleAt ≤ now then (s.giveBack receiptHandle, true)
    else (s.markInFlight receiptHandle ifm.message ifm.groupId visibleAt, true)

def expired (m : Moment) (s : FifoQueueStorage) : List String :=
  (m.order s.inFlight.keys).filter fun handle =>
    (s.inFlight.lookup handle).any fun ifm => ifm.visibleAt ≤ m.now

def returnExpiredInflight (m : Moment) (s : FifoQueueStorage) : FifoQueueStorage × Bool :=
  ((s.expired m).foldl giveBack s, !(s.expired m).isEmpty)

def cleanDedupCache (now : Instant) (s : FifoQueueStorage) : FifoQueueStorage :=
  { s with dedupCache := s.dedupCache.retainEntries fun _ entry => now < entry.expiry }

def counts (s : FifoQueueStorage) : ℕ × ℕ × ℕ :=
  ((s.groups.entries.map fun e => e.2.length).sum % 2 ^ 32, s.inFlight.keys.length % 2 ^ 32, 0)

def purge (s : FifoQueueStorage) : FifoQueueStorage :=
  { s with
    groups := SortedMap.empty
    blockedGroups := ∅
    inFlight := ∅ }

end FifoQueueStorage

end Rustack.SQS
