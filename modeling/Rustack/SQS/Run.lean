import Rustack.Lib.Outcome
import Rustack.SQS.Actor

/-!
# Runs of one actor

An actor turns event after event; the clock, the registry and the answers it meets in
a turn come from outside and are arbitrary.  A run keeps what the actor did: its
replies, and the enqueues it made with what came of them.
-/

namespace Rustack.SQS

/-- What an actor meets in one turn. -/
structure Stimulus (R : Type) where
  moment : Moment
  routes : R
  event : QueueActor.Event

/-- An enqueue into a FIFO storage and its result. -/
structure Enqueue where
  now : Instant
  message : QueueMessage
  key : DedupKey
  result : EnqueueResult

namespace QueueActor

variable {R : Type} (env : SqsEnv) (m : Moment) (routing : Routing R)

/-- The message a command wants in the storage of a FIFO queue, and its key. -/
def wanted (a : QueueActor) : Event → Option (QueueMessage × DedupKey)
  | .command (.transfer message sourceArn reply) =>
    if m.abandoned reply then none
    else
      match a.checkTransfer env message sourceArn with
      | .error _ => none
      | .ok () =>
        some (transferredFifoMessage m message sourceArn, .redrive sourceArn message.messageId)
  | .command (.sendMessage input reply) =>
    if m.closed reply then none
    else (a.checkSend input >>= fun _ => a.fifoMessage env m input).toOption
  | _ => none

/-- The enqueue of a turn, if it makes one. -/
def enqueued (a : QueueActor) (event : Event) : Option Enqueue :=
  match a.storage with
  | .standard _ => none
  | .fifo storage =>
    (a.wanted env m event).map fun (message, key) =>
      { now := m.now, message, key, result := (storage.enqueue m.now message key).2 }

variable {env m routing}

theorem turn_eq_some {a a' : QueueActor} {routes routes' : R} {event : Event}
    {replies : List Reply} :
    a.turn env m routing routes event = some (a', routes', replies) ↔
      ∃ b answered, a.handleEvent env m routing routes event = some (b, routes', answered) ∧
        a' = (b.settleTransfers m).answerQuiesce.1 ∧
          replies = answered ++ (b.settleTransfers m).answerQuiesce.2 := by
  unfold turn
  constructor
  · intro hturn
    obtain ⟨⟨b, routes₁, answered⟩, hevent, hturn⟩ := Option.bind_eq_some_iff.mp hturn
    simp only [Option.pure_def, Option.some.injEq, Prod.mk.injEq] at hturn
    obtain ⟨rfl, rfl, rfl⟩ := hturn
    exact ⟨b, answered, hevent, rfl, rfl⟩
  · rintro ⟨b, answered, hevent, rfl, rfl⟩
    rw [hevent]
    rfl

theorem periodicCleanup_eq_some {a a' : QueueActor} {routes routes' : R} {replies : List Reply}
    (hcleanup : a.periodicCleanup env m routing routes = some (a', routes', replies)) :
    ∃ b answered,
      (if (a.refresh m).2 ∧ !((a.refresh m).1.cleanDedupCache m).pendingLongPolls.isEmpty then
          ((a.refresh m).1.cleanDedupCache m).fulfillPendingLongPolls env m routing routes
        else some ((a.refresh m).1.cleanDedupCache m, routes, [])) =
          some (b, routes', answered) ∧
      a' = (b.expireLongPolls m).1 ∧ replies = answered ++ (b.expireLongPolls m).2 := by
  unfold QueueActor.periodicCleanup at hcleanup
  dsimp only at hcleanup
  split at hcleanup
  · next hpolls =>
      obtain ⟨⟨b, routes₁, answered⟩, hnext, hcleanup⟩ := Option.bind_eq_some_iff.mp hcleanup
      simp only [Option.pure_def, Option.some.injEq, Prod.mk.injEq] at hcleanup
      obtain ⟨rfl, rfl, rfl⟩ := hcleanup
      exact ⟨b, answered, by rw [if_pos hpolls, hnext], rfl, rfl⟩
  · next hpolls =>
      obtain ⟨⟨b, routes₁, answered⟩, hnext, hcleanup⟩ := Option.bind_eq_some_iff.mp hcleanup
      simp only [Option.pure_def, Option.some.injEq, Prod.mk.injEq] at hcleanup
      obtain ⟨rfl, rfl, rfl⟩ := hcleanup
      exact ⟨b, answered, by rw [if_neg hpolls, hnext], rfl, rfl⟩

end QueueActor

/-- An actor and what it did. -/
structure History where
  actor : QueueActor
  replies : List Reply
  enqueues : List Enqueue

namespace History

variable {R : Type} (env : SqsEnv) (routing : Routing R)

def start (a : QueueActor) : History where
  actor := a
  replies := []
  enqueues := []

def next (h : History) (s : Stimulus R) : Option History := do
  let (actor, _, replies) ← h.actor.turn env s.moment routing s.routes s.event
  return {
    actor
    replies := h.replies ++ replies
    enqueues := h.enqueues ++ (h.actor.enqueued env s.moment s.event).toList }

/-- `none` if a turn panics. -/
def run (h : History) (stimuli : List (Stimulus R)) : Option History :=
  stimuli.foldlM (next env routing) h

variable {env routing}

theorem next_eq_some {h h' : History} {s : Stimulus R} :
    h.next env routing s = some h' ↔
      ∃ actor routes replies,
        h.actor.turn env s.moment routing s.routes s.event = some (actor, routes, replies) ∧
          h' = {
            actor
            replies := h.replies ++ replies
            enqueues := h.enqueues ++ (h.actor.enqueued env s.moment s.event).toList } := by
  unfold next
  constructor
  · intro hnext
    obtain ⟨⟨actor, routes, replies⟩, hturn, hnext⟩ := Option.bind_eq_some_iff.mp hnext
    cases hnext
    exact ⟨actor, routes, replies, hturn, rfl⟩
  · rintro ⟨actor, routes, replies, hturn, rfl⟩
    rw [hturn]
    rfl

end History

/-! ## Runs on fixed inputs -/

/-- A registry without queues. -/
def noRoutes : Routing Unit where
  get _ _ := none
  trySend _ _ _ _ := none

/-- A command at a plain moment. -/
def commandAt (now : Instant) (cmd : QueueCommand) : Stimulus Unit where
  moment := plainMoment now
  routes := ()
  event := .command cmd

/-- A message of a group under a deduplication id. -/
def plainSend (body group id : String) : SendMessageInput where
  messageBody := body
  delaySeconds := none
  messageDeduplicationId := some id
  messageGroupId := some group
  messageAttributes := ∅

def plainReceive (max : ℤ) : ReceiveMessageInput where
  maxNumberOfMessages := some max
  visibilityTimeout := none
  waitTimeSeconds := none
  attributeNames := []
  messageSystemAttributeNames := []
  messageAttributeNames := []

/-- A queue with the default attributes. -/
def plainActor (isFifo : Bool) : QueueActor :=
  QueueActor.new "q.fifo" "arn:q.fifo" isFifo QueueAttributes.default ∅ "0" 0

end Rustack.SQS
