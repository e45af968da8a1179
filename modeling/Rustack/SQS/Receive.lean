import Rustack.SQS.Storage

/-!
# Receiving and handing over

A receive takes messages from the front of the storage.  One that has been received
too often goes to the dead-letter queue instead: a transfer is put into the channel
of the other actor, and the message waits with the source until the reply is there.
The registry of queues and their channels is a parameter with its own state.
-/

namespace Rustack.SQS

/-- A dead-letter message on its way, with the reply channel it is answered on. -/
structure PendingTransfer where
  message : QueueMessage
  reply : ℕ

structure RedriveManager where
  pending : List PendingTransfer
  quiescing : Bool

/-- The registry of queues as an actor sees it: the ARN and the shutdown flag of the queue
registered under a name, and a transfer put into its channel, which opens a reply channel
unless the channel is full or closed. -/
structure Routing (R : Type) where
  get : R → String → Option (String × Bool)
  trySend : R → String → QueueMessage → String → Option (ℕ × R)

/-- The text behind the last colon, the whole text if there is none. -/
def afterLastColon (s : String) : String :=
  String.ofList (s.toList.reverse.takeWhile (· ≠ ':')).reverse

/-- The text before the last colon, if there is one. -/
def beforeLastColon (s : String) : Option (List Char) :=
  match s.toList.reverse.dropWhile (· ≠ ':') with
  | [] => none
  | _ :: scope => some scope.reverse

variable {R : Type}

namespace RedriveManager

def empty : RedriveManager where
  pending := []
  quiescing := false

/-- `none` leaves the message with its queue. -/
def handoff (routing : Routing R) (routes : R) (self : RedriveManager) (message : QueueMessage)
    (targetArn sourceArn : String) : Option (RedriveManager × R) :=
  if self.quiescing ∨ 128 ≤ self.pending.length ∨ sourceArn = targetArn then none
  else
    match routing.get routes (afterLastColon targetArn) with
    | none => none
    | some (arn, shutdown) =>
      if arn ≠ targetArn ∨ shutdown then none
      else
        match routing.trySend routes (afterLastColon targetArn) message sourceArn with
        | none => none
        | some (reply, routes) =>
          some ({ self with pending := self.pending ++ [{ message, reply }] }, routes)

end RedriveManager

/-- The attributes and the ARN of the queue that receives. -/
structure RedriveRequest where
  attributes : QueueAttributes
  sourceArn : String

/-- `u32::try_from(max_receive_count).unwrap_or(u32::MAX)`. -/
def receiveLimit (policy : RedrivePolicy) : ℕ :=
  if policy.maxReceiveCount < 0 then u32Max else policy.maxReceiveCount.toNat

/-- Where a message goes that has been received too often. -/
def RedriveRequest.target (redrive : RedriveRequest) (message : QueueMessage) : Option String :=
  (redrive.attributes.redrivePolicy.filter fun policy =>
    receiveLimit policy ≤ message.approximateReceiveCount).map (·.deadLetterTargetArn)

/-- What a consumer asks for. -/
structure ReceiveRequest where
  max : ℕ
  visibilityTimeout : ℤ
  systemNames : List String
  messageNames : List String

/-- A message given out: as the queue keeps it, and as the consumer gets it. -/
structure Delivery where
  message : QueueMessage
  answer : Message

/-- A receive under way, with the number of receipt handles drawn so far. -/
structure Receiving (S R : Type) where
  storage : S
  redrive : RedriveManager
  routes : R
  drawn : ℕ
  result : List Delivery

/-- The message after one more receive. -/
def QueueMessage.received (m : Moment) (msg : QueueMessage) : QueueMessage :=
  { msg with
    approximateReceiveCount := min (msg.approximateReceiveCount + 1) u32Max
    approximateFirstReceiveTimestamp :=
      some (msg.approximateFirstReceiveTimestamp.getD m.millis) }

section

variable (env : SqsEnv) (m : Moment) (routing : Routing R) (redrive : RedriveRequest)
  (request : ReceiveRequest)

/-- The delivery of a message under the next receipt handle. -/
def deliver (drawn : ℕ) (msg : QueueMessage) : Delivery where
  message := msg.received m
  answer := buildMessage (msg.received m) (env.receiptHandles drawn) request.systemNames
    request.messageNames

/-- One turn of the loop over the available messages; `none` is the panic of an instant moved
by a negative timeout. -/
def receiveStandardTurn (r : Receiving StandardQueueStorage R) :
    Option (Receiving StandardQueueStorage R) :=
  match r.storage.available with
  | [] => some r
  | msg :: available =>
    match redrive.target msg with
    | some target =>
      match r.redrive.handoff routing r.routes msg target redrive.sourceArn with
      | some (manager, routes) =>
        some
          { r with
            storage := { r.storage with available }
            redrive := manager
            routes }
      -- no group to keep in order: the poison message makes room for the healthy ones
      | none => some { r with storage := { r.storage with available := available ++ [msg] } }
    | none => do
      let visibleAt ← after m.now request.visibilityTimeout
      let handle := env.receiptHandles r.drawn
      some
        { r with
          storage :=
            { r.storage with
              available
              inFlight := r.storage.inFlight.insert handle
                { message := msg.received m, receiptHandle := handle, visibleAt } }
          drawn := r.drawn + 1
          result := r.result ++ [deliver env m request r.drawn msg] }

/-- The loop with its scan budget. -/
def receiveStandardLoop :
    ℕ → Receiving StandardQueueStorage R → Option (Receiving StandardQueueStorage R)
  | 0, r => some r
  | budget + 1, r =>
    if request.max ≤ r.result.length then some r
    else (receiveStandardTurn env m routing redrive request r).bind (receiveStandardLoop budget)

def tryReceiveStandard (r : Receiving StandardQueueStorage R) :
    Option (Receiving StandardQueueStorage R) :=
  receiveStandardLoop env m routing redrive request (min r.storage.available.length 128) r

/-- One turn of the loop over the messages taken from their groups. -/
def receiveFifoTurn (r : Receiving FifoQueueStorage R) (taken : QueueMessage × String) :
    Option (Receiving FifoQueueStorage R) :=
  match redrive.target taken.1 with
  | some target =>
    match r.redrive.handoff routing r.routes taken.1 target redrive.sourceArn with
    | some (manager, routes) => some { r with redrive := manager, routes }
    | none => some { r with storage := r.storage.finishRedrive taken.2 (some taken.1) }
  | none => do
    let visibleAt ← after m.now request.visibilityTimeout
    some
      { r with
        storage := r.storage.markInFlight (env.receiptHandles r.drawn) (taken.1.received m)
          taken.2 visibleAt
        drawn := r.drawn + 1
        result := r.result ++ [deliver env m request r.drawn taken.1] }

def tryReceiveFifo (r : Receiving FifoQueueStorage R) : Option (Receiving FifoQueueStorage R) :=
  let (storage, received) := r.storage.receive request.max
  received.foldlM (receiveFifoTurn env m routing redrive request) { r with storage }

end

end Rustack.SQS
