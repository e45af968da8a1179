import Rustack.SQS.Receive

/-!
# The queue actor

All the state of one queue and the turns of its event loop.  A turn handles one
event (a command, the end of the command channel, a transfer reply, the cleanup
tick, a poll deadline), and then settles the transfers whose replies have arrived;
the state after a turn is the one in which the actor waits.  The panic of an
instant moved by a negative timeout ends the actor and is `none`.
-/

namespace Rustack.SQS

inductive QueueStorage where
  | standard (storage : StandardQueueStorage)
  | fifo (storage : FifoQueueStorage)

/-- A receive that waits for messages. -/
structure PendingLongPoll where
  client : ℕ
  request : ReceiveRequest
  deadline : Instant

/-- The last two fields count the ids and handles drawn so far. -/
structure QueueActor where
  name : String
  arn : String
  isFifo : Bool
  attributes : QueueAttributes
  storage : QueueStorage
  tags : StringMap
  createdAt : ℕ
  lastModifiedAt : ℕ
  lastPurgeAt : Option Instant
  accountId : String
  pendingLongPolls : List PendingLongPoll
  redrive : RedriveManager
  quiesceReply : Option ℕ
  stopping : Bool
  commandsOpen : Bool
  messagesDrawn : ℕ
  handlesDrawn : ℕ

structure SendMessageInput where
  messageBody : String
  delaySeconds : Option ℤ
  messageDeduplicationId : Option String
  messageGroupId : Option String
  messageAttributes : MessageAttributes

structure SendMessageOutput where
  messageId : Option String
  sequenceNumber : Option ℕ
  deriving DecidableEq

structure ReceiveMessageInput where
  maxNumberOfMessages : Option ℤ
  visibilityTimeout : Option ℤ
  waitTimeSeconds : Option ℤ
  attributeNames : List String
  messageSystemAttributeNames : List String
  messageAttributeNames : List String

/-- The number of a command's reply channel goes with it. -/
inductive QueueCommand where
  | transfer (message : QueueMessage) (sourceArn : String) (reply : ℕ)
  | quiesce (reply : ℕ)
  | sendMessage (input : SendMessageInput) (reply : ℕ)
  | receiveMessage (input : ReceiveMessageInput) (reply : ℕ)
  | deleteMessage (receiptHandle : String) (reply : ℕ)
  | changeVisibility (receiptHandle : String) (visibilityTimeout : ℤ) (reply : ℕ)
  | getAttributes (attributeNames : List String) (reply : ℕ)
  | setAttributes (attributes : StringMap) (reply : ℕ)
  | purge (reply : ℕ)
  | getTags (reply : ℕ)
  | setTags (tags : StringMap) (reply : ℕ)
  | removeTags (keys : List String) (reply : ℕ)
  | shutdown

inductive Reply where
  | transferred (reply : ℕ) (result : Except SqsError Unit)
  | quiesced (reply : ℕ)
  | sent (reply : ℕ) (result : Except SqsError SendMessageOutput)
  | received (reply : ℕ) (deliveries : List Delivery)
  | done (reply : ℕ) (result : Except SqsError Unit)
  | strings (reply : ℕ) (map : StringMap)

/-- What a handler leaves behind: the actor, the registry, whether the long polls are to be
looked at, and the replies sent. -/
structure Handled (R : Type) where
  actor : QueueActor
  routes : R
  fulfill : Bool
  replies : List Reply

namespace QueueActor

def new (name arn : String) (isFifo : Bool) (attributes : QueueAttributes) (tags : StringMap)
    (accountId : String) (createdAt : ℕ) : QueueActor where
  name
  arn
  isFifo
  attributes
  storage := if isFifo then .fifo .empty else .standard .empty
  tags
  createdAt
  lastModifiedAt := createdAt
  lastPurgeAt := none
  accountId
  pendingLongPolls := []
  redrive := .empty
  quiesceReply := none
  stopping := false
  commandsOpen := true
  messagesDrawn := 0
  handlesDrawn := 0

variable {R : Type} (env : SqsEnv) (m : Moment) (routing : Routing R)

/-! ## Sending -/

/-- A message as it is sent, under the next message id. -/
def newMessage (a : QueueActor) (input : SendMessageInput) (availableAt : Instant)
    (delaySeconds : ℤ) : QueueMessage where
  messageId := env.messageIds a.messagesDrawn
  body := input.messageBody
  messageAttributes := input.messageAttributes
  senderId := a.accountId
  sentTimestamp := m.millis
  approximateReceiveCount := 0
  approximateFirstReceiveTimestamp := none
  sequenceNumber := none
  messageGroupId := input.messageGroupId
  messageDeduplicationId := input.messageDeduplicationId
  deadLetterQueueSourceArn := none
  availableAt
  delaySeconds

def notForThisQueueType (parameter : String) : SqsError :=
  .invalidParameterValue ("Value for parameter " ++ parameter ++ " is invalid. Reason: The " ++
    "request includes a parameter that is not valid for this queue type.")

def storageMismatch : SqsError := .internalError "Storage type mismatch"

def handleSendMessageStandard (a : QueueActor) (input : SendMessageInput) :
    Except SqsError (QueueActor × SendMessageOutput × Bool) :=
  if input.messageGroupId.isSome then .error (notForThisQueueType "MessageGroupId")
  else if input.messageDeduplicationId.isSome then
    .error (notForThisQueueType "MessageDeduplicationId")
  else
    match a.storage with
    | .fifo _ => .error storageMismatch
    | .standard storage =>
      let delaySeconds := input.delaySeconds.getD a.attributes.delaySeconds
      let availableAt := if 0 < delaySeconds then m.now + seconds delaySeconds.toNat else m.now
      let msg := a.newMessage env m input availableAt delaySeconds
      let storage :=
        if 0 < delaySeconds then { storage with delayed := storage.delayed ++ [msg] }
        else { storage with available := storage.available ++ [msg] }
      .ok
        ({ a with
            storage := .standard storage
            messagesDrawn := a.messagesDrawn + 1 },
          { messageId := some msg.messageId, sequenceNumber := none }, delaySeconds ≤ 0)

/-- What tells the message from others, by the scope of the queue. -/
def effectiveDedupKey (a : QueueActor) (groupId dedupId : String) : DedupKey :=
  if a.attributes.deduplicationScope = "messageGroup" then .group groupId dedupId
  else .queue dedupId

/-- The checks of a FIFO send: the message and the key it goes under. -/
def fifoMessage (a : QueueActor) (input : SendMessageInput) :
    Except SqsError (QueueMessage × DedupKey) :=
  if input.delaySeconds.any (0 < ·) then
    .error (.invalidParameterValue ("Value 0 for parameter DelaySeconds is invalid. Reason: " ++
      "The request includes a parameter that is not valid for this queue type."))
  else
    match input.messageGroupId with
    | none =>
      .error (.missingParameter "The request must contain the parameter MessageGroupId.")
    | some groupId =>
      let message := fun dedupId =>
        (a.newMessage env m { input with messageDeduplicationId := some dedupId } m.now 0,
          a.effectiveDedupKey groupId dedupId)
      match input.messageDeduplicationId with
      | some id => .ok (message id)
      | none =>
        if a.attributes.contentBasedDeduplication then
          .ok (message (env.contentHash input.messageBody))
        else
          .error (.invalidParameterValue ("The queue should either have " ++
            "ContentBasedDeduplication enabled or MessageDeduplicationId provided explicitly."))

/-- A duplicate is answered with the id and the sequence number of the original. -/
def enqueueOutput : EnqueueResult → SendMessageOutput × Bool
  | .enqueued id seq => ({ messageId := some id, sequenceNumber := some seq }, true)
  | .deduplicated id seq => ({ messageId := some id, sequenceNumber := some seq }, false)

def handleSendMessageFifo (a : QueueActor) (input : SendMessageInput) :
    Except SqsError (QueueActor × SendMessageOutput × Bool) :=
  match a.storage with
  | .standard _ => .error storageMismatch
  | .fifo storage => do
    let (msg, key) ← a.fifoMessage env m input
    let (storage, result) := storage.enqueue m.now msg key
    return ({ a with storage := .fifo storage, messagesDrawn := a.messagesDrawn + 1 },
      enqueueOutput result)

/-- The checks of both queue types. -/
def checkSend (a : QueueActor) (input : SendMessageInput) : Except SqsError Unit :=
  if input.messageBody.isEmpty then
    .error (.invalidParameterValue "The request must contain the parameter MessageBody.")
  else if a.attributes.maximumMessageSize < Text.byteLength input.messageBody.toList then
    .error (.invalidParameterValue ("One or more parameters are invalid. Reason: Message must " ++
      "be shorter than " ++ toString a.attributes.maximumMessageSize ++ " bytes."))
  else if 10 < input.messageAttributes.keys.length then
    .error (.invalidParameterValue ("Number of message attributes [\x7b\x7d] exceeds the " ++
      "allowed maximum [10]."))
  else .ok ()

def handleSendMessage (a : QueueActor) (input : SendMessageInput) :
    Except SqsError (QueueActor × SendMessageOutput × Bool) := do
  a.checkSend input
  if a.isFifo then a.handleSendMessageFifo env m input
  else a.handleSendMessageStandard env m input

/-! ## Accepting and settling transfers -/

/-- Whether the redrive allow policy of the target lets the source in. -/
def redriveAllowed (policy : AllowPolicy) (sourceArn : String) : Bool :=
  match policy.redrivePermission with
  | some "allowAll" => true
  | some "byQueue" => policy.sourceQueueArns.any fun arns => arns.any (· = some sourceArn)
  | _ => false

/-- The checks of a transfer. -/
def checkTransfer (a : QueueActor) (message : QueueMessage) (sourceArn : String) :
    Except SqsError Unit :=
  if a.stopping ∨ a.isFifo ≠ message.messageGroupId.isSome then
    .error (.invalidParameterValue "DLQ unavailable or queue type mismatch")
  else if a.attributes.maximumMessageSize.toNat < Text.byteLength message.body.toList then
    .error (.invalidParameterValue "Message exceeds DLQ maximum size")
  else if beforeLastColon sourceArn ≠ beforeLastColon a.arn then
    .error (.invalidParameterValue "DLQ must be in the same account and region")
  else
    match a.attributes.redriveAllowPolicy with
    | none => .ok ()
    | some text =>
      match env.readAllowPolicy text with
      | none => .error (.invalidParameterValue "Invalid RedriveAllowPolicy")
      | some policy =>
        if redriveAllowed policy sourceArn then .ok ()
        else .error (.invalidParameterValue "DLQ redrive permission denied")

/-- A transferred message starts over. -/
def transferredMessage (message : QueueMessage) (sourceArn : String) : QueueMessage :=
  { message with
    deadLetterQueueSourceArn := some sourceArn
    approximateReceiveCount := 0
    approximateFirstReceiveTimestamp := none
    availableAt := m.now
    delaySeconds := 0 }

/-- In a FIFO queue it also gets its own id for a deduplication id. -/
def transferredFifoMessage (message : QueueMessage) (sourceArn : String) : QueueMessage :=
  { transferredMessage m message sourceArn with
    sentTimestamp := m.millis
    messageDeduplicationId := some message.messageId }

/-- Take a message over.  What the FIFO storage answers to the enqueue is not looked at. -/
def acceptTransfer (a : QueueActor) (message : QueueMessage) (sourceArn : String) :
    QueueActor × Except SqsError Unit :=
  match a.checkTransfer env message sourceArn with
  | .error e => (a, .error e)
  | .ok () =>
    match a.storage with
    | .standard storage =>
      ({ a with
          storage := .standard
            { storage with
              available := storage.available ++ [transferredMessage m message sourceArn] } },
        .ok ())
    | .fifo storage =>
      ({ a with
          storage := .fifo
            (storage.enqueue m.now (transferredFifoMessage m message sourceArn)
              (.redrive sourceArn message.messageId)).1 }, .ok ())

/-- One settled transfer: a failed one gives the message back. -/
def settle (a : QueueActor) (message : QueueMessage) (result : Except SqsError Unit) :
    QueueActor :=
  let restore := match result with
    | .ok () => none
    | .error _ => some message
  match a.storage with
  | .standard storage =>
    { a with
      storage := .standard
        { storage with available := restore.toList ++ storage.available } }
  | .fifo storage =>
    { a with storage := .fifo (storage.finishRedrive (message.messageGroupId.getD "") restore) }

/-- The loop over the pending transfers; the unanswered ones stay. -/
def settleLoop : List PendingTransfer → QueueActor → QueueActor
  | [], a => a
  | transfer :: rest, a =>
    match m.answers transfer.reply with
    | none =>
      settleLoop rest
        { a with redrive := { a.redrive with pending := a.redrive.pending ++ [transfer] } }
    | some result => settleLoop rest (a.settle transfer.message result)

def settleTransfers (a : QueueActor) : QueueActor :=
  settleLoop m a.redrive.pending { a with redrive := { a.redrive with pending := [] } }

/-! ## Receiving -/

/-- The state a receive starts from: what is visible again or due has been made available. -/
def refresh (a : QueueActor) : QueueActor × Bool :=
  match a.storage with
  | .standard storage =>
    let (storage, returned) := storage.returnExpiredInflight m
    let (storage, promoted) := storage.promoteDelayed m.now
    ({ a with storage := .standard storage }, returned || promoted)
  | .fifo storage =>
    let (storage, returned) := storage.returnExpiredInflight m
    ({ a with storage := .fifo storage }, returned)

/-- `try_receive` behind its first step. -/
def receiveFrom (a : QueueActor) (routes : R) (request : ReceiveRequest) :
    Option (QueueActor × R × List Delivery) :=
  let redrive : RedriveRequest := { attributes := a.attributes, sourceArn := a.arn }
  match a.storage with
  | .standard storage => do
    let r ← tryReceiveStandard env m routing redrive request
      { storage, redrive := a.redrive, routes, drawn := a.handlesDrawn, result := [] }
    return ({ a with
        storage := .standard r.storage, redrive := r.redrive, handlesDrawn := r.drawn },
      r.routes, r.result)
  | .fifo storage => do
    let r ← tryReceiveFifo env m routing redrive request
      { storage, redrive := a.redrive, routes, drawn := a.handlesDrawn, result := [] }
    return ({ a with storage := .fifo r.storage, redrive := r.redrive, handlesDrawn := r.drawn },
      r.routes, r.result)

def tryReceive (a : QueueActor) (routes : R) (request : ReceiveRequest) :
    Option (QueueActor × R × List Delivery) :=
  receiveFrom env m routing (a.refresh m).1 routes request

/-- The request with the defaults of the queue. -/
def receiveRequest (a : QueueActor) (input : ReceiveMessageInput) : ReceiveRequest where
  max := (max 1 (min (input.maxNumberOfMessages.getD 1) 10)).toNat
  visibilityTimeout := input.visibilityTimeout.getD a.attributes.visibilityTimeout
  systemNames := mergeAttributeNames input.attributeNames input.messageSystemAttributeNames
  messageNames := input.messageAttributeNames

def handleReceiveMessage (a : QueueActor) (routes : R) (input : ReceiveMessageInput)
    (reply : ℕ) : Option (Handled R) := do
  let request := a.receiveRequest input
  let waitTime := input.waitTimeSeconds.getD a.attributes.receiveMessageWaitTimeSeconds
  let (a, routes, messages) ← a.tryReceive env m routing routes request
  if !messages.isEmpty ∨ waitTime ≤ 0 then
    return { actor := a, routes, fulfill := false, replies := [.received reply messages] }
  else
    let poll : PendingLongPoll :=
      { client := reply, request, deadline := m.now + seconds waitTime.toNat }
    some
      { actor := { a with pendingLongPolls := a.pendingLongPolls ++ [poll] }
        routes
        fulfill := false
        replies := [] }

/-! ## The other commands -/

def handleDeleteMessage (a : QueueActor) (receiptHandle : String) : QueueActor × Bool :=
  match a.storage with
  | .standard storage =>
    ({ a with
        storage := .standard { storage with inFlight := storage.inFlight.erase receiptHandle } },
      false)
  | .fifo storage =>
    let (storage, deleted) := storage.deleteMessage receiptHandle
    ({ a with storage := .fifo storage }, deleted)

/-- The answer tells whether the message has been made visible at once. -/
def handleChangeVisibility (a : QueueActor) (receiptHandle : String) (visibilityTimeout : ℤ) :
    Option (QueueActor × Except SqsError Bool) :=
  match a.storage with
  | .standard storage =>
    match storage.inFlight.lookup receiptHandle with
    | none => some (a, .error .messageNotInflight)
    | some ifm =>
      if visibilityTimeout = 0 then
        some ({ a with storage := .standard (storage.giveBack receiptHandle) }, .ok true)
      else do
        let visibleAt ← after m.now visibilityTimeout
        return ({ a with
          storage := .standard
            { storage with
              inFlight := storage.inFlight.insert receiptHandle { ifm with visibleAt } } },
          .ok false)
  | .fifo storage => do
    let visibleAt ← after m.now visibilityTimeout
    let (storage, changed) := storage.changeVisibility m.now receiptHandle visibleAt
    if changed then return ({ a with storage := .fifo storage }, .ok (visibilityTimeout = 0))
    else return ({ a with storage := .fifo storage }, .error .messageNotInflight)

/-- One purge a minute; it also drops the pending transfers. -/
def handlePurge (a : QueueActor) : QueueActor × Except SqsError Unit :=
  if a.lastPurgeAt.any fun lastPurge => m.now - lastPurge < seconds 60 then
    (a, .error .purgeQueueInProgress)
  else
    ({ a with
        redrive := { a.redrive with pending := [] }
        storage := match a.storage with
          | .standard storage => .standard storage.purge
          | .fifo storage => .fifo storage.purge
        lastPurgeAt := some m.now }, .ok ())

/-- The counts of a queue: a pending transfer counts as in flight. -/
def counts (a : QueueActor) : ℕ × ℕ × ℕ :=
  let counts := match a.storage with
    | .standard storage => storage.counts
    | .fifo storage => storage.counts
  (counts.1, min (counts.2.1 + min a.redrive.pending.length u32Max) u32Max, counts.2.2)

def getAttributes (a : QueueActor) (attributeNames : List String) : StringMap :=
  a.attributes.toMap env.policies attributeNames a.isFifo a.arn a.createdAt a.lastModifiedAt
    a.counts

def setAttributes (a : QueueActor) (attributes : StringMap) : QueueActor × Except SqsError Unit :=
  match a.attributes.updateFromMap env.policies attributes a.isFifo with
  | (attributes, .ok ()) =>
    ({ a with attributes, lastModifiedAt := m.epochSeconds }, .ok ())
  | (attributes, .error e) => ({ a with attributes }, .error e)

/-- `HashMap::extend`. -/
def setTags (a : QueueActor) (tags : StringMap) : QueueActor :=
  { a with tags := tags.entries.foldl (fun tags e => tags.insert e.1 e.2) a.tags }

def removeTags (a : QueueActor) (keys : List String) : QueueActor :=
  { a with tags := keys.foldl (fun tags key => tags.erase key) a.tags }

/-- One command. -/
def handleCommand (a : QueueActor) (routes : R) (cmd : QueueCommand) : Option (Handled R) :=
  match cmd with
  | .transfer message sourceArn reply =>
    if m.abandoned reply then some { actor := a, routes, fulfill := false, replies := [] }
    else
      let (a, result) := a.acceptTransfer env m message sourceArn
      some
        { actor := a
          routes
          fulfill := result.isOk
          replies := [.transferred reply result] }
  | .quiesce reply =>
    let a := { a with redrive := { a.redrive with quiescing := true } }
    let a :=
      if a.quiesceReply.all m.closed then { a with quiesceReply := some reply } else a
    some { actor := a, routes, fulfill := false, replies := [] }
  | .sendMessage input reply =>
    if m.closed reply then some { actor := a, routes, fulfill := false, replies := [] }
    else
      match a.handleSendMessage env m input with
      | .error e =>
        some { actor := a, routes, fulfill := false, replies := [.sent reply (.error e)] }
      | .ok (a, output, fulfill) =>
        some { actor := a, routes, fulfill, replies := [.sent reply (.ok output)] }
  | .receiveMessage input reply => a.handleReceiveMessage env m routing routes input reply
  | .deleteMessage receiptHandle reply =>
    let (a, fulfill) := a.handleDeleteMessage receiptHandle
    some { actor := a, routes, fulfill, replies := [.done reply (.ok ())] }
  | .changeVisibility receiptHandle visibilityTimeout reply => do
    let (a, result) ← a.handleChangeVisibility m receiptHandle visibilityTimeout
    some
      { actor := a
        routes
        fulfill := result.toOption.getD false
        replies := [.done reply (result.map fun _ => ())] }
  | .getAttributes attributeNames reply =>
    some
      { actor := a
        routes
        fulfill := false
        replies := [.strings reply (a.getAttributes env attributeNames)] }
  | .setAttributes attributes reply =>
    let (a, result) := a.setAttributes env m attributes
    some { actor := a, routes, fulfill := false, replies := [.done reply result] }
  | .purge reply =>
    let (a, result) := a.handlePurge m
    some { actor := a, routes, fulfill := false, replies := [.done reply result] }
  | .getTags reply =>
    some { actor := a, routes, fulfill := false, replies := [.strings reply a.tags] }
  | .setTags tags reply =>
    some { actor := a.setTags tags, routes, fulfill := false, replies := [.done reply (.ok ())] }
  | .removeTags keys reply =>
    some
      { actor := a.removeTags keys
        routes
        fulfill := false
        replies := [.done reply (.ok ())] }
  | .shutdown =>
    some
      { actor := { a with stopping := true, redrive := { a.redrive with quiescing := true } }
        routes
        fulfill := false
        replies := [] }

/-! ## Long polls -/

/-- The loop over the polls taken out of the actor; the ones that get nothing stay. -/
def fulfillLoop : List PendingLongPoll → QueueActor → R → List Reply →
    Option (QueueActor × R × List Reply)
  | [], a, routes, replies => some (a, routes, replies)
  | poll :: rest, a, routes, replies =>
    if m.closed poll.client then fulfillLoop rest a routes replies
    else do
      let (a, routes, messages) ← a.tryReceive env m routing routes poll.request
      if messages.isEmpty then
        fulfillLoop rest { a with pendingLongPolls := a.pendingLongPolls ++ [poll] } routes replies
      else fulfillLoop rest a routes (replies ++ [.received poll.client messages])

def fulfillPendingLongPolls (a : QueueActor) (routes : R) :
    Option (QueueActor × R × List Reply) :=
  fulfillLoop env m routing a.pendingLongPolls { a with pendingLongPolls := [] } routes []

/-- The polls whose time is up are answered with no message. -/
def expireLongPolls (a : QueueActor) : QueueActor × List Reply :=
  let polls := a.pendingLongPolls.filter fun poll => !m.closed poll.client
  ({ a with pendingLongPolls := polls.filter fun poll => m.now < poll.deadline },
    (polls.filter fun poll => poll.deadline ≤ m.now).map fun poll => .received poll.client [])

def cleanDedupCache (a : QueueActor) : QueueActor :=
  match a.storage with
  | .standard _ => a
  | .fifo storage => { a with storage := .fifo (storage.cleanDedupCache m.now) }

def periodicCleanup (a : QueueActor) (routes : R) : Option (QueueActor × R × List Reply) := do
  let (a, changed) := a.refresh m
  let a := a.cleanDedupCache m
  let (a, routes, replies) ←
    if changed ∧ !a.pendingLongPolls.isEmpty then a.fulfillPendingLongPolls env m routing routes
    else some (a, routes, [])
  let (a, expired) := a.expireLongPolls m
  return (a, routes, replies ++ expired)

/-! ## The event loop -/

inductive Event where
  | command (cmd : QueueCommand)
  | commandsClosed
  | transferReady
  | cleanup
  | pollDeadline

def handleEvent (a : QueueActor) (routes : R) (event : Event) :
    Option (QueueActor × R × List Reply) :=
  match event with
  | .command cmd => do
    let handled ← a.handleCommand env m routing routes cmd
    if handled.fulfill ∧ !handled.actor.pendingLongPolls.isEmpty then
      let (a, routes, replies) ←
        handled.actor.fulfillPendingLongPolls env m routing handled.routes
      return (a, routes, handled.replies ++ replies)
    else return (handled.actor, handled.routes, handled.replies)
  | .commandsClosed =>
    some ({ a with
        commandsOpen := false
        stopping := true
        redrive := { a.redrive with quiescing := true } }, routes, [])
  | .transferReady => some (a, routes, [])
  | .cleanup => a.periodicCleanup env m routing routes
  | .pollDeadline =>
    let (a, replies) := a.expireLongPolls m
    some (a, routes, replies)

/-- The consistency barrier: a quiesce is answered once no transfer is pending. -/
def answerQuiesce (a : QueueActor) : QueueActor × List Reply :=
  if a.redrive.pending.isEmpty then
    ({ a with quiesceReply := none }, a.quiesceReply.toList.map .quiesced)
  else (a, [])

/-- One turn: the event, the transfers whose replies are there, and the barrier. -/
def turn (a : QueueActor) (routes : R) (event : Event) : Option (QueueActor × R × List Reply) := do
  let (a, routes, replies) ← a.handleEvent env m routing routes event
  let (a, barrier) := (a.settleTransfers m).answerQuiesce
  return (a, routes, replies ++ barrier)

end QueueActor

end Rustack.SQS
