import Rustack.Lib.Text
import Rustack.SQS.Attributes

/-!
# Messages

A message as a queue keeps it and as a consumer gets it, the clock, and what the
actors use from outside: the JSON readers, the hash of a body, and the ids and
receipt handles drawn at random.  The MD5 digests of bodies and attributes, which
are only handed out, are left out.
-/

namespace Rustack.SQS

/-- A monotonic clock reading in nanoseconds. -/
abbrev Instant := ℕ

def seconds (n : ℕ) : ℕ := n * 1000000000

/-- `instant + Duration::from_secs(secs as u64)`: a negative `i32` becomes a duration that
no instant can be moved by, and the addition panics. -/
def after (instant : Instant) (secs : ℤ) : Option Instant :=
  if secs < 0 then none else some (instant + seconds secs.toNat)

def u32Max : ℕ := 2 ^ 32 - 1

structure MessageAttributeValue where
  dataType : String
  stringValue : Option String
  binaryValue : Option (List UInt8)
  deriving DecidableEq

abbrev MessageAttributes := AList fun _ : String => MessageAttributeValue

/-- A message inside a queue.  A sequence number is the number its twenty digits stand for. -/
structure QueueMessage where
  messageId : String
  body : String
  messageAttributes : MessageAttributes
  senderId : String
  sentTimestamp : ℕ
  approximateReceiveCount : ℕ
  approximateFirstReceiveTimestamp : Option ℕ
  sequenceNumber : Option ℕ
  messageGroupId : Option String
  messageDeduplicationId : Option String
  deadLetterQueueSourceArn : Option String
  availableAt : Instant
  delaySeconds : ℤ

/-- A message as it is handed to a consumer. -/
structure Message where
  messageId : String
  receiptHandle : String
  body : String
  messageAttributes : MessageAttributes
  attributes : StringMap

/-- `format!("{seq:020}")`. -/
def sequenceText (n : ℕ) : String :=
  let digits := (toString n).toList
  String.ofList (List.replicate (20 - digits.length) '0' ++ digits)

/-- The system attributes in the order they are looked at. -/
def QueueMessage.systemAttribute (msg : QueueMessage) (name : String) : Option String :=
  match name with
  | "DeadLetterQueueSourceArn" => msg.deadLetterQueueSourceArn
  | "SenderId" => some msg.senderId
  | "SentTimestamp" => some (toString msg.sentTimestamp)
  | "ApproximateReceiveCount" => some (toString msg.approximateReceiveCount)
  | "ApproximateFirstReceiveTimestamp" => msg.approximateFirstReceiveTimestamp.map toString
  | "MessageGroupId" => msg.messageGroupId
  | "MessageDeduplicationId" => msg.messageDeduplicationId
  | "SequenceNumber" => msg.sequenceNumber.map sequenceText
  | _ => none

def systemAttributeNames : List String :=
  ["DeadLetterQueueSourceArn", "SenderId", "SentTimestamp", "ApproximateReceiveCount",
    "ApproximateFirstReceiveTimestamp", "MessageGroupId", "MessageDeduplicationId",
    "SequenceNumber"]

def buildMessage (msg : QueueMessage) (receiptHandle : String)
    (systemAttrNames messageAttrNames : List String) : Message :=
  let wantSys := fun name => systemAttrNames.contains "All" || systemAttrNames.contains name
  let wantAllMsg := messageAttrNames.contains "All" || messageAttrNames.contains ".*"
  { messageId := msg.messageId
    receiptHandle
    body := msg.body
    messageAttributes :=
      if messageAttrNames.isEmpty then ∅
      else if wantAllMsg then msg.messageAttributes
      else msg.messageAttributes.retain messageAttrNames.contains
    attributes := AList.ofNames (systemAttributeNames.filter wantSys) msg.systemAttribute }

/-- The deprecated names first, then the newer ones that are not among them. -/
def mergeAttributeNames (old new : List String) : List String :=
  new.foldl (fun merged name => if merged.contains name then merged else merged ++ [name]) old

/-- What `accept_transfer` looks up in a parsed redrive allow policy. -/
structure AllowPolicy where
  redrivePermission : Option String
  sourceQueueArns : Option (List (Option String))
  deriving DecidableEq

/-- What the actors of a process use from outside.  The ids and handles drawn at random are
sequences in which nothing comes twice. -/
structure SqsEnv where
  policies : PolicyCodec
  readAllowPolicy : String → Option AllowPolicy
  contentHash : String → String
  messageIds : ℕ → String
  receiptHandles : ℕ → String
  messageIds_injective : Function.Injective messageIds
  receiptHandles_injective : Function.Injective receiptHandles

/-- The JSON text of a policy whose ARN needs no escapes. -/
def policyText (policy : RedrivePolicy) : String :=
  "\x7b\"deadLetterTargetArn\":\"" ++ policy.deadLetterTargetArn ++ "\",\"maxReceiveCount\":" ++
    toString policy.maxReceiveCount ++ "\x7d"

/-- A reader that knows the texts of some policies. -/
def policyReader (policies : List RedrivePolicy) : PolicyCodec where
  toString policy := some (policyText policy)
  fromStr text :=
    match policies.find? fun policy => policyText policy = text with
    | none => .error "expected value at line 1 column 1"
    | some policy => .ok policy

/-- An environment for runs on fixed inputs; ids and handles are told apart by their length. -/
def plainEnv (policies : List RedrivePolicy) : SqsEnv where
  policies := policyReader policies
  readAllowPolicy _ := none
  contentHash body := body
  messageIds n := String.ofList (List.replicate n 'm')
  receiptHandles n := String.ofList (List.replicate n 'r')
  messageIds_injective a b h := by
    have hlength := congrArg (fun s => s.toList.length) h
    simpa only [String.toList_ofList, List.length_replicate] using hlength
  receiptHandles_injective a b h := by
    have hlength := congrArg (fun s => s.toList.length) h
    simpa only [String.toList_ofList, List.length_replicate] using hlength

/-- What one turn of an event loop meets: the clocks, the order in which the entries of a hash
map come, the requests whose callers have gone, the transfers whose sources have dropped the
reply, and the transfer replies that have arrived. -/
structure Moment where
  now : Instant
  millis : ℕ
  epochSeconds : ℕ
  order : List String → List String
  closed : ℕ → Bool
  abandoned : ℕ → Bool
  answers : ℕ → Option (Except SqsError Unit)
  order_perm : ∀ l, (order l).Perm l

/-- A moment at which every caller still waits and no transfer has been answered. -/
def plainMoment (now : Instant) : Moment where
  now
  millis := now / 1000000
  epochSeconds := now / 1000000000
  order := id
  closed _ := false
  abandoned _ := false
  answers _ := none
  order_perm := List.Perm.refl

end Rustack.SQS
