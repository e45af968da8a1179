import Rustack.DynamoDB.Number
import Rustack.Lib.Retain
import Rustack.SQS.Error

/-!
# Queue attributes

The attributes of a queue, the three routines that read and write them as string
maps, and the ranges a value is held to.  A hash map is the list of its entries in
the order they are met; `fromMap` and `updateFromMap` go through it in that order
and stop at the first error, so the entries before the bad one stay applied.
-/

namespace Rustack.SQS

open DynamoDB (parseSigned)

/-- A `HashMap<String, String>` with its iteration order. -/
abbrev StringMap := AList fun _ : String => String

/-- Dead-letter configuration of a queue. -/
structure RedrivePolicy where
  deadLetterTargetArn : String
  maxReceiveCount : ℤ
  deriving DecidableEq

/-- `serde_json` on redrive policies; an unreadable text comes with the parser's words. -/
structure PolicyCodec where
  toString : RedrivePolicy → Option String
  fromStr : String → Except String RedrivePolicy

structure QueueAttributes where
  delaySeconds : ℤ
  maximumMessageSize : ℤ
  messageRetentionPeriod : ℤ
  receiveMessageWaitTimeSeconds : ℤ
  visibilityTimeout : ℤ
  redrivePolicy : Option RedrivePolicy
  redriveAllowPolicy : Option String
  contentBasedDeduplication : Bool
  deduplicationScope : String
  fifoThroughputLimit : String
  policy : Option String
  kmsMasterKeyId : Option String
  kmsDataKeyReusePeriodSeconds : Option ℤ
  sqsManagedSseEnabled : Bool
  deriving DecidableEq

/-- `str::parse::<i32>`. -/
def parseI32 (value : String) : Option ℤ := parseSigned (2 ^ 31) value.toList

/-- An integer attribute value with its range. -/
def parseI32Range (key value : String) (min max : ℤ) : Except SqsError ℤ :=
  match parseI32 value with
  | none => .error (.invalidParameterValue ("Invalid value for the parameter " ++ key ++ "."))
  | some n =>
    if n < min ∨ max < n then
      .error (.invalidParameterValue ("Invalid value for the parameter " ++ key ++
        ". Reason: Must be between " ++ ToString.toString min ++ " and " ++
        ToString.toString max ++ "."))
    else .ok n

/-- How both readers take a flag. -/
def parseFlag (value : String) : Bool := value = "true" || value = "1"

def unknownAttribute (key : String) : SqsError :=
  .invalidParameterValue ("Unknown Attribute " ++ key ++ ".")

namespace PolicyCodec

/-- A policy text, or the error both readers answer an unreadable one with. -/
def read (codec : PolicyCodec) (value : String) : Except SqsError RedrivePolicy :=
  (codec.fromStr value).mapError fun e =>
    .invalidParameterValue ("Invalid value for the parameter RedrivePolicy: " ++ e)

end PolicyCodec

namespace QueueAttributes

def default : QueueAttributes where
  delaySeconds := 0
  maximumMessageSize := 262144
  messageRetentionPeriod := 345600
  receiveMessageWaitTimeSeconds := 0
  visibilityTimeout := 30
  redrivePolicy := none
  redriveAllowPolicy := none
  contentBasedDeduplication := false
  deduplicationScope := "queue"
  fifoThroughputLimit := "perQueue"
  policy := none
  kmsMasterKeyId := none
  kmsDataKeyReusePeriodSeconds := none
  sqsManagedSseEnabled := true

/-! ## Reading -/

/-- One turn of the loop of `from_map`. -/
def readEntry (codec : PolicyCodec) (isFifo : Bool) (result : QueueAttributes)
    (key value : String) : Except SqsError QueueAttributes :=
  match key with
  | "DelaySeconds" =>
    return { result with delaySeconds := ← parseI32Range key value 0 900 }
  | "MaximumMessageSize" =>
    return { result with maximumMessageSize := ← parseI32Range key value 1024 262144 }
  | "MessageRetentionPeriod" =>
    return { result with messageRetentionPeriod := ← parseI32Range key value 60 1209600 }
  | "ReceiveMessageWaitTimeSeconds" =>
    return { result with receiveMessageWaitTimeSeconds := ← parseI32Range key value 0 20 }
  | "VisibilityTimeout" =>
    return { result with visibilityTimeout := ← parseI32Range key value 0 43200 }
  | "RedrivePolicy" => do
    let policy ← codec.read value
    if policy.maxReceiveCount < 1 then
      .error (.invalidParameterValue ("Value for parameter RedrivePolicy is invalid. Reason: " ++
        "maxReceiveCount must be between 1 and 1000."))
    else
      return { result with redrivePolicy := some policy }
  | "RedriveAllowPolicy" => return { result with redriveAllowPolicy := some value }
  | "ContentBasedDeduplication" =>
    if !isFifo then .error (unknownAttribute key)
    else return { result with contentBasedDeduplication := parseFlag value }
  | "DeduplicationScope" =>
    if !isFifo then .error (unknownAttribute key)
    else if value ≠ "queue" ∧ value ≠ "messageGroup" then
      .error (.invalidParameterValue ("Invalid value for DeduplicationScope: " ++ value))
    else return { result with deduplicationScope := value }
  | "FifoThroughputLimit" =>
    if !isFifo then .error (unknownAttribute key)
    else return { result with fifoThroughputLimit := value }
  | "Policy" => return { result with policy := some value }
  | "KmsMasterKeyId" => return { result with kmsMasterKeyId := some value }
  | "KmsDataKeyReusePeriodSeconds" =>
    return { result with
      kmsDataKeyReusePeriodSeconds := some (← parseI32Range key value 60 86400) }
  | "SqsManagedSseEnabled" => return { result with sqsManagedSseEnabled := parseFlag value }
  -- accepted here; whether it fits the name of the queue is looked at elsewhere
  | "FifoQueue" => return result
  | _ => .error (.invalidAttributeName ("Unknown Attribute " ++ key ++ "."))

/-- The attributes of a new queue. -/
def fromMap (codec : PolicyCodec) (attrs : StringMap) (isFifo : Bool) :
    Except SqsError QueueAttributes :=
  attrs.entries.foldlM (fun result e => readEntry codec isFifo result e.1 e.2) default

/-! ## Live updates -/

/-- What an empty text stands for in an update. -/
def orCleared (value : String) : Option String := if value.isEmpty then none else some value

/-- One turn of the loop of `update_from_map`: unlike `readEntry` it reads an empty text as
"not set", holds a redrive policy to no count and a deduplication scope to no choice, and does
not know `FifoQueue`. -/
def updateEntry (codec : PolicyCodec) (isFifo : Bool) (self : QueueAttributes)
    (key value : String) : Except SqsError QueueAttributes :=
  match key with
  | "DelaySeconds" =>
    return { self with delaySeconds := ← parseI32Range key value 0 900 }
  | "MaximumMessageSize" =>
    return { self with maximumMessageSize := ← parseI32Range key value 1024 262144 }
  | "MessageRetentionPeriod" =>
    return { self with messageRetentionPeriod := ← parseI32Range key value 60 1209600 }
  | "ReceiveMessageWaitTimeSeconds" =>
    return { self with receiveMessageWaitTimeSeconds := ← parseI32Range key value 0 20 }
  | "VisibilityTimeout" =>
    return { self with visibilityTimeout := ← parseI32Range key value 0 43200 }
  | "RedrivePolicy" =>
    if value.isEmpty then return { self with redrivePolicy := none }
    else return { self with redrivePolicy := some (← codec.read value) }
  | "RedriveAllowPolicy" => return { self with redriveAllowPolicy := orCleared value }
  | "ContentBasedDeduplication" =>
    if !isFifo then .error (unknownAttribute key)
    else return { self with contentBasedDeduplication := parseFlag value }
  | "DeduplicationScope" =>
    if !isFifo then .error (unknownAttribute key)
    else return { self with deduplicationScope := value }
  | "FifoThroughputLimit" =>
    if !isFifo then .error (unknownAttribute key)
    else return { self with fifoThroughputLimit := value }
  | "Policy" => return { self with policy := orCleared value }
  | "KmsMasterKeyId" => return { self with kmsMasterKeyId := orCleared value }
  | "KmsDataKeyReusePeriodSeconds" =>
    return { self with
      kmsDataKeyReusePeriodSeconds := some (← parseI32Range key value 60 86400) }
  | "SqsManagedSseEnabled" => return { self with sqsManagedSseEnabled := parseFlag value }
  | _ => .error (.invalidAttributeName ("Unknown Attribute " ++ key ++ "."))

def updateEntries (codec : PolicyCodec) (isFifo : Bool) (self : QueueAttributes) :
    List (Sigma fun _ : String => String) → QueueAttributes × Except SqsError Unit
  | [] => (self, .ok ())
  | e :: rest =>
    match updateEntry codec isFifo self e.1 e.2 with
    | .error e => (self, .error e)
    | .ok self => updateEntries codec isFifo self rest

/-- The attributes are changed in place: an error leaves them where the loop stopped. -/
def updateFromMap (codec : PolicyCodec) (self : QueueAttributes) (attrs : StringMap)
    (isFifo : Bool) : QueueAttributes × Except SqsError Unit :=
  updateEntries codec isFifo self attrs.entries

/-! ## Writing -/

/-- The names of `to_map` in the order it goes through them. -/
def attributeNames : List String :=
  ["DelaySeconds", "MaximumMessageSize", "MessageRetentionPeriod",
    "ReceiveMessageWaitTimeSeconds", "VisibilityTimeout", "QueueArn", "CreatedTimestamp",
    "LastModifiedTimestamp", "ApproximateNumberOfMessages",
    "ApproximateNumberOfMessagesNotVisible", "ApproximateNumberOfMessagesDelayed",
    "RedrivePolicy", "RedriveAllowPolicy", "Policy", "FifoQueue", "ContentBasedDeduplication",
    "DeduplicationScope", "FifoThroughputLimit", "SqsManagedSseEnabled", "KmsMasterKeyId",
    "KmsDataKeyReusePeriodSeconds"]

/-- The text of one attribute, if the queue has it. -/
def attributeValue (codec : PolicyCodec) (self : QueueAttributes) (isFifo : Bool) (arn : String)
    (createdAt lastModifiedAt : ℕ) (counts : ℕ × ℕ × ℕ) (name : String) : Option String :=
  match name with
  | "DelaySeconds" => some (toString self.delaySeconds)
  | "MaximumMessageSize" => some (toString self.maximumMessageSize)
  | "MessageRetentionPeriod" => some (toString self.messageRetentionPeriod)
  | "ReceiveMessageWaitTimeSeconds" => some (toString self.receiveMessageWaitTimeSeconds)
  | "VisibilityTimeout" => some (toString self.visibilityTimeout)
  | "QueueArn" => some arn
  | "CreatedTimestamp" => some (toString createdAt)
  | "LastModifiedTimestamp" => some (toString lastModifiedAt)
  | "ApproximateNumberOfMessages" => some (toString counts.1)
  | "ApproximateNumberOfMessagesNotVisible" => some (toString counts.2.1)
  | "ApproximateNumberOfMessagesDelayed" => some (toString counts.2.2)
  | "RedrivePolicy" => self.redrivePolicy.bind codec.toString
  | "RedriveAllowPolicy" => self.redriveAllowPolicy
  | "Policy" => self.policy
  | "FifoQueue" => if isFifo then some "true" else none
  | "ContentBasedDeduplication" =>
    if isFifo then some (toString self.contentBasedDeduplication) else none
  | "DeduplicationScope" => if isFifo then some self.deduplicationScope else none
  | "FifoThroughputLimit" => if isFifo then some self.fifoThroughputLimit else none
  | "SqsManagedSseEnabled" => some (toString self.sqsManagedSseEnabled)
  | "KmsMasterKeyId" => self.kmsMasterKeyId
  | "KmsDataKeyReusePeriodSeconds" => self.kmsDataKeyReusePeriodSeconds.map toString
  | _ => none

/-- The attributes asked for: all of them when none is named, or `All` is. -/
def toMap (codec : PolicyCodec) (self : QueueAttributes) (requested : List String)
    (isFifo : Bool) (arn : String) (createdAt lastModifiedAt : ℕ) (counts : ℕ × ℕ × ℕ) :
    StringMap :=
  let all := requested.isEmpty || requested.contains "All"
  let want := fun name => all || requested.contains name
  AList.ofNames (attributeNames.filter want) fun name =>
    self.attributeValue codec isFifo arn createdAt lastModifiedAt counts name

end QueueAttributes

/-! ## The attributes a snapshot carries -/

def settableAttributeNames : List String :=
  ["DelaySeconds", "MaximumMessageSize", "MessageRetentionPeriod",
    "ReceiveMessageWaitTimeSeconds", "VisibilityTimeout", "RedrivePolicy", "RedriveAllowPolicy",
    "Policy", "FifoQueue", "ContentBasedDeduplication", "DeduplicationScope",
    "FifoThroughputLimit", "SqsManagedSseEnabled", "KmsMasterKeyId",
    "KmsDataKeyReusePeriodSeconds"]

def isSettableAttribute (name : String) : Bool :=
  match name with
  | "DelaySeconds" | "MaximumMessageSize" | "MessageRetentionPeriod"
  | "ReceiveMessageWaitTimeSeconds" | "VisibilityTimeout" | "RedrivePolicy"
  | "RedriveAllowPolicy" | "Policy" | "FifoQueue" | "ContentBasedDeduplication"
  | "DeduplicationScope" | "FifoThroughputLimit" | "SqsManagedSseEnabled" | "KmsMasterKeyId"
  | "KmsDataKeyReusePeriodSeconds" => true
  | _ => false

end Rustack.SQS
