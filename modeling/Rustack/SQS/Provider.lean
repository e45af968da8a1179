import Rustack.SQS.Actor

/-!
# The queue manager

The registry of queues with the operations that make, configure and drop them, and
its snapshots.  An operation waits for the answer of the actor it turns to, so an
actor appears here as its state behind the handle.
-/

namespace Rustack.SQS

structure SqsConfig where
  host : String
  port : ℕ
  accountId : String
  defaultRegion : String
  advertisedEndpoint : Option String

/-! ## Names, URLs and ARNs -/

def queueUrl (config : SqsConfig) (queueName : String) : String :=
  match config.advertisedEndpoint with
  | some endpoint => endpoint ++ "/" ++ config.accountId ++ "/" ++ queueName
  | none =>
    let host :=
      if config.host.toList.contains ':' ∧ ¬Text.startsWith config.host "[" then
        "[" ++ config.host ++ "]"
      else config.host
    "http://" ++ host ++ ":" ++ toString config.port ++ "/" ++ config.accountId ++ "/" ++
      queueName

def queueArn (config : SqsConfig) (queueName : String) : String :=
  "arn:aws:sqs:" ++ config.defaultRegion ++ ":" ++ config.accountId ++ ":" ++ queueName

/-- The URL without its scheme. -/
def stripScheme (url : String) : List Char :=
  if Text.startsWith url "http://" then url.toList.drop 7
  else if Text.startsWith url "https://" then url.toList.drop 8
  else url.toList

/-- The last of at least two path segments. -/
def extractQueueName (url : String) : Option String :=
  let path := (stripScheme url).dropWhile (· ≠ '/')
  let segments := (path.splitOn '/').filter fun segment => !segment.isEmpty
  if 2 ≤ segments.length then segments.getLast?.map String.ofList else none

def isNameChar (c : Char) : Bool :=
  c.isAlphanum || c = '-' || c = '_' || c = '.'

def validateQueueName (name : String) : Except SqsError Unit :=
  if name.isEmpty ∨ 80 < Text.byteLength name.toList then
    .error (.invalidParameterValue "Queue name must be between 1 and 80 characters long.")
  else if !name.toList.all isNameChar then
    .error (.invalidParameterValue
      "Queue name can only include alphanumeric characters, hyphens, or underscores.")
  else .ok ()

/-- `ends_with(".fifo")`. -/
def isFifoName (name : String) : Bool := ".fifo".toList.isSuffixOf name.toList

/-! ## The registry -/

structure QueueMetadata where
  name : String
  url : String
  arn : String
  isFifo : Bool
  createdAt : ℕ
  deriving DecidableEq

/-- A registered queue: what never changes, and the state of its actor. -/
structure QueueHandle where
  metadata : QueueMetadata
  actor : QueueActor

structure RustackSqs where
  queues : AList fun _ : String => QueueHandle
  quiescing : Bool

structure CreateQueueInput where
  queueName : String
  attributes : StringMap
  tags : StringMap

structure SqsQueueSnapshot where
  name : String
  attributes : StringMap
  tags : StringMap

namespace RustackSqs

def empty : RustackSqs where
  queues := ∅
  quiescing := false

variable (env : SqsEnv) (config : SqsConfig)

def noSuchQueue : SqsError :=
  .nonExistentQueue "The specified queue does not exist for this wsdl version."

def resolveQueueName (url : String) : Except SqsError String :=
  match extractQueueName url with
  | none =>
    .error (.nonExistentQueue
      ("The specified queue does not exist for this wsdl version. QueueUrl: " ++ url))
  | some name => .ok name

/-- The name in a URL, and the queue under it. -/
def getQueue (s : RustackSqs) (url : String) : Except SqsError (String × QueueHandle) := do
  let name ← resolveQueueName url
  match s.queues.lookup name with
  | none => .error noSuchQueue
  | some handle => .ok (name, handle)

/-- The FIFO attribute has to go with the name. -/
def checkFifoAttribute (input : CreateQueueInput) : Except SqsError Unit :=
  match input.attributes.lookup "FifoQueue" with
  | none => .ok ()
  | some value =>
    if value = "true" ∧ !isFifoName input.queueName then
      .error (.invalidParameterValue
        "The queue name must end with the .fifo suffix for FIFO queues.")
    else if value ≠ "true" ∧ isFifoName input.queueName then
      .error (.invalidParameterValue
        "The queue name for a FIFO queue must end with the .fifo suffix.")
    else .ok ()

/-- The first attribute asked for that the existing queue has another value of. -/
def differingAttribute (existing : StringMap) (attributes : StringMap) : Option String :=
  (attributes.entries.find? fun e =>
    e.1 ≠ "FifoQueue" ∧ (existing.lookup e.1).any (· ≠ e.2)).map (·.1)

/-- The handle of a new queue. -/
def newHandle (now : ℕ) (input : CreateQueueInput) (attributes : QueueAttributes) :
    QueueHandle where
  metadata :=
    { name := input.queueName
      url := queueUrl config input.queueName
      arn := queueArn config input.queueName
      isFifo := isFifoName input.queueName
      createdAt := now }
  actor := .new input.queueName (queueArn config input.queueName) (isFifoName input.queueName)
    attributes input.tags config.accountId now

def createQueue (now : ℕ) (s : RustackSqs) (input : CreateQueueInput) :
    Except SqsError (RustackSqs × String) := do
  validateQueueName input.queueName
  checkFifoAttribute input
  match s.queues.lookup input.queueName with
  | some existing =>
    match differingAttribute (existing.actor.getAttributes env ["All"]) input.attributes with
    | some key =>
      .error (.queueAlreadyExists ("A queue already exists with the same name and a " ++
        "different value for attribute " ++ key ++ "."))
    | none => return (s, existing.metadata.url)
  | none =>
    let attributes ←
      QueueAttributes.fromMap env.policies input.attributes (isFifoName input.queueName)
    let handle := newHandle config now input attributes
    return ({ s with queues := s.queues.insert input.queueName handle }, handle.metadata.url)

def deleteQueue (s : RustackSqs) (url : String) : Except SqsError RustackSqs := do
  let name ← resolveQueueName url
  return { s with queues := s.queues.erase name }

/-- Run a command of one actor. -/
def modifyQueue (s : RustackSqs) (url : String)
    (f : QueueActor → QueueActor × Except SqsError Unit) : RustackSqs × Except SqsError Unit :=
  match s.getQueue url with
  | .error e => (s, .error e)
  | .ok (name, handle) =>
    let (actor, result) := f handle.actor
    ({ s with queues := s.queues.insert name { handle with actor } }, result)

def setQueueAttributes (m : Moment) (s : RustackSqs) (url : String) (attributes : StringMap) :
    RustackSqs × Except SqsError Unit :=
  s.modifyQueue url fun actor => actor.setAttributes env m attributes

def tagQueue (s : RustackSqs) (url : String) (tags : StringMap) :
    RustackSqs × Except SqsError Unit :=
  s.modifyQueue url fun actor => (actor.setTags tags, .ok ())

def untagQueue (s : RustackSqs) (url : String) (keys : List String) :
    RustackSqs × Except SqsError Unit :=
  s.modifyQueue url fun actor => (actor.removeTags keys, .ok ())

/-! ## Snapshots -/

def snapshotQueue (name : String) (handle : QueueHandle) : SqsQueueSnapshot where
  name
  attributes := (handle.actor.getAttributes env settableAttributeNames).retain isSettableAttribute
  tags := handle.actor.tags

/-- The queues in the order of their names. -/
def exportSnapshot (s : RustackSqs) : List SqsQueueSnapshot :=
  (s.queues.keys.mergeSort).filterMap fun name =>
    (s.queues.lookup name).map (snapshotQueue env name)

/-- All actors are stopped and the registry is empty. -/
def shutdownAll (_ : RustackSqs) : RustackSqs where
  queues := ∅
  quiescing := true

/-- Make the queues one after another; the first error ends it. -/
def createAll (now : ℕ) : List SqsQueueSnapshot → RustackSqs → RustackSqs × Except SqsError Unit
  | [], s => (s, .ok ())
  | queue :: rest, s =>
    let input : CreateQueueInput :=
      { queueName := queue.name, attributes := queue.attributes, tags := queue.tags }
    match s.createQueue env config now input with
    | .error e => (s, .error e)
    | .ok (s, _) => createAll now rest s

def importSnapshot (now : ℕ) (s : RustackSqs) (snapshot : List SqsQueueSnapshot) :
    RustackSqs × Except SqsError Unit :=
  match createAll env config now snapshot s.shutdownAll with
  | (s, .ok ()) => ({ s with quiescing := false }, .ok ())
  | (s, .error e) => (s, .error e)

end RustackSqs

end Rustack.SQS
