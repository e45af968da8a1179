import Rustack.Lambda.Preflight

/-!
# Control frames

The typed messages of the control protocol, the items that they are written as, the reading of an
item as a frame, and the reading of a frame off a connection whose bytes come in pieces.
-/

namespace Rustack.Lambda

open Cbor Bytes List
open Option (bind_eq_bind bind_some)

/-- The version of the contract. -/
def protocolVersion : ℕ := 2

/-! ## Validated metadata -/

/-- What the library of identifiers does. -/
structure Uuids (Uuid : Type) where
  toText : Uuid → List UInt8
  parseStr : List UInt8 → Option Uuid
  isNil : Uuid → Bool

variable {Uuid : Type} {uuids : Uuids Uuid}

/-- The identifiers of environments and of attempts. -/
structure Identity (uuids : Uuids Uuid) where
  id : Uuid
  notNil : uuids.isNil id = false

def Identity.fromStr (uuids : Uuids Uuid) (value : List UInt8) :
    Except ProtocolError (Identity uuids) :=
  if value.length ≠ 36 then .error .invalidMetadata
  else match uuids.parseStr value with
    | none => .error .invalidMetadata
    | some id =>
      if h : uuids.isNil id = false ∧ uuids.toText id = value then .ok ⟨id, h.1⟩
      else .error .invalidMetadata

structure HandlerTimeout where
  milliseconds : ℕ
  inRange : 1000 ≤ milliseconds ∧ milliseconds ≤ 900000 ∧ milliseconds % 1000 = 0

def HandlerTimeout.tryFrom (milliseconds : ℕ) : Except ProtocolError HandlerTimeout :=
  if h : 1000 ≤ milliseconds ∧ milliseconds ≤ 900000 ∧ milliseconds % 1000 = 0 then
    .ok ⟨milliseconds, h⟩
  else .error .invalidMetadata

inductive Architecture where
  | x86_64
  | arm64
deriving DecidableEq

def isAsciiDigit (b : UInt8) : Bool := 48 ≤ b && b ≤ 57

def isAsciiAlphanumeric (b : UInt8) : Bool :=
  isAsciiDigit b || (65 ≤ b && b ≤ 90) || (97 ≤ b && b ≤ 122)

/-- The decimal number of digits. -/
def number (digits : List UInt8) : ℕ :=
  digits.foldl (fun value b => value * 10 + (b.toNat - 48)) 0

def identifier (value : List UInt8) (maximum : ℕ) (underscore : Bool) : Bool :=
  !value.isEmpty && value.length ≤ maximum &&
    value.all fun b => isAsciiAlphanumeric b || b = 45 || (underscore && b = 95)

def validQualifier (qualifier : List UInt8) : Bool :=
  (qualifier = ascii "$LATEST" || identifier qualifier 128 true) &&
    !(qualifier.all isAsciiDigit && !(number qualifier < 2 ^ 64 && number qualifier ≠ 0))

/-- The parts between the colons of the name of a function. -/
def validArn (value : List UInt8) : Bool :=
  value.length ≤ 2048 &&
    match value.splitOn 58 with
    | arn :: aws :: lambda :: region :: account :: function :: name :: rest =>
      arn = ascii "arn" &&
        (aws = ascii "aws" || aws = ascii "aws-cn" || aws = ascii "aws-us-gov") &&
        lambda = ascii "lambda" && identifier region 64 false &&
        (account.length = 12 && account.all isAsciiDigit) && function = ascii "function" &&
        identifier name 64 true &&
        match rest with
        | [] => true
        | [qualifier] => validQualifier qualifier
        | _ => false
    | _ => false

structure FunctionArn where
  value : List UInt8
  valid : validArn value = true

def FunctionArn.fromStr (value : List UInt8) : Except ProtocolError FunctionArn :=
  if h : validArn value = true then .ok ⟨value, h⟩ else .error .invalidMetadata

def validTrace (value : List UInt8) : Bool :=
  !value.isEmpty && value.length ≤ 256 && value.all fun b => 32 ≤ b && b ≤ 126

structure TraceId where
  value : List UInt8
  valid : validTrace value = true

def TraceId.fromStr (value : List UInt8) : Except ProtocolError TraceId :=
  if h : validTrace value = true then .ok ⟨value, h⟩ else .error .invalidMetadata

structure Payload where
  data : List UInt8
  bounded : data.length ≤ maxPayloadBytes

def Payload.tryFrom (data : List UInt8) : Except ProtocolError Payload :=
  if h : data.length ≤ maxPayloadBytes then .ok ⟨data, h⟩ else .error .tooLarge

structure NonZeroU64 where
  value : ℕ
  inRange : value ≠ 0 ∧ value < 2 ^ 64

inductive Acknowledgement (uuids : Uuids Uuid) where
  | cancel (attempt : Identity uuids)
  | close

inductive Outcome where
  | success
  | functionError
deriving DecidableEq

inductive Message (uuids : Uuids Uuid) where
  | hello (architecture : Architecture)
  | ready
  | bootstrapReady
  | invoke (attempt : Identity uuids) (deadlineUnixMs : NonZeroU64)
      (handlerTimeoutMs : Option HandlerTimeout) (functionArn : FunctionArn) (traceId : TraceId)
      (payload : Payload)
  | invocationResult (attempt : Identity uuids) (outcome : Outcome) (payload : Payload)
  | invocationTimedOut (attempt : Identity uuids)
  | initError (payload : Payload)
  | cancel (attempt : Identity uuids)
  | close
  | ack (acknowledgement : Acknowledgement uuids)

/-- A frame is only made in the version of the contract. -/
structure Frame (uuids : Uuids Uuid) where
  version : ℕ
  environment : Identity uuids
  message : Message uuids
  current : version = protocolVersion

structure RawFrame (uuids : Uuids Uuid) where
  version : ℕ
  environment : Identity uuids
  message : Message uuids

def Frame.new (environment : Identity uuids) (message : Message uuids) : Frame uuids :=
  ⟨protocolVersion, environment, message, rfl⟩

def Frame.tryFrom (raw : RawFrame uuids) : Except ProtocolError (Frame uuids) :=
  if raw.version ≠ protocolVersion then .error .unsupportedVersion
  else .ok (Frame.new raw.environment raw.message)

/-! ## What is written -/

def name (text : String) : Key := .text (ascii text)

def word (text : String) : Item := .text (ascii text)

def Identity.toItem (identity : Identity uuids) : Item := .text (uuids.toText identity.id)

def Architecture.toItem : Architecture → Item
  | .x86_64 => word "x86_64"
  | .arm64 => word "arm64"

def Outcome.toItem : Outcome → Item
  | .success => word "success"
  | .functionError => word "functionError"

def Acknowledgement.toItem : Acknowledgement uuids → Item
  | .cancel attempt =>
    .map [(name "operation", word "cancel"), (name "attempt", attempt.toItem)]
  | .close => .map [(name "operation", word "close")]

/-- A kind alone, or with its data. -/
def tagged (kind : String) : Option Item → Item
  | none => .map [(name "kind", word kind)]
  | some data => .map [(name "kind", word kind), (name "data", data)]

def Message.toItem : Message uuids → Item
  | .hello architecture => tagged "hello" (some (.map [(name "architecture", architecture.toItem)]))
  | .ready => tagged "ready" none
  | .bootstrapReady => tagged "bootstrapReady" none
  | .invoke attempt deadline timeout arn trace payload =>
    tagged "invoke" (some (.map ([(name "attempt", attempt.toItem),
      (name "deadlineUnixMs", .unsigned deadline.value)] ++
      (timeout.toList.map fun timeout =>
        (name "handlerTimeoutMs", Item.unsigned timeout.milliseconds)) ++
      [(name "functionArn", .text arn.value), (name "traceId", .text trace.value),
      (name "payload", .bytes payload.data)])))
  | .invocationResult attempt outcome payload =>
    tagged "invocationResult" (some (.map [(name "attempt", attempt.toItem),
      (name "outcome", outcome.toItem), (name "payload", .bytes payload.data)]))
  | .invocationTimedOut attempt =>
    tagged "invocationTimedOut" (some (.map [(name "attempt", attempt.toItem)]))
  | .initError payload => tagged "initError" (some (.map [(name "payload", .bytes payload.data)]))
  | .cancel attempt => tagged "cancel" (some (.map [(name "attempt", attempt.toItem)]))
  | .close => tagged "close" none
  | .ack acknowledgement => tagged "ack" (some acknowledgement.toItem)

def Frame.toItem (frame : Frame uuids) : Item :=
  .map [(name "version", .unsigned frame.version), (name "environment", frame.environment.toItem),
    (name "message", frame.message.toItem)]

/-! ## What is read -/

/-- The members of a map that has none but these, and none twice. -/
def record (names : List String) : Item → Option (List (Key × Item))
  | .map entries =>
    if (entries.map Prod.fst).Nodup ∧ ∀ key ∈ entries.map Prod.fst, key ∈ names.map name then
      some entries
    else none
  | _ => none

def get (entries : List (Key × Item)) (text : String) : Option Item := entries.lookup (name text)

def text? : Item → Option (List UInt8)
  | .text data => some data
  | _ => none

def unsigned? : Item → Option ℕ
  | .unsigned n => some n
  | _ => none

def bytes? : Item → Option (List UInt8)
  | .bytes data => some data
  | _ => none

def Identity.ofItem (uuids : Uuids Uuid) (item : Item) : Option (Identity uuids) := do
  (Identity.fromStr uuids (← text? item)).toOption

def Architecture.ofItem (item : Item) : Option Architecture := do
  let text ← text? item
  if text = ascii "x86_64" then some .x86_64
  else if text = ascii "arm64" then some .arm64
  else none

def Outcome.ofItem (item : Item) : Option Outcome := do
  let text ← text? item
  if text = ascii "success" then some .success
  else if text = ascii "functionError" then some .functionError
  else none

def Payload.ofItem (item : Item) : Option Payload := do
  (Payload.tryFrom (← bytes? item)).toOption

def NonZeroU64.ofItem (item : Item) : Option NonZeroU64 := do
  let n ← unsigned? item
  if h : n ≠ 0 ∧ n < 2 ^ 64 then some ⟨n, h⟩ else none

def HandlerTimeout.ofItem (item : Item) : Option HandlerTimeout := do
  (HandlerTimeout.tryFrom (← unsigned? item)).toOption

/-- Where the timeout is missing, there is none. -/
def HandlerTimeout.ofMember : Option Item → Option (Option HandlerTimeout)
  | none => some none
  | some item => (HandlerTimeout.ofItem item).map some

def Acknowledgement.ofItem (uuids : Uuids Uuid) (item : Item) :
    Option (Acknowledgement uuids) := do
  let fields ← record ["operation", "attempt"] item
  let operation ← text? (← get fields "operation")
  match get fields "attempt" with
  | some attempt =>
    let attempt ← Identity.ofItem uuids attempt
    if operation = ascii "cancel" then some (.cancel attempt) else none
  | none => if operation = ascii "close" then some .close else none

def Message.ofData (uuids : Uuids Uuid) (kind : List UInt8) (data : Item) :
    Option (Message uuids) :=
  if kind = ascii "hello" then do
    let fields ← record ["architecture"] data
    return .hello (← Architecture.ofItem (← get fields "architecture"))
  else if kind = ascii "invoke" then do
    let fields ← record ["attempt", "deadlineUnixMs", "handlerTimeoutMs", "functionArn", "traceId",
      "payload"] data
    let attempt ← Identity.ofItem uuids (← get fields "attempt")
    let deadline ← NonZeroU64.ofItem (← get fields "deadlineUnixMs")
    let timeout ← HandlerTimeout.ofMember (get fields "handlerTimeoutMs")
    let arn ← (FunctionArn.fromStr (← text? (← get fields "functionArn"))).toOption
    let trace ← (TraceId.fromStr (← text? (← get fields "traceId"))).toOption
    return .invoke attempt deadline timeout arn trace (← Payload.ofItem (← get fields "payload"))
  else if kind = ascii "invocationResult" then do
    let fields ← record ["attempt", "outcome", "payload"] data
    let attempt ← Identity.ofItem uuids (← get fields "attempt")
    let outcome ← Outcome.ofItem (← get fields "outcome")
    return .invocationResult attempt outcome (← Payload.ofItem (← get fields "payload"))
  else if kind = ascii "invocationTimedOut" then do
    let fields ← record ["attempt"] data
    return .invocationTimedOut (← Identity.ofItem uuids (← get fields "attempt"))
  else if kind = ascii "initError" then do
    let fields ← record ["payload"] data
    return .initError (← Payload.ofItem (← get fields "payload"))
  else if kind = ascii "cancel" then do
    let fields ← record ["attempt"] data
    return .cancel (← Identity.ofItem uuids (← get fields "attempt"))
  else if kind = ascii "ack" then do
    return .ack (← Acknowledgement.ofItem uuids data)
  else none

def Message.ofItem (uuids : Uuids Uuid) (item : Item) : Option (Message uuids) := do
  let entries ← record ["kind", "data"] item
  let kind ← text? (← get entries "kind")
  match get entries "data" with
  | some data => Message.ofData uuids kind data
  | none =>
    if kind = ascii "ready" then some .ready
    else if kind = ascii "bootstrapReady" then some .bootstrapReady
    else if kind = ascii "close" then some .close
    else none

def RawFrame.ofItem (uuids : Uuids Uuid) (item : Item) : Option (RawFrame uuids) := do
  let fields ← record ["version", "environment", "message"] item
  let version ← unsigned? (← get fields "version")
  if 2 ^ 32 ≤ version then none
  let environment ← Identity.ofItem uuids (← get fields "environment")
  return ⟨version, environment, ← Message.ofItem uuids (← get fields "message")⟩

/-! ## What was written is read -/

theorem name_inj {a b : String} (h : name a = name b) : ascii a = ascii b := Key.text.inj h

theorem record_eq_some {names : List String} {entries : List (Key × Item)} (found : List String)
    (hkeys : entries.map Prod.fst = found.map name) (hdistinct : (found.map ascii).Nodup)
    (hknown : ∀ text ∈ found, text ∈ names) : record names (.map entries) = some entries := by
  have hnames : (found.map name).Nodup := by
    have hmap : found.map name = (found.map ascii).map Key.text := by
      rw [map_map]
      rfl
    rw [hmap]
    exact hdistinct.map fun _ _ => Key.text.inj
  have hall : ∀ key ∈ found.map name, key ∈ names.map name := fun key hkey => by
    obtain ⟨text, htext, rfl⟩ := mem_map.mp hkey
    exact mem_map_of_mem (hknown text htext)
  rw [record, hkeys, if_pos ⟨hnames, hall⟩]

@[simp] theorem get_cons_self (text : String) (item : Item) (entries : List (Key × Item)) :
    get ((name text, item) :: entries) text = some item := by
  rw [get, lookup_cons_self]

theorem get_cons_of_ne {text other : String} (h : ascii text ≠ ascii other) (item : Item)
    (entries : List (Key × Item)) :
    get ((name other, item) :: entries) text = get entries text := by
  rw [get, lookup_cons, beq_false_of_ne fun heq => h (name_inj heq), get]

theorem Identity.ofItem_toItem (hids : ∀ id, uuids.parseStr (uuids.toText id) = some id ∧
    (uuids.toText id).length = 36) (identity : Identity uuids) :
    Identity.ofItem uuids identity.toItem = some identity := by
  obtain ⟨id, hnil⟩ := identity
  obtain ⟨hparse, hlength⟩ := hids id
  have hread : Identity.fromStr uuids (uuids.toText id) = .ok ⟨id, hnil⟩ := by
    unfold Identity.fromStr
    rw [if_neg (not_ne_iff.mpr hlength), hparse]
    exact dif_pos ⟨hnil, rfl⟩
  exact congrArg Except.toOption hread

theorem Architecture.ofItem_toItem (architecture : Architecture) :
    Architecture.ofItem architecture.toItem = some architecture := by
  cases architecture <;> rfl

theorem Outcome.ofItem_toItem (outcome : Outcome) :
    Outcome.ofItem outcome.toItem = some outcome := by
  cases outcome <;> rfl

theorem Payload.ofItem_bytes (payload : Payload) :
    Payload.ofItem (.bytes payload.data) = some payload :=
  congrArg Except.toOption (dif_pos payload.bounded)

theorem NonZeroU64.ofItem_unsigned (n : NonZeroU64) :
    NonZeroU64.ofItem (.unsigned n.value) = some n := dif_pos n.inRange

theorem HandlerTimeout.ofItem_unsigned (timeout : HandlerTimeout) :
    HandlerTimeout.ofItem (.unsigned timeout.milliseconds) = some timeout :=
  congrArg Except.toOption (dif_pos timeout.inRange)

theorem FunctionArn.fromStr_value (arn : FunctionArn) : FunctionArn.fromStr arn.value = .ok arn :=
  dif_pos arn.valid

theorem TraceId.fromStr_value (trace : TraceId) : TraceId.fromStr trace.value = .ok trace :=
  dif_pos trace.valid

theorem Message.ofItem_tagged (kind : String) (data : Item) :
    Message.ofItem uuids (tagged kind (some data)) = Message.ofData uuids (ascii kind) data := by
  unfold Message.ofItem tagged
  rw [record_eq_some ["kind", "data"] rfl (by decide) (by simp)]
  simp only [bind_eq_bind, bind_some, get_cons_self, word, text?,
    get_cons_of_ne (show ascii "data" ≠ ascii "kind" by decide)]

section

variable (hids : ∀ id, uuids.parseStr (uuids.toText id) = some id ∧
  (uuids.toText id).length = 36)

include hids

theorem Acknowledgement.ofItem_toItem (acknowledgement : Acknowledgement uuids) :
    Acknowledgement.ofItem uuids acknowledgement.toItem = some acknowledgement := by
  cases acknowledgement with
  | cancel attempt =>
      unfold Acknowledgement.ofItem Acknowledgement.toItem
      rw [record_eq_some ["operation", "attempt"] rfl (by decide) (by simp)]
      simp only [bind_eq_bind, bind_some, get_cons_self, word, text?,
        get_cons_of_ne (show ascii "attempt" ≠ ascii "operation" by decide),
        Identity.ofItem_toItem hids, if_true]
  | close =>
      unfold Acknowledgement.ofItem Acknowledgement.toItem
      rw [record_eq_some ["operation"] rfl (by decide) (by simp)]
      rfl

theorem Message.ofData_invoke {fields : List (Key × Item)} {data : Item}
    {attempt : Identity uuids} {deadline : NonZeroU64} {timeout : Option HandlerTimeout}
    {arn : FunctionArn} {trace : TraceId} {payload : Payload}
    (hrecord : record ["attempt", "deadlineUnixMs", "handlerTimeoutMs", "functionArn", "traceId",
      "payload"] data = some fields)
    (hattempt : get fields "attempt" = some attempt.toItem)
    (hdeadline : get fields "deadlineUnixMs" = some (.unsigned deadline.value))
    (htimeout : HandlerTimeout.ofMember (get fields "handlerTimeoutMs") = some timeout)
    (harn : get fields "functionArn" = some (.text arn.value))
    (htrace : get fields "traceId" = some (.text trace.value))
    (hpayload : get fields "payload" = some (.bytes payload.data)) :
    Message.ofData uuids (ascii "invoke") data =
      some (.invoke attempt deadline timeout arn trace payload) := by
  rw [Message.ofData, if_neg (by decide), if_pos rfl]
  simp only [bind_eq_bind, hrecord, hattempt, hdeadline, htimeout, harn, htrace, hpayload,
    bind_some, Identity.ofItem_toItem hids, NonZeroU64.ofItem_unsigned, text?,
    FunctionArn.fromStr_value, TraceId.fromStr_value, Except.toOption, Payload.ofItem_bytes]
  rfl

theorem Message.ofItem_toItem (message : Message uuids) :
    Message.ofItem uuids message.toItem = some message := by
  cases message with
  | ready => rfl
  | bootstrapReady => rfl
  | close => rfl
  | hello architecture =>
      rw [Message.toItem, Message.ofItem_tagged, Message.ofData, if_pos rfl,
        record_eq_some ["architecture"] rfl (by decide) (by simp)]
      simp only [bind_eq_bind, bind_some, get_cons_self,
        Architecture.ofItem_toItem]
      rfl
  | ack acknowledgement =>
      rw [Message.toItem, Message.ofItem_tagged, Message.ofData, if_neg (by decide),
        if_neg (by decide), if_neg (by decide), if_neg (by decide), if_neg (by decide),
        if_neg (by decide), if_pos rfl, Acknowledgement.ofItem_toItem hids]
      rfl
  | cancel attempt =>
      rw [Message.toItem, Message.ofItem_tagged, Message.ofData, if_neg (by decide),
        if_neg (by decide), if_neg (by decide), if_neg (by decide), if_neg (by decide),
        if_pos rfl, record_eq_some ["attempt"] rfl (by decide) (by simp)]
      simp only [bind_eq_bind, bind_some, get_cons_self,
        Identity.ofItem_toItem hids]
      rfl
  | initError payload =>
      rw [Message.toItem, Message.ofItem_tagged, Message.ofData, if_neg (by decide),
        if_neg (by decide), if_neg (by decide), if_neg (by decide), if_pos rfl,
        record_eq_some ["payload"] rfl (by decide) (by simp)]
      simp only [bind_eq_bind, bind_some, get_cons_self, Payload.ofItem_bytes]
      rfl
  | invocationTimedOut attempt =>
      rw [Message.toItem, Message.ofItem_tagged, Message.ofData, if_neg (by decide),
        if_neg (by decide), if_neg (by decide), if_pos rfl,
        record_eq_some ["attempt"] rfl (by decide) (by simp)]
      simp only [bind_eq_bind, bind_some, get_cons_self,
        Identity.ofItem_toItem hids]
      rfl
  | invocationResult attempt outcome payload =>
      rw [Message.toItem, Message.ofItem_tagged, Message.ofData, if_neg (by decide),
        if_neg (by decide), if_pos rfl,
        record_eq_some ["attempt", "outcome", "payload"] rfl (by decide) (by simp)]
      simp only [bind_eq_bind, bind_some, get_cons_self,
        get_cons_of_ne (show ascii "outcome" ≠ ascii "attempt" by decide),
        get_cons_of_ne (show ascii "payload" ≠ ascii "attempt" by decide),
        get_cons_of_ne (show ascii "payload" ≠ ascii "outcome" by decide),
        Identity.ofItem_toItem hids, Outcome.ofItem_toItem, Payload.ofItem_bytes]
      rfl
  | invoke attempt deadline timeout arn trace payload =>
      rw [Message.toItem, Message.ofItem_tagged]
      cases timeout with
      | none =>
          exact Message.ofData_invoke hids (record_eq_some ["attempt", "deadlineUnixMs",
            "functionArn", "traceId", "payload"] rfl (by decide) (by simp)) rfl rfl rfl rfl rfl rfl
      | some timeout =>
          exact Message.ofData_invoke hids (record_eq_some ["attempt", "deadlineUnixMs",
            "handlerTimeoutMs", "functionArn", "traceId", "payload"] rfl (by decide) (by simp))
            rfl rfl (congrArg (Option.map some) timeout.ofItem_unsigned) rfl rfl rfl

theorem RawFrame.ofItem_toItem (frame : Frame uuids) : RawFrame.ofItem uuids frame.toItem =
    some ⟨frame.version, frame.environment, frame.message⟩ := by
  unfold RawFrame.ofItem Frame.toItem
  rw [record_eq_some ["version", "environment", "message"] rfl (by decide) (by simp)]
  simp only [bind_eq_bind, bind_some, get_cons_self, unsigned?,
    get_cons_of_ne (show ascii "environment" ≠ ascii "version" by decide),
    get_cons_of_ne (show ascii "message" ≠ ascii "version" by decide),
    get_cons_of_ne (show ascii "message" ≠ ascii "environment" by decide),
    Identity.ofItem_toItem hids, Message.ofItem_toItem hids]
  rw [if_neg (by rw [frame.current]; decide)]
  rfl

end

/-! ## Encoding and decoding -/

/-- The writer of items and the reader of frames, which may fail. -/
structure Codec (uuids : Uuids Uuid) where
  intoWriter : Item → Option (List UInt8)
  fromReader : List UInt8 → Option (RawFrame uuids)

/-- One frame with its length in front. -/
def encode (codec : Codec uuids) (frame : Frame uuids) : Except ProtocolError (List UInt8) :=
  match codec.intoWriter frame.toItem with
  | none => .error .invalidSchema
  | some body => do
    Scanner.validate body
    if 2 ^ 32 ≤ body.length then throw .tooLarge
    return be 4 body.length ++ body

def decode (codec : Codec uuids) (body : List UInt8) : Except ProtocolError (Frame uuids) := do
  Scanner.validate body
  match codec.fromReader body with
  | none => throw .invalidSchema
  | some raw => Frame.tryFrom raw

theorem tryFrom_frame (frame : Frame uuids) :
    Frame.tryFrom ⟨frame.version, frame.environment, frame.message⟩ = .ok frame := by
  obtain ⟨version, environment, message, hcurrent⟩ := frame
  unfold Frame.tryFrom
  rw [if_neg (not_ne_iff.mpr hcurrent)]
  subst hcurrent
  rfl

theorem decode_of_encode {codec : Codec uuids} {frame : Frame uuids} {bytes : List UInt8}
    (hids : ∀ id, uuids.parseStr (uuids.toText id) = some id ∧ (uuids.toText id).length = 36)
    (hcodec : ∀ body raw, codec.intoWriter frame.toItem = some body →
      RawFrame.ofItem uuids frame.toItem = some raw → codec.fromReader body = some raw)
    (h : encode codec frame = .ok bytes) :
    bytes.take 4 = be 4 (bytes.drop 4).length ∧ decode codec (bytes.drop 4) = .ok frame := by
  unfold encode at h
  split at h
  · cases h
  next body hbody =>
  obtain ⟨_, hvalidate, h⟩ := Except.bind_eq_ok.mp h
  split at h
  · cases h
  cases h
  have hread := hcodec body _ hbody (RawFrame.ofItem_toItem hids frame)
  rw [take_left' (length_be 4 _), drop_left' (length_be 4 _)]
  refine ⟨rfl, Except.bind_eq_ok.mpr ⟨_, hvalidate, ?_⟩⟩
  rw [hread]
  exact tryFrom_frame frame

/-! ## Reading off a connection -/

/-- What follows the last bytes: the end, a failure, or nothing before the deadline. -/
inductive Ending where
  | eof
  | broken (kind : String)
  | stalled

/-- The bytes of a connection come in pieces, of which none is empty. -/
structure Reader where
  pieces : List (List UInt8)
  full : ∀ piece ∈ pieces, piece ≠ []
  ending : Ending

def Reader.bytes (reader : Reader) : List UInt8 := reader.pieces.flatten

def Ending.stop : Ending → ProtocolError
  | .eof => .io "UnexpectedEof"
  | .broken kind => .io kind
  | .stalled => .deadline

/-- One read takes what has come, but no more than it asks for. -/
def read (ending : Ending) (length : ℕ) :
    List (List UInt8) → Except ProtocolError (List UInt8 × List (List UInt8))
  | [] =>
    match ending with
    | .eof => .ok ([], [])
    | ending => .error ending.stop
  | piece :: pieces =>
    if piece.length ≤ length then .ok (piece, pieces)
    else .ok (piece.take length, piece.drop length :: pieces)

/-- Reads until there is as much as asked for. -/
def readExact (ending : Ending) :
    List (List UInt8) → ℕ → Except ProtocolError (List UInt8 × List (List UInt8))
  | [], length => if length = 0 then .ok ([], []) else .error ending.stop
  | piece :: pieces, length =>
    if length = 0 then .ok ([], piece :: pieces)
    else if piece.length ≤ length then do
      let (rest, pieces) ← readExact ending pieces (length - piece.length)
      return (piece ++ rest, pieces)
    else .ok (piece.take length, piece.drop length :: pieces)

/-- The reading before the deadline. -/
def readInTime (codec : Codec uuids) (ending : Ending) (pieces : List (List UInt8)) :
    Except ProtocolError (Option (Frame uuids)) := do
  let (front, pieces) ← read ending 4 pieces
  if front = [] then return none
  let (back, pieces) ← readExact ending pieces (4 - front.length)
  if maxFrameBytes < ofBe (front ++ back) then throw .tooLarge
  let (body, _) ← readExact ending pieces (ofBe (front ++ back))
  let frame ← decode codec body
  return some frame

/-- A frame, where the deadline has not passed before or after. -/
def readFrame (codec : Codec uuids) (before after : Bool) (reader : Reader) :
    Except ProtocolError (Option (Frame uuids)) := do
  if before then throw .deadline
  let frame ← readInTime codec reader.ending reader.pieces
  if after then throw .deadline
  return frame

/-- The same of all bytes at once. -/
def frameOf (codec : Codec uuids) (ending : Ending) (bytes : List UInt8) :
    Except ProtocolError (Option (Frame uuids)) :=
  if bytes = [] then
    match ending with
    | .eof => .ok none
    | ending => .error ending.stop
  else if bytes.length < 4 then .error ending.stop
  else if maxFrameBytes < ofBe (bytes.take 4) then .error .tooLarge
  else if (bytes.drop 4).length < ofBe (bytes.take 4) then .error ending.stop
  else (decode codec ((bytes.drop 4).take (ofBe (bytes.take 4)))).map some

variable {ending : Ending}

/-- What is read exactly depends on the bytes alone, where there are enough of them. -/
theorem readExact_of_le (ending : Ending) {length : ℕ} {pieces : List (List UInt8)}
    (h : length ≤ pieces.flatten.length) :
    ∃ rest, readExact ending pieces length = .ok (pieces.flatten.take length, rest) ∧
      rest.flatten = pieces.flatten.drop length := by
  induction pieces generalizing length with
  | nil =>
      obtain rfl : length = 0 := Nat.le_zero.mp h
      exact ⟨[], rfl, rfl⟩
  | cons piece pieces ih =>
      rw [flatten_cons, length_append] at h
      unfold readExact
      by_cases hzero : length = 0
      · subst hzero
        exact ⟨piece :: pieces, rfl, rfl⟩
      rw [if_neg hzero]
      by_cases hle : piece.length ≤ length
      · obtain ⟨rest, hread, hrest⟩ := ih (show length - piece.length ≤ _ by omega)
        refine ⟨rest, ?_, ?_⟩
        · rw [if_pos hle, flatten_cons, take_append, take_of_length_le hle, hread]
          rfl
        · rw [hrest, flatten_cons, drop_append, drop_of_length_le hle,
            nil_append]
      · have hfits : length ≤ piece.length := Nat.le_of_not_le hle
        refine ⟨piece.drop length :: pieces, ?_, ?_⟩
        · rw [if_neg hle, flatten_cons, take_append_of_le_length hfits]
        · rw [flatten_cons, flatten_cons, drop_append_of_le_length hfits]

theorem readExact_of_lt {length : ℕ} {pieces : List (List UInt8)}
    (h : pieces.flatten.length < length) :
    readExact ending pieces length = .error ending.stop := by
  induction pieces generalizing length with
  | nil => exact if_neg (Nat.ne_of_gt h)
  | cons piece pieces ih =>
      rw [flatten_cons, length_append] at h
      unfold readExact
      rw [if_neg (by omega), if_pos (by omega), ih (by omega)]
      rfl

/-- The first read takes some of the first four bytes. -/
theorem read_cons (ending : Ending) {piece : List UInt8} (pieces : List (List UInt8))
    (hpiece : piece ≠ []) :
    ∃ front rest, read ending 4 (piece :: pieces) = .ok (front, rest) ∧ front ≠ [] ∧
      front.length ≤ 4 ∧ front ++ rest.flatten = (piece :: pieces).flatten := by
  by_cases hle : piece.length ≤ 4
  · exact ⟨piece, pieces, if_pos hle, hpiece, hle, rfl⟩
  · refine ⟨piece.take 4, piece.drop 4 :: pieces, if_neg hle, ?_, length_take_le 4 piece, ?_⟩
    · intro hnil
      rcases take_eq_nil_iff.mp hnil with h | h
      · cases h
      · exact hpiece h
    · rw [flatten_cons, flatten_cons, ← append_assoc, take_append_drop]

theorem readInTime_eq (codec : Codec uuids) (ending : Ending) {pieces : List (List UInt8)}
    (hfull : ∀ piece ∈ pieces, piece ≠ []) :
    readInTime codec ending pieces = frameOf codec ending pieces.flatten := by
  cases pieces with
  | nil => cases ending <;> rfl
  | cons piece pieces =>
      obtain ⟨front, rest, hread, hfront, hfour, hbytes⟩ :=
        read_cons ending pieces (hfull piece (.head _))
      have hne : (piece :: pieces).flatten ≠ [] := by
        rw [← hbytes]
        exact append_ne_nil_of_left_ne_nil hfront _
      unfold readInTime frameOf
      rw [hread, if_neg hne, ← hbytes]
      change (if front = [] then _ else _) = _
      rw [if_neg hfront]
      by_cases hprefix : (front ++ rest.flatten).length < 4
      · rw [if_pos hprefix, readExact_of_lt (by rw [length_append] at hprefix; omega)]
        rfl
      rw [if_neg hprefix]
      rw [length_append] at hprefix
      obtain ⟨rest₁, hread₁, hrest₁⟩ := readExact_of_le ending
        (show 4 - front.length ≤ rest.flatten.length by omega)
      have htake : (front ++ rest.flatten).take 4 =
          front ++ rest.flatten.take (4 - front.length) := by
        rw [take_append, take_of_length_le hfour]
      have hdrop : (front ++ rest.flatten).drop 4 = rest₁.flatten := by
        rw [drop_append, drop_of_length_le hfour, nil_append, hrest₁]
      rw [hread₁, htake, hdrop]
      change (if maxFrameBytes < ofBe (front ++ rest.flatten.take (4 - front.length)) then _
        else _) = _
      generalize ofBe (front ++ rest.flatten.take (4 - front.length)) = length
      by_cases hlarge : maxFrameBytes < length
      · rw [if_pos hlarge, if_pos hlarge]
        rfl
      rw [if_neg hlarge, if_neg hlarge]
      by_cases hshort : rest₁.flatten.length < length
      · rw [if_pos hshort, readExact_of_lt hshort]
        rfl
      · obtain ⟨rest₂, hread₂, -⟩ := readExact_of_le ending (Nat.le_of_not_lt hshort)
        rw [if_neg hshort, hread₂]
        cases hdecode : decode codec (rest₁.flatten.take length) with
        | error e => exact congrArg (· >>= fun frame => pure (some frame)) hdecode
        | ok frame => exact congrArg (· >>= fun frame => pure (some frame)) hdecode

/-- A frame is read off the bytes, however they come in pieces. -/
theorem readFrame_eq (codec : Codec uuids) (before after : Bool) (reader : Reader) :
    readFrame codec before after reader = if before then .error .deadline
      else (frameOf codec reader.ending reader.bytes).bind fun frame =>
        if after then .error .deadline else .ok frame := by
  unfold readFrame
  rw [readInTime_eq codec reader.ending reader.full]
  cases before <;> cases after <;> rfl

/-! ## The protocol -/

/-- The preflight accepts its profile and nothing else, an encoded frame is decoded to itself, and
the frame that is read is that of all bytes at once, whatever pieces they come in. -/
theorem protocol_faithful (codec : Codec uuids) (frame : Frame uuids)
    (hids : ∀ id, uuids.parseStr (uuids.toText id) = some id ∧ (uuids.toText id).length = 36)
    (hcodec : ∀ body raw, codec.intoWriter frame.toItem = some body →
      RawFrame.ofItem uuids frame.toItem = some raw → codec.fromReader body = some raw) :
    (∀ body, Scanner.validate body = .ok () ↔
      ∃ item, Encodes false item body ∧ Scanner.Profile item body.length) ∧
    (∀ bytes, encode codec frame = .ok bytes →
      bytes.take 4 = be 4 (bytes.drop 4).length ∧ decode codec (bytes.drop 4) = .ok frame) ∧
    (∀ (before after : Bool) (reader : Reader), readFrame codec before after reader =
      if before then .error .deadline
      else (frameOf codec reader.ending reader.bytes).bind fun frame =>
        if after then .error .deadline else .ok frame) ∧
    ∀ (before after : Bool) (reader reader' : Reader), reader.bytes = reader'.bytes →
      reader.ending = reader'.ending →
        readFrame codec before after reader = readFrame codec before after reader' := by
  refine ⟨Scanner.validate_eq_ok, fun bytes h => decode_of_encode hids hcodec h,
    readFrame_eq codec, ?_⟩
  intro before after reader reader' hbytes hending
  rw [readFrame_eq, readFrame_eq, hbytes, hending]

/-- One identifier. -/
def oneUuid : Uuids Unit where
  toText := fun _ => ascii "67e55044-10b1-426f-9247-bb680e5f6af6"
  parseStr := fun text =>
    if text = ascii "67e55044-10b1-426f-9247-bb680e5f6af6" then some () else none
  isNil := fun _ => false

/-- An invocation with a payload. -/
def invocation : Message oneUuid :=
  .invoke ⟨(), rfl⟩ ⟨1700000000000, by decide⟩ none
    ⟨ascii "arn:aws:lambda:us-east-1:000000000000:function:f", by decide +kernel⟩
    ⟨ascii "Root=1", by decide +kernel⟩ ⟨[1, 2, 3], by decide⟩

def invokeFrame : Frame oneUuid := Frame.new ⟨(), rfl⟩ invocation

/-- A text of less than 24 bytes. -/
def shortText (text : String) : List UInt8 := UInt8.ofNat (0x60 + text.length) :: ascii text

/-- The body of the frame. -/
def invokeBody : List UInt8 :=
  let id := 0x78 :: 0x24 :: ascii "67e55044-10b1-426f-9247-bb680e5f6af6"
  0xa3 :: shortText "version" ++ 0x02 :: shortText "environment" ++ id ++ shortText "message" ++
    0xa2 :: shortText "kind" ++ shortText "invoke" ++ shortText "data" ++
      0xa5 :: shortText "attempt" ++ id ++
        shortText "deadlineUnixMs" ++ 0x1b :: be 8 1700000000000 ++
        shortText "functionArn" ++
          0x78 :: 0x30 :: ascii "arn:aws:lambda:us-east-1:000000000000:function:f" ++
        shortText "traceId" ++ shortText "Root=1" ++ shortText "payload" ++ [0x43, 1, 2, 3]

def invokeCodec : Codec oneUuid where
  intoWriter := fun _ => some invokeBody
  fromReader := fun body =>
    if body = invokeBody then some ⟨protocolVersion, ⟨(), rfl⟩, invocation⟩ else none

theorem invokeBody_valid : Scanner.validate invokeBody = .ok () := by decide +kernel

/-- The frame is accepted and decoded, and read the same where the body comes in two pieces. -/
theorem protocol_faithful_invoke :
    (∃ item, Encodes false item invokeBody ∧ Scanner.Profile item invokeBody.length) ∧
      decode invokeCodec invokeBody = .ok invokeFrame ∧
      ∀ (whole split : Reader), whole.pieces = [be 4 invokeBody.length ++ invokeBody] →
        split.pieces = [be 4 invokeBody.length, invokeBody.take 7, invokeBody.drop 7] →
        whole.ending = split.ending →
        readFrame invokeCodec false false split = readFrame invokeCodec false false whole := by
  have hids : ∀ id, oneUuid.parseStr (oneUuid.toText id) = some id ∧
      (oneUuid.toText id).length = 36 := by decide
  have hcodec : ∀ body raw, invokeCodec.intoWriter invokeFrame.toItem = some body →
      RawFrame.ofItem oneUuid invokeFrame.toItem = some raw →
        invokeCodec.fromReader body = some raw := by
    intro body raw hbody hraw
    rw [RawFrame.ofItem_toItem hids] at hraw
    have hsame : invokeBody = body := Option.some.inj hbody
    rw [← hsame, ← hraw]
    simp only [invokeCodec, if_true]
    rfl
  obtain ⟨hprofile, hdecode, -, hread⟩ := protocol_faithful invokeCodec invokeFrame hids hcodec
  have hencode : encode invokeCodec invokeFrame =
      .ok (be 4 invokeBody.length ++ invokeBody) := by
    have hshort : ¬2 ^ 32 ≤ invokeBody.length := by decide +kernel
    have hwritten : invokeCodec.intoWriter invokeFrame.toItem = some invokeBody := rfl
    simp only [encode, hwritten, invokeBody_valid, bind, Except.bind, if_neg hshort]
    rfl
  refine ⟨(hprofile invokeBody).mp invokeBody_valid, (hdecode _ hencode).2, ?_⟩
  intro whole split hwhole hsplit hending
  refine hread false false split whole ?_ hending.symm
  rw [Reader.bytes, Reader.bytes, hwhole, hsplit]
  simp

end Rustack.Lambda
