import Rustack.Auth.Binding
import Rustack.S3.ChunkChain

/-!
# Receiving an upload

A body is decoded into a staging file while its chunks are verified, then its length, its hash and
its trailers are checked, and the request is authenticated once more.  Only an upload that passes
all of this is handed on to be published.
-/

namespace Rustack.S3

open Auth (AuthError Clock CredentialProvider Crypto)
open Http (HeaderMap HeaderName HeaderValue Parts)

/-! ## The seed -/

/-- A key as text: one character for each byte. -/
def keyText (key : List UInt8) : String := String.ofList (key.map fun b => Char.ofNat b.toNat)

def keyBytes (key : String) : List UInt8 := key.toList.map fun c => UInt8.ofNat c.toNat

/-- Hash and MAC for the verifier of chunks. -/
def signingEnv (crypto : Crypto) : SigningEnv where
  hashPayload payload := String.ofList (Auth.hashPayload crypto payload)
  computeSignature key text :=
    if keyText (keyBytes key) = key then
      (Auth.computeSignature crypto (keyBytes key) text.toList).toOption.map String.ofList
    else none

/-- Authenticate the seed and start the chain with its signature. -/
def StreamingVerifier.new (crypto : Crypto) (provider : CredentialProvider) (parts : Parts) :
    Except AuthError StreamingVerifier := do
  let _ ← Auth.verifyS3Sigv4 crypto provider parts (Auth.hashPayload crypto [])
  let header ← Auth.extractHeaderValue parts "authorization".toList
  let parsed ← Auth.parseAuthorizationHeader header
  let secret ← provider parsed.accessKeyId
  let key ← Auth.deriveSigningKey crypto secret parsed.date parsed.region parsed.service
  let timestamp ← Auth.extractHeaderValue parts "x-amz-date".toList
  return {
    key := keyText key
    timestamp := String.ofList timestamp
    scope := String.ofList parsed.scope
    previous := String.ofList parsed.signature }

/-! ## The request -/

inductive ReceiveError where
  | upload (error : UploadError)
  | contentSha256Mismatch
  | badDigest
  deriving DecidableEq

def invalid (message : String) : ReceiveError := .upload (.invalid message)

def denied (error : AuthError) : ReceiveError := .upload (.denied error.message)

/-- Whether requests have to be signed. -/
inductive AuthMode where
  | development
  | required (provider : CredentialProvider)

/-- What a request is checked with: hash and MAC, checksums, the clock, version 2 signatures, and
the budgets for bodies. -/
structure ReceiveEnv where
  crypto : Crypto
  digests : Digests
  clock : Clock
  verifySigv2 : CredentialProvider → Parts → Except AuthError Unit
  objectBudget : ℕ
  encodedBudget : ℕ

def SIGNED_PAYLOAD : List Char := "STREAMING-AWS4-HMAC-SHA256-PAYLOAD".toList

def SIGNED_PAYLOAD_TRAILER : List Char := "STREAMING-AWS4-HMAC-SHA256-PAYLOAD-TRAILER".toList

def UNSIGNED_PAYLOAD_TRAILER : List Char := "STREAMING-UNSIGNED-PAYLOAD-TRAILER".toList

def isSignedMarker (marker : List Char) : Bool :=
  marker == SIGNED_PAYLOAD || marker == SIGNED_PAYLOAD_TRAILER

def headerText (parts : Parts) (name : String) : Option (List Char) :=
  (parts.headers.first name).bind HeaderValue.toText

/-- The text contains a piece. -/
def containsText (needle cs : List Char) : Bool := (Text.beforeFirst needle cs).isSome

def isAwsChunked (parts : Parts) : Bool :=
  (headerText parts "content-encoding").any (containsText "aws-chunked".toList) ||
    (headerText parts "x-amz-content-sha256").any fun s => "STREAMING-".toList.isPrefixOf s

def checkSingleHeaders (parts : Parts) : Except ReceiveError Unit :=
  if ["x-amz-content-sha256", "x-amz-trailer", "x-amz-decoded-content-length", "authorization"].any
      fun name => 1 < (parts.headers.getAll name).length then
    .error (invalid "duplicate upload integrity header")
  else .ok ()

/-- A header as text, empty if there is none. -/
def optionalText (parts : Parts) (name message : String) : Except ReceiveError (List Char) :=
  match parts.headers.first name with
  | none => .ok []
  | some value =>
    match value.toText with
    | none => .error (invalid message)
    | some text => .ok text

def mapError {ε ε' α : Type} (f : ε → ε') : Except ε α → Except ε' α
  | .ok a => .ok a
  | .error e => .error (f e)

/-- The verifier of the chunks, where they have to be signed. -/
def chunkVerifier (env : ReceiveEnv) (mode : AuthMode) (parts : Parts) (signedChunks : Bool) :
    Except ReceiveError (Option StreamingVerifier) :=
  match mode with
  | .development => .ok none
  | .required provider =>
    if signedChunks then
      (mapError denied (StreamingVerifier.new env.crypto provider parts)).map some
    else .ok none

def isPresigned (parts : Parts) : Bool := containsText "X-Amz-Signature".toList parts.query

def isSigv2 (header : List Char) : Bool :=
  "AWS ".toList.isPrefixOf header && !"AWS4-".toList.isPrefixOf header

/-- The access key that a header names, as far as it can be seen at once. -/
def namedAccessKey (authorization : List Char) : Option (List Char) :=
  match "AWS4-HMAC-SHA256 Credential=".toList.isPrefixOf? authorization with
  | some rest => (Text.splitOnce '/' rest).map Prod.fst
  | none =>
    match "AWS ".toList.isPrefixOf? authorization with
    | some rest => (Text.splitOnce ':' rest).map Prod.fst
    | none => none

def fastFailStrictAuth (env : ReceiveEnv) (provider : CredentialProvider) (parts : Parts) :
    Except ReceiveError Unit :=
  if isPresigned parts then
    (mapError denied (Auth.verifyPresigned env.crypto env.clock provider parts)).map fun _ => ()
  else
    match headerText parts "authorization" with
    | none => .error (.upload (.denied "missing signature"))
    | some authorization =>
      match namedAccessKey authorization with
      | some key =>
        (mapError (fun _ => .upload (.denied "invalid access key")) (provider key)).map fun _ => ()
      | none =>
        if "AWS4-HMAC-SHA256".toList.isPrefixOf authorization then .ok ()
        else .error (.upload (.denied "malformed signature"))

def fastFail (env : ReceiveEnv) (mode : AuthMode) (parts : Parts) (chunked : Bool) :
    Except ReceiveError Unit :=
  match mode with
  | .development => .ok ()
  | .required provider => if chunked then .ok () else fastFailStrictAuth env provider parts

def authenticate (env : ReceiveEnv) (mode : AuthMode) (parts : Parts) (actualHash : List Char) :
    Except ReceiveError Unit :=
  match mode with
  | .development => .ok ()
  | .required provider =>
    if isPresigned parts then
      (mapError denied (Auth.verifyPresigned env.crypto env.clock provider parts)).map fun _ => ()
    else if (headerText parts "authorization").any isSigv2 then
      mapError denied (env.verifySigv2 provider parts)
    else
      (mapError denied (Auth.verifyS3Sigv4 env.crypto provider parts actualHash)).map fun _ => ()

/-! ## The trailers -/

def trailerAlgorithm (name : String) : Option ChecksumAlgorithm :=
  if name = "x-amz-checksum-crc32" then some .crc32
  else if name = "x-amz-checksum-crc32c" then some .crc32c
  else if name = "x-amz-checksum-crc64nvme" then some .crc64Nvme
  else if name = "x-amz-checksum-sha1" then some .sha1
  else if name = "x-amz-checksum-sha256" then some .sha256
  else none

def TRAILER_SIGNATURE : String := "x-amz-trailer-signature"

/-- The declared names in order. -/
def declaredNames (declared : List Char) : List (List Char) :=
  Auth.sortNames ((declared.splitOn ',').filter (· ≠ []))

/-- One turn of the loop over the declared names: a line of the canonical block. -/
def checkTrailer (env : ReceiveEnv) (parts : Parts) (upload : StagedUpload) (trailers : Trailers)
    (canonical : List Char) (name : List Char) : Except ReceiveError (List Char) :=
  match trailerAlgorithm (String.ofList name) with
  | none => .error (invalid "invalid declared checksum trailer")
  | some algorithm =>
    match trailers.get? (String.ofList name) with
    | none => .error (invalid "missing checksum trailer")
    | some value =>
      if env.digests.checksum algorithm upload.data ≠ value then .error .badDigest
      else if (parts.headers.first (String.ofList name)).isSome then
        .error (invalid "checksum duplicated in header and trailer")
      else .ok (canonical ++ name ++ ':' :: (value.toList ++ ['\n']))

/-- The signature of the trailer block, where one is due. -/
def checkTrailerSignature (env : ReceiveEnv) (trailers : Trailers)
    (verifier : Option StreamingVerifier) (marker canonical : List Char) :
    Except ReceiveError Unit :=
  if marker = SIGNED_PAYLOAD_TRAILER then
    match trailers.get? TRAILER_SIGNATURE with
    | none => .error (.upload (.denied "missing trailer signature"))
    | some signature =>
      match verifier with
      | none => .ok ()
      | some v =>
        mapError .upload
          (v.verifyTrailer (signingEnv env.crypto) (String.ofList canonical) signature).1
  else if (trailers.get? TRAILER_SIGNATURE).isSome then
    .error (invalid "unexpected trailer signature")
  else .ok ()

def checkNames (marker : List Char) (names : List (List Char)) : Except ReceiveError Unit :=
  if ¬names.Nodup then .error (invalid "duplicate declared trailer")
  else if "-TRAILER".toList.isSuffixOf marker ∧ names = [] then
    .error (invalid "missing declared checksum trailer")
  else .ok ()

def checkUndeclared (trailers : Trailers) (names : List (List Char)) : Except ReceiveError Unit :=
  if trailers.entries.any fun e => e.1 != TRAILER_SIGNATURE && !names.contains e.1.toList then
    .error (invalid "undeclared trailer")
  else .ok ()

def validateTrailers (env : ReceiveEnv) (parts : Parts) (upload : StagedUpload)
    (trailers : Trailers) (verifier : Option StreamingVerifier) (marker : List Char) :
    Except ReceiveError Unit := do
  let declared ← optionalText parts "x-amz-trailer" "failed to convert header to a str"
  checkNames marker (declaredNames declared)
  let canonical ← (declaredNames declared).foldlM (checkTrailer env parts upload trailers) []
  checkUndeclared trailers (declaredNames declared)
  checkTrailerSignature env trailers verifier marker canonical

/-! ## The body -/

/-- Copy a body that has no framing. -/
def Source.copyPlain (s : Source) (w : UploadWriter) : Except UploadError UploadWriter :=
  match _h : s.next with
  | .error e => .error e
  | .ok (none, _) => .ok w
  | .ok (some data, s') =>
    match w.write data with
    | .error e => .error e
    | .ok w => s'.copyPlain w
  termination_by s.size
  decreasing_by exact Source.size_next _h

/-- The staged bytes, the trailers, and what has become of the verifier. -/
def readBody (env : ReceiveEnv) (chunked : Bool) (verifier : Option StreamingVerifier)
    (frames : List (List UInt8)) :
    Except UploadError (StagedUpload × Trailers × Option StreamingVerifier) :=
  if chunked then
    (Decoder.copyUpload (signingEnv env.crypto)
      { source := .new frames env.encodedBudget
        writer := { data := [], limit := s3ObjectBodyLimit }
        verifier }).map fun r => (⟨r.1.writer.data⟩, r.2, r.1.verifier)
  else
    ((Source.new frames env.objectBudget).copyPlain
      { data := [], limit := s3ObjectBodyLimit }).map fun w =>
        (⟨w.data⟩, SortedMap.empty, verifier)

/-- One more than the largest `u64`. -/
def U64_BOUND : ℕ := 18446744073709551616

def parseIntMessage : Decimal.ParseIntError → String
  | .empty => "cannot parse integer from empty string"
  | .invalidDigit => "invalid digit found in string"
  | .posOverflow => "number too large to fit in target type"

def checkDecodedLength (parts : Parts) (upload : StagedUpload) : Except ReceiveError Unit :=
  match parts.headers.first "x-amz-decoded-content-length" with
  | none => .ok ()
  | some value =>
    match value.toText with
    | none => .error (invalid "failed to convert header to a str")
    | some text =>
      match Decimal.parse U64_BOUND (String.ofList text) with
      | .error e => .error (invalid (parseIntMessage e))
      | .ok declared =>
        if declared ≠ upload.size then .error (invalid "decoded content length mismatch")
        else .ok ()

def checkMarker (marker actualHash : List Char) (chunked : Bool) : Except ReceiveError Unit :=
  if ¬marker.isEmpty ∧ ¬"STREAMING-".toList.isPrefixOf marker ∧ marker ≠ Auth.UNSIGNED_PAYLOAD ∧
      marker ≠ actualHash then .error .contentSha256Mismatch
  else if "STREAMING-".toList.isPrefixOf marker ∧ ¬chunked then
    .error (invalid "streaming marker requires chunk framing")
  else .ok ()

def checkProtocol (marker : List Char) (chunked : Bool) : Except ReceiveError Unit :=
  if chunked ∧ ¬isSignedMarker marker ∧ marker ≠ UNSIGNED_PAYLOAD_TRAILER then
    .error (invalid "unsupported aws-chunked payload protocol")
  else .ok ()

/-- Put a trailer among the headers; the signature is left out. -/
def insertTrailer (headers : HeaderMap) (trailer : String × String) :
    Except ReceiveError HeaderMap :=
  if trailer.1 = TRAILER_SIGNATURE then .ok headers
  else
    match HeaderName.fromBytes trailer.1, HeaderValue.fromStr trailer.2 with
    | some name, some value => .ok (headers.insert name value)
    | none, _ => .error (invalid "invalid HTTP header name")
    | _, none => .error (invalid "failed to parse header value")

def equalsIgnoreCase (cs ds : List Char) : Bool := cs.map Char.toLower == ds.map Char.toLower

def stripAwsChunkedEncoding (headers : HeaderMap) : HeaderMap :=
  match (headers.first "content-encoding").bind HeaderValue.toText with
  | none => headers
  | some value =>
    let remaining := ((value.splitOn ',').map DynamoDB.trim).filter fun v =>
      !equalsIgnoreCase v "aws-chunked".toList
    if remaining.isEmpty then headers.remove "content-encoding"
    else headers.insertText "content-encoding" (String.ofList (", ".toList.intercalate remaining))

/-- Stage and authenticate an upload; the headers get its trailers. -/
def receive (env : ReceiveEnv) (mode : AuthMode) (parts : Parts) (frames : List (List UInt8)) :
    Except ReceiveError (StagedUpload × HeaderMap) := do
  checkSingleHeaders parts
  let marker ← optionalText parts "x-amz-content-sha256" "invalid payload hash header"
  let chunked := isAwsChunked parts
  checkProtocol marker chunked
  let verifier ← chunkVerifier env mode parts (isSignedMarker marker)
  fastFail env mode parts chunked
  let (upload, trailers, verifier) ← mapError .upload (readBody env chunked verifier frames)
  let actualHash := Auth.hashPayload env.crypto upload.data
  checkDecodedLength parts upload
  checkMarker marker actualHash chunked
  validateTrailers env parts upload trailers verifier marker
  authenticate env mode parts actualHash
  let headers ← trailers.entries.foldlM insertTrailer parts.headers
  return (upload, stripAwsChunkedEncoding headers)

end Rustack.S3
