import Rustack.Auth.Canonical
import Rustack.Http.Request

/-!
# Signature Version 4

A request says with which key it was signed, for which date, region and service, and which of its
headers the signature is taken over.  The signature is computed again from the request, at first
over the query as it stands on the wire and then, where the caller allows it, over the normalized
query.  Hash and MAC are parameters.
-/

namespace Rustack.Auth

open DynamoDB (trim)
open Http (HeaderMap HeaderValue Parts)
open List
open Except (bind_eq_ok)

/-- SHA-256 and HMAC-SHA256; the MAC may not take a key. -/
structure Crypto where
  sha256 : List UInt8 → List UInt8
  hmac : List UInt8 → List UInt8 → Option (List UInt8)

/-- Different texts have different hashes, and different MACs under one key. -/
structure Crypto.Ideal (crypto : Crypto) : Prop where
  sha256 : Function.Injective crypto.sha256
  hmac : ∀ key text text' tag, crypto.hmac key text = some tag → crypto.hmac key text' = some tag →
    text = text'

/-- Different MACs under different keys, too. -/
structure Crypto.KeyedIdeal (crypto : Crypto) : Prop where
  sha256 : Function.Injective crypto.sha256
  hmac : ∀ {key key' text text' tag}, crypto.hmac key text = some tag →
    crypto.hmac key' text' = some tag → key = key' ∧ text = text'

theorem Crypto.KeyedIdeal.ideal {crypto : Crypto} (h : crypto.KeyedIdeal) : crypto.Ideal :=
  ⟨h.sha256, fun _ _ _ _ htext htext' => (h.hmac htext htext').2⟩

/-- The secret key of an access key. -/
abbrev CredentialProvider := List Char → Except AuthError (List Char)

def SUPPORTED_ALGORITHM : List Char := "AWS4-HMAC-SHA256".toList

/-! ## The authorization header -/

structure Credential where
  accessKeyId : List Char
  date : List Char
  region : List Char
  service : List Char
  deriving DecidableEq

structure ParsedAuth extends Credential where
  algorithm : List Char
  signedHeaders : List (List Char)
  signature : List Char
  deriving DecidableEq

def parseCredential (credential : List Char) : Except AuthError Credential :=
  match Text.splitN '/' 5 credential with
  | [accessKeyId, date, region, service, terminator] =>
    if terminator = "aws4_request".toList then .ok ⟨accessKeyId, date, region, service⟩
    else .error .invalidCredential
  | _ => .error .invalidCredential

structure AuthFields where
  credential : Option (List Char)
  signedHeaders : Option (List Char)
  signature : Option (List Char)

def AuthFields.read (fields : AuthFields) (part : List Char) : AuthFields :=
  match "Credential=".toList.isPrefixOf? (trim part) with
  | some value => { fields with credential := some value }
  | none =>
    match "SignedHeaders=".toList.isPrefixOf? (trim part) with
    | some value => { fields with signedHeaders := some value }
    | none =>
      match "Signature=".toList.isPrefixOf? (trim part) with
      | some value => { fields with signature := some value }
      | none => fields

def parseAuthorizationHeader (header : List Char) : Except AuthError ParsedAuth :=
  match Text.splitOnce ' ' header with
  | none => .error .invalidAuthHeader
  | some (algorithm, rest) =>
    if algorithm ≠ SUPPORTED_ALGORITHM then .error (.unsupportedAlgorithm algorithm)
    else
      let fields := (rest.splitOn ',').foldl AuthFields.read ⟨none, none, none⟩
      match fields.credential, fields.signedHeaders, fields.signature with
      | some credential, some signedHeaders, some signature =>
        (parseCredential credential).map fun c =>
          { toCredential := c, algorithm, signedHeaders := signedHeaders.splitOn ';', signature }
      | _, _, _ => .error .invalidAuthHeader

/-! ## Signing -/

def Credential.scope (c : Credential) : List Char :=
  c.date ++ '/' :: (c.region ++ '/' :: (c.service ++ "/aws4_request".toList))

def buildStringToSign (timestamp credentialScope canonicalRequestHash : List Char) : List Char :=
  SUPPORTED_ALGORITHM ++ '\n' :: (timestamp ++ '\n' :: (credentialScope ++ '\n' ::
    canonicalRequestHash))

section
variable (crypto : Crypto)

def hmacSha256 (key data : List UInt8) : Except AuthError (List UInt8) :=
  match crypto.hmac key data with
  | some tag => .ok tag
  | none => .error .cryptoInitialization

def deriveSigningKey (secretKey date region service : List Char) :
    Except AuthError (List UInt8) := do
  let dateKey ← hmacSha256 crypto (Utf8.encode ("AWS4".toList ++ secretKey)) (Utf8.encode date)
  let dateRegionKey ← hmacSha256 crypto dateKey (Utf8.encode region)
  let dateRegionServiceKey ← hmacSha256 crypto dateRegionKey (Utf8.encode service)
  hmacSha256 crypto dateRegionServiceKey (Utf8.encode "aws4_request".toList)

def computeSignature (signingKey : List UInt8) (data : List Char) :
    Except AuthError (List Char) := do
  let signature ← hmacSha256 crypto signingKey (Utf8.encode data)
  return Hex.encode signature

def hashPayload (payload : List UInt8) : List Char := Hex.encode (crypto.sha256 payload)

/-- What the attempts at a signature share. -/
structure SigningContext where
  method : List Char
  canonicalUri : List Char
  canonicalHeaders : List Char
  signedHeaders : List Char
  payloadHash : List Char
  timestamp : List Char
  credentialScope : List Char
  signingKey : List UInt8
  provided : List Char

def SigningContext.canonicalRequest (ctx : SigningContext) (query : List Char) : List Char :=
  Auth.canonicalRequest ctx.method ctx.canonicalUri query ctx.canonicalHeaders ctx.signedHeaders
    ctx.payloadHash

/-- The provided signature is the one over this query. -/
def SigningContext.signatureMatches (ctx : SigningContext) (query : List Char) :
    Except AuthError Bool := do
  let canonicalHash := hashPayload crypto (Utf8.encode (ctx.canonicalRequest query))
  let expected ← computeSignature crypto ctx.signingKey
    (buildStringToSign ctx.timestamp ctx.credentialScope canonicalHash)
  return decide (ctx.provided = expected)

/-- The raw form is tried first, and then the normalized one if it is another. -/
def SigningContext.attempt (ctx : SigningContext) (raw : List Char)
    (normalized : Except AuthError (List Char)) (fallback : Bool) : Except AuthError Bool := do
  if ← ctx.signatureMatches crypto raw then return true
  else if fallback then
    match normalized with
    | .ok normalized =>
      if normalized ≠ raw then ctx.signatureMatches crypto normalized else return false
    | .error _ => return false
  else return false

end

/-! ## Headers of a request -/

def extractHeaderValue (parts : Parts) (name : List Char) : Except AuthError (List Char) :=
  match (parts.headers.first (String.ofList name)).bind HeaderValue.toText with
  | some value => .ok value
  | none => .error (.missingHeader name)

def collectSignedHeaders (parts : Parts) (signedHeaders : List (List Char)) :
    Except AuthError (List (List Char × List Char)) :=
  signedHeaders.mapM fun name => do
    let value ← extractHeaderValue parts name
    return (name, value)

/-- Declarations of payloads that are not hashed as a whole. -/
def PAYLOAD_MARKERS : List (List Char) :=
  ["UNSIGNED-PAYLOAD".toList, "STREAMING-AWS4-HMAC-SHA256-PAYLOAD".toList,
    "STREAMING-AWS4-HMAC-SHA256-PAYLOAD-TRAILER".toList,
    "STREAMING-UNSIGNED-PAYLOAD-TRAILER".toList]

def isLowerHex (c : Char) : Bool := ('0' ≤ c && c ≤ '9') || ('a' ≤ c && c ≤ 'f')

def validatedPayloadHash (parts : Parts) (actual : List Char) (allowUnsigned : Bool) :
    Except AuthError (List Char) :=
  match parts.headers.getAll "x-amz-content-sha256" with
  | [] => .ok actual
  | [value] =>
    match value.toText with
    | none => .error .invalidPayloadHash
    | some declared =>
      if allowUnsigned && PAYLOAD_MARKERS.contains declared then .ok declared
      else if declared.length ≠ 64 ∨ ¬declared.all isLowerHex ∨ declared ≠ actual then
        .error .invalidPayloadHash
      else .ok actual
  | _ => .error .invalidPayloadHash

/-- The only authorization header of a request. -/
def authorization (parts : Parts) : Except AuthError ParsedAuth :=
  match parts.headers.getAll "authorization" with
  | [] => .error .missingAuthHeader
  | [value] =>
    match value.toText with
    | none => .error .invalidAuthHeader
    | some header => parseAuthorizationHeader header
  | _ => .error .invalidAuthHeader

/-! ## Verification -/

structure AuthResult where
  accessKeyId : List Char
  region : List Char
  service : List Char
  signedHeaders : List (List Char)
  deriving DecidableEq

section
variable (crypto : Crypto)

def signingContext (parts : Parts) (credential : Credential) (signedHeaders : List (List Char))
    (secretKey timestamp payloadHash signature : List Char) : Except AuthError SigningContext := do
  let headerPairs ← collectSignedHeaders parts signedHeaders
  let signingKey ←
    deriveSigningKey crypto secretKey credential.date credential.region credential.service
  return {
    method := parts.method.text
    canonicalUri := buildCanonicalUri parts.uri.path
    canonicalHeaders := buildCanonicalHeaders headerPairs signedHeaders
    signedHeaders := buildSignedHeadersString signedHeaders
    payloadHash
    timestamp
    credentialScope := credential.scope
    signingKey
    provided := signature }

/-- Names have to be unique where the normalized form may be taken. -/
def validateFallback (query : List Char) (allowNormalizedFallback : Bool) : Except AuthError Unit :=
  if allowNormalizedFallback then validateUniqueQueryNames query else .ok ()

def verifySigv4WithPolicy (provider : CredentialProvider) (parts : Parts) (bodyHash : List Char)
    (allowUnsigned allowNormalizedFallback : Bool) : Except AuthError AuthResult := do
  validateQueryLimits parts.query
  validateFallback parts.query allowNormalizedFallback
  let payloadHash ← validatedPayloadHash parts bodyHash allowUnsigned
  let parsed ← authorization parts
  let secretKey ← provider parsed.accessKeyId
  let timestamp ← extractHeaderValue parts "x-amz-date".toList
  let ctx ← signingContext crypto parts parsed.toCredential parsed.signedHeaders secretKey timestamp
    payloadHash parsed.signature
  let verified ← ctx.attempt crypto (buildCanonicalQueryString parts.query)
    (buildCanonicalQueryStringNormalized parts.query)
    (allowNormalizedFallback && !parts.query.contains '+')
  if verified then
    return ⟨parsed.accessKeyId, parsed.region, parsed.service, parsed.signedHeaders⟩
  else throw .signatureDoesNotMatch

/-- The query is verified as it stands on the wire only. -/
def verifySigv4 (provider : CredentialProvider) (parts : Parts) (bodyHash : List Char) :
    Except AuthError AuthResult :=
  verifySigv4WithPolicy crypto provider parts bodyHash false false

def verifyS3Sigv4 (provider : CredentialProvider) (parts : Parts) (bodyHash : List Char) :
    Except AuthError AuthResult :=
  verifySigv4WithPolicy crypto provider parts bodyHash true true

end

/-! ## What an accepted signature is taken over -/

section
variable {crypto : Crypto}

theorem hmacSha256_eq_ok_iff {key data tag : List UInt8} :
    hmacSha256 crypto key data = .ok tag ↔ crypto.hmac key data = some tag := by
  unfold hmacSha256
  cases crypto.hmac key data <;> simp

/-- One signature under one key is the signature of one text. -/
theorem computeSignature_inj (ideal : crypto.Ideal) {key : List UInt8}
    {text text' signature : List Char} (h : computeSignature crypto key text = .ok signature)
    (h' : computeSignature crypto key text' = .ok signature) : text = text' := by
  obtain ⟨tag, htag, h⟩ := bind_eq_ok.mp h
  obtain ⟨tag', htag', h'⟩ := bind_eq_ok.mp h'
  have hhex : Hex.encode tag = signature := Except.ok.inj h
  have hhex' : Hex.encode tag' = signature := Except.ok.inj h'
  obtain rfl := Hex.encode_injective (hhex.trans hhex'.symm)
  rw [hmacSha256_eq_ok_iff] at htag htag'
  exact Utf8.encode_injective (ideal.hmac key _ _ tag htag htag')

theorem hashPayload_injective (ideal : crypto.Ideal) : Function.Injective (hashPayload crypto) :=
  Hex.encode_injective.comp ideal.sha256

theorem signatureMatches_eq_true_iff {ctx : SigningContext} {query : List Char} :
    ctx.signatureMatches crypto query = .ok true ↔
      computeSignature crypto ctx.signingKey (buildStringToSign ctx.timestamp ctx.credentialScope
        (hashPayload crypto (Utf8.encode (ctx.canonicalRequest query)))) = .ok ctx.provided := by
  unfold SigningContext.signatureMatches
  constructor
  · intro h
    obtain ⟨expected, hexpected, h⟩ := bind_eq_ok.mp h
    rw [hexpected, of_decide_eq_true (Except.ok.inj h)]
  · intro h
    dsimp only
    rw [h]
    exact congrArg Except.ok (decide_eq_true rfl)

/-- Two requests under the same key, date and scope with one signature have one text. -/
theorem canonicalRequest_eq (ideal : crypto.Ideal) {ctx ctx' : SigningContext}
    {query query' : List Char} (htimestamp : ctx.timestamp = ctx'.timestamp)
    (hscope : ctx.credentialScope = ctx'.credentialScope)
    (hkey : ctx.signingKey = ctx'.signingKey) (hprovided : ctx.provided = ctx'.provided)
    (h : ctx.signatureMatches crypto query = .ok true)
    (h' : ctx'.signatureMatches crypto query' = .ok true) :
    ctx.canonicalRequest query = ctx'.canonicalRequest query' := by
  rw [signatureMatches_eq_true_iff] at h h'
  rw [htimestamp, hscope, hkey, hprovided] at h
  have htext := computeSignature_inj ideal h h'
  simp only [buildStringToSign, append_cancel_left_eq, cons.injEq, true_and] at htext
  exact Utf8.encode_injective (hashPayload_injective ideal htext)

/-- A request is accepted with one of the two forms of its query. -/
theorem attempt_eq_true {ctx : SigningContext} {raw : List Char}
    {normalized : Except AuthError (List Char)} {fallback : Bool}
    (h : ctx.attempt crypto raw normalized fallback = .ok true) :
    ∃ query, (query = raw ∨ fallback = true ∧ normalized = .ok query) ∧
      ctx.signatureMatches crypto query = .ok true := by
  obtain ⟨first, hfirst, h⟩ := bind_eq_ok.mp h
  cases first with
  | true => exact ⟨raw, .inl rfl, hfirst⟩
  | false =>
      cases fallback with
      | false => cases h
      | true =>
          cases hnormalized : normalized with
          | error e =>
              rw [hnormalized] at h
              cases h
          | ok query =>
              rw [hnormalized] at h
              simp only [Bool.false_eq_true, if_false, if_true] at h
              split at h
              · exact ⟨query, .inr ⟨rfl, rfl⟩, h⟩
              · cases h

theorem signingContext_eq_ok {parts : Parts} {credential : Credential}
    {signedHeaders : List (List Char)} {secretKey timestamp payloadHash signature : List Char}
    {ctx : SigningContext} (h : signingContext crypto parts credential signedHeaders secretKey
      timestamp payloadHash signature = .ok ctx) :
    ∃ headerPairs signingKey, collectSignedHeaders parts signedHeaders = .ok headerPairs ∧
      deriveSigningKey crypto secretKey credential.date credential.region credential.service =
        .ok signingKey ∧
      ctx = {
        method := parts.method.text
        canonicalUri := buildCanonicalUri parts.uri.path
        canonicalHeaders := buildCanonicalHeaders headerPairs signedHeaders
        signedHeaders := buildSignedHeadersString signedHeaders
        payloadHash
        timestamp
        credentialScope := credential.scope
        signingKey
        provided := signature } := by
  obtain ⟨headerPairs, hpairs, h⟩ := bind_eq_ok.mp h
  obtain ⟨signingKey, hkey, h⟩ := bind_eq_ok.mp h
  exact ⟨headerPairs, signingKey, hpairs, hkey, (Except.ok.inj h).symm⟩

/-- What holds of a request that is accepted. -/
structure Accepted (crypto : Crypto) (provider : CredentialProvider) (parts : Parts)
    (bodyHash : List Char) (allowUnsigned allowNormalizedFallback : Bool) (result : AuthResult)
    (parsed : ParsedAuth) (ctx : SigningContext) (query : List Char) : Prop where
  unique : allowNormalizedFallback = true → UniqueNames parts.query
  payload : validatedPayloadHash parts bodyHash allowUnsigned = .ok ctx.payloadHash
  authorization : authorization parts = .ok parsed
  timestamp : extractHeaderValue parts "x-amz-date".toList = .ok ctx.timestamp
  context : ∃ secretKey, provider parsed.accessKeyId = .ok secretKey ∧
    signingContext crypto parts parsed.toCredential parsed.signedHeaders secretKey ctx.timestamp
      ctx.payloadHash parsed.signature = .ok ctx
  form : query = buildCanonicalQueryString parts.query ∨
    allowNormalizedFallback = true ∧ buildCanonicalQueryStringNormalized parts.query = .ok query
  verified : ctx.signatureMatches crypto query = .ok true
  result : result = ⟨parsed.accessKeyId, parsed.region, parsed.service, parsed.signedHeaders⟩

theorem exists_accepted {provider : CredentialProvider} {parts : Parts} {bodyHash : List Char}
    {allowUnsigned allowNormalizedFallback : Bool} {result : AuthResult}
    (h : verifySigv4WithPolicy crypto provider parts bodyHash allowUnsigned
      allowNormalizedFallback = .ok result) :
    ∃ parsed ctx query, Accepted crypto provider parts bodyHash allowUnsigned
      allowNormalizedFallback result parsed ctx query := by
  obtain ⟨_, -, h⟩ := bind_eq_ok.mp h
  obtain ⟨_, hunique, h⟩ := bind_eq_ok.mp h
  obtain ⟨payloadHash, hpayload, h⟩ := bind_eq_ok.mp h
  obtain ⟨parsed, hparsed, h⟩ := bind_eq_ok.mp h
  obtain ⟨secretKey, hsecret, h⟩ := bind_eq_ok.mp h
  obtain ⟨timestamp, htimestamp, h⟩ := bind_eq_ok.mp h
  obtain ⟨ctx, hctx, h⟩ := bind_eq_ok.mp h
  obtain ⟨verified, hverified, h⟩ := bind_eq_ok.mp h
  cases verified with
  | false => cases h
  | true =>
      obtain ⟨query, hform, hmatch⟩ := attempt_eq_true hverified
      obtain ⟨_, _, -, -, hfields⟩ := signingContext_eq_ok hctx
      have htime : ctx.timestamp = timestamp := by rw [hfields]
      have hhash : ctx.payloadHash = payloadHash := by rw [hfields]
      refine ⟨parsed, ctx, query, ?_, ?_, hparsed, ?_, ⟨secretKey, hsecret, ?_⟩, ?_, hmatch,
        (Except.ok.inj h).symm⟩
      · intro hallow
        rw [validateFallback, if_pos hallow] at hunique
        exact uniqueNames_of_validate hunique
      · rw [hhash]
        exact hpayload
      · rw [htime]
        exact htimestamp
      · rw [htime, hhash]
        exact hctx
      · refine hform.imp id fun hnormalized => ⟨?_, hnormalized.2⟩
        rw [Bool.and_eq_true] at hnormalized
        exact hnormalized.1.1

theorem newline_not_mem_form {parts : Parts} {query : List Char}
    (h : query = buildCanonicalQueryString parts.query ∨
      buildCanonicalQueryStringNormalized parts.query = .ok query) : '\n' ∉ query := by
  rcases h with rfl | h
  · exact newline_not_mem_raw parts.newline_not_mem_query
  · exact newline_not_mem_normalized h

end

/-! ## A hash and a MAC from tables -/

section
variable {α : Type} [DecidableEq α]

/-- The value of a table, or else one that is longer than those. -/
def tableValue (table : List (α × List UInt8)) (longer : α → List UInt8) (a : α) : List UInt8 :=
  match table.find? fun e => e.1 == a with
  | some e => e.2
  | none => longer a

/-- The values are different digests of 32 bytes. -/
structure Digests (table : List (α × List UInt8)) : Prop where
  length : ∀ e ∈ table, e.2.length = 32
  nodup : (table.map Prod.snd).Nodup

instance (table : List (α × List UInt8)) : Decidable (Digests table) :=
  decidable_of_iff ((∀ e ∈ table, e.2.length = 32) ∧ (table.map Prod.snd).Nodup)
    ⟨fun h => ⟨h.1, h.2⟩, fun h => ⟨h.length, h.nodup⟩⟩

theorem tableValue_cases {table : List (α × List UInt8)} {longer : α → List UInt8} (a : α) :
    (∃ e ∈ table, e.1 = a ∧ tableValue table longer a = e.2) ∨
      tableValue table longer a = longer a := by
  unfold tableValue
  cases hfind : table.find? fun e => e.1 == a with
  | none => exact .inr rfl
  | some e =>
      have hkey := find?_some hfind
      rw [beq_iff_eq] at hkey
      exact .inl ⟨e, mem_of_find?_eq_some hfind, hkey, rfl⟩

theorem tableValue_inj {table : List (α × List UInt8)} {longer : α → List UInt8}
    (h : Digests table) (hlonger : ∀ a, 32 < (longer a).length) {a a' : α}
    (heq : tableValue table longer a = tableValue table longer a') :
    a = a' ∨ longer a = longer a' := by
  have hlength : ∀ e ∈ table, ∀ a, e.2 ≠ longer a := by
    intro e he a heq
    have hlong := hlonger a
    rw [← heq, h.length e he] at hlong
    exact lt_irrefl _ hlong
  have hcases : ∀ a, _ := fun a => @tableValue_cases _ _ table longer a
  rcases hcases a with ⟨e, he, hkey, hvalue⟩ | hvalue <;>
  rcases hcases a' with ⟨e', he', hkey', hvalue'⟩ | hvalue' <;>
  rw [hvalue, hvalue'] at heq
  · have hsame : e = e' := inj_on_of_nodup_map h.nodup he he' heq
    rw [← hkey, ← hkey', hsame]
    exact .inl rfl
  · exact absurd heq (hlength e he a')
  · exact absurd heq.symm (hlength e' he' a)
  · exact .inr heq

end

/-- The last bytes of a number, the highest first. -/
def beBytes : ℕ → ℕ → List UInt8
  | 0, _ => []
  | count + 1, n => beBytes count (n / 256) ++ [UInt8.ofNat (n % 256)]

/-- A text with so many bytes behind it that it is no digest. -/
def longText (text : List UInt8) : List UInt8 := text ++ List.replicate 33 0

theorem length_longText (text : List UInt8) : 32 < (longText text).length := by
  rw [longText, length_append, length_replicate]
  omega

/-- A key and a text with so many bytes behind them that they are no digest. -/
def longPair (pair : List UInt8 × List UInt8) : List UInt8 :=
  pair.1.flatMap (fun b => [1, b]) ++ 0 :: longText pair.2

theorem longPair_injective : Function.Injective longPair := by
  rintro ⟨key, text⟩ ⟨key', text'⟩ h
  unfold longPair at h
  dsimp only at h
  induction key generalizing key' with
  | nil =>
      cases key' with
      | nil =>
          have htext := append_cancel_right (cons.inj h).2
          rw [htext]
      | cons b key' => exact absurd (cons.inj h).1 (by decide)
  | cons b key ih =>
      cases key' with
      | nil => exact absurd (cons.inj h).1 (by decide)
      | cons b' key' =>
          obtain ⟨hb, hrest⟩ := cons.inj (cons.inj h).2
          have hpair := ih key' hrest
          rw [Prod.mk.injEq] at hpair ⊢
          rw [hb, hpair.1]
          exact ⟨rfl, hpair.2⟩

theorem length_longPair (pair : List UInt8 × List UInt8) : 32 < (longPair pair).length := by
  have hlong := length_longText pair.2
  rw [longPair, length_append, length_cons]
  omega

/-- A hash and a MAC that are known for some texts, and for all others something long. -/
def Crypto.ofTables (hashes : List (List UInt8 × List UInt8))
    (macs : List ((List UInt8 × List UInt8) × List UInt8)) : Crypto where
  sha256 := tableValue hashes longText
  hmac key text := some (tableValue macs longPair (key, text))

theorem Crypto.keyedIdeal_ofTables {hashes : List (List UInt8 × List UInt8)}
    {macs : List ((List UInt8 × List UInt8) × List UInt8)} (hhashes : Digests hashes)
    (hmacs : Digests macs) : (Crypto.ofTables hashes macs).KeyedIdeal where
  sha256 text text' h := by
    rcases tableValue_inj hhashes length_longText h with heq | heq
    · exact heq
    · exact append_cancel_right heq
  hmac {key key' text text' tag} h h' := by
    have hvalue := (Option.some.inj h).trans (Option.some.inj h').symm
    have hpair : (key, text) = (key', text') := by
      rcases tableValue_inj hmacs length_longPair hvalue with heq | heq
      · exact heq
      · exact longPair_injective heq
    exact Prod.mk.inj hpair

end Rustack.Auth
