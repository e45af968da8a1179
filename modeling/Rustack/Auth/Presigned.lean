import Rustack.Auth.Sigv4
import Rustack.Lib.Decimal

/-!
# Presigned URLs

The authentication of a presigned URL stands in its query, under names that start with `X-Amz-`.
Such a name has to appear literally and once.  The signature is taken over the query without
itself, in the raw or in the normalized form.
-/

namespace Rustack.Auth

open Http (Parts)
open List
open Except (bind_eq_ok)

def UNSIGNED_PAYLOAD : List Char := "UNSIGNED-PAYLOAD".toList

structure ParsedPresignedParams extends Credential where
  algorithm : List Char
  timestamp : List Char
  expires : ℕ
  signedHeaders : List (List Char)
  signature : List Char
  deriving DecidableEq

/-! ## The authentication parameters -/

def AUTH_PREFIX : List Char := "X-Amz-".toList

/-- The decoded parameters, the newest first, and the names seen. -/
structure AuthParams where
  params : List Param
  seenAuthParams : List (List Char)

/-- Put a name into the set, if it is one of an authentication parameter. -/
def seeName (seen : List (List Char)) (key : List Char) : Except AuthError (List (List Char)) :=
  match Utf8.decode? (percentDecode key) with
  | none => .ok seen
  | some name =>
    if AUTH_PREFIX.isPrefixOf name then
      if name ≠ key ∨ seen.contains name then .error (.invalidAuthParam name)
      else .ok (name :: seen)
    else .ok seen

def insertParam (params : List Param) (key value : List Char) : Except AuthError (List Param) :=
  if AUTH_PREFIX.isPrefixOf key then
    match Utf8.decode? (percentDecode value) with
    | none => .error (.invalidAuthParam key)
    | some decoded => .ok ((key, decoded) :: params)
  else .ok params

/-- One turn of the loop; a component without `=` is passed over. -/
def AuthParams.read (state : AuthParams) (component : List Char) : Except AuthError AuthParams :=
  match Text.splitOnce '=' component with
  | none => .ok state
  | some (key, value) => do
    let seen ← seeName state.seenAuthParams key
    let params ← insertParam state.params key value
    return ⟨params, seen⟩

def getRequiredParam (params : List Param) (name : List Char) : Except AuthError (List Char) :=
  match params.find? fun p => p.1 == name with
  | some p => .ok p.2
  | none => .error (.missingQueryParam name)

/-- One more than the largest `u64`. -/
def U64_BOUND : ℕ := 18446744073709551616

def parseExpires (text : List Char) : Except AuthError ℕ :=
  match Decimal.parse U64_BOUND (String.ofList text) with
  | .ok expires => .ok expires
  | .error _ => .error (.missingQueryParam "X-Amz-Expires (invalid integer)".toList)

def checkAlgorithm (algorithm : List Char) : Except AuthError Unit :=
  if algorithm ≠ SUPPORTED_ALGORITHM then .error (.unsupportedAlgorithm algorithm) else .ok ()

def parsePresignedParams (query : List Char) : Except AuthError ParsedPresignedParams := do
  validateQueryLimits query
  let state ← (components query).foldlM AuthParams.read ⟨[], []⟩
  let algorithm ← getRequiredParam state.params "X-Amz-Algorithm".toList
  checkAlgorithm algorithm
  let credential ← getRequiredParam state.params "X-Amz-Credential".toList
  let timestamp ← getRequiredParam state.params "X-Amz-Date".toList
  let expiresStr ← getRequiredParam state.params "X-Amz-Expires".toList
  let signedHeadersStr ← getRequiredParam state.params "X-Amz-SignedHeaders".toList
  let signature ← getRequiredParam state.params "X-Amz-Signature".toList
  let c ← parseCredential credential
  let expires ← parseExpires expiresStr
  return {
    toCredential := c
    algorithm
    timestamp
    expires
    signedHeaders := signedHeadersStr.splitOn ';'
    signature }

/-! ## Verification -/

/-- Reading of a date, adding seconds to it, and the present moment. -/
structure Clock where
  parse : List Char → Option ℤ
  checkedAdd : ℤ → ℕ → Option ℤ
  now : ℤ

def checkExpiration (clock : Clock) (timestamp : List Char) (expires : ℕ) :
    Except AuthError Unit :=
  match clock.parse timestamp with
  | none => .error (.missingQueryParam "X-Amz-Date (invalid format)".toList)
  | some requestTime =>
    if expires < 1 ∨ 604800 < expires then .error (.invalidAuthParam "X-Amz-Expires".toList)
    else
      match clock.checkedAdd requestTime expires with
      | none => .error (.invalidAuthParam "X-Amz-Expires".toList)
      | some expiryTime => if expiryTime < clock.now then .error .requestExpired else .ok ()

def SIGNATURE_PARAM : List Char := "X-Amz-Signature=".toList

/-- The query without the signature. -/
def filterSignatureParam (query : List Char) : List Char :=
  ['&'].intercalate ((query.splitOn '&').filter fun p => !SIGNATURE_PARAM.isPrefixOf p)

def verifyPresigned (crypto : Crypto) (clock : Clock) (provider : CredentialProvider)
    (parts : Parts) : Except AuthError AuthResult := do
  let parsed ← parsePresignedParams parts.query
  validateUniqueQueryNames parts.query
  checkExpiration clock parsed.timestamp parsed.expires
  let secretKey ← provider parsed.accessKeyId
  let ctx ← signingContext crypto parts parsed.toCredential parsed.signedHeaders secretKey
    parsed.timestamp UNSIGNED_PAYLOAD parsed.signature
  let verified ← ctx.attempt crypto (buildCanonicalQueryString (filterSignatureParam parts.query))
    (buildCanonicalQueryStringNormalized (filterSignatureParam parts.query))
    (!parts.query.contains '+')
  if verified then
    return ⟨parsed.accessKeyId, parsed.region, parsed.service, parsed.signedHeaders⟩
  else throw .signatureDoesNotMatch

/-! ## The query without the signature -/

def SIGNATURE_NAME : List Char := "X-Amz-Signature".toList

theorem components_filterSignatureParam (query : List Char) :
    components (filterSignatureParam query) =
      (components query).filter fun p => !SIGNATURE_PARAM.isPrefixOf p := by
  unfold components filterSignatureParam
  rw [filter_comm]
  cases hrest : (query.splitOn '&').filter fun p => !SIGNATURE_PARAM.isPrefixOf p with
  | nil => rfl
  | cons first more =>
      rw [splitOn_intercalate _ _ (cons_ne_nil _ _)]
      intro piece hpiece
      rw [← hrest] at hpiece
      exact Text.not_mem_of_mem_splitOn (mem_of_mem_filter hpiece)

theorem isPrefixOf_signature_iff (component : List Char) :
    SIGNATURE_PARAM.isPrefixOf component = true ↔
      ∃ value, component = SIGNATURE_NAME ++ '=' :: value := by
  rw [ isPrefixOf_iff_prefix]
  have hparam : SIGNATURE_PARAM = SIGNATURE_NAME ++ ['='] := by decide
  rw [hparam]
  constructor
  · rintro ⟨value, rfl⟩
    exact ⟨value, by simp⟩
  · rintro ⟨value, rfl⟩
    exact ⟨value, by simp⟩

theorem decodedParams_filter_sublist (query : List Char) :
    (decodedParams (filterSignatureParam query)).Sublist (decodedParams query) := by
  unfold decodedParams params
  rw [components_filterSignatureParam]
  exact (filter_sublist.map _).map _

/-- Every parameter but the signature is kept. -/
theorem mem_decodedParams_filter {query : List Char} {p : List UInt8 × List UInt8}
    (hname : p.1 ≠ Utf8.encode SIGNATURE_NAME) (h : p ∈ decodedParams query) :
    p ∈ decodedParams (filterSignatureParam query) := by
  obtain ⟨param, hparam, rfl⟩ := mem_map.mp h
  obtain ⟨component, hcomponent, rfl⟩ := mem_map.mp hparam
  apply mem_map_of_mem
  apply mem_map_of_mem
  rw [components_filterSignatureParam, mem_filter, Bool.not_eq_true', Bool.eq_false_iff,
    ne_eq, isPrefixOf_signature_iff]
  refine ⟨hcomponent, ?_⟩
  rintro ⟨value, rfl⟩
  have heq : '=' ∉ SIGNATURE_NAME := by decide
  have hsplit : nameValue (SIGNATURE_NAME ++ '=' :: value) = (SIGNATURE_NAME, value) :=
    nameValue_text (p := (SIGNATURE_NAME, value)) heq
  rw [hsplit] at hname
  have hdecode : percentDecode SIGNATURE_NAME = Utf8.encode SIGNATURE_NAME := by decide
  exact hname hdecode

theorem UniqueNames.filter {query : List Char} (h : UniqueNames query) :
    UniqueNames (filterSignatureParam query) :=
  h.sublist ((decodedParams_filter_sublist query).map _)

/-- Without the signature, every other name has the value it had. -/
theorem queryMap_filterSignatureParam {query : List Char} (h : UniqueNames query)
    {name : List UInt8} (hname : name ≠ Utf8.encode SIGNATURE_NAME) :
    queryMap (filterSignatureParam query) name = queryMap query name := by
  apply Option.ext
  intro value
  rw [queryMap_eq_some_iff h.filter, queryMap_eq_some_iff h]
  exact ⟨fun hmem => (decodedParams_filter_sublist query).subset hmem,
    mem_decodedParams_filter hname⟩

theorem newline_not_mem_filter {query : List Char} (h : '\n' ∉ query) :
    '\n' ∉ filterSignatureParam query := by
  apply Text.not_mem_intercalate (by decide)
  intro piece hpiece hmem
  exact h (Text.mem_of_mem_splitOn (mem_of_mem_filter hpiece) hmem)

/-! ## What is extracted -/

/-- Every decoded parameter stands in the query. -/
def AuthParams.From (state : AuthParams) (query : List Char) : Prop :=
  ∀ p ∈ state.params, (percentDecode p.1, Utf8.encode p.2) ∈ decodedParams query

theorem AuthParams.From.read {state state' : AuthParams} {query component : List Char}
    (hfrom : state.From query) (hcomponent : component ∈ components query)
    (h : state.read component = .ok state') : state'.From query := by
  unfold AuthParams.read at h
  split at h
  · cases h
    exact hfrom
  · next key value hsplit =>
      obtain ⟨_, -, h⟩ := bind_eq_ok.mp h
      obtain ⟨params', hparams, h⟩ := bind_eq_ok.mp h
      cases h
      unfold insertParam at hparams
      split at hparams
      · split at hparams
        · cases hparams
        · next decoded hdecode =>
            cases hparams
            refine forall_mem_cons.mpr ⟨?_, hfrom⟩
            have hname : nameValue component = (key, value) := by
              rw [nameValue, hsplit]
              rfl
            rw [Utf8.decode?_eq_some_iff.mp hdecode]
            exact mem_map.mpr ⟨(key, value), mem_map.mpr ⟨component, hcomponent, hname⟩,
              rfl⟩
      · cases hparams
        exact hfrom

theorem mem_of_getRequiredParam {params : List Param} {name value : List Char}
    (h : getRequiredParam params name = .ok value) : (name, value) ∈ params := by
  unfold getRequiredParam at h
  split at h
  · next p hfind =>
      have hmem := mem_of_find?_eq_some hfind
      have hname := find?_some hfind
      rw [beq_iff_eq] at hname
      rw [← hname, ← Except.ok.inj h]
      exact hmem
  · cases h

/-- In a query with unique names, a name has a value. -/
def Holds (query name value : List Char) : Prop :=
  queryMap query (Utf8.encode name) = some (Utf8.encode value)

def Credential.text (c : Credential) : List Char :=
  ['/'].intercalate [c.accessKeyId, c.date, c.region, c.service, "aws4_request".toList]

/-- The query says, each under a name that stands in it once, what was extracted. -/
structure ParsedPresignedParams.ReadFrom (parsed : ParsedPresignedParams) (query : List Char) :
    Prop where
  unique : UniqueNames query
  algorithm : Holds query "X-Amz-Algorithm".toList parsed.algorithm
  credential : Holds query "X-Amz-Credential".toList parsed.text
  date : Holds query "X-Amz-Date".toList parsed.timestamp
  expires : ∃ text, Holds query "X-Amz-Expires".toList text ∧ parseExpires text = .ok parsed.expires
  signedHeaders : Holds query "X-Amz-SignedHeaders".toList ([';'].intercalate parsed.signedHeaders)

theorem parseCredential_text {credential : List Char} {c : Credential}
    (h : parseCredential credential = .ok c) : c.text = credential := by
  unfold parseCredential at h
  split at h
  · next accessKeyId date region service terminator hsplit =>
      split at h
      · next hterminator =>
          cases h
          rw [Credential.text, ← hterminator, ← hsplit]
          exact Text.intercalate_splitN 4 credential
      · cases h
  · cases h

theorem readFrom_of_parse {query : List Char} {parsed : ParsedPresignedParams}
    (hunique : UniqueNames query) (h : parsePresignedParams query = .ok parsed) :
    parsed.ReadFrom query := by
  obtain ⟨_, -, h⟩ := bind_eq_ok.mp h
  obtain ⟨state, hstate, h⟩ := bind_eq_ok.mp h
  obtain ⟨algorithm, halgorithm, h⟩ := bind_eq_ok.mp h
  obtain ⟨_, -, h⟩ := bind_eq_ok.mp h
  obtain ⟨credential, hcredential, h⟩ := bind_eq_ok.mp h
  obtain ⟨timestamp, htimestamp, h⟩ := bind_eq_ok.mp h
  obtain ⟨expiresStr, hexpires, h⟩ := bind_eq_ok.mp h
  obtain ⟨signedHeadersStr, hsigned, h⟩ := bind_eq_ok.mp h
  obtain ⟨signature, -, h⟩ := bind_eq_ok.mp h
  obtain ⟨c, hc, h⟩ := bind_eq_ok.mp h
  obtain ⟨expires, hparse, h⟩ := bind_eq_ok.mp h
  cases h
  have hfrom : state.From query :=
    Outcome.foldlM_invariant (I := fun s => s.From query)
      (fun _ _ _ hmem hfrom hread => hfrom.read hmem hread)
      (fun _ hp => absurd hp not_mem_nil) hstate
  have hholds : ∀ {name value : List Char}, percentDecode name = Utf8.encode name →
      getRequiredParam state.params name = .ok value → Holds query name value := by
    intro name value hname hvalue
    have hmem := hfrom _ (mem_of_getRequiredParam hvalue)
    rw [hname] at hmem
    exact (queryMap_eq_some_iff hunique).mpr hmem
  refine ⟨hunique, hholds (by decide) halgorithm, ?_, hholds (by decide) htimestamp,
    ⟨expiresStr, hholds (by decide) hexpires, hparse⟩, ?_⟩
  · rw [show ParsedPresignedParams.toCredential _ = c from rfl, parseCredential_text hc]
    exact hholds (by decide) hcredential
  · rw [intercalate_splitOn]
    exact hholds (by decide) hsigned

/-- The same can be read from every query with the same parameters besides the signature. -/
theorem ParsedPresignedParams.ReadFrom.congr {parsed : ParsedPresignedParams}
    {query query' : List Char} (h : parsed.ReadFrom query)
    (hperm : (decodedParams query').Perm (decodedParams (filterSignatureParam query))) :
    parsed.ReadFrom query' := by
  have hunique : UniqueNames query' := (hperm.map Prod.fst).nodup_iff.mpr h.unique.filter
  have hholds : ∀ {name value : List Char}, name ≠ SIGNATURE_NAME → Holds query name value →
      Holds query' name value := by
    intro name value hname hvalue
    have hne : Utf8.encode name ≠ Utf8.encode SIGNATURE_NAME := fun heq =>
      hname (Utf8.encode_injective heq)
    unfold Holds
    rw [queryMap_congr hunique hperm, queryMap_filterSignatureParam h.unique hne]
    exact hvalue
  obtain ⟨text, htext, hparse⟩ := h.expires
  exact ⟨hunique, hholds (by decide) h.algorithm, hholds (by decide) h.credential,
    hholds (by decide) h.date, ⟨text, hholds (by decide) htext, hparse⟩,
    hholds (by decide) h.signedHeaders⟩

/-- What holds of a presigned request that is accepted. -/
structure Presigned (crypto : Crypto) (provider : CredentialProvider) (parts : Parts)
    (parsed : ParsedPresignedParams) (ctx : SigningContext) (query : List Char) : Prop where
  unique : UniqueNames parts.query
  context : ∃ secretKey, provider parsed.accessKeyId = .ok secretKey ∧
    signingContext crypto parts parsed.toCredential parsed.signedHeaders secretKey
      parsed.timestamp UNSIGNED_PAYLOAD parsed.signature = .ok ctx
  form : query = buildCanonicalQueryString (filterSignatureParam parts.query) ∨
    buildCanonicalQueryStringNormalized (filterSignatureParam parts.query) = .ok query
  verified : ctx.signatureMatches crypto query = .ok true

theorem exists_presigned {crypto : Crypto} {clock : Clock} {provider : CredentialProvider}
    {parts : Parts} {result : AuthResult} {parsed : ParsedPresignedParams}
    (hparse : parsePresignedParams parts.query = .ok parsed)
    (h : verifyPresigned crypto clock provider parts = .ok result) :
    ∃ ctx query, Presigned crypto provider parts parsed ctx query := by
  obtain ⟨_, hparse', h⟩ := bind_eq_ok.mp h
  obtain rfl := Except.ok.inj (hparse.symm.trans hparse')
  obtain ⟨_, hunique, h⟩ := bind_eq_ok.mp h
  obtain ⟨_, -, h⟩ := bind_eq_ok.mp h
  obtain ⟨secretKey, hsecret, h⟩ := bind_eq_ok.mp h
  obtain ⟨ctx, hctx, h⟩ := bind_eq_ok.mp h
  obtain ⟨verified, hverified, h⟩ := bind_eq_ok.mp h
  cases verified with
  | false => cases h
  | true =>
      obtain ⟨query, hform, hmatch⟩ := attempt_eq_true hverified
      exact ⟨ctx, query, uniqueNames_of_validate hunique, ⟨secretKey, hsecret, hctx⟩,
        hform.imp id And.right, hmatch⟩

theorem Presigned.perm {crypto : Crypto} {provider : CredentialProvider} {parts : Parts}
    {parsed : ParsedPresignedParams} {ctx : SigningContext} {query : List Char}
    (h : Presigned crypto provider parts parsed ctx query) :
    (decodedParams query).Perm (decodedParams (filterSignatureParam parts.query)) := by
  rcases h.form with rfl | hform
  · exact decodedParams_raw _
  · exact decodedParams_normalized hform

theorem Presigned.newline {crypto : Crypto} {provider : CredentialProvider} {parts : Parts}
    {parsed : ParsedPresignedParams} {ctx : SigningContext} {query : List Char}
    (h : Presigned crypto provider parts parsed ctx query) : '\n' ∉ query := by
  rcases h.form with rfl | hform
  · exact newline_not_mem_raw (newline_not_mem_filter parts.newline_not_mem_query)
  · exact newline_not_mem_normalized hform

end Rustack.Auth
