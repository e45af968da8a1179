import Mathlib.Data.List.Sort
import Rustack.DynamoDB.Number
import Rustack.Lib.Fields
import Rustack.Lib.Outcome
import Rustack.Lib.Percent
import Rustack.Lib.SortedMap
import Rustack.Lib.Text

/-!
# Canonical requests

What a signature is taken over: the method, the path, the query, the signed headers and the hash
of the payload, one below the other.  The query has two canonical forms.  The raw one sorts the
parameters as they stand on the wire; the normalized one decodes each name and value and encodes
it again.  Both hold the same parameters, once these are decoded.
-/

namespace Rustack.Auth

open DynamoDB (isWhitespace trim)
open List

inductive AuthError where
  | cryptoInitialization
  | invalidPayloadHash
  | missingAuthHeader
  | invalidAuthHeader
  | unsupportedAlgorithm (algorithm : List Char)
  | missingHeader (name : List Char)
  | invalidCredential
  | accessKeyNotFound (key : List Char)
  | signatureDoesNotMatch
  | requestExpired
  | missingQueryParam (name : List Char)
  | invalidAuthParam (name : List Char)
  | invalidQueryString
  deriving DecidableEq

/-- What an error says. -/
def AuthError.message : AuthError → String
  | cryptoInitialization => "Cryptographic initialization failed"
  | invalidPayloadHash => "Invalid or mismatching payload SHA256"
  | missingAuthHeader => "Missing Authorization header"
  | invalidAuthHeader => "Invalid Authorization header format"
  | unsupportedAlgorithm algorithm => "Unsupported algorithm: " ++ String.ofList algorithm
  | missingHeader name => "Missing required header: " ++ String.ofList name
  | invalidCredential => "Invalid credential format"
  | accessKeyNotFound key => "Access key not found: " ++ String.ofList key
  | signatureDoesNotMatch => "Signature does not match"
  | requestExpired => "Request has expired"
  | missingQueryParam name => "Missing required query parameter: " ++ String.ofList name
  | invalidAuthParam name => "Invalid presigned authentication parameter: " ++ String.ofList name
  | invalidQueryString =>
    "Invalid query string: exceeds limits or contains ambiguous parameters"

/-- The bytes that are not percent-encoded: letters, digits and `-`, `_`, `.`, `~`. -/
def isUnreserved (b : UInt8) : Bool :=
  (48 ≤ b && b ≤ 57) || (65 ≤ b && b ≤ 90) || (97 ≤ b && b ≤ 122) || b == 45 || b == 95 ||
    b == 46 || b == 126

def sigv4Encode (input : List Char) : List Char :=
  Percent.encode isUnreserved (Utf8.encode input)

def percentDecode (input : List Char) : List UInt8 := Percent.decode (Utf8.encode input)

/-! ## The path -/

/-- A segment is decoded and encoded again, with U+FFFD for what is not text. -/
def canonicalSegment (segment : List Char) : List Char :=
  sigv4Encode (Utf8.decodeLossy (percentDecode segment))

def buildCanonicalUri (path : List Char) : List Char :=
  if path = [] ∨ path = ['/'] then ['/']
  else ['/'].intercalate ((path.splitOn '/').map canonicalSegment)

/-! ## The query -/

abbrev Param := List Char × List Char

def components (query : List Char) : List (List Char) :=
  (query.splitOn '&').filter (· ≠ [])

def nameValue (component : List Char) : Param :=
  (Text.splitOnce '=' component).getD (component, [])

def params (query : List Char) : List Param := (components query).map nameValue

def Param.le (p q : Param) : Bool :=
  decide (p.1 < q.1) || (p.1 == q.1 && !decide (q.2 < p.2))

def Param.text (p : Param) : List Char := p.1 ++ '=' :: p.2

/-- The parameters in order, with `&` between them. -/
def joinSorted (ps : List Param) : List Char :=
  ['&'].intercalate ((ps.insertionSort fun p q => p.le q = true).map Param.text)

def buildCanonicalQueryString (query : List Char) : List Char :=
  if query.isEmpty then [] else joinSorted (params query)

def MAX_QUERY_PARAMS : ℕ := 1024

def MAX_QUERY_BYTES : ℕ := 64 * 1024

def validateQueryLimits (query : List Char) : Except AuthError Unit :=
  if MAX_QUERY_BYTES < Text.byteLength query ∨ MAX_QUERY_PARAMS ≤ query.count '&' then
    .error .invalidQueryString
  else .ok ()

/-- Put the decoded names into a set, unless one is there already. -/
def insertNames (names : List (List Char)) : List Param → Except AuthError Unit
  | [] => .ok ()
  | p :: ps =>
    match Utf8.decode? (percentDecode p.1) with
    | none => .error .invalidQueryString
    | some decoded =>
      if decoded ∈ names then .error .invalidQueryString else insertNames (decoded :: names) ps

def validateUniqueQueryNames (query : List Char) : Except AuthError Unit := do
  validateQueryLimits query
  insertNames [] (params query)

def decodeQueryComponent (component : List Char) : Except AuthError (List Char) :=
  match Utf8.decode? (percentDecode component) with
  | none => .error .invalidQueryString
  | some decoded => .ok (sigv4Encode decoded)

def normalizeParam (p : Param) : Except AuthError Param := do
  let name ← decodeQueryComponent p.1
  let value ← decodeQueryComponent p.2
  return (name, value)

def buildCanonicalQueryStringNormalized (query : List Char) : Except AuthError (List Char) := do
  validateUniqueQueryNames query
  if query.isEmpty then return []
  else
    let ps ← (params query).mapM normalizeParam
    return joinSorted ps

/-! ## The headers -/

/-- Write one blank for every run of white space; the flag says that one has been written. -/
def collapse (isSpace : Char → Bool) : Bool → List Char → List Char
  | _, [] => []
  | prevWasSpace, c :: cs =>
    if isSpace c then
      if prevWasSpace then collapse isSpace true cs else ' ' :: collapse isSpace true cs
    else c :: collapse isSpace false cs

def collapseWhitespace (cs : List Char) : List Char := collapse isWhitespace false cs

/-- Header names are ASCII, so lower case is that of ASCII. -/
def lowerName (name : List Char) : String := String.ofList (name.map Char.toLower)

abbrev CanonicalMap := SortedMap String (List Char) compare

/-- The values of one name are joined by commas. -/
def insertHeader (headerMap : CanonicalMap) (header : List Char × List Char) : CanonicalMap :=
  let value := collapseWhitespace (trim header.2)
  match headerMap.get? (lowerName header.1) with
  | some existing => headerMap.insert (lowerName header.1) (existing ++ ',' :: value)
  | none => headerMap.insert (lowerName header.1) value

def sortNames (names : List (List Char)) : List (List Char) :=
  names.insertionSort fun x y => ¬y < x

/-- The line of a signed header, if the map has one of this very name. -/
def headerLine (headerMap : CanonicalMap) (name : List Char) : Option (List Char) :=
  (headerMap.get? (String.ofList name)).map fun value => name ++ ':' :: value

def headerLines (headers : List (List Char × List Char)) (signedHeaders : List (List Char)) :
    List (List Char) :=
  (sortNames signedHeaders).filterMap (headerLine (headers.foldl insertHeader SortedMap.empty))

def buildCanonicalHeaders (headers : List (List Char × List Char))
    (signedHeaders : List (List Char)) : List Char :=
  ['\n'].intercalate (headerLines headers signedHeaders)

def buildSignedHeadersString (signedHeaders : List (List Char)) : List Char :=
  [';'].intercalate (sortNames signedHeaders)

/-- The text of a request that is signed. -/
def canonicalRequest (method uri query headers signedHeaders payloadHash : List Char) :
    List Char :=
  method ++ '\n' :: (uri ++ '\n' :: (query ++ '\n' :: (headers ++ '\n' :: '\n' ::
    (signedHeaders ++ '\n' :: payloadHash))))

/-! ## The parameters of a query -/

/-- The parameter that is meant: name and value as bytes. -/
def Param.decoded (p : Param) : List UInt8 × List UInt8 := (percentDecode p.1, percentDecode p.2)

def decodedParams (query : List Char) : List (List UInt8 × List UInt8) :=
  (params query).map Param.decoded

/-- The value that a name has in a query. -/
def queryMap (query : List Char) (name : List UInt8) : Option (List UInt8) :=
  ((decodedParams query).find? fun p => p.1 == name).map Prod.snd

/-- The names of a query are all different, once they are decoded. -/
def UniqueNames (query : List Char) : Prop := ((decodedParams query).map Prod.fst).Nodup

/-- A parameter that is read back from its text. -/
structure Param.Clean (p : Param) : Prop where
  name_eq : '=' ∉ p.1
  name_amp : '&' ∉ p.1
  value_amp : '&' ∉ p.2

theorem nameValue_text {p : Param} (h : '=' ∉ p.1) : nameValue p.text = p := by
  unfold nameValue Param.text
  rw [Text.splitOnce_eq_some_iff.mpr ⟨rfl, h⟩]
  rfl

theorem nameValue_cases (component : List Char) :
    (component = (nameValue component).text ∧ '=' ∉ (nameValue component).1) ∨
      nameValue component = (component, []) ∧ '=' ∉ component := by
  unfold nameValue
  cases hsplit : Text.splitOnce '=' component with
  | none => exact .inr ⟨rfl, Text.splitOnce_eq_none_iff.mp hsplit⟩
  | some p => exact .inl (Text.splitOnce_eq_some_iff.mp hsplit)

theorem nameValue_clean {component : List Char} (h : '&' ∉ component) :
    (nameValue component).Clean := by
  rcases nameValue_cases component with ⟨htext, heq⟩ | ⟨hpair, heq⟩
  · rw [htext, Param.text, mem_append, not_or, mem_cons, not_or] at h
    exact ⟨heq, h.1, h.2.2⟩
  · rw [hpair]
    exact ⟨heq, h, not_mem_nil⟩

theorem params_clean {query : List Char} {p : Param} (h : p ∈ params query) : p.Clean := by
  obtain ⟨component, hcomponent, rfl⟩ := mem_map.mp h
  exact nameValue_clean (Text.not_mem_of_mem_splitOn (mem_of_mem_filter hcomponent))

theorem Param.Clean.text {p : Param} (h : p.Clean) : '&' ∉ p.text := by
  rw [Param.text, mem_append, mem_cons]
  rintro (hname | hsep | hvalue)
  · exact h.name_amp hname
  · cases hsep
  · exact h.value_amp hvalue

theorem Param.text_ne_nil (p : Param) : p.text ≠ [] :=
  append_ne_nil_of_right_ne_nil _ (cons_ne_nil _ _)

/-- The texts of clean parameters are split into them again. -/
theorem params_intercalate {ps : List Param} (h : ∀ p ∈ ps, p.Clean) :
    params (['&'].intercalate (ps.map Param.text)) = ps := by
  cases hps : ps with
  | nil => rfl
  | cons p rest =>
      rw [← hps]
      have hamp : ∀ text ∈ ps.map Param.text, '&' ∉ text := by
        intro text htext
        obtain ⟨q, hq, rfl⟩ := mem_map.mp htext
        exact (h q hq).text
      have hne : ps.map Param.text ≠ [] := by
        rw [hps]
        exact cons_ne_nil _ _
      have hall : ∀ text ∈ ps.map Param.text, decide (text ≠ []) = true := by
        intro text htext
        obtain ⟨q, -, rfl⟩ := mem_map.mp htext
        exact decide_eq_true q.text_ne_nil
      unfold params components
      rw [splitOn_intercalate _ hamp hne, filter_eq_self.mpr hall, map_map]
      have hback : ∀ q ∈ ps, (nameValue ∘ Param.text) q = q := fun q hq =>
        nameValue_text (h q hq).name_eq
      rw [map_congr_left hback, map_id']

theorem params_joinSorted {ps : List Param} (h : ∀ p ∈ ps, p.Clean) :
    (params (joinSorted ps)).Perm ps := by
  have hsort := perm_insertionSort (fun p q => Param.le p q = true) ps
  unfold joinSorted
  rw [params_intercalate fun p hp => h p (hsort.mem_iff.mp hp)]
  exact hsort

/-- The raw form has the parameters of the query. -/
theorem decodedParams_raw (query : List Char) :
    (decodedParams (buildCanonicalQueryString query)).Perm (decodedParams query) := by
  unfold buildCanonicalQueryString
  split
  · next h => rw [isEmpty_iff.mp h]
  · exact (params_joinSorted fun p hp => params_clean hp).map _

theorem percentDecode_sigv4Encode (cs : List Char) :
    percentDecode (sigv4Encode cs) = Utf8.encode cs :=
  Percent.decode_encode (by decide) _

theorem not_mem_sigv4Encode {c : Char} (cs : List Char) (h : c ∈ ['/', '&', '=', '\n']) :
    c ∉ sigv4Encode cs := by
  have hall : ['/', '&', '=', '\n'].all (fun c => c.toNat < 128 ∧
      isUnreserved (UInt8.ofNat c.toNat) = false ∧ c ∉ "%0123456789ABCDEF".toList) = true := by
    decide
  obtain ⟨hlt, hkeep, hescape⟩ := of_decide_eq_true (all_eq_true.mp hall c h)
  exact Percent.not_mem_encode hlt hkeep hescape _

theorem decodeQueryComponent_ok {component encoded : List Char}
    (h : decodeQueryComponent component = .ok encoded) :
    percentDecode encoded = percentDecode component ∧ ∃ cs, encoded = sigv4Encode cs := by
  unfold decodeQueryComponent at h
  split at h
  · cases h
  · next cs hdecode =>
      cases h
      rw [percentDecode_sigv4Encode, Utf8.decode?_eq_some_iff.mp hdecode]
      exact ⟨rfl, cs, rfl⟩

/-- Name and value are encoded. -/
def Param.Encoded (p : Param) : Prop := ∃ cs ds, p = (sigv4Encode cs, sigv4Encode ds)

theorem Param.Encoded.clean {p : Param} (h : p.Encoded) : p.Clean := by
  obtain ⟨cs, ds, rfl⟩ := h
  refine ⟨?_, ?_, ?_⟩
  · exact not_mem_sigv4Encode cs (by decide)
  · exact not_mem_sigv4Encode cs (by decide)
  · exact not_mem_sigv4Encode ds (by decide)

theorem normalizeParam_ok {p q : Param} (h : normalizeParam p = .ok q) :
    q.Encoded ∧ q.decoded = p.decoded := by
  obtain ⟨name, hname, h⟩ := Except.bind_eq_ok.mp h
  obtain ⟨value, hvalue, h⟩ := Except.bind_eq_ok.mp h
  cases h
  obtain ⟨hnameEq, cs, rfl⟩ := decodeQueryComponent_ok hname
  obtain ⟨hvalueEq, ds, rfl⟩ := decodeQueryComponent_ok hvalue
  exact ⟨⟨cs, ds, rfl⟩, Prod.ext hnameEq hvalueEq⟩

theorem mapM_normalizeParam {ps qs : List Param} (h : ps.mapM normalizeParam = .ok qs) :
    (∀ q ∈ qs, q.Encoded) ∧ qs.map Param.decoded = ps.map Param.decoded := by
  induction ps generalizing qs with
  | nil =>
      cases h
      exact ⟨fun _ hq => absurd hq not_mem_nil, rfl⟩
  | cons p ps ih =>
      rw [mapM_cons] at h
      obtain ⟨q, hq, h⟩ := Except.bind_eq_ok.mp h
      obtain ⟨rest, hrest, h⟩ := Except.bind_eq_ok.mp h
      cases h
      obtain ⟨hencoded, hdecoded⟩ := normalizeParam_ok hq
      obtain ⟨hencodeds, hdecodeds⟩ := ih hrest
      refine ⟨forall_mem_cons.mpr ⟨hencoded, hencodeds⟩, ?_⟩
      rw [map_cons, hdecoded, hdecodeds, map_cons]

/-- The normalized form has the parameters of the query, too. -/
theorem decodedParams_normalized {query normalized : List Char}
    (h : buildCanonicalQueryStringNormalized query = .ok normalized) :
    (decodedParams normalized).Perm (decodedParams query) := by
  obtain ⟨_, -, h⟩ := Except.bind_eq_ok.mp h
  split at h
  · next hempty =>
      cases h
      rw [isEmpty_iff.mp hempty]
  · obtain ⟨qs, hqs, h⟩ := Except.bind_eq_ok.mp h
    cases h
    obtain ⟨hencoded, hdecoded⟩ := mapM_normalizeParam hqs
    unfold decodedParams
    rw [← hdecoded]
    exact (params_joinSorted fun q hq => (hencoded q hq).clean).map _

theorem insertNames_ok {names : List (List Char)} {ps : List Param}
    (h : insertNames names ps = .ok ()) :
    (ps.map fun p => p.decoded.1).Nodup ∧
      ∀ p ∈ ps, ∀ name ∈ names, p.decoded.1 ≠ Utf8.encode name := by
  induction ps generalizing names with
  | nil => exact ⟨nodup_nil, fun _ hp => absurd hp not_mem_nil⟩
  | cons p ps ih =>
      rw [insertNames] at h
      split at h
      · cases h
      · next decoded hdecode =>
          split at h
          · cases h
          · next hfresh =>
              obtain ⟨hnodup, hnew⟩ := ih h
              have hname : p.decoded.1 = Utf8.encode decoded :=
                (Utf8.decode?_eq_some_iff.mp hdecode).symm
              constructor
              · rw [map_cons, nodup_cons]
                refine ⟨fun hmem => ?_, hnodup⟩
                obtain ⟨q, hq, heq⟩ := mem_map.mp hmem
                exact hnew q hq decoded (.head _) (heq.trans hname)
              · intro q hq name hmem
                rcases mem_cons.mp hq with rfl | hq
                · rw [hname]
                  intro heq
                  exact hfresh (Utf8.encode_injective heq ▸ hmem)
                · exact hnew q hq name (.tail _ hmem)

theorem uniqueNames_of_validate {query : List Char} (h : validateUniqueQueryNames query = .ok ()) :
    UniqueNames query := by
  obtain ⟨_, -, h⟩ := Except.bind_eq_ok.mp h
  unfold UniqueNames decodedParams
  rw [map_map]
  exact (insertNames_ok h).1

theorem queryMap_eq_some_iff {query : List Char} (h : UniqueNames query)
    {name value : List UInt8} :
    queryMap query name = some value ↔ (name, value) ∈ decodedParams query := by
  unfold queryMap UniqueNames at *
  generalize decodedParams query = ps at *
  induction ps with
  | nil => exact iff_of_false (Option.some_ne_none value).symm not_mem_nil
  | cons p ps ih =>
      obtain ⟨hfresh, hnodup⟩ := nodup_cons.mp h
      rw [find?_cons]
      by_cases hname : p.1 = name
      · rw [beq_iff_eq.mpr hname]
        constructor
        · intro hvalue
          rw [← hname, ← Option.some.inj hvalue]
          exact .head _
        · intro hmem
          rcases mem_cons.mp hmem with rfl | hmem
          · rfl
          · refine absurd ?_ hfresh
            rw [hname]
            exact mem_map_of_mem (f := Prod.fst) hmem
      · rw [beq_eq_false_iff_ne.mpr hname]
        refine (ih hnodup).trans ⟨mem_cons_of_mem p, ?_⟩
        intro hmem
        rcases mem_cons.mp hmem with rfl | hmem
        · exact absurd rfl hname
        · exact hmem

/-- Queries with the same parameters give every name the same value. -/
theorem queryMap_congr {query query' : List Char} (h : UniqueNames query)
    (hperm : (decodedParams query).Perm (decodedParams query')) :
    queryMap query = queryMap query' := by
  have h' : UniqueNames query' := (hperm.map Prod.fst).nodup_iff.mp h
  funext name
  apply Option.ext
  intro value
  rw [queryMap_eq_some_iff h, queryMap_eq_some_iff h', hperm.mem_iff]

/-! ## The lines of a request -/

theorem newline_not_mem_canonicalUri (path : List Char) : '\n' ∉ buildCanonicalUri path := by
  unfold buildCanonicalUri
  split
  · decide
  · apply Text.not_mem_intercalate (by decide)
    intro segment hsegment
    obtain ⟨raw, -, rfl⟩ := mem_map.mp hsegment
    exact not_mem_sigv4Encode _ (by decide)

theorem newline_not_mem_joinSorted {ps : List Param} (h : ∀ p ∈ ps, '\n' ∉ p.1 ∧ '\n' ∉ p.2) :
    '\n' ∉ joinSorted ps := by
  apply Text.not_mem_intercalate (by decide)
  intro text htext
  obtain ⟨p, hp, rfl⟩ := mem_map.mp htext
  have hp := h p ((perm_insertionSort _ ps).mem_iff.mp hp)
  rw [Param.text, mem_append, mem_cons]
  rintro (hname | hsep | hvalue)
  · exact hp.1 hname
  · cases hsep
  · exact hp.2 hvalue

theorem newline_not_mem_params {query : List Char} (h : '\n' ∉ query) {p : Param}
    (hp : p ∈ params query) : '\n' ∉ p.1 ∧ '\n' ∉ p.2 := by
  obtain ⟨component, hcomponent, rfl⟩ := mem_map.mp hp
  have hnot : '\n' ∉ component := fun hmem =>
    h (Text.mem_of_mem_splitOn (mem_of_mem_filter hcomponent) hmem)
  rcases nameValue_cases component with ⟨htext, -⟩ | ⟨hpair, -⟩
  · rw [htext, Param.text, mem_append, not_or, mem_cons, not_or] at hnot
    exact ⟨hnot.1, hnot.2.2⟩
  · rw [hpair]
    exact ⟨hnot, not_mem_nil⟩

theorem newline_not_mem_raw {query : List Char} (h : '\n' ∉ query) :
    '\n' ∉ buildCanonicalQueryString query := by
  unfold buildCanonicalQueryString
  split
  · exact not_mem_nil
  · exact newline_not_mem_joinSorted fun p hp => newline_not_mem_params h hp

theorem newline_not_mem_normalized {query normalized : List Char}
    (h : buildCanonicalQueryStringNormalized query = .ok normalized) : '\n' ∉ normalized := by
  obtain ⟨_, -, h⟩ := Except.bind_eq_ok.mp h
  split at h
  · cases h
    exact not_mem_nil
  · obtain ⟨qs, hqs, h⟩ := Except.bind_eq_ok.mp h
    cases h
    apply newline_not_mem_joinSorted
    intro q hq
    obtain ⟨cs, ds, rfl⟩ := (mapM_normalizeParam hqs).1 q hq
    exact ⟨not_mem_sigv4Encode cs (by decide), not_mem_sigv4Encode ds (by decide)⟩

/-- A request text that starts with three lines is read back. -/
theorem canonicalRequest_inj {method uri query headers signed payload : List Char}
    {method' uri' query' headers' signed' payload' : List Char}
    (hmethod : '\n' ∉ method) (hmethod' : '\n' ∉ method') (huri : '\n' ∉ uri)
    (huri' : '\n' ∉ uri') (hquery : '\n' ∉ query) (hquery' : '\n' ∉ query')
    (h : canonicalRequest method uri query headers signed payload =
      canonicalRequest method' uri' query' headers' signed' payload') :
    method = method' ∧ uri = uri' ∧ query = query' ∧
      headers ++ '\n' :: '\n' :: (signed ++ '\n' :: payload) =
        headers' ++ '\n' :: '\n' :: (signed' ++ '\n' :: payload') := by
  obtain ⟨hmethodEq, hbelow⟩ := (Text.field_inj hmethod hmethod').mp h
  obtain ⟨huriEq, hbelow⟩ := (Text.field_inj huri huri').mp hbelow
  obtain ⟨hqueryEq, hbelow⟩ := (Text.field_inj hquery hquery').mp hbelow
  exact ⟨hmethodEq, huriEq, hqueryEq, hbelow⟩

end Rustack.Auth
