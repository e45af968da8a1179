import Rustack.S3.Receive

/-!
# What a signed upload publishes

The chain starts with the signature of the request, and an upload is handed on only behind the
terminal chunk, and behind the trailer block where one is announced.  So if its last signature is
one that a signer has given, the upload is one that the signer has chained from this seed.
-/

namespace Rustack.S3

open Auth (AuthError CredentialProvider Crypto)
open Http (HeaderMap HeaderValue Parts)
open List StreamingVerifier Auth
open Except (bind_eq_ok)
open String (ofList toList_ofList)

variable {crypto : Crypto} {key : List UInt8} {text : List Char} {parts : Parts} {env : ReceiveEnv}
  {upload : StagedUpload} {trailers : Trailers}

/-! ## Hash and MAC as texts -/

theorem computeSignature_eq_some {key text signature : String}
    (h : (signingEnv crypto).computeSignature key text = some signature) :
    keyText (keyBytes key) = key ∧ ∃ tag, crypto.hmac (keyBytes key) (Utf8.encode text.toList) =
      some tag ∧ signature = ofList (Hex.encode tag) := by
  simp only [signingEnv, Option.ite_none_right_eq_some] at h
  obtain ⟨hkey, h⟩ := h
  refine ⟨hkey, ?_⟩
  obtain ⟨signature', hsignature, rfl⟩ := Option.map_eq_some_iff.mp h
  cases hcompute : computeSignature crypto (keyBytes key) text.toList with
  | error e =>
      rw [hcompute] at hsignature
      cases hsignature
  | ok signature'' =>
      rw [hcompute] at hsignature
      obtain ⟨tag, htag, hhex⟩ := bind_eq_ok.mp hcompute
      rw [hmacSha256_eq_ok_iff] at htag
      refine ⟨tag, htag, ?_⟩
      rw [← Option.some.inj hsignature, ← Except.ok.inj hhex]

theorem signingEnv_ideal (ideal : crypto.KeyedIdeal) :
    (signingEnv crypto).Ideal where
  hash payload payload' h := by
    have hhex := String.ofList_injective h
    exact ideal.sha256 (Hex.encode_injective hhex)
  signature h h' := by
    obtain ⟨hkey, tag, htag, hsignature⟩ := computeSignature_eq_some h
    obtain ⟨hkey', tag', htag', hsignature'⟩ := computeSignature_eq_some h'
    obtain rfl := Hex.encode_injective (String.ofList_injective (hsignature.symm.trans hsignature'))
    obtain ⟨hbytes, htext⟩ := ideal.hmac htag htag'
    refine ⟨?_, String.toList_inj.mp (Utf8.encode_injective htext)⟩
    rw [← hkey, ← hkey', hbytes]
  line h := by
    obtain ⟨-, tag, -, rfl⟩ := computeSignature_eq_some h
    rw [toList_ofList]
    intro hmem
    have hno : '\n' ∉ "0123456789abcdef".toList := by decide
    exact hno (Hex.mem_encode hmem)

theorem keyBytes_keyText (key : List UInt8) : keyBytes (keyText key) = key := by
  unfold keyBytes keyText
  rw [toList_ofList, map_map]
  have hback : ∀ b ∈ key, ((fun c => UInt8.ofNat c.toNat) ∘ fun b : UInt8 => Char.ofNat b.toNat) b =
      b := by
    intro b _
    have hlt := b.toNat_lt
    dsimp only [Function.comp]
    rw [Utf8.toNat_ofNat_of_valid (Or.inl (by omega)), UInt8.ofNat_toNat]
  rw [map_congr_left hback, map_id']

theorem computeSignature_keyText {signature : List Char}
    (h : computeSignature crypto key text = .ok signature) :
    (signingEnv crypto).computeSignature (keyText key) (ofList text) =
      some (ofList signature) := by
  simp only [signingEnv, keyBytes_keyText, if_true, toList_ofList, h]
  rfl

/-- What a chunk is signed as. -/
def chunkLines (crypto : Crypto) (timestamp scope previous : List Char) (data : List UInt8) :
    List Char :=
  "AWS4-HMAC-SHA256-PAYLOAD\n".toList ++ timestamp ++ '\n' :: (scope ++ '\n' ::
    (previous ++ '\n' :: (Hex.encode (crypto.sha256 []) ++ '\n' ::
      Hex.encode (crypto.sha256 data))))

theorem chunkText_ofList (crypto : Crypto) (key : String) (timestamp scope previous : List Char)
    (data : List UInt8) :
    chunkText (signingEnv crypto) ⟨key, ofList timestamp,
      ofList scope, ofList previous⟩ ((signingEnv crypto).hashPayload data) =
        ofList (chunkLines crypto timestamp scope previous data) := by
  have hnl : ("\n" : String).toList = ['\n'] := rfl
  apply String.toList_inj.mp
  unfold chunkText signingEnv chunkLines hashPayload
  simp only [String.toList_append, toList_ofList, hnl, append_assoc,
    cons_append, nil_append]

/-- What a trailer block is signed as. -/
def trailerLines (crypto : Crypto) (timestamp scope previous canonical : List Char) : List Char :=
  "AWS4-HMAC-SHA256-TRAILER\n".toList ++ timestamp ++ '\n' :: (scope ++ '\n' ::
    (previous ++ '\n' :: Hex.encode (crypto.sha256 (Utf8.encode canonical))))

theorem trailerText_ofList (crypto : Crypto) (key : String)
    (timestamp scope previous canonical : List Char) :
    trailerText (signingEnv crypto) ⟨key, ofList timestamp, ofList scope, ofList previous⟩
      (ofList canonical) = ofList (trailerLines crypto timestamp scope previous canonical) := by
  have hnl : ("\n" : String).toList = ['\n'] := rfl
  apply String.toList_inj.mp
  unfold trailerText signingEnv trailerLines hashPayload
  simp only [String.toList_append, toList_ofList, hnl, append_assoc, cons_append, nil_append]

/-- A text is accepted under its tag. -/
theorem verifyNext_ofList {tag : List UInt8} {timestamp scope previous : List Char}
    (h : crypto.hmac key (Utf8.encode text) = some tag) :
    verifyNext (signingEnv crypto) ⟨keyText key, ofList timestamp, ofList scope, ofList previous⟩
        (ofList text) (ofList (Hex.encode tag)) =
      (.ok (), ⟨keyText key, ofList timestamp, ofList scope, ofList (Hex.encode tag)⟩) := by
  have hcompute : computeSignature crypto key text = .ok (Hex.encode tag) := by
    unfold computeSignature hmacSha256
    rw [h]
    rfl
  unfold verifyNext
  dsimp only
  rw [computeSignature_keyText hcompute]
  exact if_pos rfl

theorem verify_chunk {tag data : List UInt8} {timestamp scope previous : List Char}
    (h : crypto.hmac key (Utf8.encode (chunkLines crypto timestamp scope previous data)) =
      some tag) :
    verify (signingEnv crypto) (some ⟨keyText key, ofList timestamp, ofList scope,
      ofList previous⟩) data (some (Hex.encode tag)) =
        .ok (some ⟨keyText key, ofList timestamp, ofList scope,
          ofList (Hex.encode tag)⟩) := by
  unfold verify
  dsimp only
  rw [verifyChunk_eq, chunkText_ofList, verifyNext_ofList h]
  rfl

theorem link_chunk {tag data : List UInt8} {timestamp scope previous : List Char}
    (h : crypto.hmac key (Utf8.encode (chunkLines crypto timestamp scope previous data)) =
      some tag) :
    link (signingEnv crypto) ⟨keyText key, ofList timestamp, ofList scope, ofList previous⟩ data =
      some ⟨keyText key, ofList timestamp, ofList scope, ofList (Hex.encode tag)⟩ := by
  obtain ⟨_, hnext, hlink⟩ := link_of_verify (verify_chunk h)
  cases hnext
  exact hlink

/-! ## The seed is one of a request -/

/-- What an authorization header names is part of its text. -/
theorem mem_of_read {fields : Auth.AuthFields} {part rest : List Char}
    (hpart : ∀ c ∈ part, c ∈ rest)
    (h : ∀ credential, fields.credential = some credential → ∀ c ∈ credential, c ∈ rest) :
    ∀ credential, (fields.read part).credential = some credential → ∀ c ∈ credential, c ∈ rest := by
  have htrim : ∀ c ∈ DynamoDB.trim part, c ∈ rest := fun c hc =>
    hpart c (dropWhile_subset _ (( rdropWhile_prefix _ _).subset hc))
  unfold Auth.AuthFields.read
  split
  · next value hvalue =>
      intro credential hcredential c hc
      cases hcredential
      apply htrim
      rw [← isPrefixOf?_eq_some_iff_append_eq.mp hvalue]
      exact mem_append_right _ hc
  · split
    · exact h
    · split
      · exact h
      · exact h

theorem mem_of_foldl_read {parts : List (List Char)} {rest : List Char}
    (hparts : ∀ part ∈ parts, ∀ c ∈ part, c ∈ rest) {fields : Auth.AuthFields}
    (h : ∀ credential, fields.credential = some credential → ∀ c ∈ credential, c ∈ rest) :
    ∀ credential, (parts.foldl Auth.AuthFields.read fields).credential = some credential →
      ∀ c ∈ credential, c ∈ rest := by
  induction parts generalizing fields with
  | nil => exact h
  | cons part parts ih =>
      exact ih (fun p hp => hparts p (mem_cons_of_mem part hp))
        (mem_of_read (hparts part (.head _)) h)

theorem scope_subset {header : List Char} {parsed : Auth.ParsedAuth}
    (h : parseAuthorizationHeader header = .ok parsed) :
    ∀ c ∈ parsed.date ++ parsed.region ++ parsed.service, c ∈ header := by
  unfold parseAuthorizationHeader at h
  split at h
  · cases h
  next algorithm rest hsplit =>
    split at h
    · cases h
    dsimp only at h
    split at h
    · next credential _ _ hcredential _ _ =>
        cases hparse : parseCredential credential with
        | error e =>
            rw [hparse] at h
            cases h
        | ok c =>
            rw [hparse] at h
            cases h
            have hrest : ∀ c ∈ credential, c ∈ rest := by
              refine mem_of_foldl_read (fun part hpart c hc => Text.mem_of_mem_splitOn hpart hc) ?_
                credential hcredential
              intro _ hnone
              cases hnone
            have htext := parseCredential_text hparse
            intro x hx
            rw [(Text.splitOnce_eq_some_iff.mp hsplit).1]
            apply mem_append_right
            apply mem_cons_of_mem
            apply hrest
            rw [← htext, Auth.Credential.text]
            simp only [intercalate_cons_cons, intercalate_singleton, mem_append] at hx ⊢
            tauto
    · cases h

theorem newline_not_mem_of_extract {name : List Char}
    (h : extractHeaderValue parts name = .ok text) : '\n' ∉ text := by
  obtain ⟨-, value, rest, -, htext⟩ := extractHeaderValue_ok h
  exact fun hmem => ((mem_toText htext).2 '\n' hmem).2 rfl

theorem newline_not_mem_scope {header : List Char} {parsed : Auth.ParsedAuth}
    (h : parseAuthorizationHeader header = .ok parsed) (hheader : '\n' ∉ header) :
    '\n' ∉ parsed.scope := by
  have hsubset := scope_subset h
  unfold Auth.Credential.scope
  intro hmem
  have hend : '\n' ∉ "/aws4_request".toList := by decide
  simp only [mem_append, mem_cons] at hmem hsubset
  rcases hmem with hdate | hsep | hregion | hsep | hservice | hmem
  · exact hheader (hsubset _ (.inl (.inl hdate)))
  · cases hsep
  · exact hheader (hsubset _ (.inl (.inr hregion)))
  · cases hsep
  · exact hheader (hsubset _ (.inr hservice))
  · exact hend hmem

/-- The authorization header that was verified is the one the chain starts from. -/
theorem parse_of_authorization {header : List Char} {parsed : Auth.ParsedAuth}
    (h : authorization parts = .ok parsed)
    (hheader : extractHeaderValue parts "authorization".toList = .ok header) :
    parseAuthorizationHeader header = .ok parsed := by
  obtain ⟨-, value, rest, hall, htext⟩ := extractHeaderValue_ok hheader
  rw [String.ofList_toList] at hall
  unfold authorization at h
  rw [hall] at h
  split at h
  · next hnil => cases hnil
  · next hone =>
      cases hone
      rw [htext] at h
      exact h
  · cases h

/-- A chain starts with the signature of a request. -/
theorem StreamingVerifier.new_spec {provider : CredentialProvider} {v : StreamingVerifier}
    (h : new crypto provider parts = .ok v) : v.Lines ∧ v.OfRequest (signingEnv crypto) := by
  obtain ⟨result, hverify, h⟩ := bind_eq_ok.mp h
  obtain ⟨header, hheader, h⟩ := bind_eq_ok.mp h
  obtain ⟨parsed, hparsed, h⟩ := bind_eq_ok.mp h
  obtain ⟨secret, hsecret, h⟩ := bind_eq_ok.mp h
  obtain ⟨key, hkey, h⟩ := bind_eq_ok.mp h
  obtain ⟨timestamp, htimestamp, h⟩ := bind_eq_ok.mp h
  cases h
  obtain ⟨parsed', ctx, query, haccepted⟩ := exists_accepted hverify
  have hsame := parse_of_authorization haccepted.authorization hheader
  obtain rfl := Except.ok.inj (hparsed.symm.trans hsame)
  obtain ⟨secret', hsecret', hctx⟩ := haccepted.context
  obtain rfl := Except.ok.inj (hsecret.symm.trans hsecret')
  obtain ⟨_, key', -, hkey', hfields⟩ := signingContext_eq_ok hctx
  obtain rfl := Except.ok.inj (hkey.symm.trans hkey')
  have hmatch := signatureMatches_eq_true_iff.mp haccepted.verified
  have hsignature := computeSignature_keyText hmatch
  have hsigningKey : ctx.signingKey = key := by rw [hfields]
  have hprovided : ctx.provided = parsed.signature := by rw [hfields]
  rw [hsigningKey, hprovided] at hsignature
  refine ⟨⟨?_, ?_, ?_⟩, ?_⟩
  · rw [toList_ofList]
    exact newline_not_mem_of_extract htimestamp
  · rw [toList_ofList]
    exact newline_not_mem_scope hparsed (newline_not_mem_of_extract hheader)
  · obtain ⟨-, tag, -, hhex⟩ := computeSignature_eq_some hsignature
    have hno : '\n' ∉ "0123456789abcdef".toList := by decide
    dsimp only
    rw [hhex, toList_ofList]
    exact fun hmem => hno (Hex.mem_encode hmem)
  · have hfirst : Auth.SUPPORTED_ALGORITHM ++ ['\n'] = "AWS4-HMAC-SHA256\n".toList := by decide
    refine ⟨ofList (ctx.timestamp ++ '\n' :: (ctx.credentialScope ++ '\n' ::
      hashPayload crypto (Utf8.encode (ctx.canonicalRequest query)))), ?_⟩
    rw [← String.ofList_toList (s := "AWS4-HMAC-SHA256\n"), ← String.ofList_append, ← hfirst,
      append_assoc]
    exact hsignature

/-! ## What is handed on -/

theorem mapError_eq_ok {ε ε' α : Type} {f : ε → ε'} {x : Except ε α} {a : α} :
    mapError f x = .ok a ↔ x = .ok a := by
  cases x <;> simp [mapError]

theorem isAwsChunked_of_signed {marker : List Char} {message : String}
    (hmarker : optionalText parts "x-amz-content-sha256" message = .ok marker)
    (hsigned : isSignedMarker marker = true) : isAwsChunked parts = true := by
  have hne : marker ≠ [] ∧ "STREAMING-".toList.isPrefixOf marker = true := by
    simp only [isSignedMarker, Bool.or_eq_true, beq_iff_eq] at hsigned
    rcases hsigned with rfl | rfl <;> decide
  unfold optionalText at hmarker
  split at hmarker
  · exact absurd (Except.ok.inj hmarker).symm hne.1
  · next value hvalue =>
      split at hmarker
      · cases hmarker
      · next text htext =>
          cases hmarker
          unfold isAwsChunked headerText
          rw [hvalue, Option.bind_some, htext, Option.any_some, hne.2, Bool.or_true]

/-- Behind a signed body the chain is at the terminal chunk. -/
theorem readBody_signed {v : StreamingVerifier} {frames : List (List UInt8)}
    {verifier : Option StreamingVerifier}
    (h : readBody env true (some v) frames = .ok (upload, trailers, verifier)) :
    ∃ chunks t, (∀ c ∈ chunks, c ≠ []) ∧ upload.data = chunks.flatten ∧ verifier = some t ∧
      v.terminal (signingEnv env.crypto) chunks = some t := by
  unfold readBody at h
  rw [if_pos rfl] at h
  cases hcopy : Decoder.copyUpload (signingEnv env.crypto)
      { source := .new frames env.encodedBudget
        writer := { data := [], limit := s3ObjectBodyLimit }
        verifier := some v } with
  | error e =>
      rw [hcopy] at h
      cases h
  | ok r =>
      rw [hcopy] at h
      cases h
      obtain ⟨chunks, hchunks, hdata, hchain⟩ := Decoder.copyUpload_sound hcopy (Nat.zero_le _)
      obtain ⟨t, ht, hterminal⟩ := hchain v rfl
      exact ⟨chunks, t, hchunks, hdata, ht, hterminal⟩

/-- Where a trailer block is announced, it is the next link of the chain. -/
theorem linkTrailer_of_check {t : StreamingVerifier} {canonical : List Char}
    (h : checkTrailerSignature env trailers (some t) SIGNED_PAYLOAD_TRAILER canonical = .ok ()) :
    ∃ t', t.linkTrailer (signingEnv env.crypto) (ofList canonical) = some t' := by
  unfold checkTrailerSignature at h
  rw [if_pos rfl] at h
  split at h
  · cases h
  · next signature hsignature =>
      rw [mapError_eq_ok] at h
      have hpair : t.verifyTrailer (signingEnv env.crypto) (ofList canonical) signature =
          (.ok (), (t.verifyTrailer (signingEnv env.crypto)
            (ofList canonical) signature).2) :=
        Prod.ext h rfl
      exact ⟨_, (verifyNext_ok hpair).1⟩

/-- The canonical block of some trailers. -/
def trailerBlock (trailers : Trailers) (names : List (List Char)) : List Char :=
  names.flatMap fun name =>
    name ++ ':' :: (((trailers.get? (String.ofList name)).getD "").toList ++ ['\n'])

theorem foldlM_checkTrailer {names : List (List Char)} {block canonical : List Char}
    (h : names.foldlM (checkTrailer env parts upload trailers) block = .ok canonical) :
    canonical = block ++ trailerBlock trailers names := by
  induction names generalizing block with
  | nil =>
      cases h
      exact (append_nil _).symm
  | cons name names ih =>
      rw [foldlM_cons] at h
      obtain ⟨next, hnext, h⟩ := bind_eq_ok.mp h
      rw [ih h, trailerBlock, trailerBlock, flatMap_cons, ← append_assoc]
      congr 1
      unfold checkTrailer at hnext
      split at hnext
      · cases hnext
      · split at hnext
        · cases hnext
        · next value hvalue =>
            split at hnext
            · cases hnext
            · split at hnext
              · cases hnext
              · rw [← Except.ok.inj hnext, hvalue, append_assoc]
                rfl

theorem optionalText_ok {name message : String} (h : optionalText parts name message = .ok text) :
    (headerText parts name).getD [] = text := by
  unfold optionalText at h
  unfold headerText
  split at h
  · next hnone =>
      rw [hnone]
      exact Except.ok.inj h
  · next value hvalue =>
      rw [hvalue, Option.bind_some]
      split at h
      · cases h
      · next text htext =>
          rw [htext]
          exact Except.ok.inj h

/-- The names of the trailers that a request announces. -/
def announced (parts : Parts) : List (List Char) :=
  declaredNames ((headerText parts "x-amz-trailer").getD [])

/-- An upload is handed on with its trailers, behind the end of its chain. -/
structure Received (env : ReceiveEnv) (provider : CredentialProvider) (parts : Parts)
    (upload : StagedUpload) (headers : HeaderMap) (marker : List Char) (v t : StreamingVerifier)
    (chunks : List (List UInt8)) (trailers : Trailers) : Prop where
  seed : StreamingVerifier.new env.crypto provider parts = .ok v
  chunks_ne_nil : ∀ c ∈ chunks, c ≠ []
  data : upload.data = chunks.flatten
  terminal : v.terminal (signingEnv env.crypto) chunks = some t
  undeclared : ∀ e ∈ trailers.entries, e.1 = TRAILER_SIGNATURE ∨ e.1.toList ∈ announced parts
  signed : marker = SIGNED_PAYLOAD_TRAILER → ∃ t', t.linkTrailer (signingEnv env.crypto)
    (String.ofList (trailerBlock trailers (announced parts))) = some t'
  headers : (trailers.entries.foldlM insertTrailer parts.headers).map stripAwsChunkedEncoding =
    .ok headers

theorem chunkVerifier_signed {provider : CredentialProvider} {verifier : Option StreamingVerifier}
    (h : chunkVerifier env (.required provider) parts true = .ok verifier) :
    ∃ v, new env.crypto provider parts = .ok v ∧ verifier = some v := by
  unfold chunkVerifier at h
  dsimp only at h
  rw [if_pos rfl] at h
  cases hnew : new env.crypto provider parts with
  | error e =>
      rw [hnew] at h
      cases h
  | ok v =>
      rw [hnew] at h
      exact ⟨v, rfl, (Except.ok.inj h).symm⟩

/-- The trailers are those that were announced, and their block is signed where it has to be. -/
theorem validateTrailers_signed {t : StreamingVerifier} {marker : List Char}
    (h : validateTrailers env parts upload trailers (some t) marker = .ok ()) :
    (∀ e ∈ trailers.entries, e.1 = TRAILER_SIGNATURE ∨ e.1.toList ∈ announced parts) ∧
      (marker = SIGNED_PAYLOAD_TRAILER → ∃ t', t.linkTrailer (signingEnv env.crypto)
        (ofList (trailerBlock trailers (announced parts))) = some t') := by
  obtain ⟨declared, hdeclared, h⟩ := bind_eq_ok.mp h
  obtain ⟨_, -, h⟩ := bind_eq_ok.mp h
  obtain ⟨canonical, hcanonical, h⟩ := bind_eq_ok.mp h
  obtain ⟨_, hundeclared, hsignature⟩ := bind_eq_ok.mp h
  have hnames : announced parts = declaredNames declared := by
    rw [announced, optionalText_ok hdeclared]
  have hblock := foldlM_checkTrailer hcanonical
  rw [hnames]
  constructor
  · intro e he
    unfold checkUndeclared at hundeclared
    split at hundeclared
    · cases hundeclared
    · next hnone =>
        by_contra hnot
        rw [not_or] at hnot
        apply hnone
        rw [any_eq_true]
        refine ⟨e, he, ?_⟩
        rw [Bool.and_eq_true, bne_iff_ne, Bool.not_eq_true', Bool.eq_false_iff]
        exact ⟨hnot.1, fun h => hnot.2 (contains_iff_mem.mp h)⟩
  · rintro rfl
    rw [hblock, nil_append] at hsignature
    exact linkTrailer_of_check hsignature

theorem receive_signed {provider : CredentialProvider} {frames : List (List UInt8)}
    {headers : HeaderMap} {marker : List Char}
    (h : receive env (.required provider) parts frames = .ok (upload, headers))
    (hmarker : headerText parts "x-amz-content-sha256" = some marker)
    (hsigned : isSignedMarker marker = true) :
    ∃ v t chunks trailers,
      Received env provider parts upload headers marker v t chunks trailers := by
  obtain ⟨_, -, h⟩ := bind_eq_ok.mp h
  obtain ⟨marker', hmarker', h⟩ := bind_eq_ok.mp h
  have hsame := optionalText_ok hmarker'
  rw [hmarker, Option.getD_some] at hsame
  subst hsame
  have hchunked := isAwsChunked_of_signed hmarker' hsigned
  obtain ⟨_, -, h⟩ := bind_eq_ok.mp h
  obtain ⟨verifier, hverifier, h⟩ := bind_eq_ok.mp h
  obtain ⟨_, -, h⟩ := bind_eq_ok.mp h
  obtain ⟨⟨upload', trailers, verifier'⟩, hbody, h⟩ := bind_eq_ok.mp h
  obtain ⟨_, -, h⟩ := bind_eq_ok.mp h
  obtain ⟨_, -, h⟩ := bind_eq_ok.mp h
  obtain ⟨_, htrailers, h⟩ := bind_eq_ok.mp h
  obtain ⟨_, -, h⟩ := bind_eq_ok.mp h
  obtain ⟨headers', hheaders, h⟩ := bind_eq_ok.mp h
  cases h
  rw [hsigned] at hverifier
  obtain ⟨v, hseed, rfl⟩ := chunkVerifier_signed hverifier
  rw [hchunked, mapError_eq_ok] at hbody
  obtain ⟨chunks, t, hchunks, hdata, rfl, hterminal⟩ := readBody_signed hbody
  obtain ⟨hundeclared, hblock⟩ := validateTrailers_signed htrailers
  exact ⟨v, t, chunks, trailers, hseed, hchunks, hdata, hterminal, hundeclared, hblock, by
    rw [hheaders]; rfl⟩

/-- While a body is copied, what is written has been chained from the seed of the request; what is
handed on is so up to its terminal chunk, and up to its trailer block where one is announced; and
a failure leaves the chain where it is. -/
theorem signed_upload_exact {crypto : Crypto} (ideal : crypto.KeyedIdeal) :
    (∀ (provider : CredentialProvider) (parts : Parts) (v : StreamingVerifier)
      (frames : List (List UInt8)) (budget limit : ℕ) (d : Decoder) (trailers : Trailers),
      new crypto provider parts = .ok v →
      Decoder.copyUpload (signingEnv crypto)
        { source := .new frames budget, writer := { data := [], limit }, verifier := some v } =
          .ok (d, trailers) →
      ∃ chunks t, (∀ c ∈ chunks, c ≠ []) ∧ d.writer.data = chunks.flatten ∧
        d.verifier = some t ∧ v.terminal (signingEnv crypto) chunks = some t ∧
        ∀ pool, Issued (signingEnv crypto) pool t.previous →
          ∃ X, pool X ∧ X.seed = v ∧ X.chunks = chunks) ∧
    (∀ (env : ReceiveEnv) (provider : CredentialProvider) (parts : Parts)
      (frames : List (List UInt8)) (upload : StagedUpload) (headers : HeaderMap)
      (marker : List Char), env.crypto = crypto →
      receive env (.required provider) parts frames = .ok (upload, headers) →
      headerText parts "x-amz-content-sha256" = some marker → isSignedMarker marker = true →
      ∃ v t chunks trailers,
        Received env provider parts upload headers marker v t chunks trailers ∧
        (∀ pool, Issued (signingEnv crypto) pool t.previous →
          ∃ X, pool X ∧ X.seed = v ∧ X.chunks = chunks) ∧
        (marker = SIGNED_PAYLOAD_TRAILER → ∃ t', t.linkTrailer (signingEnv crypto)
          (ofList (trailerBlock trailers (announced parts))) = some t' ∧
          ∀ pool, Issued (signingEnv crypto) pool t'.previous →
            ∃ X, pool X ∧ X.seed = v ∧ X.chunks = chunks ∧
              X.trailer = some (ofList (trailerBlock trailers (announced parts))))) ∧
    ∀ (v : StreamingVerifier) (text signature : String) (e : UploadError),
      (v.verifyNext (signingEnv crypto) text signature).1 = .error e →
      (v.verifyNext (signingEnv crypto) text signature).2 = v := by
  have henv := signingEnv_ideal ideal
  refine ⟨?_, ?_, fun _ _ _ _ => verifyNext_error⟩
  · intro provider parts v frames budget limit d trailers hseed hcopy
    obtain ⟨chunks, hchunks, hdata, hchain⟩ := Decoder.copyUpload_sound hcopy (Nat.zero_le limit)
    obtain ⟨t, ht, hterminal⟩ := hchain v rfl
    exact ⟨chunks, t, hchunks, hdata, ht, hterminal, fun pool hissued =>
      terminal_exact henv (new_spec hseed) hterminal hissued⟩
  · rintro env provider parts frames upload headers marker rfl hreceive hmarker hsigned
    obtain ⟨v, t, chunks, trailers, h⟩ := receive_signed hreceive hmarker hsigned
    have hspec := new_spec h.seed
    refine ⟨v, t, chunks, trailers, h, ?_, ?_⟩
    · exact fun pool hissued => terminal_exact henv hspec h.terminal hissued
    · intro htrailer
      obtain ⟨t', ht'⟩ := h.signed htrailer
      exact ⟨t', ht', fun pool hissued => trailer_exact henv hspec h.terminal ht' hissued⟩

/-! ## An upload of one byte -/

open Auth (digest hashed sampleCredential sampleHeader sampleKey sampleKeys sampleProvider
  sampleTimestamp signed)

def uploadRequestHash : ℕ :=
  0xb80480db872ddabdfef1621d89fbef72304b11c8955e7bc532631f41657c1abc

def uploadSignature : ℕ :=
  0xd071ff45cf656aa89a1bd7bdb820642a53f0523303110b311550a011a373bfa7

def byteHash : ℕ :=
  0xca978112ca1bbdcafac231b39a23dc4da786eff8147c4e72b9807785afee48bb

def byteSignature : ℕ :=
  0x9680a4d17927e357e1fdff8c0a550dbce79aeddab360073d8019d1e655a39a70

def terminalSignature : ℕ :=
  0xbf588404131148f4ad5df011767673fe19f7be51f554404612ef70c7336522ea

def blockHash : ℕ :=
  0x3b0a13dca10a1762a405e5df31597a52a49252a8f88bd18dfd3c489349a87d8e

def trailerSignature : ℕ :=
  0x147d5439dbe03d0f4987713f98e42ef617baa0d4c8fa4e538509b8c13ae746ef

def emptyDigest : ℕ :=
  0xe3b0c44298fc1c149afbf4c8996fb92427ae41e4649b934ca495991b7852b855

/-- What a chunk is signed as behind the signature `previous`. -/
def sampleChunkText (previous hash : ℕ) : List Char :=
  "AWS4-HMAC-SHA256-PAYLOAD\n".toList ++ sampleTimestamp ++ '\n' ::
    (sampleCredential.scope ++ '\n' :: (Hex.encode (digest previous) ++ '\n' ::
      (Hex.encode (digest emptyDigest) ++ '\n' :: Hex.encode (digest hash))))

def blockText : List Char := "x-amz-checksum-crc32:6Le+Qw==\n".toList

def sampleTrailerText : List Char :=
  "AWS4-HMAC-SHA256-TRAILER\n".toList ++ sampleTimestamp ++ '\n' ::
    (sampleCredential.scope ++ '\n' :: (Hex.encode (digest terminalSignature) ++ '\n' ::
      Hex.encode (digest blockHash)))

def uploadRequest : List Char :=
  Auth.canonicalRequest "PUT".toList "/bucket/key".toList []
    ("host:s3.amazonaws.com".toList ++ "\nx-amz-date:".toList ++ sampleTimestamp)
    "host;x-amz-date".toList SIGNED_PAYLOAD_TRAILER

def uploadCrypto : Crypto :=
  Crypto.ofTables
    [hashed uploadRequest uploadRequestHash, hashed [] emptyDigest, hashed ['a'] byteHash,
      hashed blockText blockHash]
    (sampleKeys ++
      [signed (digest sampleKey) (Auth.sampleStringToSign uploadRequestHash) uploadSignature,
        signed (digest sampleKey) (sampleChunkText uploadSignature byteHash) byteSignature,
        signed (digest sampleKey) (sampleChunkText byteSignature emptyDigest) terminalSignature,
        signed (digest sampleKey) sampleTrailerText trailerSignature])

def uploadEnv : ReceiveEnv where
  crypto := uploadCrypto
  digests := { md5 := fun _ => [], checksum := fun _ _ => "6Le+Qw==" }
  clock := Auth.sampleClock
  verifySigv2 _ _ := .error .missingAuthHeader
  objectBudget := s3ObjectBodyLimit
  encodedBudget := 2 * s3ObjectBodyLimit

def uploadParts : Parts :=
  ⟨⟨"PUT".toList, by decide⟩, ⟨"/bucket/key".toList, none, by decide, by decide⟩,
    Auth.signedListHeaders.take 2 ++
      sampleHeader "x-amz-content-sha256" SIGNED_PAYLOAD_TRAILER (by decide +kernel) ++
      sampleHeader "x-amz-trailer" "x-amz-checksum-crc32".toList (by decide +kernel) ++
      sampleHeader "authorization"
        (Auth.authorizationText "host;x-amz-date".toList uploadSignature) (by decide +kernel)⟩

def sizeLine (size signature : ℕ) : List UInt8 :=
  Source.encodeLine ((Nat.digitChar size) :: ";chunk-signature=".toList ++
    Hex.encode (digest signature))

def uploadText : Upload where
  chunks := [⟨⟨['1'], some (Hex.encode (digest byteSignature))⟩, [97]⟩]
  last := ⟨['0'], some (Hex.encode (digest terminalSignature))⟩
  trailers :=
    [⟨"x-amz-checksum-crc32".toList, "6Le+Qw==".toList⟩,
      ⟨"x-amz-trailer-signature".toList, Hex.encode (digest trailerSignature)⟩]

def uploadFrames : List (List UInt8) :=
  [sizeLine 1 byteSignature ++ [97, 13],
    10 :: sizeLine 0 terminalSignature ++ encodeTrailers uploadText.trailers ++ [13, 10]]

/-- The verifier behind a signature of the sample key. -/
def sampleVerifier (signature : ℕ) : StreamingVerifier :=
  ⟨keyText (digest sampleKey), String.ofList sampleTimestamp, String.ofList sampleCredential.scope,
    String.ofList (Hex.encode (digest signature))⟩

theorem uploadText_wellFormed : uploadText.WellFormed where
  chunks c hc := by
    rw [mem_singleton.mp hc]
    exact ⟨⟨by decide, by decide, all_eq_true.mp (by decide), by decide,
      ⟨by decide +kernel, by decide +kernel⟩⟩, by decide, by decide⟩
  last := ⟨by decide, by decide, all_eq_true.mp (by decide), by decide,
    ⟨by decide +kernel, by decide +kernel⟩⟩
  last_size := rfl
  trailers t ht := by
    simp only [uploadText, mem_cons, not_mem_nil, or_false] at ht
    rcases ht with rfl | rfl <;>
      exact ⟨by decide +kernel, by decide +kernel, ⟨by decide +kernel, by decide +kernel⟩⟩
  trailers_nodup := by decide +kernel

theorem chunks_of_byte {b : UInt8} {chunks : List (List UInt8)} (hchunks : ∀ c ∈ chunks, c ≠ [])
    (h : chunks.flatten = [b]) : chunks = [[b]] := by
  cases chunks with
  | nil => cases h
  | cons c rest =>
      obtain ⟨x, c, rfl⟩ := exists_cons_of_ne_nil (hchunks c (.head _))
      rw [flatten_cons, cons_append, cons.injEq, append_eq_nil_iff, flatten_eq_nil_iff] at h
      obtain ⟨rfl, rfl, hrest⟩ := h
      rw [eq_nil_iff_forall_not_mem.mpr fun d hd => hchunks d (.tail _ hd) (hrest d hd)]

theorem readBody_upload :
    readBody uploadEnv true (some (sampleVerifier uploadSignature)) uploadFrames =
      .ok (⟨[97]⟩, trailerMap uploadText.trailers, some (sampleVerifier terminalSignature)) := by
  have hbyte : uploadCrypto.hmac (digest sampleKey) (Utf8.encode (chunkLines uploadCrypto
      sampleTimestamp sampleCredential.scope (Hex.encode (digest uploadSignature)) [97])) =
        some (digest byteSignature) := by decide +kernel
  have hend : uploadCrypto.hmac (digest sampleKey) (Utf8.encode (chunkLines uploadCrypto
      sampleTimestamp sampleCredential.scope (Hex.encode (digest byteSignature)) [])) =
        some (digest terminalSignature) := by decide +kernel
  have hencode : uploadFrames.flatten = uploadText.encode := by decide +kernel
  have hsigned : Upload.Signed (signingEnv uploadCrypto) uploadText.last
      (some (sampleVerifier uploadSignature)) uploadText.chunks :=
    ⟨_, verify_chunk hbyte, _, verify_chunk hend⟩
  have hover : ¬(Source.new uploadFrames uploadEnv.encodedBudget).Over := by
    unfold Source.Over Source.new
    rw [hencode]
    decide +kernel
  have hcopy := Decoder.copyChunked_eq (d := ⟨.new uploadFrames uploadEnv.encodedBudget,
    ⟨[], s3ObjectBodyLimit⟩, some (sampleVerifier uploadSignature)⟩) hover uploadText_wellFormed
    hsigned hencode (by decide)
  rw [Decoder.copyChunked_eq_copyUpload] at hcopy
  cases hupload : Decoder.copyUpload (signingEnv uploadCrypto) ⟨.new uploadFrames
      uploadEnv.encodedBudget, ⟨[], s3ObjectBodyLimit⟩, some (sampleVerifier uploadSignature)⟩ with
  | error e =>
      rw [hupload] at hcopy
      cases hcopy
  | ok r =>
      rw [hupload] at hcopy
      obtain ⟨hwriter, htrailers⟩ := Prod.mk.inj (Except.ok.inj hcopy)
      have hdata : r.1.writer.data = [97] := congrArg UploadWriter.data hwriter
      have hread : readBody uploadEnv true (some (sampleVerifier uploadSignature)) uploadFrames =
          .ok (⟨r.1.writer.data⟩, r.2, r.1.verifier) := congrArg (Except.map _) hupload
      obtain ⟨chunks, hchunks, hflatten, hchain⟩ := Decoder.copyUpload_sound hupload (Nat.zero_le _)
      obtain ⟨t, ht, hterminal⟩ := hchain _ rfl
      rw [hdata, nil_append] at hflatten
      obtain rfl := chunks_of_byte hchunks hflatten.symm
      have hrun : terminal (signingEnv uploadCrypto) (sampleVerifier uploadSignature) [[97]] =
          some (sampleVerifier terminalSignature) :=
        (Runs.run_append _ [[97]] [[]]).mpr ⟨sampleVerifier byteSignature,
          (Runs.run_singleton _).mpr (link_chunk hbyte),
          (Runs.run_singleton _).mpr (link_chunk hend)⟩
      obtain rfl := Option.some.inj (hterminal.symm.trans hrun)
      rw [hdata, htrailers, ht] at hread
      exact hread

theorem validateTrailers_upload :
    validateTrailers uploadEnv uploadParts ⟨[97]⟩ (trailerMap uploadText.trailers)
      (some (sampleVerifier terminalSignature)) SIGNED_PAYLOAD_TRAILER = .ok () := by
  have hmac : uploadEnv.crypto.hmac (digest sampleKey) (Utf8.encode (trailerLines uploadEnv.crypto
      sampleTimestamp sampleCredential.scope (Hex.encode (digest terminalSignature)) blockText)) =
        some (digest trailerSignature) := by decide +kernel
  have hsignature : (trailerMap uploadText.trailers).get? TRAILER_SIGNATURE =
      some (ofList (Hex.encode (digest trailerSignature))) := by decide +kernel
  refine bind_eq_ok.mpr ⟨"x-amz-checksum-crc32".toList, by decide +kernel, ?_⟩
  refine bind_eq_ok.mpr ⟨(), by decide +kernel, ?_⟩
  refine bind_eq_ok.mpr ⟨blockText, by decide +kernel, ?_⟩
  refine bind_eq_ok.mpr ⟨(), by decide +kernel, ?_⟩
  unfold checkTrailerSignature verifyTrailer
  rw [if_pos rfl, hsignature]
  dsimp only
  rw [sampleVerifier, trailerText_ofList, verifyNext_ofList hmac]
  rfl

theorem receive_upload : ∃ headers, receive uploadEnv (.required sampleProvider) uploadParts
    uploadFrames = .ok (⟨[97]⟩, headers) := by
  cases hheaders : (trailerMap uploadText.trailers).entries.foldlM insertTrailer
      uploadParts.headers with
  | error e =>
      have hok : ((trailerMap uploadText.trailers).entries.foldlM insertTrailer
          uploadParts.headers).isOk = true := by decide +kernel
      rw [hheaders] at hok
      cases hok
  | ok headers =>
  refine ⟨stripAwsChunkedEncoding headers, ?_⟩
  refine bind_eq_ok.mpr ⟨(), by decide +kernel, ?_⟩
  refine bind_eq_ok.mpr ⟨SIGNED_PAYLOAD_TRAILER, by decide +kernel, ?_⟩
  refine bind_eq_ok.mpr ⟨(), by decide +kernel, ?_⟩
  refine bind_eq_ok.mpr
    ⟨some (sampleVerifier uploadSignature), by decide +kernel, ?_⟩
  refine bind_eq_ok.mpr ⟨(), by decide +kernel, ?_⟩
  refine bind_eq_ok.mpr ⟨(⟨[97]⟩, trailerMap uploadText.trailers,
    some (sampleVerifier terminalSignature)), ?_, ?_⟩
  · have hchunked : isAwsChunked uploadParts = true := by decide +kernel
    rw [hchunked, readBody_upload]
    rfl
  refine bind_eq_ok.mpr ⟨(), by decide +kernel, ?_⟩
  refine bind_eq_ok.mpr ⟨(), by decide +kernel, ?_⟩
  refine bind_eq_ok.mpr ⟨(), validateTrailers_upload, ?_⟩
  refine bind_eq_ok.mpr ⟨(), by decide +kernel, ?_⟩
  exact bind_eq_ok.mpr ⟨headers, hheaders, rfl⟩

/-- The byte has been signed behind the request, the end behind the byte and the trailers behind
the end, by a signer of one stream. -/
theorem signed_upload_exact_byte :
    ∃ upload headers v t t' chunks trailers, upload.data = [97] ∧
      receive uploadEnv (.required sampleProvider) uploadParts uploadFrames =
        .ok (upload, headers) ∧
      Received uploadEnv sampleProvider uploadParts upload headers SIGNED_PAYLOAD_TRAILER v t chunks
        trailers ∧
      t.linkTrailer (signingEnv uploadCrypto)
        (ofList (trailerBlock trailers (announced uploadParts))) = some t' ∧
      ∃ X : Stream (signingEnv uploadCrypto), Issued (signingEnv uploadCrypto) (· = X) t.previous ∧
        Issued (signingEnv uploadCrypto) (· = X) t'.previous ∧ X.seed = v ∧ X.chunks = chunks ∧
        X.trailer = some (ofList (trailerBlock trailers (announced uploadParts))) := by
  have hideal : uploadEnv.crypto.KeyedIdeal :=
    Crypto.keyedIdeal_ofTables (by decide +kernel) (by decide +kernel)
  have hmarker : headerText uploadParts "x-amz-content-sha256" = some SIGNED_PAYLOAD_TRAILER := by
    decide +kernel
  obtain ⟨headers, hreceive⟩ := receive_upload
  obtain ⟨v, t, chunks, trailers, hreceived, hexact, htrailer⟩ := (signed_upload_exact hideal).2.1
    uploadEnv sampleProvider uploadParts uploadFrames ⟨[97]⟩ headers SIGNED_PAYLOAD_TRAILER rfl
    hreceive hmarker (by decide)
  obtain ⟨t', hblock, htrailer⟩ := htrailer rfl
  refine ⟨⟨[97]⟩, headers, v, t, t', chunks, trailers, rfl, hreceive, hreceived, hblock, ?_⟩
  obtain ⟨hlines, hrequest⟩ := new_spec hreceived.seed
  let X : Stream (signingEnv uploadCrypto) :=
    ⟨v, chunks, some (ofList (trailerBlock trailers (announced uploadParts))), hlines, hrequest,
      hreceived.chunks_ne_nil⟩
  obtain ⟨last, hlast, hlink⟩ := (Runs.run_append _ chunks [[]]).mp hreceived.terminal
  have hissued : Issued (signingEnv uploadCrypto) (· = X) t.previous :=
    .chunk rfl rfl hlast ((Runs.run_singleton _).mp hlink)
  have hissued' : Issued (signingEnv uploadCrypto) (· = X) t'.previous :=
    .trailer rfl hreceived.terminal rfl hblock
  obtain ⟨_, rfl, hseed, hchunks⟩ := hexact _ hissued
  obtain ⟨_, rfl, -, -, hsigned⟩ := htrailer _ hissued'
  exact ⟨X, hissued, hissued', hseed, hchunks, hsigned⟩

end Rustack.S3
