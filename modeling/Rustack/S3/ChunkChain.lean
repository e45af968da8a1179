import Rustack.Lib.Runs
import Rustack.S3.AwsChunked

/-!
# The chain of chunk signatures

Every signature is taken over the one before it, so the last one tells the seed and all chunks.
A signature of a chunk, of a trailer block and of a request are over different texts.
-/

namespace Rustack.S3

open List StreamingVerifier

namespace StreamingVerifier

variable (env : SigningEnv) (v : StreamingVerifier)

/-- Compare the expected signature, and move on to it. -/
def verifyNext (text signature : String) : Except UploadError Unit × StreamingVerifier :=
  match env.computeSignature v.key text with
  | none => (.error (.denied "Cryptographic initialization failed"), v)
  | some expected =>
    if expected = signature then (.ok (), { v with previous := expected })
    else (.error (.denied "Signature does not match"), v)

def chunkText (actualSha256 : String) : String :=
  "AWS4-HMAC-SHA256-PAYLOAD\n" ++ v.timestamp ++ "\n" ++ v.scope ++ "\n" ++ v.previous ++ "\n" ++
    env.hashPayload [] ++ "\n" ++ actualSha256

def trailerText (canonical : String) : String :=
  "AWS4-HMAC-SHA256-TRAILER\n" ++ v.timestamp ++ "\n" ++ v.scope ++ "\n" ++ v.previous ++ "\n" ++
    env.hashPayload (Utf8.encode canonical.toList)

def verifyTrailer (canonical signature : String) : Except UploadError Unit × StreamingVerifier :=
  v.verifyNext env (v.trailerText env canonical) signature

/-- The signer's side: sign a text, and move on. -/
def sign (text : String) : Option StreamingVerifier :=
  (env.computeSignature v.key text).map fun signature => { v with previous := signature }

def link (content : List UInt8) : Option StreamingVerifier :=
  v.sign env (v.chunkText env (env.hashPayload content))

def linkTrailer (canonical : String) : Option StreamingVerifier :=
  v.sign env (v.trailerText env canonical)

/-- All chunks and the empty one behind them. -/
def terminal (chunks : List (List UInt8)) : Option StreamingVerifier :=
  Runs.run (fun v content => v.link env content) v (chunks ++ [[]])

end StreamingVerifier

variable {env : SigningEnv} {v v' : StreamingVerifier}

/-! ## What the verifier accepts -/

/-- A signature is accepted if it is the signer's, and then the state is the signer's. -/
theorem verifyNext_ok {text signature : String}
    (h : v.verifyNext env text signature = (.ok (), v')) :
    v.sign env text = some v' ∧ v'.previous = signature := by
  unfold verifyNext at h
  unfold sign
  cases hexpected : env.computeSignature v.key text with
  | none =>
      rw [hexpected] at h
      cases h
  | some expected =>
      rw [hexpected] at h
      dsimp only at h
      split at h
      · next heq =>
          cases h
          exact ⟨rfl, heq⟩
      · cases h

/-- A failure leaves the chain where it is. -/
theorem verifyNext_error {text signature : String} {e : UploadError}
    (h : (v.verifyNext env text signature).1 = .error e) :
    (v.verifyNext env text signature).2 = v := by
  unfold verifyNext at *
  cases hexpected : env.computeSignature v.key text with
  | none => rfl
  | some expected =>
      rw [hexpected] at h
      dsimp only at h ⊢
      split at h
      · cases h
      · next hne => rw [if_neg hne]

/-- The state after an accepted signature. -/
def acceptedState : Except UploadError Unit × StreamingVerifier → Option StreamingVerifier
  | (.ok (), v) => some v
  | (.error _, _) => none

theorem acceptedState_eq_some {r : Except UploadError Unit × StreamingVerifier}
    (h : acceptedState r = some v') : r = (.ok (), v') := by
  obtain ⟨result, v⟩ := r
  cases result with
  | ok => exact congrArg (Prod.mk _) (Option.some.inj h)
  | error => cases h

theorem verifyChunk_eq (actualSha256 signature : String) :
    v.verifyChunk env actualSha256 signature =
      acceptedState (v.verifyNext env (v.chunkText env actualSha256) signature) := by
  unfold verifyChunk verifyNext
  dsimp only [chunkText]
  cases env.computeSignature v.key _ with
  | none => rfl
  | some expected =>
      dsimp only
      split_ifs <;> rfl

theorem link_of_verify {content : List UInt8} {signature : Option (List Char)}
    {next : Option StreamingVerifier} (h : verify env (some v) content signature = .ok next) :
    ∃ v', next = some v' ∧ v.link env content = some v' := by
  unfold verify at h
  dsimp only at h
  split at h
  · cases h
  · next signature =>
      split at h
      · cases h
      · next v' hchunk =>
          cases h
          rw [verifyChunk_eq] at hchunk
          exact ⟨v', rfl, (verifyNext_ok (acceptedState_eq_some hchunk)).1⟩

/-! ## The decoder with its verifier -/

namespace Decoder

/-- `copy_chunked` and `trailers`, with what becomes of the verifier. -/
def copyUpload (env : SigningEnv) (d : Decoder) : Except UploadError (Decoder × Trailers) :=
  match _h : d.readChunk env with
  | .error e => .error e
  | .ok (size, d') =>
    if size = 0 then (d'.source.readTrailers SortedMap.empty).map fun trailers => (d', trailers)
    else
      match _hline : d'.source.line with
      | .error e => .error e
      | .ok (line, s) =>
        if line.isEmpty then { d' with source := s }.copyUpload env
        else .error (.invalid "missing chunk data terminator")
  termination_by d.source.bytes.length
  decreasing_by exact (Source.bytes_line_lt _hline).trans (bytes_readChunk_lt _h)

theorem copyChunked_eq_copyUpload (env : SigningEnv) (d : Decoder) :
    d.copyChunked env = (d.copyUpload env).map fun r => (r.1.writer, r.2) := by
  fun_induction copyUpload env d with
  | case1 d e hread => rw [copyChunked, hread]; rfl
  | case2 d d' hread =>
      rw [copyChunked, hread]
      dsimp only
      rw [if_pos rfl]
      cases d'.source.readTrailers SortedMap.empty <;> rfl
  | case3 d size d' hread hne e hline =>
      rw [copyChunked, hread]
      dsimp only
      rw [if_neg hne, hline]
      rfl
  | case4 d d' size hread hne line s hline hempty ih =>
      rw [copyChunked, hread]
      dsimp only
      rw [if_neg hne, hline]
      dsimp only
      rw [if_pos hempty, ih]
  | case5 d d' size hread hne line s hline hempty =>
      rw [copyChunked, hread]
      dsimp only
      rw [if_neg hne, hline]
      dsimp only
      rw [if_neg hempty]
      rfl

/-- What is written is cut into chunks, each of which has moved the chain on. -/
theorem copyUpload_sound {env : SigningEnv} {d e : Decoder} {trailers : Trailers}
    (h : d.copyUpload env = .ok (e, trailers)) (hw : d.writer.data.length ≤ d.writer.limit) :
    ∃ chunks : List (List UInt8), (∀ c ∈ chunks, c ≠ []) ∧
      e.writer.data = d.writer.data ++ chunks.flatten ∧
      ∀ v, d.verifier = some v →
        ∃ v', e.verifier = some v' ∧ v.terminal env chunks = some v' := by
  fun_induction copyUpload env d with
  | case1 => cases h
  | case2 d d' hread =>
      obtain ⟨l, data, -, -, hlength, -, hverify, hwriter, -⟩ := readChunk_sound hread hw
      obtain rfl := length_eq_zero_iff.mp hlength
      cases htrailers : d'.source.readTrailers SortedMap.empty with
      | error e =>
          rw [htrailers] at h
          cases h
      | ok map =>
          rw [htrailers] at h
          cases h
          refine ⟨[], fun _ hc => absurd hc not_mem_nil, by rw [hwriter]; rfl, ?_⟩
          intro v hv
          rw [hv] at hverify
          obtain ⟨v', hv', hlink⟩ := link_of_verify hverify
          exact ⟨v', hv', (Runs.run_singleton _).mpr hlink⟩
  | case3 => cases h
  | case4 d d' size hread hne line s hline hempty ih =>
      obtain ⟨l, data, -, -, hlength, -, hverify, hwriter, hfits⟩ := readChunk_sound hread hw
      obtain ⟨chunks, hchunks, hdata, hchain⟩ := ih h hfits
      have hnil : data ≠ [] := by
        rintro rfl
        exact hne hlength.symm
      refine ⟨data :: chunks, forall_mem_cons.mpr ⟨hnil, hchunks⟩, ?_, ?_⟩
      · rw [hdata, hwriter, flatten_cons, append_assoc]
      · intro v hv
        rw [hv] at hverify
        obtain ⟨v', hv', hlink⟩ := link_of_verify hverify
        obtain ⟨v'', hv'', hterminal⟩ := hchain v' hv'
        exact ⟨v'', hv'', Option.bind_eq_some_iff.mpr ⟨v', hlink, hterminal⟩⟩
  | case5 => cases h

end Decoder

/-! ## Texts that are told apart -/

/-- Different payloads have different hashes, different texts or keys different signatures, and a
signature is one line. -/
structure SigningEnv.Ideal (env : SigningEnv) : Prop where
  hash : Function.Injective env.hashPayload
  signature : ∀ {key key' text text' signature : String},
    env.computeSignature key text = some signature →
    env.computeSignature key' text' = some signature → key = key' ∧ text = text'
  line : ∀ {key text signature : String}, env.computeSignature key text = some signature →
    '\n' ∉ signature.toList

namespace StreamingVerifier

/-- Date, scope and the last signature are single lines. -/
structure Lines (v : StreamingVerifier) : Prop where
  timestamp : '\n' ∉ v.timestamp.toList
  scope : '\n' ∉ v.scope.toList
  previous : '\n' ∉ v.previous.toList

/-- The last signature is one of a request. -/
def OfRequest (env : SigningEnv) (v : StreamingVerifier) : Prop :=
  ∃ text, env.computeSignature v.key ("AWS4-HMAC-SHA256\n" ++ text) = some v.previous

/-- The lines that the texts of chunks and trailers share. -/
def body (v : StreamingVerifier) (tail : String) : String :=
  v.timestamp ++ "\n" ++ v.scope ++ "\n" ++ v.previous ++ "\n" ++ tail

end StreamingVerifier

theorem string_append_cancel {front s t : String} (h : front ++ s = front ++ t) : s = t := by
  have hlist := congrArg String.toList h
  rw [String.toList_append, String.toList_append] at hlist
  exact String.toList_inj.mp (append_cancel_left hlist)

/-- Texts with different first lines are different. -/
theorem ne_of_firstLine {head head' text text' : String} (hhead : '\n' ∉ head.toList)
    (hhead' : '\n' ∉ head'.toList) (h : head ≠ head') :
    head ++ "\n" ++ text ≠ head' ++ "\n" ++ text' := by
  intro heq
  have hnl : "\n".toList = ['\n'] := by decide
  have hlist := congrArg String.toList heq
  simp only [String.toList_append, hnl, append_assoc, singleton_append] at hlist
  exact h (String.toList_inj.mp ((Text.field_inj hhead hhead').mp hlist).1)

theorem body_inj {v v' : StreamingVerifier} (hv : v.Lines) (hv' : v'.Lines) {tail tail' : String}
    (h : v.body tail = v'.body tail') :
    v.timestamp = v'.timestamp ∧ v.scope = v'.scope ∧ v.previous = v'.previous ∧ tail = tail' := by
  have hnl : "\n".toList = ['\n'] := by decide
  have hlist := congrArg String.toList h
  unfold body at hlist
  simp only [String.toList_append, hnl, append_assoc, singleton_append] at hlist
  obtain ⟨htimestamp, hlist⟩ := (Text.field_inj hv.timestamp hv'.timestamp).mp hlist
  obtain ⟨hscope, hlist⟩ := (Text.field_inj hv.scope hv'.scope).mp hlist
  obtain ⟨hprevious, hlist⟩ := (Text.field_inj hv.previous hv'.previous).mp hlist
  exact ⟨String.toList_inj.mp htimestamp, String.toList_inj.mp hscope,
    String.toList_inj.mp hprevious, String.toList_inj.mp hlist⟩

theorem chunkText_eq (hash : String) :
    v.chunkText env hash =
      "AWS4-HMAC-SHA256-PAYLOAD" ++ "\n" ++ v.body (env.hashPayload [] ++ "\n" ++ hash) := by
  have hfirst : "AWS4-HMAC-SHA256-PAYLOAD\n" = "AWS4-HMAC-SHA256-PAYLOAD" ++ "\n" := by decide
  unfold chunkText body
  rw [hfirst]
  simp only [String.append_assoc]

theorem trailerText_eq (canonical : String) :
    v.trailerText env canonical =
      "AWS4-HMAC-SHA256-TRAILER" ++ "\n" ++
        v.body (env.hashPayload (Utf8.encode canonical.toList)) := by
  have hfirst : "AWS4-HMAC-SHA256-TRAILER\n" = "AWS4-HMAC-SHA256-TRAILER" ++ "\n" := by decide
  unfold trailerText body
  rw [hfirst]
  simp only [String.append_assoc]

theorem requestText_eq (text : String) :
    "AWS4-HMAC-SHA256\n" ++ text = "AWS4-HMAC-SHA256" ++ "\n" ++ text := by
  have hfirst : "AWS4-HMAC-SHA256\n" = "AWS4-HMAC-SHA256" ++ "\n" := by decide
  rw [hfirst]

/-! ## Links -/

theorem sign_eq_some {text : String} (h : v.sign env text = some v') :
    env.computeSignature v.key text = some v'.previous ∧
      v' = { v with previous := v'.previous } := by
  obtain ⟨signature, hsignature, rfl⟩ := Option.map_eq_some_iff.mp h
  exact ⟨hsignature, rfl⟩

theorem StreamingVerifier.Lines.sign (ideal : env.Ideal) {text : String} (hv : v.Lines)
    (h : v.sign env text = some v') : v'.Lines := by
  obtain ⟨hsignature, hfields⟩ := sign_eq_some h
  have hline := ideal.line hsignature
  rw [hfields]
  exact ⟨hv.timestamp, hv.scope, hline⟩

/-- The signature of a chunk tells the state before it and the chunk. -/
theorem link_inj (ideal : env.Ideal) {w w' : StreamingVerifier} {content content' : List UInt8}
    (hv : v.Lines) (hw : w.Lines) (h : v.link env content = some v')
    (h' : w.link env content' = some w') (hprevious : v'.previous = w'.previous) :
    v = w ∧ content = content' := by
  obtain ⟨hsignature, -⟩ := sign_eq_some h
  obtain ⟨hsignature', -⟩ := sign_eq_some h'
  rw [hprevious] at hsignature
  obtain ⟨hkey, htext⟩ := ideal.signature hsignature hsignature'
  rw [chunkText_eq, chunkText_eq] at htext
  obtain ⟨htimestamp, hscope, hprev, htail⟩ := body_inj hv hw (string_append_cancel htext)
  refine ⟨?_, ideal.hash (string_append_cancel htail)⟩
  obtain ⟨key, timestamp, scope, previous⟩ := v
  obtain ⟨key', timestamp', scope', previous'⟩ := w
  dsimp only at hkey htimestamp hscope hprev
  rw [hkey, htimestamp, hscope, hprev]

theorem linkTrailer_inj (ideal : env.Ideal) {w w' : StreamingVerifier}
    {canonical canonical' : String} (hv : v.Lines) (hw : w.Lines)
    (h : v.linkTrailer env canonical = some v') (h' : w.linkTrailer env canonical' = some w')
    (hprevious : v'.previous = w'.previous) : v = w ∧ canonical = canonical' := by
  obtain ⟨hsignature, -⟩ := sign_eq_some h
  obtain ⟨hsignature', -⟩ := sign_eq_some h'
  rw [hprevious] at hsignature
  obtain ⟨hkey, htext⟩ := ideal.signature hsignature hsignature'
  rw [trailerText_eq, trailerText_eq] at htext
  obtain ⟨htimestamp, hscope, hprev, htail⟩ := body_inj hv hw (string_append_cancel htext)
  refine ⟨?_, String.toList_inj.mp (Utf8.encode_injective (ideal.hash htail))⟩
  obtain ⟨key, timestamp, scope, previous⟩ := v
  obtain ⟨key', timestamp', scope', previous'⟩ := w
  dsimp only at hkey htimestamp hscope hprev
  rw [hkey, htimestamp, hscope, hprev]

/-- A signature of a chunk is none of a request. -/
theorem link_ne_request (ideal : env.Ideal) {content : List UInt8} {text key signature : String}
    (h : v.link env content = some v')
    (hrequest : env.computeSignature key ("AWS4-HMAC-SHA256\n" ++ text) = some signature) :
    v'.previous ≠ signature := by
  rintro rfl
  obtain ⟨-, htext⟩ := ideal.signature (sign_eq_some h).1 hrequest
  rw [chunkText_eq, requestText_eq] at htext
  exact ne_of_firstLine (by decide) (by decide) (by decide) htext

theorem linkTrailer_ne_request (ideal : env.Ideal) {canonical text key signature : String}
    (h : v.linkTrailer env canonical = some v')
    (hrequest : env.computeSignature key ("AWS4-HMAC-SHA256\n" ++ text) = some signature) :
    v'.previous ≠ signature := by
  rintro rfl
  obtain ⟨-, htext⟩ := ideal.signature (sign_eq_some h).1 hrequest
  rw [trailerText_eq, requestText_eq] at htext
  exact ne_of_firstLine (by decide) (by decide) (by decide) htext

theorem link_ne_linkTrailer (ideal : env.Ideal) {w w' : StreamingVerifier} {content : List UInt8}
    {canonical : String} (h : v.link env content = some v')
    (h' : w.linkTrailer env canonical = some w') : v'.previous ≠ w'.previous := by
  intro hprevious
  have hsignature := (sign_eq_some h).1
  rw [hprevious] at hsignature
  obtain ⟨-, htext⟩ := ideal.signature hsignature (sign_eq_some h').1
  rw [chunkText_eq, trailerText_eq] at htext
  exact ne_of_firstLine (by decide) (by decide) (by decide) htext

/-- The state behind the terminal chunk tells the seed and the chunks. -/
theorem terminal_inj (ideal : env.Ideal) {w t : StreamingVerifier}
    {chunks chunks' : List (List UInt8)} (hv : v.Lines ∧ v.OfRequest env)
    (hw : w.Lines ∧ w.OfRequest env) (h : v.terminal env chunks = some t)
    (h' : w.terminal env chunks' = some t) : v = w ∧ chunks = chunks' := by
  have hinj := Runs.run_inj (fun v content => link env v content)
    (fun hs hlink => hs.sign ideal hlink)
    (fun hs hs' hlink hlink' => link_inj ideal hs hs' hlink hlink' rfl)
    (fun hlink hseed => hseed.elim fun _ hrequest => link_ne_request ideal hlink hrequest rfl)
    hv hw h h'
  exact ⟨hinj.1, append_cancel_right hinj.2⟩

/-! ## Streams of a signer -/

/-- An upload that a signer has signed: the seed, the chunks, and the trailer block if any. -/
structure Stream (env : SigningEnv) where
  seed : StreamingVerifier
  chunks : List (List UInt8)
  trailer : Option String
  lines : seed.Lines
  ofRequest : seed.OfRequest env
  chunks_ne_nil : ∀ c ∈ chunks, c ≠ []

/-- The signatures that are known: those of requests, under any key, and those of all chunks and
trailers of some uploads. -/
inductive Issued (env : SigningEnv) (pool : Stream env → Prop) : String → Prop
  | request {key text signature : String}
      (h : env.computeSignature key ("AWS4-HMAC-SHA256\n" ++ text) = some signature) :
      Issued env pool signature
  | chunk {X : Stream env} {front behind : List (List UInt8)} {content : List UInt8}
      {mid next : StreamingVerifier} (hX : pool X)
      (hchunks : X.chunks ++ [[]] = front ++ content :: behind)
      (hfront : Runs.run (fun v content => v.link env content) X.seed front = some mid)
      (hlink : mid.link env content = some next) : Issued env pool next.previous
  | trailer {X : Stream env} {canonical : String} {mid next : StreamingVerifier} (hX : pool X)
      (hterminal : X.seed.terminal env X.chunks = some mid) (htrailer : X.trailer = some canonical)
      (hlink : mid.linkTrailer env canonical = some next) : Issued env pool next.previous

theorem lines_of_run (ideal : env.Ideal) {contents : List (List UInt8)} (hv : v.Lines)
    (h : Runs.run (fun v content => v.link env content) v contents = some v') : v'.Lines :=
  Runs.run_invariant _ (fun hs hlink => hs.sign ideal hlink) hv h

/-- An empty chunk is the terminal one. -/
theorem Stream.eq_front (X : Stream env) {front behind : List (List UInt8)}
    (h : X.chunks ++ [[]] = front ++ [] :: behind) : X.chunks = front := by
  rcases eq_nil_or_concat behind with rfl | ⟨more, last, rfl⟩
  · exact (append_inj' h rfl).1
  · have hchunks : X.chunks = front ++ [] :: more := by
      have hends : X.chunks ++ [[]] = (front ++ [] :: more) ++ [last] := by
        rw [h]
        simp
      exact (append_inj' hends rfl).1
    have hmem : [] ∈ X.chunks := by
      rw [hchunks]
      exact mem_append_right _ (.head _)
    exact absurd rfl (X.chunks_ne_nil [] hmem)

/-- If the signature of the terminal chunk is known, the chunks are those of an upload with this
seed. -/
theorem terminal_exact (ideal : env.Ideal) {pool : Stream env → Prop} {t : StreamingVerifier}
    {chunks : List (List UInt8)} (hv : v.Lines ∧ v.OfRequest env)
    (h : v.terminal env chunks = some t) (hissued : Issued env pool t.previous) :
    ∃ X, pool X ∧ X.seed = v ∧ X.chunks = chunks := by
  obtain ⟨last, hlast, hlink⟩ := (Runs.run_append _ chunks [[]]).mp h
  rw [Runs.run_singleton] at hlink
  have hlines := lines_of_run ideal hv.1 hlast
  generalize hprevious : t.previous = signature at hissued
  cases hissued with
  | request hrequest => exact absurd hprevious (link_ne_request ideal hlink hrequest)
  | @chunk X front behind content mid next hX hchunks hfront hnext =>
      have hmid := lines_of_run ideal X.lines hfront
      obtain ⟨rfl, rfl⟩ := link_inj ideal hlines hmid hlink hnext hprevious
      rw [← X.eq_front hchunks] at hfront
      have hwhole : X.seed.terminal env X.chunks = some t :=
        (Runs.run_append _ X.chunks [[]]).mpr ⟨last, hfront, (Runs.run_singleton _).mpr hlink⟩
      obtain ⟨hseed, hsame⟩ := terminal_inj ideal ⟨X.lines, X.ofRequest⟩ hv hwhole h
      exact ⟨X, hX, hseed, hsame⟩
  | trailer hX hterminal htrailer hnext =>
      exact absurd hprevious (link_ne_linkTrailer ideal hlink hnext)

/-- The same for the signature of the trailer block, which is that of this upload, too. -/
theorem trailer_exact (ideal : env.Ideal) {pool : Stream env → Prop} {t t' : StreamingVerifier}
    {chunks : List (List UInt8)} {canonical : String} (hv : v.Lines ∧ v.OfRequest env)
    (h : v.terminal env chunks = some t) (htrailer : t.linkTrailer env canonical = some t')
    (hissued : Issued env pool t'.previous) :
    ∃ X, pool X ∧ X.seed = v ∧ X.chunks = chunks ∧ X.trailer = some canonical := by
  have hlines := lines_of_run ideal hv.1 h
  generalize hprevious : t'.previous = signature at hissued
  cases hissued with
  | request hrequest => exact absurd hprevious (linkTrailer_ne_request ideal htrailer hrequest)
  | chunk hX hchunks hfront hnext =>
      exact absurd hprevious.symm (link_ne_linkTrailer ideal hnext htrailer)
  | @trailer X canonical' mid next hX hterminal hdeclared hnext =>
      have hmid := lines_of_run ideal X.lines hterminal
      obtain ⟨rfl, rfl⟩ := linkTrailer_inj ideal hlines hmid htrailer hnext hprevious
      obtain ⟨hseed, hsame⟩ := terminal_inj ideal ⟨X.lines, X.ofRequest⟩ hv hterminal h
      exact ⟨X, hX, hseed, hsame, hdeclared⟩

end Rustack.S3
