import Rustack.DynamoDB.Number
import Rustack.Lib.Outcome
import Rustack.Lib.SortedMap
import Rustack.Lib.Utf8
import Rustack.S3.Validation

/-!
# Streaming uploads

The decoder of the `aws-chunked` framing.  The body arrives in frames; three readers
(of a line, of some bytes, of what comes next) hand what they have not used to each
other in `pending`.  Deadlines and failing writes of the staging file are left out.
-/

namespace Rustack.S3

open DynamoDB (trim)
open List

inductive UploadError where
  | invalid (message : String)
  | denied (message : String)
  | tooLarge
  deriving DecidableEq

/-- Five gigabytes. -/
def s3ObjectBodyLimit : ℕ := 5 * 1024 * 1024 * 1024

/-- The frames still to come, the bytes they may have, and what a reader has left over. -/
structure Source where
  body : List (List UInt8)
  remaining : ℕ
  pending : List UInt8

/-- The staging file with its limit. -/
structure UploadWriter where
  data : List UInt8
  limit : ℕ
  deriving DecidableEq

def UploadWriter.write (w : UploadWriter) (data : List UInt8) : Except UploadError UploadWriter :=
  if w.limit < w.data.length + data.length then .error (.invalid "S3 object exceeds 5 GiB")
  else .ok { w with data := w.data ++ data }

/-- The hash of bytes in hexadecimal, and the signature of a text under a key. -/
structure SigningEnv where
  hashPayload : List UInt8 → String
  computeSignature : String → String → Option String

structure StreamingVerifier where
  key : String
  timestamp : String
  scope : String
  previous : String
  deriving DecidableEq

def StreamingVerifier.verifyChunk (env : SigningEnv) (v : StreamingVerifier)
    (actualSha256 signature : String) : Option StreamingVerifier :=
  let text := "AWS4-HMAC-SHA256-PAYLOAD\n" ++ v.timestamp ++ "\n" ++ v.scope ++ "\n" ++
    v.previous ++ "\n" ++ env.hashPayload [] ++ "\n" ++ actualSha256
  match env.computeSignature v.key text with
  | none => none
  | some expected => if expected = signature then some { v with previous := expected } else none

namespace Source

def new (frames : List (List UInt8)) (budget : ℕ) : Source where
  body := frames
  remaining := budget
  pending := []

/-- The bytes still to be read. -/
def bytes (s : Source) : List UInt8 := s.pending ++ s.body.flatten

/-- The loop over the frames; an empty one is passed over. -/
def nextFrame : List (List UInt8) → ℕ → Except UploadError (Option (List UInt8) × Source)
  | [], remaining => .ok (none, { body := [], remaining, pending := [] })
  | data :: body, remaining =>
    if remaining < data.length then .error .tooLarge
    else if data.isEmpty then nextFrame body (remaining - data.length)
    else .ok (some data, { body, remaining := remaining - data.length, pending := [] })

def next (s : Source) : Except UploadError (Option (List UInt8) × Source) :=
  if s.pending.isEmpty then nextFrame s.body s.remaining
  else .ok (some s.pending, { s with pending := [] })

/-- Some bytes, at most `max`. -/
def take (s : Source) (max : ℕ) : Except UploadError (List UInt8 × Source) :=
  match s.next with
  | .error e => .error e
  | .ok (none, _) => .error (.invalid "truncated upload")
  | .ok (some data, s) =>
    .ok (data.take (min max data.length), { s with pending := data.drop (min max data.length) })

inductive LineStep where
  | done (line rest : List UInt8)
  | more (line : List UInt8)
  | tooLong
  deriving DecidableEq

/-- The loop over the bytes at hand. -/
def lineStep (line : List UInt8) : List UInt8 → LineStep
  | [] => .more line
  | byte :: data =>
    if 8192 < (line ++ [byte]).length then .tooLong
    else if [13, 10].isSuffixOf (line ++ [byte]) then
      .done ((line ++ [byte]).take ((line ++ [byte]).length - 2)) data
    else lineStep (line ++ [byte]) data

/-- What a reader can still be handed: the frames, and what is pending. -/
def size (s : Source) : ℕ := s.body.length + if s.pending.isEmpty then 0 else 1

theorem nextFrame_length {body : List (List UInt8)} {remaining : ℕ} {data : List UInt8}
    {s : Source} (h : nextFrame body remaining = .ok (some data, s)) :
    s.body.length < body.length ∧ s.pending = [] := by
  induction body generalizing remaining with
  | nil => cases h
  | cons frame body ih =>
      unfold nextFrame at h
      split at h
      · cases h
      split at h
      · have hlt := (ih h).1
        exact ⟨Nat.lt_succ_of_lt hlt, (ih h).2⟩
      · cases h
        exact ⟨Nat.lt_succ_self _, rfl⟩

theorem size_next {s s' : Source} {data : List UInt8} (h : s.next = .ok (some data, s')) :
    s'.size < s.size := by
  unfold next at h
  split at h
  · obtain ⟨hlt, hpending⟩ := nextFrame_length h
    unfold size
    rw [hpending]
    exact Nat.lt_of_lt_of_le hlt (Nat.le_add_right _ _)
  · next hpending =>
      cases h
      unfold size
      rw [if_neg hpending]
      exact Nat.lt_succ_self _

/-- A line without its end, as bytes. -/
def lineBytes (s : Source) (line : List UInt8) : Except UploadError (List UInt8 × Source) :=
  match _h : s.next with
  | .error e => .error e
  | .ok (none, _) => .error (.invalid "truncated chunk framing")
  | .ok (some data, s') =>
    match lineStep line data with
    | .tooLong => .error (.invalid "chunk header exceeds 8 KiB")
    | .done line rest => .ok (line, { s' with pending := rest })
    | .more line => s'.lineBytes line
  termination_by s.size
  decreasing_by exact size_next _h

def line (s : Source) : Except UploadError (List Char × Source) := do
  let (bytes, s) ← s.lineBytes []
  match Utf8.decode? bytes with
  | none => .error (.invalid "invalid utf-8 sequence")
  | some text => return (text, s)

def finish (s : Source) : Except UploadError Unit := do
  let (data, _) ← s.next
  if data.isSome then .error (.invalid "unexpected data after terminal chunk") else return ()

/-! ## What the readers do to the bytes -/

/-- More bytes are to come than the budget has left. -/
def Over (s : Source) : Prop := s.remaining < s.body.flatten.length

/-- Some bytes are read. -/
structure Consumes (s : Source) (used : List UInt8) (s' : Source) : Prop where
  bytes : s.bytes = used ++ s'.bytes
  overrun : s'.Over ↔ s.Over

theorem Consumes.trans {s s' s'' : Source} {used used' : List UInt8} (h : s.Consumes used s')
    (h' : s'.Consumes used' s'') : s.Consumes (used ++ used') s'' where
  bytes := by rw [h.bytes, h'.bytes, append_assoc]
  overrun := h'.overrun.trans h.overrun

theorem Consumes.length_lt {s s' : Source} {used : List UInt8} (h : s.Consumes used s')
    (hused : used ≠ []) : s'.bytes.length < s.bytes.length := by
  rw [h.bytes, length_append]
  exact Nat.lt_add_of_pos_left (length_pos_iff.mpr hused)

theorem nextFrame_cases (body : List (List UInt8)) (remaining : ℕ) :
    (remaining < body.flatten.length ∧ nextFrame body remaining = .error .tooLarge) ∨
      (body.flatten = [] ∧ ∃ s, nextFrame body remaining = .ok (none, s)) ∨
      ∃ data s, data ≠ [] ∧ body.flatten = data ++ s.bytes ∧
        (s.Over ↔ remaining < body.flatten.length) ∧
        nextFrame body remaining = .ok (some data, s) := by
  induction body generalizing remaining with
  | nil => exact .inr (.inl ⟨rfl, _, rfl⟩)
  | cons data body ih =>
      unfold nextFrame
      rw [flatten_cons, length_append]
      split
      · next hlt => exact .inl ⟨Nat.lt_add_right _ hlt, rfl⟩
      · next hle =>
          split
          · next hempty =>
              rw [isEmpty_iff.mp hempty, nil_append, length_nil, Nat.zero_add,
                Nat.sub_zero]
              exact ih remaining
          · next hne =>
              rw [List.isEmpty_iff] at hne
              refine .inr (.inr ⟨data, _, hne, rfl, ?_, rfl⟩)
              unfold Over
              dsimp only
              omega

theorem next_none {s s' : Source} (h : s.next = .ok (none, s')) : s.bytes = [] ∧ ¬s.Over := by
  unfold next at h
  split at h
  · next hpending =>
      unfold bytes Over
      rw [isEmpty_iff.mp hpending]
      rcases nextFrame_cases s.body s.remaining with ⟨-, heq⟩ | ⟨hnil, -⟩ | ⟨_, _, -, -, -, heq⟩
      · rw [heq] at h
        cases h
      · rw [hnil]
        exact ⟨rfl, Nat.not_lt_zero _⟩
      · rw [heq] at h
        cases h
  · cases h

theorem next_some {s s' : Source} {data : List UInt8} (h : s.next = .ok (some data, s')) :
    data ≠ [] ∧ s'.pending = [] ∧ s.Consumes data s' := by
  unfold next at h
  split at h
  · next hpending =>
      have hempty := (nextFrame_length h).2
      rcases nextFrame_cases s.body s.remaining with ⟨-, heq⟩ | ⟨-, _, heq⟩ |
        ⟨data', s'', hne, hbytes, hover, heq⟩
      · rw [heq] at h
        cases h
      · rw [heq] at h
        cases h
      · rw [heq] at h
        cases h
        refine ⟨hne, hempty, ?_, hover⟩
        unfold bytes
        rw [isEmpty_iff.mp hpending]
        exact hbytes
  · next hpending =>
      cases h
      exact ⟨fun hnil => hpending (isEmpty_iff.mpr hnil), rfl, rfl, Iff.rfl⟩

/-- Within the budget there is always a next piece until all is read. -/
theorem exists_next {s : Source} (hover : ¬s.Over) (hbytes : s.bytes ≠ []) :
    ∃ data s', s.next = .ok (some data, s') := by
  cases hnext : s.next with
  | error e =>
      unfold next at hnext
      split at hnext
      · rcases nextFrame_cases s.body s.remaining with ⟨hlt, -⟩ | ⟨-, _, heq⟩ |
          ⟨_, _, -, -, -, heq⟩
        · exact absurd hlt hover
        · rw [heq] at hnext
          cases hnext
        · rw [heq] at hnext
          cases hnext
      · cases hnext
  | ok next =>
      obtain ⟨data, s'⟩ := next
      cases data with
      | none => exact absurd (next_none hnext).1 hbytes
      | some data => exact ⟨data, s', rfl⟩

theorem exists_next_none {s : Source} (hover : ¬s.Over) (hbytes : s.bytes = []) :
    ∃ s', s.next = .ok (none, s') := by
  unfold bytes at hbytes
  obtain ⟨hpending, hbody⟩ := append_eq_nil_iff.mp hbytes
  unfold next
  rw [hpending]
  rcases nextFrame_cases s.body s.remaining with ⟨hlt, -⟩ | ⟨-, s', heq⟩ |
    ⟨data, _, hne, hdata, -, -⟩
  · exact absurd hlt hover
  · exact ⟨s', heq⟩
  · rw [hbody] at hdata
    exact absurd (append_eq_nil_iff.mp hdata.symm).1 hne

theorem finish_eq_ok_iff {s : Source} : s.finish = .ok () ↔ s.bytes = [] ∧ ¬s.Over := by
  unfold finish
  constructor
  · intro h
    cases hnext : s.next with
    | error e =>
        rw [hnext] at h
        cases h
    | ok next =>
        obtain ⟨data, s'⟩ := next
        cases data with
        | none => exact next_none hnext
        | some data =>
            rw [hnext] at h
            cases h
  · rintro ⟨hbytes, hover⟩
    obtain ⟨s', hnext⟩ := exists_next_none hover hbytes
    rw [hnext]
    rfl

/-- What a reader does not use of a piece goes back to the front. -/
theorem Consumes.putBack {s s' : Source} {data used rest : List UInt8} (h : s.Consumes data s')
    (hpending : s'.pending = []) (hdata : data = used ++ rest) :
    s.Consumes used { s' with pending := rest } where
  bytes := by
    rw [h.bytes, hdata, append_assoc]
    unfold Source.bytes
    rw [hpending, nil_append]
  overrun := h.overrun

theorem take_sound {s s' : Source} {max : ℕ} {data : List UInt8}
    (h : s.take max = .ok (data, s')) :
    s.Consumes data s' ∧ data.length ≤ max ∧ (0 < max → data ≠ []) := by
  unfold take at h
  split at h
  · cases h
  · cases h
  · next piece s'' hnext =>
      cases h
      obtain ⟨hne, hpending, hreads⟩ := next_some hnext
      have hpos := length_pos_iff.mpr hne
      refine ⟨hreads.putBack hpending (take_append_drop _ _).symm, ?_, fun hmax hnil => ?_⟩
      · rw [length_take]
        omega
      · have hlength := congrArg length hnil
        rw [length_take, length_nil] at hlength
        omega

theorem exists_take {s : Source} (hover : ¬s.Over) (hbytes : s.bytes ≠ []) (max : ℕ) :
    ∃ data s', s.take max = .ok (data, s') := by
  obtain ⟨data, s', hnext⟩ := exists_next hover hbytes
  unfold take
  rw [hnext]
  exact ⟨_, _, rfl⟩

/-- Bytes that stand as a line: the line end does not come before its end, and both fit. -/
def LineText (line : List UInt8) : Prop := ¬[13, 10] <:+: line ∧ line.length + 2 ≤ 8192

theorem isSuffixOf_iff (line : List UInt8) :
    [13, 10].isSuffixOf line = true ↔ [13, 10] <:+ line := isSuffixOf_iff_suffix

/-- No line end of the text ends behind the first `n` bytes. -/
def NoEndBehind (n : ℕ) (text : List UInt8) : Prop :=
  ∀ front, front ++ [13, 10] <+: text → front.length + 2 ≤ n

/-- A line end that is not the last byte has been seen before. -/
theorem NoEndBehind.of_succ {acc : List UInt8} {byte : UInt8} {text : List UInt8}
    (h : NoEndBehind (acc ++ [byte]).length text) (hgrown : acc ++ [byte] <+: text)
    (hend : ¬[13, 10].isSuffixOf (acc ++ [byte]) = true) : NoEndBehind acc.length text := by
  intro front hfront
  have hle := h front hfront
  rw [length_append, length_singleton] at hle
  by_contra hlt
  apply hend
  rw [isSuffixOf_iff]
  refine ⟨front, ?_⟩
  have hlength : (front ++ [13, 10]).length = (acc ++ [byte]).length := by
    simp
    omega
  exact (prefix_of_prefix_length_le hfront hgrown (Nat.le_of_eq hlength)).eq_of_length
    hlength

/-- The loop stops at the first line end behind `acc`. -/
theorem lineStep_done {acc data line rest : List UInt8} (h : lineStep acc data = .done line rest) :
    ∃ used, data = used ++ rest ∧ acc ++ used = line ++ [13, 10] ∧ line.length + 2 ≤ 8192 ∧
      NoEndBehind acc.length (line ++ [13]) := by
  induction data generalizing acc with
  | nil => cases h
  | cons byte data ih =>
      unfold lineStep at h
      split at h
      · cases h
      next hlength =>
        split at h
        · next hend =>
            obtain ⟨front, hfront⟩ := (isSuffixOf_iff _).mp hend
            cases h
            have htake : (acc ++ [byte]).take ((acc ++ [byte]).length - 2) = front := by
              rw [← hfront, length_append]
              simp
            rw [htake]
            have hlen := congrArg length hfront
            simp only [length_append, length_cons, length_nil] at hlen hlength
            refine ⟨[byte], rfl, hfront.symm, by omega, fun front' hfront => ?_⟩
            have hle := hfront.length_le
            simp only [length_append, length_cons, length_nil] at hle
            omega
        · next hend =>
            obtain ⟨used, hused, hline, hle, hfirst⟩ := ih h
            rw [append_assoc, singleton_append] at hline
            refine ⟨byte :: used, by rw [hused, cons_append], hline, hle, ?_⟩
            refine hfirst.of_succ ?_ hend
            have hgrown : acc ++ [byte] <+: line ++ [13, 10] := ⟨used, by rw [← hline]; simp⟩
            have hfront' : line ++ [13] <+: line ++ [13, 10] := ⟨[10], by simp⟩
            refine prefix_of_prefix_length_le hgrown hfront' ?_
            by_contra hlt
            have hlength := hgrown.length_le
            have hwhole := hgrown.eq_of_length (by simp at hlt hlength ⊢; omega)
            apply hend
            rw [hwhole, isSuffixOf_iff]
            exact suffix_append _ _

theorem lineStep_more {acc data line : List UInt8} (h : lineStep acc data = .more line) :
    line = acc ++ data ∧ NoEndBehind acc.length (acc ++ data) := by
  induction data generalizing acc with
  | nil =>
      cases h
      rw [append_nil]
      refine ⟨rfl, fun front hfront => ?_⟩
      simpa using hfront.length_le
  | cons byte data ih =>
      unfold lineStep at h
      split at h
      · cases h
      split at h
      · cases h
      next hend =>
        obtain ⟨hline, hfirst⟩ := ih h
        rw [append_assoc, singleton_append] at hline hfirst
        exact ⟨hline, hfirst.of_succ ⟨data, by simp⟩ hend⟩

/-- The first line end of a line that is one is the one behind it. -/
theorem LineText.eq_of_isPrefix {line front : List UInt8} (h : LineText line)
    (hfront : front ++ [13, 10] <+: line ++ [13, 10]) : front = line := by
  have hlength := hfront.length_le
  simp only [length_append, length_cons, length_nil] at hlength
  obtain ⟨back, hback⟩ := hfront
  have hlengths := congrArg length hback
  simp only [length_append, length_cons, length_nil] at hlengths
  rcases (by omega : front.length = line.length ∨ front.length + 1 = line.length ∨
    front.length + 2 ≤ line.length) with heq | heq | hle
  · rw [append_assoc] at hback
    exact (append_inj hback heq).1
  · -- the line would end with the first half of it
    have hhalf : (front ++ [13]) ++ (10 :: back) = line ++ [13, 10] := by
      rw [← hback]
      simp
    have htail := (append_inj hhalf (by simpa using heq)).2
    cases htail
  · have hinside : front ++ [13, 10] <+: line :=
      prefix_of_prefix_length_le ⟨back, hback⟩ (prefix_append _ _) (by simpa using hle)
    exact absurd ((suffix_append front [13, 10]).isInfix.trans hinside.isInfix) h.1

theorem lineStep_eq {acc data later line rest : List UInt8}
    (hbytes : acc ++ data ++ later = line ++ [13, 10] ++ rest) (hline : LineText line)
    (hacc : acc.length < line.length + 2) :
    (acc ++ data).length < line.length + 2 ∧ lineStep acc data = .more (acc ++ data) ∨
      ∃ rest', lineStep acc data = .done line rest' ∧ rest = rest' ++ later := by
  induction data generalizing acc with
  | nil =>
      left
      rw [append_nil]
      exact ⟨hacc, rfl⟩
  | cons byte data ih =>
      have hle := hline.2
      have hlength : (acc ++ [byte]).length = acc.length + 1 := by simp
      have hgrown : acc ++ [byte] <+: line ++ [13, 10] := by
        have hfront : acc ++ [byte] <+: acc ++ byte :: data ++ later := ⟨data ++ later, by simp⟩
        refine prefix_of_prefix_length_le hfront ⟨rest, hbytes.symm⟩ ?_
        rw [hlength, length_append]
        exact hacc
      unfold lineStep
      rw [if_neg (by omega)]
      split
      · next hend =>
          right
          obtain ⟨front, hfront⟩ := (isSuffixOf_iff _).mp hend
          rw [← hfront] at hgrown hlength
          have heq := hline.eq_of_isPrefix hgrown
          subst heq
          have hall : front ++ [13, 10] ++ (data ++ later) = front ++ [13, 10] ++ rest := by
            rw [← hbytes, hfront]
            simp
          refine ⟨data, ?_, (append_cancel_left hall).symm⟩
          rw [← hfront, length_append]
          simp
      · next hend =>
          have hne : acc.length + 1 ≠ line.length + 2 := by
            intro heq
            apply hend
            have hwhole := hgrown.eq_of_length (by rw [hlength, heq]; simp)
            rw [hwhole, isSuffixOf_iff]
            exact suffix_append _ _
          have hbytes' : acc ++ [byte] ++ data ++ later = line ++ [13, 10] ++ rest := by
            simpa using hbytes
          have hnext := ih hbytes' (by
            rw [hlength]
            omega)
          rwa [append_assoc, singleton_append] at hnext

theorem lineBytes_sound {s s' : Source} {acc line : List UInt8}
    (h : s.lineBytes acc = .ok (line, s')) :
    ∃ used, s.Consumes used s' ∧ acc ++ used = line ++ [13, 10] ∧ line.length + 2 ≤ 8192 ∧
      NoEndBehind acc.length (line ++ [13]) := by
  fun_induction Source.lineBytes s acc with
  | case1 => cases h
  | case2 => cases h
  | case3 => cases h
  | case4 s acc data s'' hnext line' rest hstep =>
      cases h
      obtain ⟨hne, hpending, hreads⟩ := next_some hnext
      obtain ⟨used, hused, hline, hle, hfirst⟩ := lineStep_done hstep
      exact ⟨used, hreads.putBack hpending hused, hline, hle, hfirst⟩
  | case5 s acc data s'' hnext line' hstep ih =>
      obtain ⟨hne, -, hreads⟩ := next_some hnext
      obtain ⟨rfl, hnone⟩ := lineStep_more hstep
      obtain ⟨used, hreads', hline, hle, hfirst⟩ := ih h
      refine ⟨data ++ used, hreads.trans hreads', by rw [← hline, append_assoc], hle, ?_⟩
      -- an end within what was at hand would have been found there
      intro front hfront
      have hlong := hfirst front hfront
      apply hnone
      have hwhole : front ++ [13, 10] <+: line ++ [13, 10] :=
        hfront.trans ⟨[10], by simp⟩
      exact prefix_of_prefix_length_le hwhole ⟨used, hline⟩ (by simpa using hlong)

theorem exists_lineBytes {s : Source} {acc line rest : List UInt8} (hover : ¬s.Over)
    (hbytes : acc ++ s.bytes = line ++ [13, 10] ++ rest) (hline : LineText line)
    (hacc : acc.length < line.length + 2) : ∃ s', s.lineBytes acc = .ok (line, s') := by
  have hne : s.bytes ≠ [] := by
    intro hnil
    have hlength := congrArg length hbytes
    rw [hnil] at hlength
    simp at hlength
    omega
  -- what the loop does with the piece it is given
  have hstep : ∀ {data : List UInt8} {s'' : Source}, s.next = .ok (some data, s'') →
      ¬s''.Over ∧ acc ++ data ++ s''.bytes = line ++ [13, 10] ++ rest := by
    intro data s'' hnext
    obtain ⟨-, -, hreads⟩ := next_some hnext
    rw [append_assoc, ← hreads.bytes]
    exact ⟨fun h => hover (hreads.overrun.mp h), hbytes⟩
  fun_induction Source.lineBytes s acc with
  | case1 s acc e hnext =>
      obtain ⟨data, s', heq⟩ := exists_next hover hne
      rw [hnext] at heq
      cases heq
  | case2 s acc s'' hnext => exact absurd (next_none hnext).1 hne
  | case3 s acc data s'' hnext htoo =>
      rcases lineStep_eq (hstep hnext).2 hline hacc with ⟨-, heq⟩ | ⟨rest', heq, -⟩
      · rw [htoo] at heq
        cases heq
      · rw [htoo] at heq
        cases heq
  | case4 s acc data s'' hnext line' rest' hdone =>
      rcases lineStep_eq (hstep hnext).2 hline hacc with ⟨-, heq⟩ | ⟨rest', heq, -⟩
      · rw [hdone] at heq
        cases heq
      · rw [hdone] at heq
        cases heq
        exact ⟨_, rfl⟩
  | case5 s acc data s'' hnext line' hmore ih =>
      obtain ⟨hover', hbytes'⟩ := hstep hnext
      rcases lineStep_eq hbytes' hline hacc with ⟨hlt, heq⟩ | ⟨rest', heq, -⟩
      · rw [hmore] at heq
        cases heq
        refine ih hover' hbytes' hlt ?_ ?_
        · intro hnil
          have hlength := congrArg length hbytes'
          rw [hnil] at hlength
          simp at hlength hlt
          omega
        · intro data' s₃ hnext'
          obtain ⟨-, -, hreads⟩ := next_some hnext'
          rw [append_assoc, ← hreads.bytes]
          exact ⟨fun h => hover' (hreads.overrun.mp h), hbytes'⟩
      · rw [hmore] at heq
        cases heq

/-- A text as a line on the wire. -/
def encodeLine (text : List Char) : List UInt8 := Utf8.encode text ++ [13, 10]

theorem line_sound {s s' : Source} {text : List Char} (h : s.line = .ok (text, s')) :
    s.Consumes (encodeLine text) s' ∧ LineText (Utf8.encode text) := by
  unfold line at h
  obtain ⟨⟨bytes, s''⟩, hbytes, h⟩ := Except.bind_eq_ok.mp h
  dsimp only at h
  split at h
  · cases h
  · next text' htext =>
      cases h
      have hencode := Utf8.decode?_eq_some_iff.mp htext
      obtain ⟨used, hreads, hused, hle, hfirst⟩ := lineBytes_sound hbytes
      rw [nil_append] at hused
      unfold encodeLine
      rw [hencode]
      refine ⟨hused ▸ hreads, fun ⟨front, back, hinside⟩ => ?_, hle⟩
      have hlong := hfirst front ⟨back ++ [13], by rw [← hinside]; simp⟩
      simp at hlong

theorem exists_line {s : Source} {text : List Char} {rest : List UInt8} (hover : ¬s.Over)
    (hbytes : s.bytes = encodeLine text ++ rest) (htext : LineText (Utf8.encode text)) :
    ∃ s', s.line = .ok (text, s') ∧ s'.bytes = rest ∧ ¬s'.Over := by
  have hall : [] ++ s.bytes = Utf8.encode text ++ [13, 10] ++ rest := by
    rw [nil_append]
    exact hbytes
  obtain ⟨s', hline⟩ := exists_lineBytes hover hall htext (Nat.succ_pos _)
  have hok : s.line = .ok (text, s') := by
    unfold line
    rw [hline]
    dsimp only [bind, Except.bind]
    rw [Utf8.decode?_eq_some_iff.mpr rfl]
    rfl
  obtain ⟨hreads, -⟩ := line_sound hok
  refine ⟨s', hok, ?_, fun h => hover (hreads.overrun.mp h)⟩
  have hboth := hreads.bytes
  rw [hbytes] at hboth
  exact (append_cancel_left hboth).symm

end Source

/-! ## Lines -/

def isHexDigit (c : Char) : Bool :=
  ('0' ≤ c && c ≤ '9') || ('a' ≤ c && c ≤ 'f') || ('A' ≤ c && c ≤ 'F')

def hexDigitValue (c : Char) : ℕ :=
  if '0' ≤ c && c ≤ '9' then c.toNat - '0'.toNat
  else if 'a' ≤ c && c ≤ 'f' then c.toNat - 'a'.toNat + 10
  else c.toNat - 'A'.toNat + 10

/-- `u64::from_str_radix(digits, 16)` for at most sixteen digits. -/
def hexNumber (digits : List Char) : ℕ := digits.foldl (fun n c => n * 16 + hexDigitValue c) 0

/-- The two parts of a size line. -/
def splitSizeLine (line : List Char) :
    Except UploadError (List Char × Option (List Char)) :=
  match splitOnce ';' line with
  | some (size, extension) =>
    match stripStart "chunk-signature=".toList extension with
    | none => .error (.invalid "invalid chunk extension")
    | some signature => .ok (size, some signature)
  | none => .ok (line, none)

/-- A size line: the size and the signature. -/
def readSizeLine (line : List Char) : Except UploadError (ℕ × Option (List Char)) := do
  let (sizeText, signature) ← splitSizeLine line
  if sizeText.isEmpty ∨ 16 < sizeText.length ∨ !sizeText.all isHexDigit then
    .error (.invalid "invalid chunk size")
  else if s3ObjectBodyLimit < hexNumber sizeText then
    .error (.invalid "chunk exceeds object budget")
  else return (hexNumber sizeText, signature)

abbrev Trailers := SortedMap String String compare

def supportedTrailers : List String :=
  ["x-amz-checksum-crc32", "x-amz-checksum-crc32c", "x-amz-checksum-crc64nvme",
    "x-amz-checksum-sha1", "x-amz-checksum-sha256", "x-amz-trailer-signature"]

/-- One trailing header. -/
def readTrailer (trailers : Trailers) (line : List Char) : Except UploadError Trailers :=
  if 8 ≤ trailers.entries.length then .error (.invalid "too many trailing headers")
  else
    match splitOnce ':' line with
    | none => .error (.invalid "invalid trailer")
    | some (name, value) =>
      let name := String.ofList (name.map Char.toLower)
      if name ∉ supportedTrailers then .error (.invalid "unsupported trailer")
      else if (trailers.get? name).isSome then .error (.invalid "duplicate trailer")
      else .ok (trailers.insert name (String.ofList (trim value)))

end Rustack.S3
