import Rustack.Lib.Fields
import Rustack.S3.Upload

/-!
# The `aws-chunked` decoder

The loops of the decoder, and the uploads they accept: chunks with their size lines, a
last size line, trailing headers.  The decoder accepts exactly the bytes of a well
formed upload, in whatever frames they come.
-/

namespace Rustack.S3

open DynamoDB (trim)
open List Source

/-! ## The loops -/

namespace Source

/-- Write the bytes of one chunk; the digest of the chunk is taken on the way. -/
def copyData (s : Source) (w : UploadWriter) (chunk : List UInt8) (remaining : ℕ) :
    Except UploadError (Source × UploadWriter × List UInt8) :=
  if remaining = 0 then .ok (s, w, chunk)
  else
    match _h : s.take remaining with
    | .error e => .error e
    | .ok (data, s) =>
      match w.write data with
      | .error e => .error e
      | .ok w => s.copyData w (chunk ++ data) (remaining - data.length)
  termination_by remaining
  decreasing_by
    have hpos := List.length_pos_iff.mpr ((take_sound _h).2.2 (Nat.pos_of_ne_zero ‹_›))
    omega

theorem bytes_line_lt {s s' : Source} {text : List Char} (h : s.line = .ok (text, s')) :
    s'.bytes.length < s.bytes.length :=
  (line_sound h).1.length_lt (by simp [encodeLine])

def readTrailers (s : Source) (trailers : Trailers) : Except UploadError Trailers :=
  match _h : s.line with
  | .error e => .error e
  | .ok (line, s') =>
    if line.isEmpty then s'.finish.map fun _ => trailers
    else
      match readTrailer trailers line with
      | .error e => .error e
      | .ok trailers => s'.readTrailers trailers
  termination_by s.bytes.length
  decreasing_by exact bytes_line_lt _h

end Source

/-- Without a verifier a signature is not looked at. -/
def verify (env : SigningEnv) (verifier : Option StreamingVerifier) (chunk : List UInt8)
    (signature : Option (List Char)) : Except UploadError (Option StreamingVerifier) :=
  match verifier with
  | none => .ok none
  | some v =>
    match signature with
    | none => .error (.denied "missing chunk signature")
    | some signature =>
      match v.verifyChunk env (env.hashPayload chunk) (String.ofList signature) with
      | none => .error (.denied "SignatureDoesNotMatch")
      | some v => .ok (some v)

structure Decoder where
  source : Source
  writer : UploadWriter
  verifier : Option StreamingVerifier

namespace Decoder

/-- A size line and the bytes it announces. -/
def readChunk (env : SigningEnv) (d : Decoder) : Except UploadError (ℕ × Decoder) := do
  let (line, s) ← d.source.line
  let (size, signature) ← readSizeLine line
  let (s, w, chunk) ← s.copyData d.writer [] size
  let v ← verify env d.verifier chunk signature
  return (size, { source := s, writer := w, verifier := v })

end Decoder

/-! ## Pieces of lines -/

theorem splitOnce_eq_some_iff {c : Char} {chars before behind : List Char} :
    splitOnce c chars = some (before, behind) ↔ chars = before ++ c :: behind ∧ c ∉ before :=
  Text.splitOnce_eq_some_iff

theorem splitOnce_eq_none_iff {c : Char} {chars : List Char} :
    splitOnce c chars = none ↔ c ∉ chars :=
  Text.splitOnce_eq_none_iff

theorem stripStart_eq_some_iff {start chars rest : List Char} :
    stripStart start chars = some rest ↔ chars = start ++ rest := by
  unfold stripStart
  constructor
  · intro h
    split at h
    · next hfront =>
        cases h
        obtain ⟨rest, rfl⟩ := isPrefixOf_iff_prefix.mp hfront
        simp
    · cases h
  · rintro rfl
    rw [if_pos ( isPrefixOf_iff_prefix.mpr (prefix_append _ _)), drop_left]

/-! ## Well formed uploads -/

/-- The size of a chunk in hexadecimal digits, and its signature. -/
structure SizeLine where
  digits : List Char
  signature : Option (List Char)

namespace SizeLine

def text (l : SizeLine) : List Char :=
  match l.signature with
  | none => l.digits
  | some signature => l.digits ++ ';' :: ("chunk-signature=".toList ++ signature)

def size (l : SizeLine) : ℕ := hexNumber l.digits

structure WellFormed (l : SizeLine) : Prop where
  digits_ne_nil : l.digits ≠ []
  digits_length : l.digits.length ≤ 16
  digits_hex : ∀ c ∈ l.digits, isHexDigit c = true
  size_le : l.size ≤ s3ObjectBodyLimit
  line : Source.LineText (Utf8.encode l.text)

end SizeLine

theorem splitSizeLine_text (l : SizeLine) (h : ';' ∉ l.digits) :
    splitSizeLine l.text = .ok (l.digits, l.signature) := by
  unfold splitSizeLine SizeLine.text
  cases l.signature with
  | none =>
      dsimp only
      rw [splitOnce_eq_none_iff.mpr h]
  | some signature =>
      dsimp only
      rw [splitOnce_eq_some_iff.mpr ⟨rfl, h⟩]
      dsimp only
      rw [stripStart_eq_some_iff.mpr rfl]

theorem splitSizeLine_sound {line digits : List Char} {signature : Option (List Char)}
    (h : splitSizeLine line = .ok (digits, signature)) :
    (SizeLine.mk digits signature).text = line := by
  unfold splitSizeLine at h
  split at h
  · next before behind hsemicolon =>
      obtain ⟨rfl, -⟩ := splitOnce_eq_some_iff.mp hsemicolon
      split at h
      · cases h
      · next rest hstrip =>
          cases h
          rw [stripStart_eq_some_iff.mp hstrip]
          rfl
  · cases h
    rfl

theorem sizeChecks_iff (digits : List Char) :
    ¬(digits.isEmpty ∨ 16 < digits.length ∨ !digits.all isHexDigit) ↔
      digits ≠ [] ∧ digits.length ≤ 16 ∧ ∀ c ∈ digits, isHexDigit c = true := by
  rw [not_or, not_or, Bool.not_eq_true, isEmpty_eq_false_iff, Bool.not_eq_true,
    Bool.not_eq_false', all_eq_true, Nat.not_lt]

theorem readSizeLine_text {l : SizeLine} (h : l.WellFormed) :
    readSizeLine l.text = .ok (l.size, l.signature) := by
  have hsemicolon : ';' ∉ l.digits := fun hmem => absurd (h.digits_hex _ hmem) (by decide)
  have hsize : ¬s3ObjectBodyLimit < hexNumber l.digits := Nat.not_lt_of_le h.size_le
  unfold readSizeLine
  rw [splitSizeLine_text l hsemicolon]
  dsimp only [bind, Except.bind]
  rw [if_neg ((sizeChecks_iff l.digits).mpr ⟨h.digits_ne_nil, h.digits_length, h.digits_hex⟩),
    if_neg hsize]
  rfl

theorem readSizeLine_sound {line : List Char} {size : ℕ} {signature : Option (List Char)}
    (h : readSizeLine line = .ok (size, signature))
    (hline : Source.LineText (Utf8.encode line)) :
    ∃ l : SizeLine, l.WellFormed ∧ l.text = line ∧ l.size = size ∧ l.signature = signature := by
  unfold readSizeLine at h
  obtain ⟨⟨digits, signature'⟩, hsplit, h⟩ := Except.bind_eq_ok.mp h
  dsimp only at h
  split at h
  · cases h
  next hchecks =>
    split at h
    · cases h
    next hsize =>
      cases h
      have htext := splitSizeLine_sound hsplit
      obtain ⟨hne, hlength, hhex⟩ := (sizeChecks_iff digits).mp hchecks
      refine ⟨⟨digits, signature⟩, ⟨hne, hlength, hhex, Nat.le_of_not_lt hsize, ?_⟩, htext, rfl,
        rfl⟩
      rw [htext]
      exact hline

/-- A trailing header. -/
structure TrailerLine where
  name : List Char
  value : List Char

namespace TrailerLine

def text (t : TrailerLine) : List Char := t.name ++ ':' :: t.value

/-- The name it is kept under. -/
def key (t : TrailerLine) : String := String.ofList (t.name.map Char.toLower)

structure WellFormed (t : TrailerLine) : Prop where
  name : ':' ∉ t.name
  key_mem : t.key ∈ supportedTrailers
  line : Source.LineText (Utf8.encode t.text)

def insert (trailers : Trailers) (t : TrailerLine) : Trailers :=
  trailers.insert t.key (String.ofList (trim t.value))

end TrailerLine

/-- The map of some trailing headers. -/
def trailerMap (lines : List TrailerLine) : Trailers :=
  lines.foldl TrailerLine.insert SortedMap.empty

/-! ## Trailing headers -/

theorem readTrailer_text {t : TrailerLine} (h : t.WellFormed) {trailers : Trailers}
    (hlength : trailers.entries.length < 8) (hfresh : trailers.get? t.key = none) :
    readTrailer trailers t.text = .ok (t.insert trailers) := by
  have hsplit : splitOnce ':' t.text = some (t.name, t.value) :=
    splitOnce_eq_some_iff.mpr ⟨rfl, h.name⟩
  have hkey : ¬String.ofList (t.name.map Char.toLower) ∉ supportedTrailers :=
    not_not.mpr h.key_mem
  have hget : ¬(trailers.get? (String.ofList (t.name.map Char.toLower))).isSome = true := by
    rw [show trailers.get? (String.ofList (t.name.map Char.toLower)) = none from hfresh]
    exact Bool.false_ne_true
  unfold readTrailer
  rw [if_neg (Nat.not_le_of_lt hlength), hsplit]
  dsimp only
  rw [if_neg hkey, if_neg hget]
  rfl

theorem readTrailer_sound {trailers trailers' : Trailers} {line : List Char}
    (h : readTrailer trailers line = .ok trailers')
    (hline : Source.LineText (Utf8.encode line)) :
    ∃ t : TrailerLine, t.WellFormed ∧ t.text = line ∧ trailers.get? t.key = none ∧
      trailers' = t.insert trailers := by
  unfold readTrailer at h
  split at h
  · cases h
  split at h
  · cases h
  next name value hsplit =>
    obtain ⟨rfl, hcolon⟩ := splitOnce_eq_some_iff.mp hsplit
    dsimp only at h
    split at h
    · cases h
    next hkey =>
      split at h
      · cases h
      next hget =>
        cases h
        rw [Bool.not_eq_true, Option.isSome_eq_false_iff, Option.isNone_iff_eq_none] at hget
        exact ⟨⟨name, value⟩, ⟨hcolon, not_not.mp hkey, hline⟩, rfl, hget, rfl⟩

/-- Headers whose names are new and told apart. -/
structure FreshKeys (trailers : Trailers) (lines : List TrailerLine) : Prop where
  nodup : (lines.map TrailerLine.key).Nodup
  get? : ∀ t ∈ lines, trailers.get? t.key = none

theorem freshKeys_cons {trailers : Trailers} {t : TrailerLine} {lines : List TrailerLine} :
    FreshKeys trailers (t :: lines) ↔
      trailers.get? t.key = none ∧ FreshKeys (t.insert trailers) lines := by
  have hget : ∀ key, (t.insert trailers).get? key =
      if t.key = key then some (String.ofList (trim t.value)) else trailers.get? key := by
    intro key
    rw [TrailerLine.insert, SortedMap.get?_insert]
    simp only [Std.LawfulEqCmp.compare_eq_iff_eq]
  constructor
  · intro h
    have hnodup := h.nodup
    rw [map_cons, nodup_cons] at hnodup
    refine ⟨h.get? t mem_cons_self, hnodup.2, fun t' ht' => ?_⟩
    rw [hget, if_neg]
    · exact h.get? t' (.tail _ ht')
    · intro heq
      exact hnodup.1 (heq ▸ mem_map_of_mem ht')
  · rintro ⟨hnone, h⟩
    have hne : ∀ t' ∈ lines, t.key ≠ t'.key ∧ trailers.get? t'.key = none := by
      intro t' ht'
      have hnone' := h.get? t' ht'
      rw [hget] at hnone'
      split at hnone'
      · cases hnone'
      · next hne => exact ⟨hne, hnone'⟩
    refine ⟨?_, fun t' ht' => ?_⟩
    · rw [map_cons, nodup_cons]
      refine ⟨fun hmem => ?_, h.nodup⟩
      obtain ⟨t', ht', heq⟩ := mem_map.mp hmem
      exact (hne t' ht').1 heq.symm
    · rcases mem_cons.mp ht' with rfl | ht'
      · exact hnone
      · exact (hne t' ht').2

/-- Trailing headers on the wire. -/
def encodeTrailers (lines : List TrailerLine) : List UInt8 :=
  lines.flatMap fun t => Source.encodeLine t.text

theorem readTrailers_sound {s : Source} {trailers trailers' : Trailers}
    (h : s.readTrailers trailers = .ok trailers') :
    ¬s.Over ∧ ∃ lines : List TrailerLine, (∀ t ∈ lines, t.WellFormed) ∧
      FreshKeys trailers lines ∧ s.bytes = encodeTrailers lines ++ [13, 10] ∧
      trailers' = lines.foldl TrailerLine.insert trailers := by
  fun_induction readTrailers s trailers with
  | case1 => cases h
  | case2 s trailers line s' hline hempty =>
      obtain ⟨hreads, -⟩ := line_sound hline
      cases hfinish : s'.finish with
      | error e =>
          rw [hfinish] at h
          cases h
      | ok =>
          rw [hfinish] at h
          cases h
          obtain ⟨hbytes, hover⟩ := finish_eq_ok_iff.mp hfinish
          refine ⟨fun hs => hover (hreads.overrun.mpr hs), [], fun _ ht => absurd ht not_mem_nil,
            ⟨nodup_nil, fun _ ht => absurd ht not_mem_nil⟩, ?_, rfl⟩
          rw [hreads.bytes, hbytes, isEmpty_iff.mp hempty]
          rfl
  | case3 => cases h
  | case4 s trailers line s' hline hne next hread ih =>
      obtain ⟨hreads, htext⟩ := line_sound hline
      obtain ⟨t, hwell, rfl, hnone, rfl⟩ := readTrailer_sound hread htext
      obtain ⟨hover, lines, hlines, hfresh, hbytes, rfl⟩ := ih h
      refine ⟨fun hs => hover (hreads.overrun.mpr hs), t :: lines, ?_,
        freshKeys_cons.mpr ⟨hnone, hfresh⟩, ?_, rfl⟩
      · intro t' ht'
        rcases mem_cons.mp ht' with rfl | ht'
        · exact hwell
        · exact hlines t' ht'
      · rw [hreads.bytes, hbytes, encodeTrailers, encodeTrailers, flatMap_cons,
          append_assoc]

theorem readTrailers_eq {s : Source} {trailers : Trailers} {lines : List TrailerLine}
    (hover : ¬s.Over) (hwell : ∀ t ∈ lines, t.WellFormed) (hfresh : FreshKeys trailers lines)
    (hlength : trailers.entries.length + lines.length ≤ 8)
    (hbytes : s.bytes = encodeTrailers lines ++ [13, 10]) :
    s.readTrailers trailers = .ok (lines.foldl TrailerLine.insert trailers) := by
  induction lines generalizing s trailers with
  | nil =>
      have hempty : Source.LineText (Utf8.encode []) :=
        ⟨fun hinside => absurd hinside.length_le (by decide), by decide⟩
      have hend : s.bytes = encodeLine [] ++ [] := by
        rw [hbytes]
        rfl
      obtain ⟨s', hline, hrest, hover'⟩ := exists_line hover hend hempty
      rw [readTrailers, hline]
      dsimp only
      rw [if_pos isEmpty_nil, finish_eq_ok_iff.mpr ⟨hrest, hover'⟩]
      rfl
  | cons t lines ih =>
      obtain ⟨hnone, hfresh⟩ := freshKeys_cons.mp hfresh
      have ht := hwell t (.head _)
      rw [length_cons] at hlength
      have hfirst : s.bytes =
          encodeLine t.text ++ (encodeTrailers lines ++ [13, 10]) := by
        rw [hbytes, encodeTrailers, encodeTrailers, flatMap_cons, append_assoc]
      obtain ⟨s', hline, hrest, hover'⟩ := exists_line hover hfirst ht.line
      have hne : ¬t.text.isEmpty = true := by
        unfold TrailerLine.text
        simp
      rw [readTrailers, hline]
      dsimp only
      rw [if_neg hne, readTrailer_text ht (by omega) hnone]
      refine ih hover' (fun t' ht' => hwell t' (.tail _ ht')) hfresh ?_ hrest
      have hinsert : (t.insert trailers).entries.length ≤ trailers.entries.length + 1 :=
        SortedMap.length_insertEntry_le _ _ _
      omega

/-! ## Chunks -/

theorem copyData_sound {s s' : Source} {w w' : UploadWriter} {chunk chunk' : List UInt8}
    {remaining : ℕ} (h : s.copyData w chunk remaining = .ok (s', w', chunk'))
    (hw : w.data.length ≤ w.limit) :
    ∃ data, data.length = remaining ∧ s.Consumes data s' ∧ chunk' = chunk ++ data ∧
      w' = { w with data := w.data ++ data } ∧ w'.data.length ≤ w'.limit := by
  fun_induction copyData s w chunk remaining with
  | case1 s w chunk =>
      cases h
      refine ⟨[], rfl, ⟨rfl, Iff.rfl⟩, (append_nil _).symm, ?_, hw⟩
      rw [append_nil]
  | case2 => cases h
  | case3 => cases h
  | case4 s w chunk remaining hne data s'' htake next hwrite ih =>
      obtain ⟨hreads, hle, -⟩ := take_sound htake
      unfold UploadWriter.write at hwrite
      split at hwrite
      · cases hwrite
      next hlimit =>
        cases hwrite
        obtain ⟨rest, hrest, hreads', rfl, rfl, hfits⟩ := ih h (by
          rw [length_append]
          exact Nat.le_of_not_lt hlimit)
        refine ⟨data ++ rest, ?_, hreads.trans hreads', append_assoc .., ?_, hfits⟩
        · rw [length_append, hrest]
          omega
        · rw [append_assoc]

theorem copyData_eq {s : Source} {w : UploadWriter} {chunk data rest : List UInt8}
    (hover : ¬s.Over) (hbytes : s.bytes = data ++ rest)
    (hlimit : w.data.length + data.length ≤ w.limit) :
    ∃ s', s.copyData w chunk data.length =
        .ok (s', { w with data := w.data ++ data }, chunk ++ data) ∧
      s'.bytes = rest ∧ ¬s'.Over := by
  generalize hremaining : data.length = remaining
  induction remaining using Nat.strong_induction_on generalizing s w chunk data with
  | _ remaining ih =>
      by_cases hzero : remaining = 0
      · have hnil : data = [] := length_eq_zero_iff.mp (hremaining.trans hzero)
        subst hnil
        refine ⟨s, ?_, hbytes, hover⟩
        rw [copyData, if_pos hzero, append_nil, append_nil]
      · have hne : s.bytes ≠ [] := by
          intro hnil
          rw [hnil] at hbytes
          have hdata := (append_eq_nil_iff.mp hbytes.symm).1
          rw [hdata] at hremaining
          exact hzero hremaining.symm
        obtain ⟨piece, s', htake⟩ := exists_take hover hne remaining
        obtain ⟨hreads, hle, hpos⟩ := take_sound htake
        have hpiece := length_pos_iff.mpr (hpos (Nat.pos_of_ne_zero hzero))
        -- the piece is the front of the data
        obtain ⟨later, hlater⟩ : ∃ later, data = piece ++ later := by
          have hfront : piece <+: data := by
            have hread : piece <+: s.bytes := by
              rw [hreads.bytes]
              exact prefix_append _ _
            have hdata : data <+: s.bytes := by
              rw [hbytes]
              exact prefix_append _ _
            exact prefix_of_prefix_length_le hread hdata (by omega)
          obtain ⟨later, hlater⟩ := hfront
          exact ⟨later, hlater.symm⟩
        subst hlater
        have hbytes' : s'.bytes = later ++ rest := by
          have hboth := hreads.bytes
          rw [hbytes, append_assoc] at hboth
          exact (append_cancel_left hboth).symm
        rw [length_append] at hremaining hlimit
        have hwrite : w.write piece = .ok { w with data := w.data ++ piece } := by
          unfold UploadWriter.write
          rw [if_neg (by omega)]
        have hlimit' : (w.data ++ piece).length + later.length ≤ w.limit := by
          rw [length_append]
          omega
        obtain ⟨s'', hcopy, hrest, hover'⟩ := @ih later.length (by omega) s'
          { w with data := w.data ++ piece } (chunk ++ piece) later
          (fun hs => hover (hreads.overrun.mp hs)) hbytes' hlimit' rfl
        refine ⟨s'', ?_, hrest, hover'⟩
        rw [copyData, if_neg hzero, htake]
        dsimp only
        rw [hwrite]
        dsimp only
        rw [show remaining - piece.length = later.length by omega, hcopy, append_assoc,
          append_assoc]

theorem bytes_copyData_le {s s' : Source} {w w' : UploadWriter} {chunk chunk' : List UInt8}
    {remaining : ℕ} (h : s.copyData w chunk remaining = .ok (s', w', chunk')) :
    s'.bytes.length ≤ s.bytes.length := by
  fun_induction copyData s w chunk remaining with
  | case1 =>
      cases h
      exact Nat.le_refl _
  | case2 => cases h
  | case3 => cases h
  | case4 s w chunk remaining hne data s'' htake next hwrite ih =>
      have hlength := congrArg length (take_sound htake).1.bytes
      rw [length_append] at hlength
      have hrest := ih h
      omega

namespace Decoder

theorem readChunk_sound {env : SigningEnv} {d d' : Decoder} {size : ℕ}
    (h : d.readChunk env = .ok (size, d')) (hw : d.writer.data.length ≤ d.writer.limit) :
    ∃ (l : SizeLine) (data : List UInt8), l.WellFormed ∧ l.size = size ∧ data.length = size ∧
      d.source.Consumes (encodeLine l.text ++ data) d'.source ∧
      verify env d.verifier data l.signature = .ok d'.verifier ∧
      d'.writer = { d.writer with data := d.writer.data ++ data } ∧
      d'.writer.data.length ≤ d'.writer.limit := by
  unfold readChunk at h
  obtain ⟨⟨line, s⟩, hline, h⟩ := Except.bind_eq_ok.mp h
  obtain ⟨⟨size', signature⟩, hsize, h⟩ := Except.bind_eq_ok.mp h
  obtain ⟨⟨s', w, chunk⟩, hcopy, h⟩ := Except.bind_eq_ok.mp h
  obtain ⟨v, hverify, h⟩ := Except.bind_eq_ok.mp h
  cases h
  obtain ⟨hreads, htext⟩ := line_sound hline
  obtain ⟨l, hwell, rfl, rfl, rfl⟩ := readSizeLine_sound hsize htext
  obtain ⟨data, hlength, hreads', hchunk, hwriter, hfits⟩ := copyData_sound hcopy hw
  rw [nil_append] at hchunk
  subst hchunk
  exact ⟨l, chunk, hwell, rfl, hlength, hreads.trans hreads', hverify, hwriter, hfits⟩

theorem readChunk_eq {env : SigningEnv} {d : Decoder} {l : SizeLine} {data rest : List UInt8}
    {v : Option StreamingVerifier} (hover : ¬d.source.Over) (hwell : l.WellFormed)
    (hsize : l.size = data.length)
    (hbytes : d.source.bytes = encodeLine l.text ++ (data ++ rest))
    (hlimit : d.writer.data.length + data.length ≤ d.writer.limit)
    (hverify : verify env d.verifier data l.signature = .ok v) :
    ∃ s, d.readChunk env = .ok (data.length,
        { source := s
          writer := { d.writer with data := d.writer.data ++ data }
          verifier := v }) ∧
      s.bytes = rest ∧ ¬s.Over := by
  obtain ⟨s, hline, hrest, hover⟩ := exists_line hover hbytes hwell.line
  obtain ⟨s', hcopy, hrest', hover'⟩ := @copyData_eq _ _ [] _ _ hover hrest hlimit
  refine ⟨s', ?_, hrest', hover'⟩
  unfold readChunk
  rw [hline]
  dsimp only [bind, Except.bind]
  rw [readSizeLine_text hwell, hsize]
  dsimp only
  rw [hcopy]
  dsimp only
  rw [nil_append, hverify]
  rfl

theorem bytes_readChunk_lt {env : SigningEnv} {d d' : Decoder} {size : ℕ}
    (h : d.readChunk env = .ok (size, d')) : d'.source.bytes.length < d.source.bytes.length := by
  unfold readChunk at h
  obtain ⟨⟨line, s⟩, hline, h⟩ := Except.bind_eq_ok.mp h
  obtain ⟨⟨size', signature⟩, -, h⟩ := Except.bind_eq_ok.mp h
  obtain ⟨⟨s', w, chunk⟩, hcopy, h⟩ := Except.bind_eq_ok.mp h
  obtain ⟨v, -, h⟩ := Except.bind_eq_ok.mp h
  cases h
  exact Nat.lt_of_le_of_lt (bytes_copyData_le hcopy) (bytes_line_lt hline)

/-- `copy_chunked` and `trailers`. -/
def copyChunked (env : SigningEnv) (d : Decoder) :
    Except UploadError (UploadWriter × Trailers) :=
  match _h : d.readChunk env with
  | .error e => .error e
  | .ok (size, d') =>
    if size = 0 then (d'.source.readTrailers SortedMap.empty).map fun trailers =>
      (d'.writer, trailers)
    else
      match _hline : d'.source.line with
      | .error e => .error e
      | .ok (line, s) =>
        if line.isEmpty then { d' with source := s }.copyChunked env
        else .error (.invalid "missing chunk data terminator")
  termination_by d.source.bytes.length
  decreasing_by exact (Source.bytes_line_lt _hline).trans (bytes_readChunk_lt _h)

end Decoder

/-! ## Uploads on the wire -/

structure Chunk where
  header : SizeLine
  data : List UInt8

/-- A chunk on the wire. -/
def Chunk.encode (c : Chunk) : List UInt8 := Source.encodeLine c.header.text ++ c.data ++ [13, 10]

structure Chunk.WellFormed (c : Chunk) : Prop where
  header : c.header.WellFormed
  size : c.header.size = c.data.length
  data_ne_nil : c.data ≠ []

structure Upload where
  chunks : List Chunk
  last : SizeLine
  trailers : List TrailerLine

namespace Upload

/-- The bytes of an upload. -/
def encode (u : Upload) : List UInt8 :=
  u.chunks.flatMap Chunk.encode ++ Source.encodeLine u.last.text ++ encodeTrailers u.trailers ++
    [13, 10]

def payload (u : Upload) : List UInt8 := u.chunks.flatMap Chunk.data

structure WellFormed (u : Upload) : Prop where
  chunks : ∀ c ∈ u.chunks, c.WellFormed
  last : u.last.WellFormed
  last_size : u.last.size = 0
  trailers : ∀ t ∈ u.trailers, t.WellFormed
  trailers_nodup : (u.trailers.map TrailerLine.key).Nodup

/-- The signatures of the chunks in turn. -/
def Signed (env : SigningEnv) (last : SizeLine) : Option StreamingVerifier → List Chunk → Prop
  | v, [] => ∃ v', verify env v [] last.signature = .ok v'
  | v, c :: chunks =>
    ∃ v', verify env v c.data c.header.signature = .ok v' ∧ Signed env last v' chunks

end Upload

/-! ## The decoder accepts the uploads -/

namespace Decoder

theorem copyChunked_sound {env : SigningEnv} {d : Decoder} {w : UploadWriter}
    {trailers : Trailers} (h : d.copyChunked env = .ok (w, trailers))
    (hw : d.writer.data.length ≤ d.writer.limit) :
    ¬d.source.Over ∧ ∃ u : Upload, u.WellFormed ∧ Upload.Signed env u.last d.verifier u.chunks ∧
      d.source.bytes = u.encode ∧ w = { d.writer with data := d.writer.data ++ u.payload } ∧
      w.data.length ≤ w.limit ∧ trailers = trailerMap u.trailers := by
  fun_induction copyChunked env d with
  | case1 => cases h
  | case2 d d' hread =>
      obtain ⟨l, data, hwell, hsize, hlength, hreads, hverify, hwriter, hfits⟩ :=
        readChunk_sound hread hw
      have hdata : data = [] := length_eq_zero_iff.mp hlength
      subst hdata
      cases htrailers : d'.source.readTrailers SortedMap.empty with
      | error e =>
          rw [htrailers] at h
          cases h
      | ok map =>
          rw [htrailers] at h
          cases h
          obtain ⟨hover, lines, hlines, hfresh, hbytes, rfl⟩ := readTrailers_sound htrailers
          refine ⟨fun hs => hover (hreads.overrun.mpr hs), ⟨[], l, lines⟩,
            ⟨fun _ hc => absurd hc not_mem_nil, hwell, hsize, hlines, hfresh.nodup⟩,
            ⟨_, hverify⟩, ?_, hwriter, hfits, rfl⟩
          rw [hreads.bytes, hbytes, append_nil]
          simp [Upload.encode]
  | case3 => cases h
  | case4 d d' size hread hne line s hline hempty ih =>
      obtain ⟨l, data, hwell, hsize, hlength, hreads, hverify, hwriter, hfits⟩ :=
        readChunk_sound hread hw
      obtain ⟨hreads', -⟩ := line_sound hline
      obtain ⟨hover, u, hu, hsigned, hbytes, rfl, hfits', rfl⟩ := ih h hfits
      have hdata : data ≠ [] := by
        rintro rfl
        exact hne hlength.symm
      refine ⟨fun hs => hover (hreads'.overrun.mpr (hreads.overrun.mpr hs)),
        ⟨⟨l, data⟩ :: u.chunks, u.last, u.trailers⟩,
        ⟨?_, hu.last, hu.last_size, hu.trailers, hu.trailers_nodup⟩, ⟨_, hverify, hsigned⟩, ?_, ?_,
        hfits', rfl⟩
      · intro c hc
        rcases mem_cons.mp hc with rfl | hc
        · exact ⟨hwell, hsize.trans hlength.symm, hdata⟩
        · exact hu.chunks c hc
      · rw [hreads.bytes, hreads'.bytes, hbytes, isEmpty_iff.mp hempty]
        simp [Upload.encode, Chunk.encode, encodeLine, Utf8.encode]
      · rw [hwriter]
        simp [Upload.payload]
  | case5 => cases h

theorem copyChunked_eq {env : SigningEnv} {d : Decoder} {u : Upload}
    (hover : ¬d.source.Over) (hu : u.WellFormed)
    (hsigned : Upload.Signed env u.last d.verifier u.chunks)
    (hbytes : d.source.bytes = u.encode)
    (hlimit : d.writer.data.length + u.payload.length ≤ d.writer.limit) :
    d.copyChunked env =
      .ok ({ d.writer with data := d.writer.data ++ u.payload }, trailerMap u.trailers) := by
  obtain ⟨chunks, last, lines⟩ := u
  induction chunks generalizing d with
  | nil =>
      obtain ⟨v, hverify⟩ := hsigned
      have hlast : d.source.bytes =
          encodeLine last.text ++ ([] ++ (encodeTrailers lines ++ [13, 10])) := by
        rw [hbytes]
        simp [Upload.encode]
      have hzero : last.size = ([] : List UInt8).length := hu.last_size
      obtain ⟨s, hread, hrest, hover'⟩ := readChunk_eq hover hu.last hzero hlast
        (by simpa [Upload.payload] using hlimit) hverify
      have hsix : lines.length ≤ 6 := by
        have hsubset : lines.map TrailerLine.key ⊆ supportedTrailers := by
          intro key hkey
          obtain ⟨t, ht, rfl⟩ := mem_map.mp hkey
          exact (hu.trailers t ht).key_mem
        have hlength := (subperm_of_subset hu.trailers_nodup hsubset).length_le
        rwa [length_map] at hlength
      have hfresh : FreshKeys SortedMap.empty lines := ⟨hu.trailers_nodup, fun _ _ => rfl⟩
      have htrailers := readTrailers_eq hover' hu.trailers hfresh
        (by
          rw [show (SortedMap.empty : Trailers).entries.length = 0 from rfl, Nat.zero_add]
          exact hsix.trans (by decide)) hrest
      rw [copyChunked, hread]
      dsimp only
      rw [if_pos length_nil, htrailers]
      rfl
  | cons c chunks ih =>
      obtain ⟨v, hverify, hsigned⟩ := hsigned
      have hc := hu.chunks c (.head _)
      have hpayload : (Upload.mk (c :: chunks) last lines).payload =
          c.data ++ (Upload.mk chunks last lines).payload := by simp [Upload.payload]
      rw [hpayload, length_append] at hlimit
      have hfirst : d.source.bytes = encodeLine c.header.text ++
          (c.data ++ (encodeLine [] ++ (Upload.mk chunks last lines).encode)) := by
        rw [hbytes]
        simp [Upload.encode, Chunk.encode, encodeLine, Utf8.encode]
      obtain ⟨s, hread, hrest, hover'⟩ := readChunk_eq hover hc.header hc.size hfirst (by omega)
        hverify
      have hempty : Source.LineText (Utf8.encode []) :=
        ⟨fun hinside => absurd hinside.length_le (by decide), by decide⟩
      obtain ⟨s', hline, hrest', hover''⟩ := exists_line hover' hrest hempty
      have hnext := @ih
        { source := s'
          writer := { d.writer with data := d.writer.data ++ c.data }
          verifier := v } hover''
        ⟨fun c' hc' => hu.chunks c' (.tail _ hc'), hu.last, hu.last_size,
          hu.trailers, hu.trailers_nodup⟩ hsigned hrest'
        (by
          simp only [length_append]
          omega)
      have hne : ¬c.data.length = 0 := fun hzero =>
        hc.data_ne_nil (length_eq_zero_iff.mp hzero)
      rw [copyChunked, hread]
      dsimp only
      rw [if_neg hne, hline]
      dsimp only
      rw [if_pos isEmpty_nil, hnext, hpayload, append_assoc]

end Decoder

/-- Decode a body that comes in frames. -/
def decodeFrames (env : SigningEnv) (verifier : Option StreamingVerifier) (limit budget : ℕ)
    (frames : List (List UInt8)) : Except UploadError (UploadWriter × Trailers) :=
  Decoder.copyChunked env
    { source := .new frames budget
      writer := { data := [], limit }
      verifier }

section

variable {env : SigningEnv} {verifier : Option StreamingVerifier} {limit budget : ℕ}

/-- What makes a body decode to a payload and trailers: all the decoder looks at are the bytes. -/
def Decodes (env : SigningEnv) (verifier : Option StreamingVerifier) (limit budget : ℕ)
    (bytes payload : List UInt8) (trailers : Trailers) : Prop :=
  bytes.length ≤ budget ∧ payload.length ≤ limit ∧
    ∃ u : Upload, u.WellFormed ∧ Upload.Signed env u.last verifier u.chunks ∧
      bytes = u.encode ∧ payload = u.payload ∧ trailers = trailerMap u.trailers

theorem decodeFrames_sound {frames : List (List UInt8)} {w : UploadWriter} {trailers : Trailers}
    (h : decodeFrames env verifier limit budget frames = .ok (w, trailers)) :
    w.limit = limit ∧
      Decodes env verifier limit budget frames.flatten w.data trailers := by
  obtain ⟨hover, u, hu, hsigned, hbytes, rfl, hfits, rfl⟩ :=
    Decoder.copyChunked_sound h (Nat.zero_le limit)
  exact ⟨rfl, Nat.le_of_not_lt hover, hfits, u, hu, hsigned, hbytes, rfl, rfl⟩

theorem decodeFrames_of_decodes {frames : List (List UInt8)} {payload : List UInt8}
    {trailers : Trailers}
    (h : Decodes env verifier limit budget frames.flatten payload trailers) :
    decodeFrames env verifier limit budget frames = .ok ({ data := payload, limit }, trailers) := by
  obtain ⟨hbudget, hlimit, u, hu, hsigned, hbytes, rfl, rfl⟩ := h
  exact Decoder.copyChunked_eq
    (d := { source := .new frames budget, writer := ⟨[], limit⟩, verifier })
    (Nat.not_lt_of_le hbudget) hu hsigned hbytes (by simpa using hlimit)

/-- The frames do not matter, and what decodes are the well formed uploads. -/
theorem decodeFrames_exact (env : SigningEnv) (verifier : Option StreamingVerifier)
    (limit budget : ℕ) :
    (∀ frames frames', frames.flatten = frames'.flatten →
      (decodeFrames env verifier limit budget frames).toOption =
        (decodeFrames env verifier limit budget frames').toOption) ∧
    ∀ frames w trailers,
      decodeFrames env verifier limit budget frames = .ok (w, trailers) ↔
        w.limit = limit ∧
          Decodes env verifier limit budget frames.flatten w.data trailers := by
  have hiff : ∀ frames w trailers,
      decodeFrames env verifier limit budget frames = .ok (w, trailers) ↔
        w.limit = limit ∧
          Decodes env verifier limit budget frames.flatten w.data trailers := by
    intro frames w trailers
    refine ⟨decodeFrames_sound, fun ⟨hlimit, hdecodes⟩ => ?_⟩
    rw [decodeFrames_of_decodes hdecodes, ← hlimit]
  refine ⟨fun frames frames' hsame => ?_, hiff⟩
  have hok : ∀ result, (decodeFrames env verifier limit budget frames).toOption = some result ↔
      (decodeFrames env verifier limit budget frames').toOption = some result := by
    rintro ⟨w, trailers⟩
    have hoption : ∀ x : Except UploadError (UploadWriter × Trailers),
        x.toOption = some (w, trailers) ↔ x = .ok (w, trailers) := by
      intro x
      cases x <;> simp [Except.toOption]
    rw [hoption, hoption, hiff, hiff, hsame]
  exact Option.ext hok

end

/-- An environment for unsigned uploads. -/
def unsignedEnv : SigningEnv where
  hashPayload _ := ""
  computeSignature _ _ := none

/-- Seventeen zeros are hexadecimal digits of the size zero, but not a size line. -/
theorem decodeFrames_rejects_longSize :
    let digits := replicate 17 '0'
    digits.all isHexDigit = true ∧ hexNumber digits = 0 ∧
      decodeFrames unsignedEnv none s3ObjectBodyLimit (2 * s3ObjectBodyLimit)
          [encodeLine digits ++ [13, 10]] = .error (.invalid "invalid chunk size") := by
  refine ⟨by decide, by decide, ?_⟩
  have htext : Source.LineText (Utf8.encode (replicate 17 '0')) := by
    unfold Source.LineText
    decide +kernel
  have hover : ¬(new [encodeLine (replicate 17 '0') ++ [13, 10]]
      (2 * s3ObjectBodyLimit)).Over := by
    unfold Source.Over
    decide +kernel
  have hbytes : (new [encodeLine (replicate 17 '0') ++ [13, 10]]
      (2 * s3ObjectBodyLimit)).bytes =
        encodeLine (replicate 17 '0') ++ [13, 10] := by
    simp [bytes, new]
  obtain ⟨s, hline, -⟩ := exists_line hover hbytes htext
  have hsize : readSizeLine (replicate 17 '0') = .error (.invalid "invalid chunk size") := by
    decide +kernel
  rw [decodeFrames, Decoder.copyChunked, Decoder.readChunk, hline]
  dsimp only [bind, Except.bind]
  rw [hsize]

end Rustack.S3
