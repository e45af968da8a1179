import Mathlib.Data.Nat.Digits.Defs
import Rustack.S3.Codec

/-!
# What the buffered decoder reads back

A payload cut into chunks, each with its signature, and trailing headers behind the last
one.  The decoder reads the payload and the headers back, but for the headers that it takes
for the signature of the trailers.
-/

namespace Rustack.S3.Codec

open DynamoDB (trim isWhitespace)
open List Utf8
open String (ofList)

/-! ## Texts without blanks around them -/

theorem trim_eq_self_iff {cs : List Char} :
    trim cs = cs ↔
      (∀ c ∈ cs.head?, isWhitespace c = false) ∧ ∀ c ∈ cs.getLast?, isWhitespace c = false := by
  constructor
  · intro h
    have hle : cs.length ≤ (cs.dropWhile isWhitespace).length := by
      have hpre := ( rdropWhile_prefix isWhitespace (cs.dropWhile isWhitespace)).length_le
      rw [trim] at h
      rwa [h] at hpre
    have hdrop : cs.dropWhile isWhitespace = cs :=
      (dropWhile_suffix isWhitespace).eq_of_length_le hle
    rw [trim, hdrop] at h
    constructor
    · intro c hc
      cases cs with
      | nil => cases hc
      | cons d ds =>
          cases hc
          have := dropWhile_eq_self_iff.mp hdrop (by simp)
          simpa using this
    · intro c hc
      have hne : cs ≠ [] := by
        rintro rfl
        cases hc
      have := rdropWhile_eq_self_iff.mp h hne
      rw [getLast?_eq_some_getLast hne] at hc
      cases hc
      simpa using this
  · rintro ⟨hhead, hlast⟩
    have hdrop : cs.dropWhile isWhitespace = cs := by
      refine dropWhile_eq_self_iff.mpr fun hpos => ?_
      cases cs with
      | nil => cases hpos
      | cons d ds => simpa using hhead d rfl
    rw [trim, hdrop]
    refine rdropWhile_eq_self_iff.mpr fun hne => ?_
    have := hlast _ (getLast?_eq_some_getLast hne)
    simpa using this

theorem trim_isInfix (cs : List Char) : trim cs <:+: cs :=
  ( rdropWhile_prefix isWhitespace _).isInfix.trans (dropWhile_suffix isWhitespace).isInfix

/-! ## Line ends -/

def lineEnd : List Char := ['\r', '\n']

theorem not_infix_encode {cs : List Char} (h : ¬lineEnd <:+: cs) : ¬crlf <:+: encode cs := by
  have hcrlf : crlf = encode lineEnd := by decide
  rw [hcrlf]
  have hascii : ∀ c ∈ lineEnd, c.toNat < 128 := forall_mem_cons.mpr ⟨by decide,
    forall_mem_singleton.mpr (by decide)⟩
  exact fun hocc => h (infix_of_encode hascii hocc)

/-! ## Sizes -/

/-- The digits of a size, the highest first. -/
def hexText (n : ℕ) : List Char := (Nat.digits 16 n).reverse.map Hex.lower

theorem mem_hexText {n : ℕ} {c : Char} (h : c ∈ hexText n) : ∃ d < 16, c = Hex.lower d := by
  obtain ⟨d, hd, rfl⟩ := mem_map.mp h
  exact ⟨d, Nat.digits_lt_base (by decide) (mem_reverse.mp hd), rfl⟩

theorem hexText_ne_nil {n : ℕ} (h : n ≠ 0) : hexText n ≠ [] := by
  rw [hexText, ne_eq, map_eq_nil_iff, reverse_eq_nil_iff]
  exact Nat.digits_ne_nil_iff_ne_zero.mpr h

theorem mapM_value_lower {ds : List ℕ} (h : ∀ d ∈ ds, d < 16) :
    (ds.map Hex.lower).mapM Hex.value = some ds := by
  induction ds with
  | nil => rfl
  | cons d ds ih =>
      rw [forall_mem_cons] at h
      rw [map_cons, mapM_cons, Hex.value_lower h.1, ih h.2]
      rfl

theorem hexWord_hexText {n : ℕ} (h : n < 2 ^ 64) : hexWord (hexText n) = some n := by
  have hdigits : ∀ d ∈ (Nat.digits 16 n).reverse, d < 16 := fun d hd =>
    Nat.digits_lt_base (by decide) (mem_reverse.mp hd)
  have hnumber : (Nat.digits 16 n).reverse.foldl (fun n d => n * 16 + d) 0 = n := by
    rw [foldl_reverse]
    calc (Nat.digits 16 n).foldr (fun d n => n * 16 + d) 0
        = Nat.ofDigits 16 (Nat.digits 16 n) := by
          rw [Nat.ofDigits_eq_foldr]
          congr 1
          funext d n
          simp only [Nat.cast_id]
          ring
      _ = n := Nat.ofDigits_digits 16 n
  rw [hexWord, hexText, mapM_value_lower hdigits]
  change (if _ < _ then some _ else none) = _
  rw [hnumber, if_pos h]

/-! ## Size lines -/

def sizeLine (size signature : List Char) : List Char :=
  size ++ ";chunk-signature=".toList ++ signature

structure SizeText (size : List Char) (n : ℕ) : Prop where
  digits : ∀ c ∈ size, ∃ d < 16, c = Hex.lower d
  ne_nil : size ≠ []
  word : hexWord size = some n

theorem sizeText_hexText {n : ℕ} (hpos : n ≠ 0) (h : n < 2 ^ 64) : SizeText (hexText n) n :=
  ⟨fun _ hc => mem_hexText hc, hexText_ne_nil hpos, hexWord_hexText h⟩

theorem sizeText_zero : SizeText ['0'] 0 := by
  refine ⟨fun c hc => ⟨0, by decide, mem_singleton.mp hc⟩, cons_ne_nil _ _, ?_⟩
  rfl

theorem lower_plain : ∀ d < 16, isWhitespace (Hex.lower d) = false ∧ Hex.lower d ≠ '+' ∧
    Hex.lower d ≠ '\r' ∧ (59 : UInt8) ∉ String.utf8EncodeChar (Hex.lower d) := by
  decide

theorem readSize_sizeLine {size signature : List Char} {n : ℕ} (h : SizeText size n) :
    readSize (encode (sizeLine size signature)) = .ok n := by
  have hplain : ∀ c ∈ size, isWhitespace c = false ∧ c ≠ '+' ∧
      (59 : UInt8) ∉ String.utf8EncodeChar c := by
    intro c hc
    obtain ⟨d, hd, rfl⟩ := h.digits c hc
    exact ⟨(lower_plain d hd).1, (lower_plain d hd).2.1, (lower_plain d hd).2.2.2⟩
  have htrim : trim size = size := by
    refine trim_eq_self_iff.mpr ⟨fun c hc => ?_, fun c hc => ?_⟩
    · exact (hplain c (mem_of_mem_head? hc)).1
    · exact (hplain c (mem_of_mem_getLast? hc)).1
  have hhead : size.head? ≠ some '+' := fun hhead =>
    (hplain '+' (mem_of_mem_head? hhead)).2.1 rfl
  have hparse : parseHex size = some n := by
    rw [parseHex, if_neg hhead, if_neg (by simpa using h.ne_nil), h.word]
  have hbytes : ∀ b ∈ encode size, decide (b ≠ 59) = true := by
    intro b hb
    obtain ⟨c, hc, hb⟩ := mem_flatMap.mp hb
    refine decide_eq_true ?_
    rintro rfl
    exact (hplain c hc).2.2 hb
  have htake : (encode (sizeLine size signature)).takeWhile (· ≠ 59) = encode size := by
    rw [sizeLine, encode_append, encode_append, append_assoc,
      takeWhile_append_of_pos hbytes]
    have hsemi : encode ";chunk-signature=".toList ++ encode signature =
        59 :: (encode "chunk-signature=".toList ++ encode signature) := rfl
    rw [hsemi, takeWhile_cons_of_neg (by decide), append_nil]
  rw [readSize, htake, decode?_eq_some_iff.mpr rfl]
  dsimp only
  rw [htrim, hparse]

theorem sizeLine_plain {size signature : List Char} {n : ℕ} (h : SizeText size n)
    (hsignature : ¬lineEnd <:+: signature) :
    ¬crlf <:+: encode (sizeLine size signature) := by
  refine not_infix_encode fun hocc => hsignature (Needle.infix_of_append ?_ hocc)
  rw [mem_append, not_or]
  refine ⟨fun hmem => ?_, by decide⟩
  obtain ⟨d, hd, heq⟩ := h.digits _ hmem
  exact (lower_plain d hd).2.2.1 heq.symm

/-! ## Encoded bodies -/

structure SignedChunk where
  data : List UInt8
  signature : List Char
  data_ne_nil : data ≠ []
  signature_plain : ¬lineEnd <:+: signature

def SignedChunk.frame (c : SignedChunk) : Frame where
  line := Utf8.encode (sizeLine (hexText c.data.length) c.signature)
  data := c.data

theorem SignedChunk.frame_whole (c : SignedChunk) (h : c.data.length < 2 ^ 64) :
    c.frame.Whole := by
  have hpos : c.data.length ≠ 0 := fun hzero => c.data_ne_nil (length_eq_zero_iff.mp hzero)
  have hsize := sizeText_hexText hpos h
  exact ⟨sizeLine_plain hsize c.signature_plain, readSize_sizeLine hsize, c.data_ne_nil⟩

/-- A header that stands behind the last chunk. -/
structure Trailer where
  name : List Char
  value : List Char
  name_colon : ':' ∉ name
  name_plain : ¬lineEnd <:+: name
  name_trimmed : trim name = name
  value_trimmed : trim value = value

namespace Trailer

def line (t : Trailer) : List Char := t.name ++ ':' :: t.value

theorem trim_line (t : Trailer) : trim t.line = t.line := by
  obtain ⟨hhead, -⟩ := trim_eq_self_iff.mp t.name_trimmed
  obtain ⟨-, hlast⟩ := trim_eq_self_iff.mp t.value_trimmed
  refine trim_eq_self_iff.mpr ⟨fun c hc => ?_, fun c hc => ?_⟩
  · cases hname : t.name with
    | nil =>
        rw [line, hname] at hc
        cases hc
        decide
    | cons d ds =>
        rw [line, hname] at hc
        cases hc
        exact hhead c (by rw [hname]; rfl)
  · rw [line, getLast?_append_cons] at hc
    cases hvalue : t.value with
    | nil =>
        rw [hvalue] at hc
        cases hc
        decide
    | cons d ds =>
        rw [hvalue, getLast?_cons_cons] at hc
        exact hlast c (by rw [hvalue]; exact hc)

theorem line_plain (t : Trailer) (h : ¬lineEnd <:+: t.value) : ¬lineEnd <:+: t.line := fun hocc =>
  (Needle.infix_of_append_cons (by decide) hocc).elim t.name_plain h

theorem signatureName_prefix_line (t : Trailer) :
    signatureName <+: t.line ↔ signatureName <+: t.name := by
  refine ⟨Needle.prefix_of_append_cons ?_, fun h => h.trans (prefix_append _ _)⟩
  decide

theorem readHeader_line {lower : String → String} (t : Trailer)
    (hlower : lower (ofList t.name) = ofList t.name) (headers : Trailers) :
    readHeader lower headers t.line =
      if signatureName <+: t.name then headers
      else headers.insert (ofList t.name) (ofList t.value) := by
  have hne : ¬t.line.isEmpty = true := by simp [line]
  have hsplit : Text.splitOnce ':' t.line = some (t.name, t.value) :=
    Text.splitOnce_eq_some_iff.mpr ⟨rfl, t.name_colon⟩
  rw [readHeader, trim_line, if_neg hne, hsplit]
  dsimp only
  rw [t.name_trimmed, t.value_trimmed, hlower]
  simp only [ isPrefixOf_iff_prefix, signatureName_prefix_line]

end Trailer

structure Form (lower : String → String) where
  chunks : List SignedChunk
  signature : List Char
  trailers : List Trailer
  signature_plain : ¬lineEnd <:+: signature
  names_lower : ∀ t ∈ trailers, lower (String.ofList t.name) = String.ofList t.name
  names_distinct : (trailers.map Trailer.name).Nodup

namespace Form

variable {lower : String → String} (form : Form lower)

def payload : List UInt8 := form.chunks.flatMap SignedChunk.data

def trailerText : List Char := (form.trailers.map Trailer.line).flatMap (· ++ lineEnd) ++ lineEnd

def encode : List UInt8 :=
  form.chunks.flatMap (fun c => c.frame.bytes) ++
    (Utf8.encode (sizeLine ['0'] form.signature) ++ crlf ++ Utf8.encode form.trailerText)

/-- These are the trailing headers of the form. -/
def Lists (headers : Trailers) : Prop :=
  ∀ key value, headers.get? key = some value ↔
    ∃ t ∈ form.trailers, String.ofList t.name = key ∧ String.ofList t.value = value

/-- No header is taken for the signature of the trailers or holds a line end. -/
def Plain : Prop :=
  ∀ t ∈ form.trailers, ¬signatureName <+: t.name ∧ ¬lineEnd <:+: t.value

end Form

/-- A form whose encoding a slice can hold. -/
structure Sent (lower : String → String) extends Form lower where
  fits : toForm.encode.length < 2 ^ 63

def Sent.body {lower : String → String} (sent : Sent lower) : Bytes :=
  ⟨sent.toForm.encode, sent.fits⟩

/-! ## Reading a form -/

theorem get?_readHeader {lower : String → String} {headers : Trailers} {line : List Char}
    {key value : String} (h : (readHeader lower headers line).get? key = some value) :
    headers.get? key = some value ∨ value.toList <:+: line := by
  unfold readHeader at h
  dsimp only at h
  split at h
  · exact .inl h
  split at h
  · exact .inl h
  split at h
  · next front behind hsplit =>
      rw [SortedMap.get?_insert_eq] at h
      split at h
      · cases h
        refine .inr ?_
        rw [String.toList_ofList]
        have hline := (Text.splitOnce_eq_some_iff.mp hsplit).1
        refine (trim_isInfix behind).trans (List.IsInfix.trans ?_ (trim_isInfix line))
        rw [hline]
        exact ((suffix_cons ':' behind).trans (suffix_append front _)).isInfix
      · exact .inl h
  · exact .inl h

/-- What is read never holds a line end. -/
theorem value_plain {lower : String → String} {lines : List (List Char)} {headers : Trailers}
    (hlines : ∀ line ∈ lines, ¬lineEnd <:+: line)
    (hheaders : ∀ key value, headers.get? key = some value → ¬lineEnd <:+: value.toList)
    {key value : String} (h : (lines.foldl (readHeader lower) headers).get? key = some value) :
    ¬lineEnd <:+: value.toList := by
  induction lines generalizing headers with
  | nil => exact hheaders key value h
  | cons line lines ih =>
      rw [forall_mem_cons] at hlines
      refine ih hlines.2 (fun key value hvalue => ?_) h
      rcases get?_readHeader hvalue with hvalue | hinfix
      · exact hheaders key value hvalue
      · exact fun hocc => hlines.1 (hocc.trans hinfix)

theorem get?_readHeaders {lower : String → String} {trailers : List Trailer}
    (hlower : ∀ t ∈ trailers, lower (ofList t.name) = ofList t.name)
    (hdistinct : (trailers.map Trailer.name).Nodup) {headers : Trailers}
    (hnew : ∀ t ∈ trailers, headers.get? (ofList t.name) = none) (key value : String) :
    ((trailers.map Trailer.line).foldl (readHeader lower) headers).get? key = some value ↔
      (∃ t ∈ trailers, ¬signatureName <+: t.name ∧ ofList t.name = key ∧
        ofList t.value = value) ∨ headers.get? key = some value := by
  induction trailers generalizing headers with
  | nil => simp
  | cons t trailers ih =>
      rw [forall_mem_cons] at hlower hnew
      rw [map_cons, nodup_cons] at hdistinct
      rw [map_cons, foldl_cons, t.readHeader_line hlower.1]
      by_cases hsignature : signatureName <+: t.name
      · rw [if_pos hsignature, ih hlower.2 hdistinct.2 hnew.2]
        simp [hsignature]
      · have hnew' : ∀ t' ∈ trailers, (headers.insert (ofList t.name)
            (ofList t.value)).get? (ofList t'.name) = none := by
          intro t' ht'
          rw [SortedMap.get?_insert_eq, if_neg]
          · exact hnew.2 t' ht'
          · intro heq
            refine hdistinct.1 (mem_map.mpr ⟨t', ht', ?_⟩)
            exact (String.ofList_injective heq).symm
        rw [if_neg hsignature, ih hlower.2 hdistinct.2 hnew', SortedMap.get?_insert_eq]
        by_cases hkey : ofList t.name = key
        · have hnone := hnew.1
          rw [hkey] at hnone
          simp only [hkey, if_true, Option.some.injEq, mem_cons, exists_eq_or_imp,
            hsignature, not_false_eq_true, true_and, hnone, reduceCtorEq, or_false]
          exact or_comm
        · simp [hkey]

namespace Form

variable {lower : String → String} (form : Form lower)

theorem pieces_trailerText (h : ∀ t ∈ form.trailers, ¬lineEnd <:+: t.value) :
    Needle.pieces lineEnd form.trailerText = form.trailers.map Trailer.line ++ [[], []] := by
  have hunbordered : Needle.Unbordered lineEnd := by decide
  refine Needle.pieces_flatMap hunbordered (by decide) (fun line hline => ?_) lineEnd
  obtain ⟨t, ht, rfl⟩ := mem_map.mp hline
  exact t.line_plain (h t ht)

/-- The headers the decoder makes of the trailing lines. -/
def headersRead : Trailers :=
  (Needle.pieces lineEnd form.trailerText).foldl (readHeader lower) SortedMap.empty

theorem get?_headersRead (h : ∀ t ∈ form.trailers, ¬lineEnd <:+: t.value) (key value : String) :
    form.headersRead.get? key = some value ↔
      ∃ t ∈ form.trailers, ¬signatureName <+: t.name ∧ ofList t.name = key ∧
        ofList t.value = value := by
  have hblank : ∀ headers : Trailers, [[], []].foldl (readHeader lower) headers = headers :=
    fun _ => rfl
  rw [headersRead, form.pieces_trailerText h, foldl_append, hblank,
    get?_readHeaders form.names_lower form.names_distinct (fun _ _ => rfl)]
  simp

theorem lists_headersRead_iff : form.Lists form.headersRead ↔ form.Plain := by
  constructor
  · intro h
    have hvalue : ∀ t ∈ form.trailers, ¬lineEnd <:+: t.value := by
      intro t ht
      have hread := (h _ _).mpr ⟨t, ht, rfl, rfl⟩
      have hplain := value_plain
        (fun line hline => Needle.not_infix_of_mem_pieces (by decide) hline)
        (fun key value hempty => by simp at hempty) hread
      rwa [String.toList_ofList] at hplain
    intro t ht
    refine ⟨?_, hvalue t ht⟩
    have hread := (h _ _).mpr ⟨t, ht, rfl, rfl⟩
    obtain ⟨t', -, hsignature, hname, -⟩ := (form.get?_headersRead hvalue _ _).mp hread
    rwa [String.ofList_injective hname] at hsignature
  · intro h key value
    rw [form.get?_headersRead fun t ht => (h t ht).2]
    constructor
    · rintro ⟨t, ht, -, hname, hvalue⟩
      exact ⟨t, ht, hname, hvalue⟩
    · rintro ⟨t, ht, hname, hvalue⟩
      exact ⟨t, ht, (h t ht).1, hname, hvalue⟩

end Form

theorem Form.length_data_le {lower : String → String} (form : Form lower) {c : SignedChunk}
    (hc : c ∈ form.chunks) : c.data.length ≤ form.encode.length := by
  obtain ⟨before, behind, hchunks⟩ := append_of_mem hc
  rw [Form.encode, hchunks, flatMap_append, flatMap_cons]
  simp only [SignedChunk.frame, Frame.bytes, length_append]
  omega

theorem decodeAwsChunked_sent (checked : Bool) {lower : String → String} (sent : Sent lower) :
    decodeAwsChunked checked lower sent.body =
      .ok { body := sent.payload, trailingHeaders := sent.headersRead } := by
  have hframes : ∀ f ∈ sent.chunks.map SignedChunk.frame, f.Whole := by
    intro f hf
    obtain ⟨c, hc, rfl⟩ := mem_map.mp hf
    have hle := sent.length_data_le hc
    have hlt := sent.fits
    exact c.frame_whole (by omega)
  have hbytes : (sent.chunks.map SignedChunk.frame).flatMap Frame.bytes =
      sent.chunks.flatMap fun c => c.frame.bytes := flatMap_map _ _ _
  have hdata : (sent.chunks.map SignedChunk.frame).flatMap Frame.data = sent.payload :=
    flatMap_map _ _ _
  have hcut : sent.body.data = [] ++ ((sent.chunks.map SignedChunk.frame).flatMap Frame.bytes ++
      (encode (sizeLine ['0'] sent.signature) ++ crlf ++ encode sent.trailerText)) := by
    rw [hbytes, nil_append]
    rfl
  have hloop := decodeFrom_frames checked lower [] hframes hcut
  rw [nil_append, nil_append, hdata] at hloop
  rw [nil_append] at hcut
  have hlast := sizeLine_plain sizeText_zero sent.signature_plain
  rw [decodeAwsChunked, ← length_nil, hloop, decodeFrom, turn_cut hcut hlast,
    readSize_sizeLine sizeText_zero]
  simp only [Outcome.ofExcept, Outcome.ok_bind]
  rw [parseTrailingHeaders, decode?_eq_some_iff.mpr rfl]
  rfl

/-- The decoder comes down just when a size line announces what cannot be addressed, and reads
back what was sent, but for headers that look like the signature of the trailers or hold a
line end. -/
theorem decodeAwsChunked_exact (checked : Bool) (lower : String → String) :
    (∀ body : Bytes, decodeAwsChunked checked lower body ≠ .panic ↔ ¬Oversized body.data) ∧
      ∀ sent : Sent lower,
        (∃ headers, decodeAwsChunked checked lower sent.body =
          .ok { body := sent.payload, trailingHeaders := headers } ∧ sent.Lists headers) ↔
        sent.Plain := by
  refine ⟨fun body => not_congr (decodeAwsChunked_panic_iff checked lower body), fun sent => ?_⟩
  rw [decodeAwsChunked_sent, ← sent.lists_headersRead_iff]
  constructor
  · rintro ⟨headers, hheaders, hlists⟩
    cases hheaders
    exact hlists
  · intro hlists
    exact ⟨_, rfl, hlists⟩

/-- A chunk of the largest size brings the decoder down, in any build. -/
theorem decodeAwsChunked_largest :
    ∃ body : Bytes, body.data = encode "FFFFFFFFFFFFFFFF\r\n".toList ∧
      ∀ (checked : Bool) (lower : String → String),
        decodeAwsChunked checked lower body = .panic := by
  refine ⟨⟨replicate 16 70 ++ crlf, by decide⟩, rfl, fun checked lower => ?_⟩
  refine (decodeAwsChunked_panic_iff checked lower _).mpr
    ⟨[], replicate 16 70, [], 2 ^ 64 - 1, fun f hf => absurd hf not_mem_nil, ?_, rfl⟩
  exact ⟨by decide, by decide +kernel, by decide⟩

end Rustack.S3.Codec
