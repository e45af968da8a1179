import Rustack.Auth.Replay

/-!
# What a signature binds

The signed text has the method, the canonical path, the payload hash and one line for each signed
header.  The path is read with U+FFFD for ill-formed bytes, only the first line of a header is
looked at, and a name in upper case is listed but gets no line.  Apart from these, what two
accepted requests have signed is the same.
-/

namespace Rustack.Auth

open DynamoDB (isWhitespace trim)
open Http (HeaderMap HeaderName HeaderValue Parts)
open List
open String (ofList toList_ofList)

variable {cs text name : List Char} {parts parts' : Parts} {signedHeaders : List (List Char)}
  {p : Char → Bool}

/-! ## Segments and values -/

/-- The segments of a path, decoded. -/
def decodedSegments (path : List Char) : List (List UInt8) :=
  (path.splitOn '/').map percentDecode

def isBlank (c : Char) : Bool := c == ' ' || c == '\t'

/-- A header value without blanks at its ends, and with one for every run of them. -/
def foldedValue (value : HeaderValue) : List Char :=
  let chars := value.bytes.map fun b => Char.ofNat b.toNat
  collapse isBlank false ((chars.dropWhile isBlank).rdropWhile isBlank)

/-- All lines of a header, in order. -/
def occurrences (parts : Parts) (name : List Char) : List (List Char) :=
  (parts.headers.getAll (String.ofList name)).map foldedValue

/-- Two requests have the same method, path, payload hash and signed headers. -/
structure Bound (parts parts' : Parts) (bodyHash bodyHash' : List Char)
    (signedHeaders : List (List Char)) : Prop where
  method : parts.method = parts'.method
  path : decodedSegments parts.uri.path = decodedSegments parts'.uri.path
  payload : bodyHash = bodyHash'
  headers : ∀ name ∈ signedHeaders, occurrences parts name ≠ [] ∧
    occurrences parts name = occurrences parts' name

def isWellFormed (bytes : List UInt8) : Bool := (Utf8.decode? bytes).isSome

/-- Two requests agree on what the signed text leaves out. -/
structure AgreeOnUnbound (parts parts' : Parts) (signedHeaders : List (List Char)) : Prop where
  empty : parts.uri.path = [] ↔ parts'.uri.path = []
  segments : ∀ d ∈ (decodedSegments parts.uri.path).zip (decodedSegments parts'.uri.path),
    ¬(isWellFormed d.1 = true ∧ isWellFormed d.2 = true) → d.1 = d.2
  later : ∀ name ∈ signedHeaders, (occurrences parts name).tail = (occurrences parts' name).tail
  upper : ∀ name ∈ signedHeaders, name.map Char.toLower ∉ signedHeaders →
    (occurrences parts name).head? = (occurrences parts' name).head?

/-! ## The path -/

theorem percentDecode_eq_nil (h : percentDecode cs = []) : cs = [] := by
  cases cs with
  | nil => rfl
  | cons c cs =>
      unfold percentDecode at h
      rw [Utf8.encode_cons] at h
      obtain ⟨b, bytes, hb⟩ := exists_cons_of_ne_nil (Utf8.encodeChar_ne_nil c)
      rw [hb, cons_append] at h
      exact absurd h (Percent.decode_cons_ne_nil _ _)

theorem decodedSegments_eq_singleton_nil {path : List Char} (h : decodedSegments path = [[]]) :
    path = [] := by
  unfold decodedSegments at h
  obtain ⟨segment, hsplit, hsegment⟩ := map_eq_singleton_iff.mp h
  have hpath : ['/'].intercalate (path.splitOn '/') = path := intercalate_splitOn '/'
  rw [hsplit, intercalate_singleton] at hpath
  rw [← hpath]
  exact percentDecode_eq_nil hsegment

theorem buildCanonicalUri_of_ne_nil {path : List Char} (h : path ≠ []) :
    buildCanonicalUri path = ['/'].intercalate ((path.splitOn '/').map canonicalSegment) := by
  unfold buildCanonicalUri
  split
  · next hslash =>
      obtain rfl := hslash.resolve_left h
      decide
  · rfl

theorem sigv4Encode_injective : Function.Injective sigv4Encode :=
  (Percent.encode_injective (by decide)).comp Utf8.encode_injective

/-- The canonical path tells what each segment is as text. -/
theorem decodeLossy_segments {path path' : List Char} (h : path ≠ []) (h' : path' ≠ [])
    (heq : buildCanonicalUri path = buildCanonicalUri path') :
    (decodedSegments path).map Utf8.decodeLossy = (decodedSegments path').map Utf8.decodeLossy := by
  have hslash : ∀ cs : List Char, ∀ segment ∈ (cs.splitOn '/').map canonicalSegment,
      '/' ∉ segment := by
    intro cs segment hsegment
    obtain ⟨raw, -, rfl⟩ := mem_map.mp hsegment
    exact not_mem_sigv4Encode _ (by decide)
  have hne : ∀ cs : List Char, (cs.splitOn '/').map canonicalSegment ≠ [] := fun cs hnil =>
    splitOn_ne_nil '/' cs (map_eq_nil_iff.mp hnil)
  rw [buildCanonicalUri_of_ne_nil h, buildCanonicalUri_of_ne_nil h'] at heq
  have hsplit := congrArg (splitOn '/') heq
  rw [splitOn_intercalate _ (hslash path) (hne path),
    splitOn_intercalate _ (hslash path') (hne path')] at hsplit
  have hmap : ∀ cs : List Char, (cs.splitOn '/').map canonicalSegment =
      ((decodedSegments cs).map Utf8.decodeLossy).map sigv4Encode := by
    intro cs
    rw [decodedSegments, map_map, map_map]
    rfl
  rw [hmap, hmap] at hsplit
  exact sigv4Encode_injective.list_map hsplit

/-- Well formed bytes are told apart by their text. -/
theorem eq_of_decodeLossy_eq {x y : List UInt8} (hx : isWellFormed x = true)
    (hy : isWellFormed y = true) (h : Utf8.decodeLossy x = Utf8.decodeLossy y) : x = y := by
  obtain ⟨cs, hcs⟩ := Option.isSome_iff_exists.mp hx
  obtain ⟨ds, hds⟩ := Option.isSome_iff_exists.mp hy
  rw [Utf8.decode?_eq_some_iff] at hcs hds
  rw [← hcs, ← hds, Utf8.decodeLossy_encode, Utf8.decodeLossy_encode] at h
  rw [← hcs, ← hds, h]

theorem eq_of_map_eq {α β : Type} {f : α → β} {xs ys : List α} (hmap : xs.map f = ys.map f)
    (h : ∀ d ∈ xs.zip ys, f d.1 = f d.2 → d.1 = d.2) : xs = ys := by
  induction xs generalizing ys with
  | nil => exact (map_eq_nil_iff.mp hmap.symm).symm
  | cons x xs ih =>
      cases ys with
      | nil => cases hmap
      | cons y ys =>
          rw [map_cons, map_cons, cons.injEq] at hmap
          rw [zip_cons_cons] at h
          have hxy : x = y := h (x, y) (.head _) hmap.1
          rw [hxy, ih hmap.2 fun d hd => h d (.tail _ hd)]

/-- The canonical path binds the path, apart from ill-formed segments. -/
theorem segments_eq (huri : buildCanonicalUri parts.uri.path = buildCanonicalUri parts'.uri.path)
    (h : AgreeOnUnbound parts parts' signedHeaders) :
    decodedSegments parts.uri.path = decodedSegments parts'.uri.path := by
  by_cases hempty : parts.uri.path = []
  · rw [hempty, h.empty.mp hempty]
  · have hempty' := mt h.empty.mpr hempty
    refine eq_of_map_eq (decodeLossy_segments hempty hempty' huri) ?_
    intro d hd hlossy
    by_cases hwell : isWellFormed d.1 = true ∧ isWellFormed d.2 = true
    · exact eq_of_decodeLossy_eq hwell.1 hwell.2 hlossy
    · exact h.segments d hd hwell

/-! ## Values of headers -/

def canonicalValue (text : List Char) : List Char := collapseWhitespace (trim text)

theorem collapse_congr {q : Char → Bool} (h : ∀ c ∈ cs, p c = q c) (prevWasSpace : Bool) :
    collapse p prevWasSpace cs = collapse q prevWasSpace cs := by
  induction cs generalizing prevWasSpace with
  | nil => rfl
  | cons c cs ih =>
      have ih := ih fun d hd => h d (mem_cons_of_mem c hd)
      rw [collapse, collapse, h c mem_cons_self, ih true, ih false]

theorem mem_collapse {prevWasSpace : Bool} {c : Char} (h : c ∈ collapse p prevWasSpace cs) :
    c = ' ' ∨ c ∈ cs := by
  induction cs generalizing prevWasSpace with
  | nil => cases h
  | cons d cs ih =>
      have hrest : ∀ b, c ∈ collapse p b cs → c = ' ' ∨ c ∈ d :: cs := fun b hmem =>
        (ih hmem).imp id (mem_cons_of_mem d)
      rw [collapse] at h
      split at h
      · split at h
        · exact hrest _ h
        · exact (mem_cons.mp h).elim .inl (hrest _)
      · refine (mem_cons.mp h).elim ?_ (hrest _)
        rintro rfl
        exact .inr (.head _)

theorem dropWhile_congr {q : Char → Bool} (h : ∀ c ∈ cs, p c = q c) :
    cs.dropWhile p = cs.dropWhile q := by
  induction cs with
  | nil => rfl
  | cons c cs ih =>
      rw [dropWhile_cons, dropWhile_cons, h c mem_cons_self,
        ih fun d hd => h d (mem_cons_of_mem c hd)]

theorem rdropWhile_congr {q : Char → Bool} (h : ∀ c ∈ cs, p c = q c) :
    cs.rdropWhile p = cs.rdropWhile q := by
  unfold rdropWhile
  rw [dropWhile_congr fun c hc => h c (mem_reverse.mp hc)]

/-- In a value that is text the only white space is blanks. -/
theorem isWhitespace_of_isTextByte {b : UInt8} (h : Http.isTextByte b = true) :
    isWhitespace (Char.ofNat b.toNat) = isBlank (Char.ofNat b.toNat) ∧
      Char.ofNat b.toNat ≠ '\n' := by
  have hall : ∀ n < 127, Http.isTextByte (UInt8.ofNat n) = true →
      isWhitespace (Char.ofNat n) = isBlank (Char.ofNat n) ∧ Char.ofNat n ≠ '\n' := by decide
  have hlt : b.toNat < 127 := by
    simp only [Http.isTextByte, Bool.or_eq_true, beq_iff_eq, Bool.and_eq_true,
      decide_eq_true_eq] at h
    rcases h with rfl | ⟨-, h⟩
    · decide
    · exact h
  have hb : UInt8.ofNat b.toNat = b := UInt8.ofNat_toNat
  apply hall b.toNat hlt
  rw [hb]
  exact h

theorem mem_toText {value : HeaderValue} (h : value.toText = some text) :
    text = value.bytes.map (fun b => Char.ofNat b.toNat) ∧
      ∀ c ∈ text, isWhitespace c = isBlank c ∧ c ≠ '\n' := by
  simp only [HeaderValue.toText, Option.ite_none_right_eq_some, HeaderValue.isText,
    all_eq_true, Option.some.injEq] at h
  obtain ⟨hall, rfl⟩ := h
  refine ⟨rfl, ?_⟩
  intro c hc
  obtain ⟨b, hb, rfl⟩ := mem_map.mp hc
  exact isWhitespace_of_isTextByte (hall b hb)

theorem foldedValue_of_toText {value : HeaderValue} (h : value.toText = some text) :
    foldedValue value = canonicalValue text := by
  obtain ⟨hchars, hblank⟩ := mem_toText h
  have hblank : ∀ c ∈ text, isWhitespace c = isBlank c := fun c hc => (hblank c hc).1
  have hdrop : ∀ c ∈ text.dropWhile isWhitespace, isWhitespace c = isBlank c := fun c hc =>
    hblank c (dropWhile_subset _ hc)
  unfold canonicalValue collapseWhitespace trim
  rw [collapse_congr fun c hc => hdrop c (( rdropWhile_prefix _ _).subset hc),
    rdropWhile_congr hdrop, dropWhile_congr hblank, hchars]
  rfl

theorem newline_not_mem_canonicalValue (h : ∀ c ∈ text, c ≠ '\n') : '\n' ∉ canonicalValue text := by
  intro hmem
  rcases mem_collapse hmem with heq | hmem
  · cases heq
  · exact h '\n' (dropWhile_subset _ (( rdropWhile_prefix _ _).subset hmem)) rfl

/-! ## The first line of a header -/

/-- The text of the first line of a header. -/
def firstText (parts : Parts) (name : List Char) : List Char :=
  ((parts.headers.first (String.ofList name)).bind HeaderValue.toText).getD []

theorem extractHeaderValue_ok (h : extractHeaderValue parts name = .ok text) :
    firstText parts name = text ∧ ∃ value rest,
      parts.headers.getAll (ofList name) = value :: rest ∧ value.toText = some text := by
  unfold extractHeaderValue at h
  unfold firstText
  split at h
  · next text' htext =>
      cases h
      rw [htext]
      obtain ⟨value, hvalue, htext⟩ := Option.bind_eq_some_iff.mp htext
      obtain ⟨rest, hrest⟩ := head?_eq_some_iff.mp hvalue
      exact ⟨rfl, value, rest, hrest, htext⟩
  · cases h

theorem collectSignedHeaders_ok {pairs : List (List Char × List Char)}
    (h : collectSignedHeaders parts signedHeaders = .ok pairs) :
    pairs = signedHeaders.map (fun name => (name, firstText parts name)) ∧
      ∀ name ∈ signedHeaders, extractHeaderValue parts name = .ok (firstText parts name) := by
  unfold collectSignedHeaders at h
  induction signedHeaders generalizing pairs with
  | nil =>
      cases h
      exact ⟨rfl, fun _ hname => absurd hname not_mem_nil⟩
  | cons name names ih =>
      rw [mapM_cons] at h
      obtain ⟨pair, hpair, h⟩ := Except.bind_eq_ok.mp h
      obtain ⟨text, htext, hpair⟩ := Except.bind_eq_ok.mp hpair
      obtain ⟨rest, hrest, h⟩ := Except.bind_eq_ok.mp h
      cases hpair
      cases h
      obtain ⟨hpairs, hall⟩ := ih hrest
      have hfirst := (extractHeaderValue_ok htext).1
      rw [map_cons, hfirst, hpairs]
      refine ⟨rfl, forall_mem_cons.mpr ⟨?_, hall⟩⟩
      rw [hfirst]
      exact htext

/-- A header is looked up in any case. -/
theorem getAll_congr {headers : HeaderMap} {name' : List Char}
    (h : lowerName name = lowerName name') :
    headers.getAll (ofList name) = headers.getAll (ofList name') := by
  have hname : HeaderName.fromBytes (ofList name) =
      HeaderName.fromBytes (ofList name') := by
    apply HeaderName.fromBytes_congr
    rw [toList_ofList, toList_ofList]
    exact String.ofList_injective h
  unfold HeaderMap.getAll
  rw [hname]

theorem firstText_congr {name' : List Char} (h : lowerName name = lowerName name') :
    firstText parts name = firstText parts name' := by
  unfold firstText HeaderMap.first
  rw [getAll_congr h]

/-- The first line is looked at with its blanks folded. -/
theorem head_occurrences (h : extractHeaderValue parts name = .ok text) :
    (occurrences parts name).head? = some (canonicalValue (firstText parts name)) := by
  obtain ⟨hfirst, value, rest, hall, htext⟩ := extractHeaderValue_ok h
  rw [occurrences, hall, hfirst, map_cons, head?_cons, foldedValue_of_toText htext]

/-! ## The lines of the signed headers -/

def joinValue (existing : Option (List Char)) (value : List Char) : Option (List Char) :=
  some (match existing with
    | some existing => existing ++ ',' :: value
    | none => value)

theorem get?_insertHeader (headerMap : CanonicalMap) (header : List Char × List Char)
    (key : String) : (insertHeader headerMap header).get? key =
      if lowerName header.1 = key then
        joinValue (headerMap.get? key) (canonicalValue header.2)
      else headerMap.get? key := by
  unfold insertHeader joinValue
  by_cases hkey : lowerName header.1 = key
  · rw [if_pos hkey]
    subst hkey
    dsimp only
    cases headerMap.get? (lowerName header.1) with
    | some | none =>
        rw [SortedMap.get?_insert_eq, if_pos rfl]
        rfl
  · rw [if_neg hkey]
    dsimp only
    cases headerMap.get? (lowerName header.1) <;> rw [SortedMap.get?_insert_eq, if_neg hkey]

/-- A name has the values of its headers, joined. -/
theorem get?_foldl_insertHeader (headers : List (List Char × List Char)) (headerMap : CanonicalMap)
    (key : String) : (headers.foldl insertHeader headerMap).get? key =
      ((headers.filter fun h => lowerName h.1 = key).map fun h => canonicalValue h.2).foldl
        joinValue (headerMap.get? key) := by
  induction headers generalizing headerMap with
  | nil => rfl
  | cons header headers ih =>
      rw [foldl_cons, ih, get?_insertHeader]
      by_cases hkey : lowerName header.1 = key
      · rw [if_pos hkey, filter_cons_of_pos (by simpa using hkey), map_cons,
          foldl_cons]
      · rw [if_neg hkey, filter_cons_of_neg (by simpa using hkey)]

/-- A value that is joined to itself some times. -/
def repeated (value : List Char) : ℕ → List Char
  | 0 => value
  | count + 1 => repeated value count ++ ',' :: value

theorem foldl_joinValue_replicate (value : List Char) (count : ℕ) :
    (replicate (count + 1) value).foldl joinValue none = some (repeated value count) := by
  induction count with
  | zero => rfl
  | succ count ih =>
      rw [replicate_succ', foldl_append, ih]
      rfl

theorem length_repeated (value : List Char) (count : ℕ) :
    (repeated value count).length + 1 = (count + 1) * (value.length + 1) := by
  induction count with
  | zero => simp [repeated]
  | succ count ih =>
      rw [repeated, length_append, length_cons, Nat.succ_mul, ← ih]
      omega

theorem repeated_injective (count : ℕ) : Function.Injective fun value => repeated value count := by
  intro value value' h
  have hlength : value.length = value'.length := by
    have hsame := congrArg (fun cs => length cs + 1) h
    simp only [length_repeated] at hsame
    exact Nat.succ.inj (Nat.eq_of_mul_eq_mul_left (Nat.succ_pos count) hsame)
  induction count with
  | zero => exact h
  | succ count ih =>
      have hend : ',' :: value = ',' :: value' :=
        (@List.append_inj' _ (repeated value count) _ _ _ h (by simp [hlength])).2
      exact (cons.inj hend).2

theorem not_mem_repeated {value : List Char} {c : Char} (hc : c ≠ ',') (h : c ∉ value)
    (count : ℕ) : c ∉ repeated value count := by
  induction count with
  | zero => exact h
  | succ count ih =>
      rw [repeated, mem_append, mem_cons]
      rintro (hmem | heq | hmem)
      · exact ih hmem
      · exact hc heq
      · exact h hmem

/-- The map of the signed headers of a request. -/
def signedMap (parts : Parts) (signedHeaders : List (List Char)) : CanonicalMap :=
  (signedHeaders.map fun name => (name, firstText parts name)).foldl insertHeader SortedMap.empty

/-- How often a name is listed, in any case. -/
def listed (signedHeaders : List (List Char)) (key : String) : ℕ :=
  (signedHeaders.filter fun name => lowerName name = key).length

theorem get?_signedMap (name : List Char) :
    (signedMap parts signedHeaders).get? (lowerName name) =
      (replicate (listed signedHeaders (lowerName name))
        (canonicalValue (firstText parts name))).foldl joinValue none := by
  rw [signedMap, get?_foldl_insertHeader, SortedMap.get?_empty]
  congr 1
  rw [eq_replicate_iff]
  constructor
  · rw [length_map, filter_map, length_map]
    rfl
  · intro value hvalue
    obtain ⟨pair, hpair, rfl⟩ := mem_map.mp hvalue
    obtain ⟨hmem, hkey⟩ := mem_filter.mp hpair
    obtain ⟨other, -, rfl⟩ := mem_map.mp hmem
    rw [decide_eq_true_eq] at hkey
    dsimp only at hkey ⊢
    rw [firstText_congr hkey]

theorem listed_pos (h : name ∈ signedHeaders) :
    ∃ count, listed signedHeaders (lowerName name) = count + 1 := by
  apply Nat.exists_eq_add_one.mpr
  apply length_pos_of_mem
  exact mem_filter.mpr ⟨h, decide_eq_true rfl⟩

/-- A header that is listed has its value as often as it is listed. -/
theorem get?_signedMap_of_mem {count : ℕ} (h : listed signedHeaders (lowerName name) = count + 1) :
    (signedMap parts signedHeaders).get? (lowerName name) =
      some (repeated (canonicalValue (firstText parts name)) count) := by
  rw [get?_signedMap, h, foldl_joinValue_replicate]

/-- Which names have a line depends on the list of names only. -/
theorem get?_signedMap_eq_none {key : String} (h : ∀ name ∈ signedHeaders, lowerName name ≠ key) :
    (signedMap parts signedHeaders).get? key = none := by
  rw [signedMap, get?_foldl_insertHeader, SortedMap.get?_empty]
  have hnone : (signedHeaders.map fun name => (name, firstText parts name)).filter
      (fun h => lowerName h.1 = key) = [] := by
    rw [filter_eq_nil_iff]
    intro pair hpair
    obtain ⟨name, hname, rfl⟩ := mem_map.mp hpair
    rw [decide_eq_true_eq]
    exact h name hname
  rw [hnone]
  rfl

theorem isSome_signedMap (parts parts' : Parts) (signedHeaders : List (List Char)) (key : String) :
    ((signedMap parts signedHeaders).get? key).isSome =
      ((signedMap parts' signedHeaders).get? key).isSome := by
  by_cases h : ∃ name ∈ signedHeaders, lowerName name = key
  · obtain ⟨name, hname, rfl⟩ := h
    obtain ⟨count, hcount⟩ := listed_pos hname
    rw [get?_signedMap_of_mem hcount, get?_signedMap_of_mem hcount, Option.isSome_some,
      Option.isSome_some]
  · have hnone : ∀ name ∈ signedHeaders, lowerName name ≠ key := fun name hname heq =>
      h ⟨name, hname, heq⟩
    rw [get?_signedMap_eq_none hnone, get?_signedMap_eq_none hnone]

theorem filterMap_inj {α β : Type} {f g : α → Option β} {l : List α}
    (hsome : ∀ a ∈ l, (f a).isSome = (g a).isSome) :
    (l.filterMap f).length = (l.filterMap g).length ∧
      (l.filterMap f = l.filterMap g → ∀ a ∈ l, f a = g a) := by
  induction l with
  | nil => exact ⟨rfl, fun _ _ ha => absurd ha not_mem_nil⟩
  | cons a l ih =>
      obtain ⟨hlength, hinj⟩ := ih fun b hb => hsome b (mem_cons_of_mem a hb)
      have ha := hsome a (.head _)
      rw [filterMap_cons, filterMap_cons]
      cases hf : f a with
      | none =>
          rw [hf, Option.isSome_none, eq_comm, Option.isSome_eq_false_iff,
            Option.isNone_iff_eq_none] at ha
          rw [ha]
          refine ⟨hlength, fun heq => forall_mem_cons.mpr ⟨?_, hinj heq⟩⟩
          rw [hf, ha]
      | some b =>
          rw [hf, Option.isSome_some, eq_comm, Option.isSome_iff_exists] at ha
          obtain ⟨c, hc⟩ := ha
          rw [hc]
          refine ⟨congrArg Nat.succ hlength, fun heq => ?_⟩
          obtain ⟨hbc, hrest⟩ := cons.inj heq
          refine forall_mem_cons.mpr ⟨?_, hinj hrest⟩
          rw [hf, hc, hbc]

/-- The lines of the signed headers of a request. -/
def signedLines (parts : Parts) (signedHeaders : List (List Char)) : List (List Char) :=
  (sortNames signedHeaders).filterMap (headerLine (signedMap parts signedHeaders))

theorem mem_sortNames {names : List (List Char)} :
    name ∈ sortNames names ↔ name ∈ names :=
  (perm_insertionSort _ names).mem_iff

theorem isSome_headerLine (parts parts' : Parts) (signedHeaders : List (List Char))
    (name : List Char) : (headerLine (signedMap parts signedHeaders) name).isSome =
      (headerLine (signedMap parts' signedHeaders) name).isSome := by
  unfold headerLine
  rw [Option.isSome_map, Option.isSome_map]
  exact isSome_signedMap parts parts' signedHeaders _

/-- All signed headers can be read from a request. -/
def Carries (parts : Parts) (signedHeaders : List (List Char)) : Prop :=
  ∀ name ∈ signedHeaders, extractHeaderValue parts name = .ok (firstText parts name)

theorem newline_not_mem_name (h : extractHeaderValue parts name = .ok text) : '\n' ∉ name := by
  obtain ⟨-, value, rest, hall, -⟩ := extractHeaderValue_ok h
  unfold HeaderMap.getAll at hall
  split at hall
  · next n hn =>
      intro hmem
      have hvalid := n.valid
      rw [HeaderName.fromBytes_text hn, Bool.and_eq_true] at hvalid
      have hall := all_eq_true.mp hvalid.1 '\n'
      rw [toList_ofList, toList_ofList] at hall
      have hno : Http.isTokenChar '\n' = false := by decide
      have hmem' : '\n' ∈ name.map Char.toLower := mem_map.mpr ⟨'\n', hmem, rfl⟩
      rw [hno] at hall
      cases hall hmem'
  · cases hall

theorem newline_not_mem_firstText (h : extractHeaderValue parts name = .ok (firstText parts name)) :
    '\n' ∉ canonicalValue (firstText parts name) := by
  obtain ⟨-, value, rest, -, htext⟩ := extractHeaderValue_ok h
  exact newline_not_mem_canonicalValue fun c hc => ((mem_toText htext).2 c hc).2

theorem newline_not_mem_signedLines (h : Carries parts signedHeaders) :
    ∀ line ∈ signedLines parts signedHeaders, '\n' ∉ line := by
  intro line hline
  obtain ⟨name, hname, hline⟩ := mem_filterMap.mp hline
  obtain ⟨value, hvalue, rfl⟩ := Option.map_eq_some_iff.mp hline
  have hname := mem_sortNames.mp hname
  rw [mem_append, mem_cons]
  by_cases hkey : ∃ other ∈ signedHeaders, lowerName other = ofList name
  · obtain ⟨other, hother, heq⟩ := hkey
    obtain ⟨count, hcount⟩ := listed_pos hother
    rw [← heq, get?_signedMap_of_mem hcount] at hvalue
    rintro (hmem | hcolon | hmem)
    · exact newline_not_mem_name (h name hname) hmem
    · cases hcolon
    · rw [← Option.some.inj hvalue] at hmem
      exact not_mem_repeated (by decide) (newline_not_mem_firstText (h other hother)) count hmem
  · rw [get?_signedMap_eq_none fun other hother heq => hkey ⟨other, hother, heq⟩] at hvalue
    cases hvalue

/-- The lines bind the first value of every header that is listed in lower case. -/
theorem canonicalValue_eq
    (hlines : signedLines parts signedHeaders = signedLines parts' signedHeaders)
    (hname : name ∈ signedHeaders) (hlower : name.map Char.toLower ∈ signedHeaders) :
    canonicalValue (firstText parts name) = canonicalValue (firstText parts' name) := by
  have hall := (filterMap_inj fun other _ => isSome_headerLine parts parts' signedHeaders other).2
    hlines _ (mem_sortNames.mpr hlower)
  obtain ⟨count, hcount⟩ := listed_pos hname
  unfold headerLine at hall
  rw [show ofList (name.map Char.toLower) = lowerName name from rfl,
    get?_signedMap_of_mem hcount, get?_signedMap_of_mem hcount, Option.map_some, Option.map_some,
    Option.some.injEq, append_cancel_left_eq, cons.injEq] at hall
  exact repeated_injective count hall.2

/-! ## What is bound -/

theorem validatedPayloadHash_eq {actual payloadHash : List Char}
    (h : validatedPayloadHash parts actual false = .ok payloadHash) : payloadHash = actual := by
  unfold validatedPayloadHash at h
  split at h
  · exact (Except.ok.inj h).symm
  · split at h
    · cases h
    · rw [Bool.false_and, if_neg Bool.false_ne_true] at h
      split at h
      · cases h
      · exact (Except.ok.inj h).symm
  · cases h

/-- The parts of the signed text of an accepted request. -/
theorem Accepted.fields {crypto : Crypto} {provider : CredentialProvider} {bodyHash : List Char}
    {result : AuthResult} {parsed : ParsedAuth} {ctx : SigningContext} {query : List Char}
    (h : Accepted crypto provider parts bodyHash false false result parsed ctx query) :
    Carries parts parsed.signedHeaders ∧ ctx.method = parts.method.text ∧
      ctx.canonicalUri = buildCanonicalUri parts.uri.path ∧ '\n' ∉ query ∧
      ctx.canonicalHeaders = ['\n'].intercalate (signedLines parts parsed.signedHeaders) ∧
      ctx.signedHeaders = buildSignedHeadersString parsed.signedHeaders ∧
      ctx.payloadHash = bodyHash := by
  obtain ⟨secretKey, -, hctx⟩ := h.context
  obtain ⟨pairs, key, hpairs, -, hfields⟩ := signingContext_eq_ok hctx
  obtain ⟨rfl, hcarries⟩ := collectSignedHeaders_ok hpairs
  refine ⟨hcarries, by rw [hfields], by rw [hfields], ?_, by rw [hfields]; rfl, by rw [hfields],
    validatedPayloadHash_eq h.payload⟩
  exact newline_not_mem_form (h.form.imp id And.right)

/-- Requests with one text have the same method, path form, lines and payload hash. -/
theorem Accepted.binds {crypto : Crypto} (ideal : crypto.Ideal) {provider : CredentialProvider}
    {bodyHash bodyHash' : List Char} {result result' : AuthResult} {parsed : ParsedAuth}
    {ctx ctx' : SigningContext} {query query' : List Char}
    (h : Accepted crypto provider parts bodyHash false false result parsed ctx query)
    (h' : Accepted crypto provider parts' bodyHash' false false result' parsed ctx' query')
    (htime : ctx.timestamp = ctx'.timestamp) :
    parts.method = parts'.method ∧
      buildCanonicalUri parts.uri.path = buildCanonicalUri parts'.uri.path ∧
      signedLines parts parsed.signedHeaders = signedLines parts' parsed.signedHeaders ∧
      bodyHash = bodyHash' := by
  obtain ⟨hcarries, hmethod, huri, hquery, hheaders, hsigned, hpayload⟩ := h.fields
  obtain ⟨hcarries', hmethod', huri', hquery', hheaders', hsigned', hpayload'⟩ := h'.fields
  have htext : ctx.canonicalRequest query = ctx'.canonicalRequest query' := by
    obtain ⟨secret, hsecret, hctx⟩ := h.context
    obtain ⟨secret', hsecret', hctx'⟩ := h'.context
    obtain rfl := Except.ok.inj (hsecret.symm.trans hsecret')
    obtain ⟨_, key, -, hkey, hfields⟩ := signingContext_eq_ok hctx
    obtain ⟨_, key', -, hkey', hfields'⟩ := signingContext_eq_ok hctx'
    obtain rfl := Except.ok.inj (hkey.symm.trans hkey')
    refine canonicalRequest_eq ideal htime ?_ ?_ ?_ h.verified h'.verified <;>
      rw [hfields, hfields']
  unfold SigningContext.canonicalRequest at htext
  rw [hmethod, huri, hheaders, hsigned, hpayload, hmethod', huri', hheaders', hsigned',
    hpayload'] at htext
  have hnewline := newline_not_mem_canonicalUri parts.uri.path
  have hnewline' := newline_not_mem_canonicalUri parts'.uri.path
  obtain ⟨hmethodEq, huriEq, -, hbelow⟩ := canonicalRequest_inj parts.method.newline_not_mem
    parts'.method.newline_not_mem hnewline hnewline' hquery hquery' htext
  have hlength : (signedLines parts parsed.signedHeaders).length =
      (signedLines parts' parsed.signedHeaders).length :=
    (filterMap_inj fun other _ => isSome_headerLine parts parts' parsed.signedHeaders other).1
  obtain ⟨hlines, htail⟩ := Text.lines_inj hlength (newline_not_mem_signedLines hcarries)
    (newline_not_mem_signedLines hcarries') hbelow
  refine ⟨Http.Method.ext hmethodEq, huriEq, hlines, ?_⟩
  have hpayloadLine := append_cancel_left (cons.inj htail).2
  exact (cons.inj hpayloadLine).2

theorem Bound.agree {bodyHash bodyHash' : List Char}
    (h : Bound parts parts' bodyHash bodyHash' signedHeaders) :
    AgreeOnUnbound parts parts' signedHeaders where
  empty := by
    have hpath := h.path
    constructor
    · intro hempty
      rw [hempty] at hpath
      exact decodedSegments_eq_singleton_nil hpath.symm
    · intro hempty
      rw [hempty] at hpath
      exact decodedSegments_eq_singleton_nil hpath
  segments d hd _ := by
    rw [h.path, zip_eq_zipWith, zipWith_self] at hd
    obtain ⟨segment, -, rfl⟩ := mem_map.mp hd
    rfl
  later name hname := by rw [(h.headers name hname).2]
  upper name hname _ := by rw [(h.headers name hname).2]

/-- With one authorization header and one date, the signature binds two requests up to what they
agree on besides. -/
theorem bound_iff_agree {crypto : Crypto} (ideal : crypto.Ideal) {provider : CredentialProvider}
    {parts parts' : Parts} {bodyHash bodyHash' : List Char} {result result' : AuthResult}
    (h : verifySigv4 crypto provider parts bodyHash = .ok result)
    (h' : verifySigv4 crypto provider parts' bodyHash' = .ok result')
    (hauth : parts.headers.getAll "authorization" = parts'.headers.getAll "authorization")
    (htime : extractHeaderValue parts "x-amz-date".toList =
      extractHeaderValue parts' "x-amz-date".toList) :
    Bound parts parts' bodyHash bodyHash' result.signedHeaders ↔
      AgreeOnUnbound parts parts' result.signedHeaders := by
  refine ⟨Bound.agree, fun hagree => ?_⟩
  obtain ⟨parsed, ctx, query, haccepted⟩ := exists_accepted h
  obtain ⟨parsed', ctx', query', haccepted'⟩ := exists_accepted h'
  have hparsed : authorization parts = authorization parts' := by
    unfold authorization
    rw [hauth]
  rw [haccepted.authorization, haccepted'.authorization] at hparsed
  cases hparsed
  rw [haccepted.timestamp, haccepted'.timestamp] at htime
  obtain ⟨hmethod, huri, hlines, hpayload⟩ := haccepted.binds ideal haccepted' (Except.ok.inj htime)
  have hsigned : result.signedHeaders = parsed.signedHeaders := by rw [haccepted.result]
  rw [hsigned] at hagree ⊢
  have hcarries := haccepted.fields.1
  have hcarries' := haccepted'.fields.1
  refine ⟨hmethod, segments_eq huri hagree, hpayload, ?_⟩
  intro name hname
  have hhead := head_occurrences (hcarries name hname)
  have hhead' := head_occurrences (hcarries' name hname)
  have hfirst : (occurrences parts name).head? = (occurrences parts' name).head? := by
    by_cases hlower : name.map Char.toLower ∈ parsed.signedHeaders
    · rw [hhead, hhead', canonicalValue_eq hlines hname hlower]
    · exact hagree.upper name hname hlower
  obtain ⟨rest, hrest⟩ := head?_eq_some_iff.mp hhead
  obtain ⟨rest', hrest'⟩ := head?_eq_some_iff.mp hhead'
  have htail := hagree.later name hname
  rw [hrest, hrest', tail_cons, tail_cons] at htail
  rw [hrest, hrest', head?_cons, head?_cons, Option.some.injEq] at hfirst
  rw [hrest, hrest', hfirst, htail]
  exact ⟨cons_ne_nil _ _, rfl⟩

/-! ## Other spellings, and another line -/

/-- The request with an escape in its path and blanks around the host. -/
def respelledParts : Parts :=
  ⟨getMethod, { escapedParts.uri with path := "/buck%65t".toList, path_valid := by decide },
    sampleHeader "host" "  s3.amazonaws.com ".toList (by decide +kernel) ++
      signedListHeaders.drop 1⟩

/-- The request with a second host. -/
def secondHostParts : Parts :=
  ⟨getMethod, escapedParts.uri,
    signedListHeaders ++ sampleHeader "host" "example.com".toList (by decide +kernel)⟩

theorem escapedParts_accepted : verifySigv4 sampleCrypto sampleProvider escapedParts emptyHash =
    .ok (sampleResult ["host".toList, "x-amz-date".toList]) := by decide +kernel

theorem respelled_bound :
    Bound escapedParts respelledParts emptyHash emptyHash ["host".toList, "x-amz-date".toList] := by
  obtain ⟨hrespelled, hauth, htime⟩ :
      verifySigv4 sampleCrypto sampleProvider respelledParts emptyHash =
        .ok (sampleResult ["host".toList, "x-amz-date".toList]) ∧
      escapedParts.headers.getAll "authorization" =
        respelledParts.headers.getAll "authorization" ∧
      extractHeaderValue escapedParts "x-amz-date".toList =
        extractHeaderValue respelledParts "x-amz-date".toList := by decide +kernel
  refine (bound_iff_agree sampleCrypto_ideal escapedParts_accepted hrespelled hauth
    htime).mpr ⟨?_, ?_, ?_, ?_⟩
  · decide
  · decide +kernel
  · decide +kernel
  · decide +kernel

/-- A second line of a signed header is not bound. -/
theorem second_host_not_bound :
    ¬∀ (crypto : Crypto) (provider : CredentialProvider) (parts parts' : Parts)
      (bodyHash bodyHash' : List Char) (result result' : AuthResult), crypto.Ideal →
      verifySigv4 crypto provider parts bodyHash = .ok result →
      verifySigv4 crypto provider parts' bodyHash' = .ok result' →
      parts.headers.getAll "authorization" = parts'.headers.getAll "authorization" →
      extractHeaderValue parts "x-amz-date".toList =
        extractHeaderValue parts' "x-amz-date".toList →
      Bound parts parts' bodyHash bodyHash' result.signedHeaders := by
  intro h
  have hsecond : verifySigv4 sampleCrypto sampleProvider secondHostParts emptyHash =
      .ok (sampleResult ["host".toList, "x-amz-date".toList]) := by decide +kernel
  have hauth : escapedParts.headers.getAll "authorization" =
      secondHostParts.headers.getAll "authorization" := by decide +kernel
  have htime : extractHeaderValue escapedParts "x-amz-date".toList =
      extractHeaderValue secondHostParts "x-amz-date".toList := by decide +kernel
  have hbound : Bound escapedParts secondHostParts emptyHash emptyHash
      ["host".toList, "x-amz-date".toList] :=
    h _ _ _ _ _ _ _ _ sampleCrypto_ideal escapedParts_accepted hsecond hauth htime
  have hmem : "host".toList ∈ ["host".toList, "x-amz-date".toList] := mem_cons_self
  have hne : occurrences escapedParts "host".toList ≠
      occurrences secondHostParts "host".toList := by
    decide +kernel
  have heq := hbound.headers "host".toList hmem
  exact hne heq.2

end Rustack.Auth
