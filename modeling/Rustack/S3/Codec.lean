import Rustack.Lib.Fields
import Rustack.Lib.Hex
import Rustack.S3.Upload

/-!
# The buffered `aws-chunked` decoder

The whole body is at hand and the decoder goes through it by offsets.  Offsets are machine
words: their additions wrap or panic, as the build has it, and a slice whose ends lie outside
the body or the wrong way round panics in any build.
-/

namespace Rustack.S3.Codec

open DynamoDB (trim)
open List Outcome

/-- A slice of bytes, at most `isize::MAX` of them. -/
structure Bytes where
  data : List UInt8
  length_lt : data.length < 2 ^ 63

/-- The sum of two offsets; `checked` builds look for overflow, the others wrap. -/
def add (checked : Bool) (a b : ℕ) : Outcome S3Error ℕ :=
  if a + b < 2 ^ 64 then .ok (a + b)
  else if checked then .panic
  else .ok ((a + b) % 2 ^ 64)

def slice (data : List UInt8) (start stop : ℕ) : Outcome S3Error (List UInt8) :=
  if start ≤ stop ∧ stop ≤ data.length then .ok ((data.take stop).drop start) else .panic

def index (data : List UInt8) (i : ℕ) : Outcome S3Error UInt8 :=
  match data[i]? with
  | some byte => .ok byte
  | none => .panic

def crlf : List UInt8 := [13, 10]

def findCrlf (checked : Bool) (data : List UInt8) (start : ℕ) : Outcome S3Error (Option ℕ) := do
  let stop ← add checked start 2
  if data.length < stop then return none
  let rest ← slice data start data.length
  match Needle.position crlf rest with
  | none => return none
  | some p =>
    let found ← add checked start p
    return some found

def malformed (detail : String) : S3Error :=
  S3Error.withMessage .invalidArgument ("Malformed aws-chunked body: " ++ detail)

/-! ## Size lines -/

/-- The number of some digits, unless one is not a digit or a word does not hold it. -/
def hexWord (digits : List Char) : Option ℕ := do
  let values ← digits.mapM Hex.value
  let number := values.foldl (fun n d => n * 16 + d) 0
  if number < 2 ^ 64 then some number else none

/-- `usize::from_str_radix` at radix 16: a plus may stand in front. -/
def parseHex (text : List Char) : Option ℕ :=
  let digits := if text.head? = some '+' then text.tail else text
  if digits.isEmpty then none else hexWord digits

/-- The size in front of the first `;`. -/
def readSize (sizeLine : List UInt8) : Except S3Error ℕ :=
  match Utf8.decode? (sizeLine.takeWhile (· ≠ 59)) with
  | none => .error (malformed "invalid chunk size encoding")
  | some hexStr =>
    match parseHex (trim hexStr) with
    | none => .error (malformed ("invalid chunk size '" ++ String.ofList hexStr ++ "'"))
    | some size => .ok size

/-! ## Trailing headers -/

def signatureName : List Char := "x-amz-trailer-signature".toList

/-- One turn of the loop over the lines. -/
def readHeader (lower : String → String) (headers : Trailers) (line : List Char) : Trailers :=
  let line := trim line
  if line.isEmpty then headers
  else if signatureName.isPrefixOf line then headers
  else
    match Text.splitOnce ':' line with
    | some (key, value) =>
      headers.insert (lower (String.ofList (trim key))) (String.ofList (trim value))
    | none => headers

def parseTrailingHeaders (lower : String → String) (data : List UInt8) :
    Except S3Error Trailers :=
  match Utf8.decode? data with
  | none => .error (malformed "trailing headers are not valid UTF-8")
  | some text =>
    .ok ((Needle.pieces ['\r', '\n'] text).foldl (readHeader lower) SortedMap.empty)

structure AwsChunkedResult where
  body : List UInt8
  trailingHeaders : Trailers

/-! ## The loop -/

/-- What a turn of the loop leaves. -/
inductive Turn where
  | done (result : AwsChunkedResult)
  | more (pos : ℕ) (output : List UInt8)

/-- Read exactly `chunkSize` bytes and the line end behind them. -/
def readData (checked : Bool) (body : Bytes) (pos chunkSize : ℕ) (output : List UInt8) :
    Outcome S3Error Turn := do
  let stop ← add checked pos chunkSize
  if body.data.length < stop then throw (malformed "chunk data truncated")
  let chunk ← slice body.data pos stop
  let behind ← add checked stop 2
  if body.data.length < behind then throw (malformed "missing CRLF after chunk data")
  if (← index body.data stop) ≠ 13 then throw (malformed "missing CRLF after chunk data")
  let next ← add checked stop 1
  if (← index body.data next) ≠ 10 then throw (malformed "missing CRLF after chunk data")
  return .more behind (output ++ chunk)

def turn (checked : Bool) (lower : String → String) (body : Bytes) (pos : ℕ)
    (output : List UInt8) : Outcome S3Error Turn := do
  match ← findCrlf checked body.data pos with
  | none => throw (malformed "missing chunk size line")
  | some lineEnd =>
    let sizeLine ← slice body.data pos lineEnd
    let chunkSize ← readSize sizeLine
    let pos ← add checked lineEnd 2
    if chunkSize = 0 then
      -- the chunk that ends the body
      let rest ← slice body.data pos body.data.length
      let trailingHeaders ← parseTrailingHeaders lower rest
      return .done { body := output, trailingHeaders }
    else readData checked body pos chunkSize output

theorem add_of_lt {checked : Bool} {a b : ℕ} (h : a + b < 2 ^ 64) :
    add checked a b = .ok (a + b) := by
  rw [add, if_pos h]

theorem slice_eq_ok {data part : List UInt8} {start stop : ℕ}
    (h : slice data start stop = .ok part) :
    start ≤ stop ∧ stop ≤ data.length ∧ part = (data.take stop).drop start := by
  unfold slice at h
  split at h
  · next hin =>
      cases h
      exact ⟨hin.1, hin.2, rfl⟩
  · cases h

theorem slice_of_le {data : List UInt8} {start stop : ℕ} (h : start ≤ stop)
    (hstop : stop ≤ data.length) : slice data start stop = .ok ((data.take stop).drop start) :=
  if_pos ⟨h, hstop⟩

section Turn

variable {checked : Bool} {lower : String → String} {body : Bytes} {pos : ℕ} {output : List UInt8}

theorem le_of_findCrlf {found : ℕ}
    (h : findCrlf checked body.data pos = .ok (some found)) : pos ≤ body.data.length := by
  unfold findCrlf at h
  obtain ⟨stop, -, h⟩ := bind_eq_ok.mp h
  split at h
  · cases h
  · obtain ⟨rest, hrest, -⟩ := bind_eq_ok.mp h
    exact (slice_eq_ok hrest).1

/-- Within the body the search cannot overflow. -/
theorem findCrlf_eq (hpos : pos ≤ body.data.length) :
    findCrlf checked body.data pos =
      .ok ((Needle.position crlf (body.data.drop pos)).map (pos + ·)) := by
  have hlt := body.length_lt
  unfold findCrlf
  rw [add_of_lt (by omega), ok_bind]
  by_cases hshort : body.data.length < pos + 2
  · have hnone : Needle.position crlf (body.data.drop pos) = none := by
      refine Needle.position_eq_none_iff.mpr fun hocc => ?_
      have hle := hocc.length_le
      rw [length_drop] at hle
      simp only [crlf, length_cons, length_nil] at hle
      omega
    rw [if_pos hshort, hnone]
    rfl
  · rw [if_neg hshort, slice_of_le hpos le_rfl, take_length, ok_bind]
    cases hposition : Needle.position crlf (body.data.drop pos) with
    | none => rfl
    | some p =>
        have hle := (Needle.position_eq_some_cut hposition).2
        rw [length_drop] at hle
        dsimp only
        rw [add_of_lt (by omega)]
        rfl

/-- What a turn does, by the line end that comes next. -/
theorem turn_none (hpos : pos ≤ body.data.length)
    (h : Needle.position crlf (body.data.drop pos) = none) :
    turn checked lower body pos output = .err (malformed "missing chunk size line") := by
  unfold turn
  rw [findCrlf_eq hpos, h]
  rfl

/-! ### By what stands at the position -/

variable {front behind line rest chunk : List UInt8} {size : ℕ}

/-- A chunk whose end is past the last offset brings any build down. -/
theorem readData_panic (hfront : front.length ≤ body.data.length)
    (hsize : size < 2 ^ 64) (hpast : 2 ^ 64 ≤ front.length + size) :
    readData checked body front.length size output = .panic := by
  have hlt := body.length_lt
  unfold readData
  cases checked with
  | true =>
      have hadd : add true front.length size = .panic := by
        rw [add, if_neg (by omega)]
        rfl
      rw [hadd]
      rfl
  | false =>
      -- the sum wraps to a position before the start of the chunk
      have hadd : add false front.length size = .ok (front.length + size - 2 ^ 64) := by
        rw [add, if_neg (by omega), if_neg Bool.false_ne_true,
          Nat.mod_eq_sub_mod hpast, Nat.mod_eq_of_lt (by omega)]
      have hslice : slice body.data front.length (front.length + size - 2 ^ 64) = .panic := by
        rw [slice, if_neg]
        omega
      rw [hadd, ok_bind, if_neg (by omega), hslice]
      rfl

theorem readData_truncated (hcut : body.data = front ++ rest) (hshort : rest.length < size)
    (hsize : front.length + size < 2 ^ 64) :
    readData checked body front.length size output =
      .err (malformed "chunk data truncated") := by
  have hlength := congrArg length hcut
  rw [length_append] at hlength
  unfold readData
  rw [add_of_lt hsize, ok_bind, if_pos (by omega)]
  rfl

theorem readData_cut (hcut : body.data = front ++ (chunk ++ rest)) :
    readData checked body front.length chunk.length output =
      if crlf <+: rest then .ok (.more (front.length + chunk.length + 2) (output ++ chunk))
      else .err (malformed "missing CRLF after chunk data") := by
  have hlt := body.length_lt
  have hlength := congrArg length hcut
  rw [length_append, length_append] at hlength
  have hslice : slice body.data front.length (front.length + chunk.length) = .ok chunk := by
    rw [slice_of_le (by omega) (by omega), hcut, ← append_assoc, ← length_append,
      take_left, drop_left]
  have hindex : ∀ i, body.data[front.length + chunk.length + i]? = rest[i]? := by
    intro i
    rw [hcut, ← append_assoc, ← length_append, getElem?_append_right (by omega)]
    rw [Nat.add_sub_cancel_left]
  unfold readData
  rw [add_of_lt (by omega), ok_bind, if_neg (by omega), hslice, ok_bind,
    add_of_lt (by omega), ok_bind, add_of_lt (by omega)]
  have hfirst := hindex 0
  have hsecond := hindex 1
  rw [Nat.add_zero] at hfirst
  cases rest with
  | nil =>
      rw [if_pos (by simp at hlength; omega), if_neg (by simp [crlf])]
      rfl
  | cons c rest =>
      cases rest with
      | nil =>
          rw [if_pos (by simp at hlength; omega), if_neg (by simp [crlf])]
          rfl
      | cons d rest =>
          rw [if_neg (by simp at hlength; omega)]
          simp only [index, hfirst, hsecond, getElem?_cons_zero, getElem?_cons_succ,
            ok_bind]
          by_cases hc : c = 13
          · by_cases hd : d = 10
            · simp [hc, hd, crlf]
            · simp [hc, hd, crlf, Ne.symm hd]
          · simp [hc, crlf, Ne.symm hc]

theorem crlf_unbordered : Needle.Unbordered crlf := by decide

theorem turn_cut (hcut : body.data = front ++ (line ++ crlf ++ rest)) (hline : ¬crlf <:+: line) :
    turn checked lower body front.length output =
      (ofExcept (readSize line) >>= fun size =>
        if size = 0 then
          Outcome.ofExcept (parseTrailingHeaders lower rest) >>= fun trailingHeaders =>
            .ok (.done { body := output, trailingHeaders })
        else readData checked body (front ++ line ++ crlf).length size output) := by
  have hlt := body.length_lt
  have hlength := congrArg length hcut
  simp only [length_append] at hlength
  have hcrlf : crlf.length = 2 := rfl
  have hdrop : body.data.drop front.length = line ++ crlf ++ rest := by
    rw [hcut, drop_left]
  have hsizeLine : slice body.data front.length (front.length + line.length) = .ok line := by
    rw [slice_of_le (by omega) (by omega), hcut, append_assoc, ← append_assoc,
      ← length_append, take_left, drop_left]
  have hrest : slice body.data (front.length + line.length + 2) body.data.length = .ok rest := by
    have hfront : front.length + line.length + 2 = (front ++ line ++ crlf).length := by
      simp only [length_append, hcrlf]
    have hwhole : body.data = front ++ line ++ crlf ++ rest := by
      rw [hcut]
      simp only [append_assoc]
    rw [slice_of_le (by omega) le_rfl, take_length, hfront, hwhole, drop_left]
  unfold turn
  rw [findCrlf_eq (by omega), hdrop, Needle.position_of_unbordered crlf_unbordered hline]
  simp only [Option.map_some, ok_bind]
  rw [hsizeLine, ok_bind, add_of_lt (by omega)]
  simp only [ok_bind, hrest]
  have hpos : (front ++ line ++ crlf).length = front.length + line.length + 2 := by
    simp only [length_append, hcrlf]
  rw [hpos]
  rfl

/-- A chunk as it stands in the body: its size line and its bytes. -/
structure Frame where
  line : List UInt8
  data : List UInt8

def Frame.bytes (f : Frame) : List UInt8 := f.line ++ crlf ++ f.data ++ crlf

/-- The line tells the size of the data. -/
structure Frame.Whole (f : Frame) : Prop where
  line_plain : ¬crlf <:+: f.line
  size : readSize f.line = .ok f.data.length
  data_ne_nil : f.data ≠ []

theorem turn_frame {f : Frame} (h : f.Whole) (hcut : body.data = front ++ (f.bytes ++ rest)) :
    turn checked lower body front.length output =
      .ok (.more (front ++ f.bytes).length (output ++ f.data)) := by
  have hcut' : body.data = front ++ (f.line ++ crlf ++ (f.data ++ (crlf ++ rest))) := by
    rw [hcut, Frame.bytes]
    simp only [append_assoc]
  have hdata : body.data = front ++ f.line ++ crlf ++ (f.data ++ (crlf ++ rest)) := by
    rw [hcut']
    simp only [append_assoc]
  have hsize : f.data.length ≠ 0 := fun hzero => h.data_ne_nil (length_eq_zero_iff.mp hzero)
  rw [turn_cut hcut' h.line_plain, h.size, Outcome.ofExcept, Outcome.ok_bind, if_neg hsize,
    readData_cut hdata, if_pos (prefix_append _ _)]
  congr 2
  simp only [Frame.bytes, crlf, length_append, length_cons, length_nil]
  omega

/-- What follows the size line cannot be addressed. -/
structure Overflows (front line : List UInt8) (size : ℕ) : Prop where
  line_plain : ¬crlf <:+: line
  size_eq : readSize line = .ok size
  past : 2 ^ 64 ≤ (front ++ line ++ crlf).length + size

theorem hexWord_lt {digits : List Char} (h : hexWord digits = some size) :
    size < 2 ^ 64 := by
  obtain ⟨values, -, h⟩ := Option.bind_eq_some_iff.mp h
  dsimp only at h
  split at h
  · next hlt =>
      cases h
      exact hlt
  · cases h

theorem parseHex_lt {text : List Char} (h : parseHex text = some size) : size < 2 ^ 64 := by
  rw [parseHex] at h
  generalize (if text.head? = some '+' then text.tail else text) = digits at h
  by_cases hempty : digits.isEmpty
  · rw [if_pos hempty] at h
    cases h
  · rw [if_neg hempty] at h
    exact hexWord_lt h

theorem readSize_lt (h : readSize line = .ok size) : size < 2 ^ 64 := by
  unfold readSize at h
  split at h
  · cases h
  · split at h
    · cases h
    · next hsize =>
        cases h
        exact parseHex_lt hsize

theorem turn_overflows (h : Overflows front line size)
    (hcut : body.data = front ++ (line ++ crlf ++ rest)) :
    turn checked lower body front.length output = .panic := by
  have hlength := congrArg length hcut
  have hlt := body.length_lt
  have hpast := h.past
  simp only [length_append] at hlength hpast
  rw [turn_cut hcut h.line_plain, h.size_eq, Outcome.ofExcept, Outcome.ok_bind, if_neg (by omega)]
  refine readData_panic ?_ (readSize_lt h.size_eq) h.past
  simp only [length_append]
  omega

/-- A turn either ends the loop, or passes one whole chunk, or overflows. -/
theorem turn_cases (checked : Bool) (lower : String → String) (output : List UInt8)
    (hcut : body.data = front ++ behind) :
    (∃ result, turn checked lower body front.length output = .ok (.done result)) ∨
    (∃ e, turn checked lower body front.length output = .err e) ∨
    (∃ f rest, Frame.Whole f ∧ behind = f.bytes ++ rest) ∨
    (∃ line rest size, Overflows front line size ∧ behind = line ++ crlf ++ rest) := by
  have hpos : front.length ≤ body.data.length := by
    rw [hcut, length_append]
    exact Nat.le_add_right _ _
  have hdrop : body.data.drop front.length = behind := by rw [hcut, drop_left]
  cases hposition : Needle.position crlf behind with
  | none =>
      rw [← hdrop] at hposition
      exact .inr (.inl ⟨_, turn_none hpos hposition⟩)
  | some p =>
      have hbehind := (Needle.position_eq_some_cut hposition).1
      have hline := Needle.not_infix_take (by decide) hposition
      generalize behind.take p = line at hbehind hline
      generalize behind.drop (p + crlf.length) = rest at hbehind
      rw [hbehind] at hcut
      have hturn := @turn_cut checked lower body output front line rest hcut hline
      cases hsize : readSize line with
      | error e =>
          rw [hsize] at hturn
          exact .inr (.inl ⟨e, hturn⟩)
      | ok size =>
          rw [hsize, Outcome.ofExcept, Outcome.ok_bind] at hturn
          by_cases hzero : size = 0
          · rw [if_pos hzero] at hturn
            cases htrailing : parseTrailingHeaders lower rest with
            | error e =>
                rw [htrailing] at hturn
                exact .inr (.inl ⟨e, hturn⟩)
            | ok trailingHeaders =>
                rw [htrailing] at hturn
                exact .inl ⟨_, hturn⟩
          rw [if_neg hzero] at hturn
          by_cases hpast : 2 ^ 64 ≤ (front ++ line ++ crlf).length + size
          · exact .inr (.inr (.inr ⟨line, rest, size, ⟨hline, hsize, hpast⟩, hbehind⟩))
          have hdata : body.data = front ++ line ++ crlf ++ rest := by
            rw [hcut]
            simp only [append_assoc]
          by_cases hshort : rest.length < size
          · rw [readData_truncated hdata hshort (Nat.lt_of_not_le hpast)] at hturn
            exact .inr (.inl ⟨_, hturn⟩)
          obtain ⟨chunk, rest, rfl, rfl⟩ : ∃ chunk rest', rest = chunk ++ rest' ∧
              size = chunk.length :=
            ⟨rest.take size, rest.drop size, (take_append_drop _ _).symm, by
              rw [length_take]
              omega⟩
          rw [readData_cut hdata] at hturn
          by_cases hend : crlf <+: rest
          · obtain ⟨rest, rfl⟩ := hend
            refine .inr (.inr (.inl ⟨⟨line, chunk⟩, rest, ⟨hline, hsize, ?_⟩, ?_⟩))
            · rintro rfl
              exact hzero rfl
            · rw [hbehind, Frame.bytes]
              simp only [append_assoc]
          · rw [if_neg hend] at hturn
            exact .inr (.inl ⟨_, hturn⟩)

/-- A turn that does not end the loop has moved on. -/
theorem turn_more {pos' : ℕ} {output' : List UInt8}
    (h : turn checked lower body pos output = .ok (.more pos' output')) :
    pos < pos' ∧ pos' ≤ body.data.length := by
  have hpos : pos ≤ body.data.length := by
    unfold turn at h
    obtain ⟨found, hfound, h⟩ := bind_eq_ok.mp h
    cases found with
    | none => cases h
    | some lineEnd => exact le_of_findCrlf hfound
  obtain ⟨front, behind, hcut, rfl⟩ : ∃ front behind, body.data = front ++ behind ∧
      pos = front.length :=
    ⟨body.data.take pos, body.data.drop pos, (take_append_drop _ _).symm, by
      rw [length_take]
      omega⟩
  rcases turn_cases checked lower output hcut with
    ⟨result, hturn⟩ | ⟨e, hturn⟩ | ⟨f, rest, hwhole, rfl⟩ | ⟨line, rest, size, hover, rfl⟩
  · rw [hturn] at h
    cases h
  · rw [hturn] at h
    cases h
  · rw [turn_frame hwhole hcut] at h
    cases h
    rw [hcut]
    simp only [Frame.bytes, crlf, length_append, length_cons, length_nil]
    omega
  · rw [turn_overflows hover hcut] at h
    cases h

end Turn

def decodeFrom (checked : Bool) (lower : String → String) (body : Bytes) (pos : ℕ)
    (output : List UInt8) : Outcome S3Error AwsChunkedResult :=
  match _h : turn checked lower body pos output with
  | .panic => .panic
  | .err e => .err e
  | .ok (.done result) => .ok result
  | .ok (.more pos output) => decodeFrom checked lower body pos output
  termination_by body.data.length - pos
  decreasing_by
    have hmore := turn_more _h
    omega

def decodeAwsChunked (checked : Bool) (lower : String → String) (body : Bytes) :
    Outcome S3Error AwsChunkedResult :=
  decodeFrom checked lower body 0 []

/-! ## When the decoder comes down -/

section Panic

variable {checked : Bool} {lower : String → String} {body : Bytes} {output : List UInt8}
  {front rest : List UInt8}

theorem decodeFrom_frames (checked : Bool) (lower : String → String) (output : List UInt8)
    {frames : List Frame} (hframes : ∀ f ∈ frames, f.Whole)
    (hcut : body.data = front ++ (frames.flatMap Frame.bytes ++ rest)) :
    decodeFrom checked lower body front.length output =
      decodeFrom checked lower body (front ++ frames.flatMap Frame.bytes).length
        (output ++ frames.flatMap Frame.data) := by
  induction frames generalizing front output with
  | nil => simp
  | cons f frames ih =>
      rw [forall_mem_cons] at hframes
      have hfirst : body.data = front ++ (f.bytes ++ (frames.flatMap Frame.bytes ++ rest)) := by
        rw [hcut, flatMap_cons, append_assoc]
      have hnext : body.data = front ++ f.bytes ++ (frames.flatMap Frame.bytes ++ rest) := by
        rw [hfirst, append_assoc]
      rw [decodeFrom, turn_frame hframes.1 hfirst]
      dsimp only
      rw [ih _ hframes.2 hnext]
      simp only [flatMap_cons, append_assoc]

/-- Behind some whole chunks a chunk is announced whose end has no offset. -/
def Oversized (data : List UInt8) : Prop :=
  ∃ (frames : List Frame) (line rest : List UInt8) (size : ℕ), (∀ f ∈ frames, f.Whole) ∧
    Overflows (frames.flatMap Frame.bytes) line size ∧
    data = frames.flatMap Frame.bytes ++ (line ++ crlf ++ rest)

theorem decodeFrom_oversized {frames : List Frame} {line : List UInt8} {size : ℕ}
    (hframes : ∀ f ∈ frames, f.Whole)
    (h : Overflows (frames.flatMap Frame.bytes) line size)
    (hcut : body.data = frames.flatMap Frame.bytes ++ (line ++ crlf ++ rest)) :
    decodeAwsChunked checked lower body = .panic := by
  have hcut' : body.data = [] ++ (frames.flatMap Frame.bytes ++ (line ++ crlf ++ rest)) := by
    rw [hcut, nil_append]
  have hloop := decodeFrom_frames checked lower [] hframes hcut'
  rw [nil_append] at hloop
  rw [decodeAwsChunked, ← length_nil, hloop, decodeFrom, turn_overflows h hcut]

theorem oversized_of_decodeFrom {behind : List UInt8} (hcut : body.data = front ++ behind)
    (h : decodeFrom checked lower body front.length output = .panic) {frames : List Frame}
    (hframes : ∀ f ∈ frames, f.Whole) (hfront : front = frames.flatMap Frame.bytes) :
    Oversized body.data := by
  induction hlength : behind.length using Nat.strong_induction_on
    generalizing behind front frames output with
  | _ n ih =>
      rcases turn_cases checked lower output hcut with
        ⟨result, hturn⟩ | ⟨e, hturn⟩ | ⟨f, rest, hwhole, rfl⟩ | ⟨line, rest, size, hover, rfl⟩
      · rw [decodeFrom, hturn] at h
        cases h
      · rw [decodeFrom, hturn] at h
        cases h
      · rw [decodeFrom, turn_frame hwhole hcut] at h
        have hnext : body.data = front ++ f.bytes ++ rest := by rw [hcut, append_assoc]
        have hall : ∀ g ∈ frames ++ [f], g.Whole := by
          rw [forall_mem_append]
          exact ⟨hframes, by simpa using hwhole⟩
        refine ih rest.length ?_ hnext h hall ?_ rfl
        · rw [← hlength]
          simp only [Frame.bytes, crlf, length_append, length_cons, length_nil]
          omega
        · rw [hfront, flatMap_append]
          simp
      · rw [hfront] at hcut hover
        exact ⟨frames, line, rest, size, hframes, hover, hcut⟩

theorem decodeAwsChunked_panic_iff (checked : Bool) (lower : String → String) (body : Bytes) :
    decodeAwsChunked checked lower body = .panic ↔ Oversized body.data := by
  constructor
  · intro h
    have hnone : ∀ f ∈ ([] : List Frame), f.Whole := fun f hf => absurd hf not_mem_nil
    exact oversized_of_decodeFrom (nil_append _).symm h hnone rfl
  · rintro ⟨frames, line, rest, size, hframes, hover, hcut⟩
    exact decodeFrom_oversized hframes hover hcut

end Panic

end Rustack.S3.Codec
