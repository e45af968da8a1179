import Rustack.S3.FormData

/-!
# Forms on the wire

A form is encoded with its parts between delimiters.  The parts are found again where the
delimiter does not occur within them, and what stands behind the last delimiter is taken for a
part, too.  A part is read as the field it is where its header line gives no file name.
-/

namespace Rustack.S3.FormData

open DynamoDB (toAsciiLowercase trim isWhitespace)
open List Utf8 Needle
open String (ofList)

/-! ## Forms on the wire -/

def isBoundaryChar (c : Char) : Bool :=
  c.isAlphanum || "'()+_,-./:=? ".toList.contains c

/-- What may be announced as the boundary. -/
structure Boundary where
  text : List Char
  plain : ∀ c ∈ text, isBoundaryChar c = true

namespace Boundary

variable (b : Boundary)

def delimiter : List UInt8 := delimiterOf b.text

def endDelimiter : List UInt8 := endDelimiterOf b.text

/-- The text of the delimiter. -/
def dashed : List Char := '-' :: '-' :: b.text

end Boundary

structure FormFile where
  filename : Option String
  nameFirst : Bool
  contentType : Option String
  data : List UInt8
  contentType_plain : ∀ value ∈ contentType, '\r' ∉ value.toList

/-- A form: fields and a file, under names of their own. -/
structure Form where
  fields : List (String × String)
  file : FormFile
  distinct : ("file" :: fields.map Prod.fst).Nodup

/-- Characters that would end a quoted value are written by their numbers. -/
def escapeChar (c : Char) : List Char :=
  if c = '"' then ['%', '2', '2']
  else if c = '\r' then ['%', '0', 'D']
  else if c = '\n' then ['%', '0', 'A']
  else [c]

def escapeParam (value : List Char) : List Char := value.flatMap escapeChar

def param (name value : List Char) : List Char := name ++ '=' :: '"' :: (escapeParam value ++ ['"'])

def dispositionLine (params : List (List Char)) : List Char :=
  "Content-Disposition: form-data".toList ++ params.flatMap fun p => ';' :: ' ' :: p

def fieldLine (name : String) : List Char := dispositionLine [param "name".toList name.toList]

namespace FormFile

variable (file : FormFile)

def dispositionLine : List Char :=
  match file.filename with
  | none => fieldLine "file"
  | some filename =>
    if file.nameFirst then
      FormData.dispositionLine [param "name".toList "file".toList,
        param "filename".toList filename.toList]
    else
      FormData.dispositionLine [param "filename".toList filename.toList,
        param "name".toList "file".toList]

def contentTypeLine (value : String) : List Char := "Content-Type: ".toList ++ value.toList

def lines : List (List Char) :=
  file.dispositionLine :: (file.contentType.map contentTypeLine).toList

end FormFile

open FormFile (contentTypeLine)

def partOf (lines : List (List Char)) (body : List UInt8) : List UInt8 :=
  lines.flatMap (fun line => Utf8.encode line ++ crlf) ++ (crlf ++ body)

def fieldPart (field : String × String) : List UInt8 :=
  partOf [fieldLine field.1] (Utf8.encode field.2.toList)

def Form.parts (form : Form) : List (List UInt8) :=
  form.fields.map fieldPart ++ [partOf form.file.lines form.file.data]

/-- What stands in front of the first delimiter, on lines of its own. -/
def preambleText : Option (List UInt8) → List UInt8
  | none => []
  | some text => text ++ crlf

/-- What stands behind the last delimiter. -/
def epilogueText : Option (List UInt8) → List UInt8
  | none => []
  | some text => crlf ++ text

def Form.encode (form : Form) (b : Boundary) (preamble epilogue : Option (List UInt8)) :
    List UInt8 :=
  preambleText preamble ++ (b.delimiter ++
    (form.parts.flatMap (fun part => crlf ++ (part ++ (crlf ++ b.delimiter))) ++
      (45 :: 45 :: epilogueText epilogue)))

/-- The form is read back. -/
def Form.Returned (form : Form) (result : Except S3Error MultipartForm) : Prop :=
  ∃ out, result = .ok out ∧ (∀ name, out.fields.lookup name = form.fields.lookup name) ∧
    out.fileData = form.file.data ∧ out.fileContentType = form.file.contentType

/-! ## Delimiters -/

namespace Boundary

variable (b : Boundary)

theorem toNat_of_boundaryChar {c : Char} (h : isBoundaryChar c = true) :
    32 ≤ c.toNat ∧ c.toNat < 128 ∧ c ≠ '"' ∧ c ≠ '%' ∧ c ≠ ';' := by
  unfold isBoundaryChar at h
  rcases Bool.or_eq_true_iff.mp h with h | h
  · have hrange : (48 ≤ c.toNat ∧ c.toNat ≤ 57) ∨ (65 ≤ c.toNat ∧ c.toNat ≤ 90) ∨
        (97 ≤ c.toNat ∧ c.toNat ≤ 122) := by
      rcases Bool.or_eq_true_iff.mp h with hletter | hdigit
      · rcases Bool.or_eq_true_iff.mp hletter with hupper | hlower
        · exact .inr (.inl (of_decide_eq_true hupper))
        · obtain ⟨ha, hz⟩ := Bool.and_eq_true_iff.mp hlower
          exact .inr (.inr ⟨of_decide_eq_true ha, of_decide_eq_true hz⟩)
      · obtain ⟨hzero, hnine⟩ := Bool.and_eq_true_iff.mp hdigit
        exact .inl ⟨of_decide_eq_true hzero, of_decide_eq_true hnine⟩
    refine ⟨by omega, by omega, ?_, ?_, ?_⟩ <;> rintro rfl <;> revert hrange <;> decide
  · have hmarks : "'()+_,-./:=? ".toList.all (fun d => decide (32 ≤ d.toNat ∧ d.toNat < 128 ∧
        d ≠ '"' ∧ d ≠ '%' ∧ d ≠ ';')) = true := by decide
    exact of_decide_eq_true (all_eq_true.mp hmarks c (contains_iff_mem.mp h))

theorem mem_dashed {c : Char} (h : c ∈ b.dashed) :
    32 ≤ c.toNat ∧ c.toNat < 128 ∧ c ≠ '"' ∧ c ≠ '%' ∧ c ≠ ';' := by
  rcases mem_cons.mp h with rfl | h
  · decide
  · rcases mem_cons.mp h with rfl | h
    · decide
    · exact toNat_of_boundaryChar (b.plain c h)

theorem dashed_ascii : ∀ c ∈ b.dashed, c.toNat < 128 := fun _ h => (b.mem_dashed h).2.1

theorem endDelimiter_eq : b.endDelimiter = 45 :: 45 :: (encode b.text ++ [45, 45]) := by
  change encode ('-' :: '-' :: b.text ++ ['-', '-']) = _
  rw [encode_append]
  rfl

theorem delimiter_ne_nil : b.delimiter ≠ [] := cons_ne_nil _ _

/-- A delimiter stands on one line. -/
theorem notMem_delimiter {byte : UInt8} (h : byte < 32) : byte ∉ b.delimiter := by
  intro hmem
  obtain ⟨c, hc, hbyte⟩ := mem_flatMap.mp (show byte ∈ encode b.dashed from hmem)
  have hlt : byte < 128 := UInt8.lt_trans h (by decide)
  have hchar := (encodeChar_of_mem hlt hbyte).1
  have hrange := (b.mem_dashed hc).1
  rw [hchar, toNat_ofNat_of_valid (.inl (by
    have := UInt8.lt_iff_toNat_lt.mp hlt
    simp at this
    omega))] at hrange
  have := UInt8.lt_iff_toNat_lt.mp h
  simp at this
  omega

theorem infix_of_encode {cs : List Char} (h : b.delimiter <:+: encode cs) :
    b.dashed <:+: cs := Utf8.infix_of_encode b.dashed_ascii h

end Boundary

/-! ## The parts that are found -/

section Parts

variable {delimiter endDelimiter remaining part more : List UInt8}

theorem findBytes_eq (hne : delimiter ≠ []) :
    findBytes remaining delimiter = position delimiter remaining := by
  unfold findBytes
  rw [isEmpty_eq_false_iff.mpr hne, Bool.false_or]
  split_ifs with hshort
  · refine (position_eq_none_iff.mpr fun hocc => ?_).symm
    exact absurd hocc.length_le (Nat.not_le.mpr (of_decide_eq_true hshort))
  · rfl

theorem skipCrlf_crlf (data : List UInt8) : skipCrlf (crlf ++ data) = data := by
  unfold skipCrlf
  rw [if_pos (prefix_append crlf data), drop_left]

theorem skipCrlf_of_ne {byte : UInt8} (h : byte ≠ 13) (data : List UInt8) :
    skipCrlf (byte :: data) = byte :: data := by
  unfold skipCrlf
  exact if_neg fun hpre => h (cons_prefix_cons.mp hpre).1.symm

theorem stripTrailingCrlf_crlf (data : List UInt8) : stripTrailingCrlf (data ++ crlf) = data := by
  unfold stripTrailingCrlf
  rw [if_pos (suffix_append data crlf), length_append, Nat.add_sub_cancel, take_left]

theorem stripTrailingCrlf_isPrefix (data : List UInt8) : stripTrailingCrlf data <+: data := by
  unfold stripTrailingCrlf
  split_ifs
  · exact take_prefix _ _
  · exact prefix_refl _

theorem skipCrlf_suffix (data : List UInt8) : skipCrlf data <:+ data := by
  unfold skipCrlf
  split_ifs
  · exact drop_suffix _ _
  · exact suffix_refl _

theorem length_skipCrlf_lt (hne : delimiter ≠ []) {pos : ℕ}
    (hfound : findBytes remaining delimiter = some pos) :
    (skipCrlf (remaining.drop (pos + delimiter.length))).length < remaining.length := by
  rw [findBytes_eq hne] at hfound
  have hle := (position_eq_some_cut hfound).2
  have hpos := length_pos_iff.mpr hne
  have hskip := (skipCrlf_suffix (remaining.drop (pos + delimiter.length))).length_le
  rw [length_drop] at hskip
  omega

/-- As many turns as there are bytes are enough. -/
theorem partsLoop_of_lt (hne : delimiter ≠ []) {fuel fuel' : ℕ} (h : remaining.length < fuel)
    (h' : remaining.length < fuel') :
    partsLoop delimiter endDelimiter fuel remaining =
      partsLoop delimiter endDelimiter fuel' remaining := by
  induction fuel generalizing fuel' remaining with
  | zero => exact absurd h (Nat.not_lt_zero _)
  | succ fuel ih =>
      cases fuel' with
      | zero => exact absurd h' (Nat.not_lt_zero _)
      | succ fuel' =>
          unfold partsLoop
          by_cases hend : atEnd endDelimiter remaining = true
          · rw [if_pos hend, if_pos hend]
          · rw [if_neg hend, if_neg hend]
            cases hfound : findBytes remaining delimiter with
            | none => rfl
            | some pos =>
                have hlt := length_skipCrlf_lt hne hfound
                exact congrArg _ (ih (by omega) (by omega))

theorem partsFrom_eq (hne : delimiter ≠ []) (remaining : List UInt8) :
    partsFrom delimiter endDelimiter remaining =
      if atEnd endDelimiter remaining then []
      else
        match findBytes remaining delimiter with
        | some pos =>
          stripTrailingCrlf (remaining.take pos) ::
            partsFrom delimiter endDelimiter
              (skipCrlf (remaining.drop (pos + delimiter.length)))
        | none =>
          if (stripTrailingCrlf remaining).isEmpty then [] else [stripTrailingCrlf remaining] := by
  unfold partsFrom
  rw [partsLoop]
  by_cases hend : atEnd endDelimiter remaining = true
  · rw [if_pos hend, if_pos hend]
  · rw [if_neg hend, if_neg hend]
    cases hfound : findBytes remaining delimiter with
    | none => rfl
    | some pos =>
        have hlt := length_skipCrlf_lt hne hfound
        exact congrArg _ (partsLoop_of_lt hne hlt (Nat.lt_succ_self _))

/-- No part that is found has the delimiter in it. -/
theorem not_infix_of_mem_partsFrom (hne : delimiter ≠ [])
    (h : part ∈ partsFrom delimiter endDelimiter remaining) : ¬delimiter <:+: part := by
  induction hlength : remaining.length using Nat.strong_induction_on generalizing remaining with
  | _ n ih =>
      subst hlength
      rw [partsFrom_eq hne] at h
      by_cases hend : atEnd endDelimiter remaining = true
      · rw [if_pos hend] at h
        cases h
      · rw [if_neg hend] at h
        cases hfound : findBytes remaining delimiter with
        | none =>
            rw [hfound] at h
            dsimp only at h
            split_ifs at h
            · cases h
            · obtain rfl := mem_singleton.mp h
              rw [findBytes_eq hne] at hfound
              exact fun hocc => position_eq_none_iff.mp hfound
                (hocc.trans (stripTrailingCrlf_isPrefix _).isInfix)
        | some pos =>
            rw [hfound] at h
            rcases mem_cons.mp h with rfl | h
            · rw [findBytes_eq hne] at hfound
              exact fun hocc => not_infix_take hne hfound
                (hocc.trans (stripTrailingCrlf_isPrefix _).isInfix)
            · exact ih _ (length_skipCrlf_lt hne hfound) h rfl

end Parts

section Split

variable (b : Boundary)

theorem not_atEnd_of_ne {byte : UInt8} (hdash : byte ≠ 45) (hreturn : byte ≠ 13)
    (rest : List UInt8) : atEnd b.endDelimiter (byte :: rest) = false := by
  unfold atEnd
  rw [decide_eq_false_iff_not, not_or, b.endDelimiter_eq]
  exact ⟨fun h => hdash (cons_prefix_cons.mp h).1.symm,
    fun h => hreturn (cons_prefix_cons.mp h.1).1.symm⟩

/-- The delimiter is found on a line of its own. -/
theorem position_line {front : List UInt8} (hfree : ¬b.delimiter <:+: front) (rest : List UInt8) :
    position b.delimiter (front ++ (crlf ++ (b.delimiter ++ rest))) =
      some (front ++ crlf).length := by
  have hapart : ∀ a ∈ crlf, a ∉ b.delimiter := by
    intro a ha
    rcases mem_cons.mp ha with rfl | ha
    · exact b.notMem_delimiter (by decide)
    · rw [mem_singleton.mp ha]
      exact b.notMem_delimiter (by decide)
  have hcrlf : crlf ≠ [] := cons_ne_nil _ _
  rw [length_append]
  exact position_of_apart b.delimiter_ne_nil hcrlf hapart hfree

/-- A part is found up to the delimiter behind it. -/
theorem partsFrom_part {byte : UInt8} {rest : List UInt8} (hdash : byte ≠ 45)
    (hreturn : byte ≠ 13) (hfree : ¬b.delimiter <:+: byte :: rest) (more : List UInt8) :
    partsFrom b.delimiter b.endDelimiter (byte :: rest ++ (crlf ++ (b.delimiter ++ more))) =
      (byte :: rest) :: partsFrom b.delimiter b.endDelimiter (skipCrlf more) := by
  have hlist : byte :: rest ++ (crlf ++ (b.delimiter ++ more)) =
      (byte :: rest ++ crlf) ++ (b.delimiter ++ more) := (append_assoc ..).symm
  rw [partsFrom_eq b.delimiter_ne_nil, cons_append, not_atEnd_of_ne b hdash hreturn,
    if_neg Bool.false_ne_true, ← cons_append, findBytes_eq b.delimiter_ne_nil,
    position_line b hfree]
  dsimp only
  rw [hlist, take_left, stripTrailingCrlf_crlf, ← drop_drop, drop_left,
    drop_left]

/-- A part of the encoding: it does not start as an end of line or a delimiter. -/
structure Framed (part : List UInt8) : Prop where
  starts : ∃ byte rest, part = byte :: rest ∧ byte ≠ 45 ∧ byte ≠ 13
  free : ¬b.delimiter <:+: part

theorem partsFrom_parts {parts : List (List UInt8)} (h : ∀ part ∈ parts, Framed b part)
    (rest : List UInt8) :
    partsFrom b.delimiter b.endDelimiter
        (skipCrlf (parts.flatMap (fun part => crlf ++ (part ++ (crlf ++ b.delimiter))) ++ rest)) =
      parts ++ partsFrom b.delimiter b.endDelimiter (skipCrlf rest) := by
  induction parts with
  | nil => rfl
  | cons part parts ih =>
      obtain ⟨⟨byte, tail, rfl, hdash, hreturn⟩, hfree⟩ := h part (.head _)
      rw [flatMap_cons, append_assoc, append_assoc, skipCrlf_crlf,
        append_assoc, append_assoc, partsFrom_part b hdash hreturn hfree,
        ih fun other hother => h other (.tail _ hother)]
      rfl

/-- The parts of a form are found, and what stands behind the last delimiter. -/
theorem splitMultipartParts_encode {form : Form} {preamble : Option (List UInt8)}
    (hpreamble : ∀ text ∈ preamble, ¬b.delimiter <:+: text)
    (hparts : ∀ part ∈ form.parts, Framed b part) (epilogue : Option (List UInt8)) :
    splitMultipartParts (form.encode b preamble epilogue) b.delimiter b.endDelimiter =
      form.parts ++ partsFrom b.delimiter b.endDelimiter (45 :: 45 :: epilogueText epilogue) := by
  have hfound : ∀ rest, position b.delimiter
      (preambleText preamble ++ (b.delimiter ++ rest)) = some (preambleText preamble).length := by
    intro rest
    cases preamble with
    | none => exact position_self _ _
    | some text =>
        change position _ ((text ++ crlf) ++ _) = some (text ++ crlf).length
        rw [append_assoc]
        exact position_line b (hpreamble text rfl) rest
  unfold splitMultipartParts Form.encode
  rw [findBytes_eq b.delimiter_ne_nil, hfound]
  dsimp only
  rw [← drop_drop, drop_left, drop_left, partsFrom_parts b hparts,
    skipCrlf_of_ne (by decide)]

end Split

/-! ## Headers that are read back -/

theorem return_notMem_encode {line : List Char} (h : '\r' ∉ line) :
    13 ∉ encode line := by
  intro hmem
  obtain ⟨c, hc, hbyte⟩ := mem_flatMap.mp hmem
  have hchar := (encodeChar_of_mem (by decide) hbyte).1
  exact h (hchar ▸ hc)

/-- The header is cut off at the first empty line. -/
theorem position_emptyLine {items : List (List Char)} {last : List Char}
    (h : ∀ line ∈ items ++ [last], '\r' ∉ line ∧ line ≠ []) (body : List UInt8) :
    position (crlf ++ crlf)
        (encode (items.flatMap (· ++ lineEnd) ++ last) ++ (crlf ++ crlf ++ body)) =
      some (encode (items.flatMap (· ++ lineEnd) ++ last)).length := by
  have hsep : crlf ++ crlf = 13 :: [10, 13, 10] := rfl
  induction items with
  | nil =>
      have hlast := return_notMem_encode (h last (by simp)).1
      rw [flatMap_nil, nil_append, hsep, position_append_of_notMem hlast,
        position_self, Option.map_some, Nat.zero_add]
  | cons line items ih =>
      have hline := return_notMem_encode (h line (by simp)).1
      have hnext : ∃ byte rest, byte ≠ 13 ∧
          encode (items.flatMap (· ++ lineEnd) ++ last) = byte :: rest := by
        obtain ⟨c, cs, tail, hc, htext⟩ : ∃ c cs tail, '\r' ∉ c :: cs ∧
            items.flatMap (· ++ lineEnd) ++ last = (c :: cs) ++ tail := by
          cases items with
          | nil =>
              obtain ⟨hplain, hne⟩ := h last (by simp)
              obtain ⟨c, cs, rfl⟩ := exists_cons_of_ne_nil hne
              exact ⟨c, cs, [], hplain, by simp⟩
          | cons next items =>
              obtain ⟨hplain, hne⟩ := h next (by simp)
              obtain ⟨c, cs, rfl⟩ := exists_cons_of_ne_nil hne
              have hcut : ((c :: cs) :: items).flatMap (· ++ lineEnd) ++ last =
                  (c :: cs) ++ (lineEnd ++ (items.flatMap (· ++ lineEnd) ++ last)) := by
                rw [flatMap_cons, append_assoc, append_assoc]
              exact ⟨c, cs, _, hplain, hcut⟩
        have hplain := return_notMem_encode hc
        rw [htext, encode_append]
        cases hencode : encode (c :: cs) with
        | nil =>
            rw [encode_cons, append_eq_nil_iff] at hencode
            exact absurd hencode.1 (encodeChar_ne_nil c)
        | cons byte rest =>
            rw [hencode, mem_cons, not_or] at hplain
            exact ⟨byte, _, Ne.symm hplain.1, rfl⟩
      obtain ⟨byte, rest, hbyte, hrest⟩ := hnext
      have hrec := ih fun other hother => h other (.tail _ hother)
      rw [hrest] at hrec
      have hreturn : ∀ more, ¬13 :: [10, 13, 10] <+: 13 :: 10 :: byte :: more := by
        intro more hpre
        exact hbyte (cons_prefix_cons.mp
          (cons_prefix_cons.mp (cons_prefix_cons.mp hpre).2).2).1.symm
      have hfeed : ∀ more, ¬13 :: [10, 13, 10] <+: 10 :: byte :: more := by
        intro more hpre
        exact absurd (cons_prefix_cons.mp hpre).1 (by decide)
      have htext : encode ((line :: items).flatMap (· ++ lineEnd) ++ last) =
          encode line ++ (13 :: 10 :: byte :: rest) := by
        rw [flatMap_cons, append_assoc, encode_append, encode_append, hrest,
          append_assoc]
        rfl
      rw [htext, append_assoc, hsep, position_append_of_notMem hline]
      rw [hsep] at hrec
      rw [cons_append, cons_append, cons_append,
        position_cons_of_not (hreturn _), position_cons_of_not (hfeed _),
        ← cons_append, hrec]
      simp only [Option.map_some, length_append, length_cons, Option.some.injEq]
      omega

theorem partOf_eq (items : List (List Char)) (last : List Char) (body : List UInt8) :
    partOf (items ++ [last]) body =
      encode (items.flatMap (· ++ lineEnd) ++ last) ++ (crlf ++ crlf ++ body) := by
  have hitems : items.flatMap (fun line => encode line ++ crlf) =
      encode (items.flatMap (· ++ lineEnd)) := by
    induction items with
    | nil => rfl
    | cons line items ih =>
        rw [flatMap_cons, flatMap_cons, encode_append, encode_append, ih]
        rfl
  unfold partOf
  rw [flatMap_append, hitems, encode_append]
  simp [append_assoc]

/-- The lines of a header are found again, and the body behind them. -/
theorem splitHeadersBody_partOf (items : List (List Char)) (last : List Char)
    (h : ∀ line ∈ items ++ [last], '\r' ∉ line ∧ line ≠ []) (body : List UInt8) :
    ∃ headers, splitHeadersBody (partOf (items ++ [last]) body) = some (headers, body) ∧
      headerLines headers = items ++ [last] := by
  have hposition := position_emptyLine h body
  refine ⟨encode (items.flatMap (· ++ lineEnd) ++ last), ?_, ?_⟩
  · have hne : crlf ++ crlf ≠ [] := cons_ne_nil _ _
    unfold splitHeadersBody
    rw [partOf_eq, findBytes_eq hne, hposition, Option.map_some, take_left,
      ← drop_drop, drop_left]
    rfl
  · have hunbordered : Needle.Unbordered lineEnd := by decide
    have hfree : ∀ line ∈ items ++ [last], ¬lineEnd <:+: line := fun line hline hocc =>
      (h line hline).1 (hocc.subset (.head _))
    unfold headerLines
    rw [decodeLossy_encode, pieces_flatMap hunbordered (cons_ne_nil _ _)
      fun line hline => hfree line (mem_append_left _ hline),
      pieces_of_not_isInfix (hfree last (by simp))]

/-! ## Parameters that are read back -/

theorem lowercase_append (front rest : List Char) :
    lowercase (front ++ rest) = lowercase front ++ lowercase rest := map_append

theorem escapeChar_plain (c : Char) : '"' ∉ escapeChar c ∧ '\r' ∉ escapeChar c := by
  unfold escapeChar
  split_ifs with hquote hreturn
  · decide
  · decide
  · decide
  · exact ⟨fun h => hquote (mem_singleton.mp h).symm,
      fun h => hreturn (mem_singleton.mp h).symm⟩

theorem escapeParam_plain (value : List Char) :
    '"' ∉ escapeParam value ∧ '\r' ∉ escapeParam value := by
  constructor
  · intro h
    obtain ⟨c, -, hc⟩ := mem_flatMap.mp h
    exact (escapeChar_plain c).1 hc
  · intro h
    obtain ⟨c, -, hc⟩ := mem_flatMap.mp h
    exact (escapeChar_plain c).2 hc

/-- A quoted value is found behind its name. -/
theorem quotedParam_eq {front paramName value rest : List Char}
    (hunbordered : Needle.Unbordered (paramName ++ ['=', '"']))
    (hlower : lowercase (paramName ++ ['=', '"']) = paramName ++ ['=', '"'])
    (hfront : ¬paramName ++ ['=', '"'] <:+: lowercase front) (hvalue : '"' ∉ value) :
    quotedParam (front ++ (paramName ++ ['=', '"']) ++ (value ++ '"' :: rest)) paramName =
      some value := by
  have hposition : position (paramName ++ ['=', '"'])
      (lowercase (front ++ (paramName ++ ['=', '"']) ++ (value ++ '"' :: rest))) =
        some front.length := by
    rw [lowercase_append, lowercase_append, hlower,
      position_of_unbordered hunbordered hfront]
    exact congrArg some (length_map _)
  have htake : (value ++ '"' :: rest).takeWhile (· ≠ '"') = value := by
    rw [takeWhile_append_of_pos fun c hc => ?_]
    · simp
    · exact decide_eq_true fun heq => hvalue (heq ▸ hc)
  unfold quotedParam
  dsimp only
  rw [hposition]
  dsimp only [bind, Option.bind]
  rw [← drop_drop, append_assoc, drop_left, drop_left, htake, if_pos (by simp)]

theorem extractQuotedParam_of_quoted {line paramName value : List Char}
    (h : quotedParam line paramName = some value) :
    extractQuotedParam line paramName = some value := by
  unfold extractQuotedParam
  rw [h]
  rfl

theorem fieldLine_eq (name : String) :
    fieldLine name = "Content-Disposition: form-data; ".toList ++ ("name".toList ++ ['=', '"']) ++
      (escapeParam name.toList ++ '"' :: []) := by
  unfold fieldLine dispositionLine param
  simp

/-- The name of a field is read back as it is written. -/
theorem name_fieldLine (name : String) :
    extractQuotedParam (fieldLine name) "name".toList = some (escapeParam name.toList) := by
  rw [fieldLine_eq]
  exact extractQuotedParam_of_quoted
    (quotedParam_eq (by decide) (by decide) (by decide) (escapeParam_plain _).1)

/-- The line of a file gives some name, and the file name or the name `file`. -/
theorem name_fileLine (file : FormFile) :
    ∃ name, extractQuotedParam file.dispositionLine "name".toList = some name ∧
      (name = "file".toList ∨
        (extractQuotedParam file.dispositionLine "filename".toList).isSome = true) := by
  unfold FormFile.dispositionLine
  cases file.filename with
  | none => exact ⟨_, name_fieldLine "file", .inl rfl⟩
  | some filename =>
      dsimp only
      split_ifs
      · refine ⟨"file".toList, extractQuotedParam_of_quoted ?_, .inl rfl⟩
        have hline : dispositionLine [param "name".toList "file".toList,
            param "filename".toList filename.toList] =
              "Content-Disposition: form-data; ".toList ++ ("name".toList ++ ['=', '"']) ++
                ("file".toList ++ '"' :: (';' :: ' ' ::
                  param "filename".toList filename.toList)) := by
          unfold dispositionLine
          simp only [flatMap_cons, flatMap_nil, append_nil]
          rfl
        rw [hline]
        exact quotedParam_eq (by decide) (by decide) (by decide) (by decide)
      · have hname : dispositionLine [param "filename".toList filename.toList,
            param "name".toList "file".toList] =
              "Content-Disposition: form-data; file".toList ++ ("name".toList ++ ['=', '"']) ++
                (escapeParam filename.toList ++ '"' :: (';' :: ' ' ::
                  param "name".toList "file".toList)) := by
          unfold dispositionLine param
          simp
        have hfilename : dispositionLine [param "filename".toList filename.toList,
            param "name".toList "file".toList] =
              "Content-Disposition: form-data; ".toList ++ ("filename".toList ++ ['=', '"']) ++
                (escapeParam filename.toList ++ '"' :: (';' :: ' ' ::
                  param "name".toList "file".toList)) := by
          unfold dispositionLine param
          simp
        refine ⟨escapeParam filename.toList, extractQuotedParam_of_quoted ?_, .inr ?_⟩
        · rw [hname]
          exact quotedParam_eq (by decide) (by decide) (by decide) (escapeParam_plain _).1
        · rw [hfilename, extractQuotedParam_of_quoted (quotedParam_eq (by decide) (by decide)
            (by decide) (escapeParam_plain _).1)]
          rfl

/-- A line with the disposition is one line, and is read as such. -/
theorem dispositionLine_plain {params : List (List Char)} (h : ∀ p ∈ params, '\r' ∉ p) :
    '\r' ∉ dispositionLine params ∧ dispositionLine params ≠ [] ∧
      "content-disposition:".toList <+: lowercase (dispositionLine params) ∧
      ¬"content-type:".toList <+: lowercase (dispositionLine params) := by
  have hfront : lowercase "Content-Disposition: form-data".toList =
      "content-disposition:".toList ++ " form-data".toList := by decide
  unfold dispositionLine
  refine ⟨fun hmem => ?_, cons_ne_nil _ _, ?_, ?_⟩
  · rcases mem_append.mp hmem with hmem | hmem
    · exact absurd hmem (by decide)
    · obtain ⟨p, hp, hmem⟩ := mem_flatMap.mp hmem
      rcases mem_cons.mp hmem with hmem | hmem
      · exact absurd hmem (by decide)
      · rcases mem_cons.mp hmem with hmem | hmem
        · exact absurd hmem (by decide)
        · exact h p hp hmem
  · rw [lowercase_append, hfront, append_assoc]
    exact prefix_append _ _
  · rw [lowercase_append, hfront, append_assoc]
    intro hpre
    have hshort : "content-type:".toList <+: "content-disposition:".toList :=
      prefix_of_prefix_length_le hpre (prefix_append _ _) (by decide)
    exact absurd hshort (by decide)

theorem param_plain {name : List Char} (h : '\r' ∉ name) (value : List Char) :
    '\r' ∉ param name value := by
  unfold param
  simp only [mem_append, mem_cons, not_mem_nil, or_false, not_or]
  exact ⟨h, by decide, by decide, (escapeParam_plain value).2, by decide⟩

theorem fieldLine_plain (name : String) :
    '\r' ∉ fieldLine name ∧ fieldLine name ≠ [] ∧
      "content-disposition:".toList <+: lowercase (fieldLine name) ∧
      ¬"content-type:".toList <+: lowercase (fieldLine name) := by
  refine dispositionLine_plain fun p hp => ?_
  rw [mem_singleton.mp hp]
  exact param_plain (by decide) _

theorem fileLine_plain (file : FormFile) :
    '\r' ∉ file.dispositionLine ∧ file.dispositionLine ≠ [] ∧
      "content-disposition:".toList <+: lowercase file.dispositionLine ∧
      ¬"content-type:".toList <+: lowercase file.dispositionLine := by
  unfold FormFile.dispositionLine
  cases file.filename with
  | none => exact fieldLine_plain "file"
  | some filename =>
      have hparams : ∀ p, (p = param "name".toList "file".toList ∨
          p = param "filename".toList filename.toList) → '\r' ∉ p := by
        rintro p (rfl | rfl)
        · exact param_plain (by decide) _
        · exact param_plain (by decide) _
      dsimp only
      split_ifs
      · exact dispositionLine_plain fun p hp => hparams p (by simpa using hp)
      · exact dispositionLine_plain fun p hp => hparams p (by simpa [or_comm] using hp)

/-! ## Parts that are read back -/

theorem contentTypeOf_none {line : List Char}
    (h : ¬"content-type:".toList <+: lowercase line) : contentTypeOf line = none := if_neg h

theorem trim_cons {c : Char} (h : isWhitespace c = true) (cs : List Char) :
    trim (c :: cs) = trim cs := by
  unfold trim
  rw [dropWhile_cons_of_pos h]

theorem contentTypeOf_line (value : String) :
    contentTypeOf (contentTypeLine value) =
      some (ofList (trim (lowercase value.toList))) := by
  have hfront : lowercase "Content-Type: ".toList = "content-type:".toList ++ [' '] := by decide
  unfold contentTypeOf contentTypeLine
  rw [lowercase_append, hfront, append_assoc, if_pos (prefix_append _ _), drop_left]
  exact congrArg (fun text => some (ofList text)) (trim_cons (by decide) _)

theorem contentTypeLine_plain {file : FormFile} {value : String}
    (h : file.contentType = some value) :
    '\r' ∉ contentTypeLine value ∧ contentTypeLine value ≠ [] ∧
      ¬"content-disposition:".toList <+: lowercase (contentTypeLine value) := by
  unfold contentTypeLine
  refine ⟨fun hmem => ?_, cons_ne_nil _ _, fun hpre => ?_⟩
  · rcases mem_append.mp hmem with hmem | hmem
    · exact absurd hmem (by decide)
    · exact file.contentType_plain value h hmem
  · have hfront : lowercase "Content-Type: ".toList = "content-type: ".toList := by decide
    rw [lowercase_append, hfront] at hpre
    have hshort : "content-type: ".toList <+: "content-disposition:".toList :=
      prefix_of_prefix_length_le (prefix_append _ _) hpre (by decide)
    exact absurd hshort (by decide)

/-- A part with one line in its header. -/
theorem readPart_fieldPart (field : String × String) :
    readPart (fieldPart field) =
      some (if ofList (escapeParam field.1.toList) = "file" ∨
          (extractQuotedParam (fieldLine field.1) "filename".toList).isSome = true then
        .file none (encode field.2.toList)
      else .field (ofList (escapeParam field.1.toList)) field.2) := by
  obtain ⟨hplain, hne, hdisposition, hcontentType⟩ := fieldLine_plain field.1
  obtain ⟨headers, hsplit, hlines⟩ := splitHeadersBody_partOf [] (fieldLine field.1)
    (fun line hline => by
      rw [mem_singleton.mp hline]
      exact ⟨hplain, hne⟩) (encode field.2.toList)
  have hread : parseContentDisposition headers =
      ⟨some (ofList (escapeParam field.1.toList)),
        (extractQuotedParam (fieldLine field.1) "filename".toList).map ofList⟩ := by
    unfold parseContentDisposition
    rw [hlines]
    change readDispositionLine ⟨none, none⟩ (fieldLine field.1) = _
    unfold readDispositionLine
    rw [if_pos hdisposition, name_fieldLine]
    simp
  have htype : parsePartContentType headers = none := by
    unfold parsePartContentType
    rw [hlines]
    change [fieldLine field.1].findSome? contentTypeOf = none
    rw [findSome?_cons, contentTypeOf_none hcontentType]
    rfl
  have hpart : fieldPart field = partOf ([] ++ [fieldLine field.1]) (encode field.2.toList) :=
    rfl
  unfold readPart
  rw [hpart, hsplit]
  dsimp only [bind, Option.bind]
  rw [hread]
  dsimp only
  rw [htype, decodeLossy_encode, String.ofList_toList, Option.isSome_map]
  split_ifs <;> rfl

/-- The file of a form is read as such, its content type in lower case. -/
theorem readPart_filePart (file : FormFile) :
    readPart (partOf file.lines file.data) =
      some (.file (file.contentType.map fun value => ofList (trim (lowercase value.toList)))
        file.data) := by
  obtain ⟨hplain, hne, hdisposition, hnot⟩ := fileLine_plain file
  obtain ⟨name, hname, hfile⟩ := name_fileLine file
  have hfound : readDispositionLine ⟨none, none⟩ file.dispositionLine =
      ⟨some (ofList name),
        (extractQuotedParam file.dispositionLine "filename".toList).map ofList⟩ := by
    unfold readDispositionLine
    rw [if_pos hdisposition, hname]
    simp
  have hread : ∃ headers, splitHeadersBody (partOf file.lines file.data) =
        some (headers, file.data) ∧
      parseContentDisposition headers = ⟨some (ofList name),
        (extractQuotedParam file.dispositionLine "filename".toList).map ofList⟩ ∧
      parsePartContentType headers =
        file.contentType.map fun value => ofList (trim (lowercase value.toList)) := by
    unfold FormFile.lines parseContentDisposition parsePartContentType
    cases hcontentType : file.contentType with
    | none =>
        obtain ⟨headers, hsplit, hlines⟩ := splitHeadersBody_partOf []
          file.dispositionLine (fun line hline => by
            rw [mem_singleton.mp hline]
            exact ⟨hplain, hne⟩) file.data
        refine ⟨headers, hsplit, ?_, ?_⟩
        · rw [hlines]
          exact hfound
        · rw [hlines]
          change [file.dispositionLine].findSome? contentTypeOf = none
          rw [findSome?_cons, contentTypeOf_none hnot]
          rfl
    | some value =>
        obtain ⟨hplain', hne', hnot'⟩ := contentTypeLine_plain hcontentType
        obtain ⟨headers, hsplit, hlines⟩ := splitHeadersBody_partOf [file.dispositionLine]
          (contentTypeLine value) (fun line hline => by
            rcases mem_cons.mp hline with rfl | hline
            · exact ⟨hplain, hne⟩
            · rw [mem_singleton.mp hline]
              exact ⟨hplain', hne'⟩) file.data
        refine ⟨headers, hsplit, ?_, ?_⟩
        · rw [hlines]
          change readDispositionLine (readDispositionLine ⟨none, none⟩ file.dispositionLine)
            (contentTypeLine value) = _
          rw [hfound]
          exact if_neg hnot'
        · rw [hlines]
          change [file.dispositionLine, contentTypeLine value].findSome? contentTypeOf = _
          rw [findSome?_cons, contentTypeOf_none hnot]
          dsimp only
          rw [findSome?_cons, contentTypeOf_line]
          rfl
  obtain ⟨headers, hsplit, hdispositions, htype⟩ := hread
  unfold readPart
  rw [hsplit]
  dsimp only [bind, Option.bind]
  rw [hdispositions]
  dsimp only
  rw [htype, Option.isSome_map, if_pos]
  rcases hfile with rfl | hfile
  · exact .inl rfl
  · exact .inr hfile

end Rustack.S3.FormData
