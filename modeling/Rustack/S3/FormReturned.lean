import Rustack.S3.ChunkedForm
import Rustack.S3.FormUpload

/-!
# Forms that are returned

The delimiter is looked for anywhere in the body, so that a form is read back only without it in
its names, its values and its file, and a content type is put in lower case.  Where the rest of
the encoding is quiet, this and names that are read as names are enough.
-/

namespace Rustack.S3.FormData

open DynamoDB (toAsciiLowercase trim isWhitespace)
open List Needle

/-! ## Texts without the delimiter -/

section Free

variable (b : Boundary)

theorem prefix_of_escapeParam {word cs : List Char} (hword : '%' ∉ word)
    (h : word <+: escapeParam cs) : word <+: cs := by
  induction cs generalizing word with
  | nil => exact h
  | cons c cs ih =>
      cases word with
      | nil => exact nil_prefix
      | cons d word =>
          rw [mem_cons, not_or] at hword
          unfold escapeParam at h
          rw [flatMap_cons] at h
          unfold escapeChar at h
          split_ifs at h
          · exact absurd (cons_prefix_cons.mp h).1 (Ne.symm hword.1)
          · exact absurd (cons_prefix_cons.mp h).1 (Ne.symm hword.1)
          · exact absurd (cons_prefix_cons.mp h).1 (Ne.symm hword.1)
          · obtain ⟨rfl, hrest⟩ := cons_prefix_cons.mp h
            exact (prefix_cons_inj _).mpr (ih hword.2 hrest)

theorem infix_of_escapeParam {cs : List Char} (h : b.dashed <:+: escapeParam cs) :
    b.dashed <:+: cs := by
  have hpercent : '%' ∉ b.dashed := fun hmem => (b.mem_dashed hmem).2.2.2.1 rfl
  induction cs with
  | nil => exact h
  | cons c cs ih =>
      have hstep : b.dashed <:+: escapeParam cs → b.dashed <:+: c :: cs := fun hocc =>
        (ih hocc).trans ⟨[c], [], by simp⟩
      have hcons : escapeParam (c :: cs) = escapeChar c ++ escapeParam cs := flatMap_cons
      by_cases hplain : escapeChar c = [c]
      · rw [hcons, hplain, singleton_append, infix_cons_iff] at h
        rcases h with h | h
        · have hsame : c :: escapeParam cs = escapeParam (c :: cs) := by
            rw [hcons, hplain, singleton_append]
          exact (prefix_of_escapeParam hpercent (hsame ▸ h)).isInfix
        · exact hstep h
      · have hdash : '-' ∉ escapeChar c := by
          revert hplain
          unfold escapeChar
          split_ifs <;> intro hplain
          · decide
          · decide
          · decide
          · exact absurd rfl hplain
        rw [hcons] at h
        exact hstep (infix_of_append hdash h)

theorem not_infix_of_plain {text : List Char} (h : ¬['-', '-'] <:+: text) :
    ¬b.dashed <:+: text := fun hocc =>
  h (List.IsInfix.trans ⟨[], b.text, rfl⟩ hocc)

theorem free_param {name value : List Char} (hname : ¬['-', '-'] <:+: name ++ ['='])
    (hvalue : ¬b.dashed <:+: value) : ¬b.dashed <:+: param name value := by
  have hquote : '"' ∉ b.dashed := fun hmem => (b.mem_dashed hmem).2.2.1 rfl
  intro hocc
  have hparam : param name value = (name ++ ['=']) ++ '"' :: (escapeParam value ++ '"' :: []) := by
    simp [param]
  rw [hparam] at hocc
  rcases infix_of_append_cons hquote hocc with hocc | hocc
  · exact not_infix_of_plain b hname hocc
  · rcases infix_of_append_cons hquote hocc with hocc | hocc
    · exact hvalue (infix_of_escapeParam b hocc)
    · exact absurd (infix_nil.mp hocc) (cons_ne_nil _ _)

theorem free_dispositionLine {params : List (List Char)}
    (h : ∀ p ∈ params, ¬b.dashed <:+: p) : ¬b.dashed <:+: dispositionLine params := by
  have hsemicolon : ';' ∉ b.dashed := fun hmem => (b.mem_dashed hmem).2.2.2.2 rfl
  have hparams : ∀ (front : List Char), ¬b.dashed <:+: front →
      ¬b.dashed <:+: front ++ params.flatMap fun p => ';' :: ' ' :: p := by
    induction params with
    | nil =>
        intro front hfront
        rwa [flatMap_nil, append_nil]
    | cons p params ih =>
        intro front hfront hocc
        rw [flatMap_cons, cons_append] at hocc
        rcases infix_of_append_cons hsemicolon hocc with hocc | hocc
        · exact hfront hocc
        · have hblank : '-' ∉ [' '] := by decide
          have hrest : b.dashed <:+: p ++ params.flatMap fun p => ';' :: ' ' :: p :=
            infix_of_append hblank hocc
          exact ih (fun q hq => h q (.tail _ hq)) p (h p (.head _)) hrest
  exact hparams _ (not_infix_of_plain b (by decide))

theorem free_fieldLine {name : String} (h : ¬b.dashed <:+: name.toList) :
    ¬b.dashed <:+: fieldLine name :=
  free_dispositionLine b fun p hp => by
    rw [mem_singleton.mp hp]
    exact free_param b (by decide) h

theorem free_fileLine {file : FormFile}
    (h : ∀ filename ∈ file.filename, ¬b.dashed <:+: filename.toList) :
    ¬b.dashed <:+: file.dispositionLine := by
  have hfile : ¬b.dashed <:+: "file".toList := not_infix_of_plain b (by decide)
  unfold FormFile.dispositionLine
  cases hfilename : file.filename with
  | none => exact free_fieldLine b hfile
  | some filename =>
      have hparams : ∀ p, (p = param "name".toList "file".toList ∨
          p = param "filename".toList filename.toList) → ¬b.dashed <:+: p := by
        rintro p (rfl | rfl)
        · exact free_param b (by decide) hfile
        · exact free_param b (by decide) (h filename hfilename)
      dsimp only
      split_ifs
      · exact free_dispositionLine b fun p hp => hparams p (by simpa using hp)
      · exact free_dispositionLine b fun p hp => hparams p (by simpa [or_comm] using hp)

theorem free_contentTypeLine {value : String} (h : ¬b.dashed <:+: value.toList) :
    ¬b.dashed <:+: FormFile.contentTypeLine value := by
  intro hocc
  have hline : FormFile.contentTypeLine value =
      "Content".toList ++ ('-' :: ("Type: ".toList ++ value.toList)) := rfl
  have hfront : '-' ∉ "Content".toList := by decide
  have htype : '-' ∉ "Type: ".toList := by decide
  rw [hline] at hocc
  rcases infix_cons_iff.mp (infix_of_append hfront hocc) with hpre | hocc
  · exact absurd (cons_prefix_cons.mp (cons_prefix_cons.mp hpre).2).1 (by decide)
  · exact h (infix_of_append htype hocc)

theorem free_partOf {lines : List (List Char)} {body : List UInt8}
    (hlines : ∀ line ∈ lines, ¬b.dashed <:+: line) (hbody : ¬b.delimiter <:+: body) :
    ¬b.delimiter <:+: partOf lines body := by
  have hreturn : 13 ∉ b.delimiter := b.notMem_delimiter (by decide)
  have hfeed : 10 ∉ b.delimiter := b.notMem_delimiter (by decide)
  have hline : ∀ front rest, ¬b.delimiter <:+: front → ¬b.delimiter <:+: rest →
      ¬b.delimiter <:+: front ++ (crlf ++ rest) := by
    intro front rest hfront hrest hocc
    rcases infix_of_append_cons hreturn hocc with hocc | hocc
    · exact hfront hocc
    · rcases @infix_of_append_cons _ _ [] _ _ hfeed hocc with hocc | hocc
      · exact absurd (infix_nil.mp hocc) b.delimiter_ne_nil
      · exact hrest hocc
  unfold partOf
  induction lines with
  | nil => exact hline [] body (fun hocc => b.delimiter_ne_nil (infix_nil.mp hocc)) hbody
  | cons line lines ih =>
      rw [flatMap_cons, append_assoc, append_assoc]
      exact hline _ _ (fun hocc => hlines line (.head _) (b.infix_of_encode hocc))
        (ih fun other hother => hlines other (.tail _ hother))

theorem starts_fieldLine (name : String) (body : List UInt8) :
    ∃ rest, partOf [fieldLine name] body = 67 :: rest := ⟨_, rfl⟩

theorem starts_file (file : FormFile) : ∃ rest, partOf file.lines file.data = 67 :: rest := by
  unfold FormFile.lines FormFile.dispositionLine
  cases file.filename with
  | none => exact ⟨_, rfl⟩
  | some filename =>
      dsimp only
      split_ifs
      · exact ⟨_, rfl⟩
      · exact ⟨_, rfl⟩

end Free

/-! ## What is read came from a part -/

section Read

theorem trim_trim (cs : List Char) : trim (trim cs) = trim cs := by
  refine Codec.trim_eq_self_iff.mpr ⟨fun c hc => ?_, fun c hc => ?_⟩
  · have hpre : trim cs <+: cs.dropWhile isWhitespace := rdropWhile_prefix isWhitespace _
    have hhead : c ∈ (cs.dropWhile isWhitespace).head? := by
      obtain ⟨rest, hrest⟩ := hpre
      rw [← hrest, head?_append, Option.mem_def.mp hc]
      rfl
    have hdrop := dropWhile_eq_self_iff.mp
      (dropWhile_idempotent (p := isWhitespace) (l := cs))
    cases hlist : cs.dropWhile isWhitespace with
    | nil =>
        rw [hlist] at hhead
        cases hhead
    | cons d ds =>
        rw [hlist] at hhead hdrop
        cases hhead
        simpa using hdrop (Nat.succ_pos _)
  · have hne : trim cs ≠ [] := by
      intro hnil
      rw [hnil] at hc
      cases hc
    have hlast := rdropWhile_last_not isWhitespace (cs.dropWhile isWhitespace) hne
    rw [getLast?_eq_some_getLast hne] at hc
    cases hc
    exact Bool.eq_false_iff.mpr hlast

theorem toAsciiLowercase_cases (c : Char) :
    toAsciiLowercase c = c ∨ 97 ≤ (toAsciiLowercase c).toNat := by
  unfold toAsciiLowercase
  split_ifs with hupper
  · unfold DynamoDB.isAsciiUppercase at hupper
    simp only [Bool.and_eq_true, decide_eq_true_eq] at hupper
    have hrange : 65 ≤ c.toNat ∧ c.toNat ≤ 90 := hupper
    rw [Utf8.toNat_ofNat_of_valid (.inl (by omega))]
    exact .inr (by omega)
  · exact .inl rfl

theorem toAsciiLowercase_idem (c : Char) :
    toAsciiLowercase (toAsciiLowercase c) = toAsciiLowercase c := by
  rcases toAsciiLowercase_cases c with h | h
  · rw [h, h]
  · refine if_neg fun hupper => ?_
    unfold DynamoDB.isAsciiUppercase at hupper
    simp only [Bool.and_eq_true, decide_eq_true_eq] at hupper
    have hle : (toAsciiLowercase c).toNat ≤ 90 := hupper.2
    omega

/-- A content type is in lower case and has no blanks around it. -/
theorem contentTypeOf_plain {line : List Char} {value : String}
    (h : contentTypeOf line = some value) : trim (lowercase value.toList) = value.toList := by
  unfold contentTypeOf at h
  split_ifs at h with hpre
  cases h
  rw [String.toList_ofList]
  have hlower : lowercase (trim ((lowercase line).drop "content-type:".toList.length)) =
      trim ((lowercase line).drop "content-type:".toList.length) := by
    refine (map_congr_left fun c hc => ?_).trans (map_id _)
    have hmem := (drop_suffix _ _).subset ((Codec.trim_isInfix _).subset hc)
    obtain ⟨d, -, rfl⟩ := mem_map.mp hmem
    exact toAsciiLowercase_idem d
  rw [hlower, trim_trim]

theorem quotedParam_infix {line paramName value : List Char}
    (h : quotedParam line paramName = some value) : value <:+: line := by
  unfold quotedParam at h
  obtain ⟨pos, -, h⟩ := Option.bind_eq_some_iff.mp h
  dsimp only at h
  split_ifs at h
  cases h
  exact ( takeWhile_prefix _).isInfix.trans (drop_suffix _ _).isInfix

theorem unquotedParam_infix {line paramName value : List Char}
    (h : unquotedParam line paramName = some value) : value <:+: line := by
  unfold unquotedParam at h
  obtain ⟨pos, -, h⟩ := Option.bind_eq_some_iff.mp h
  dsimp only at h
  split_ifs at h
  cases h
  exact (Codec.trim_isInfix _).trans
    (( takeWhile_prefix _).isInfix.trans (drop_suffix _ _).isInfix)

theorem extractQuotedParam_infix {line paramName value : List Char}
    (h : extractQuotedParam line paramName = some value) : value <:+: line := by
  rcases Option.or_eq_some_iff.mp h with h | ⟨-, h⟩
  · exact quotedParam_infix h
  · exact unquotedParam_infix h

theorem exists_line_of_name {lines : List (List Char)} {found : ContentDisposition} {name : String}
    (h : (lines.foldl readDispositionLine found).name = some name) :
    found.name = some name ∨ ∃ line ∈ lines, name.toList <:+: line := by
  induction lines generalizing found with
  | nil => exact .inl h
  | cons line lines ih =>
      rcases ih h with hname | ⟨other, hother, hwithin⟩
      · unfold readDispositionLine at hname
        split_ifs at hname
        · rcases Option.or_eq_some_iff.mp hname with hname | ⟨-, hname⟩
          · obtain ⟨value, hvalue, rfl⟩ := Option.map_eq_some_iff.mp hname
            refine .inr ⟨line, mem_cons_self, ?_⟩
            rw [String.toList_ofList]
            exact extractQuotedParam_infix hvalue
          · exact .inl hname
        · exact .inl hname
      · exact .inr ⟨other, .tail _ hother, hwithin⟩

theorem splitHeadersBody_isInfix {part headers body : List UInt8}
    (h : splitHeadersBody part = some (headers, body)) : headers <:+: part ∧ body <:+: part := by
  obtain ⟨pos, -, hpair⟩ := Option.map_eq_some_iff.mp h
  obtain ⟨rfl, rfl⟩ := Prod.mk.inj hpair
  exact ⟨( take_prefix _ _).isInfix, (drop_suffix _ _).isInfix⟩

theorem readPart_cases {part : List UInt8} {read : FormPart} (h : readPart part = some read) :
    ∃ headers body name, splitHeadersBody part = some (headers, body) ∧
      (parseContentDisposition headers).name = some name ∧
      (read = .file (parsePartContentType headers) body ∨
        read = .field name (String.ofList (Utf8.decodeLossy body))) := by
  unfold readPart at h
  obtain ⟨⟨headers, body⟩, hsplit, h⟩ := Option.bind_eq_some_iff.mp h
  obtain ⟨name, hname, h⟩ := Option.bind_eq_some_iff.mp h
  refine ⟨headers, body, name, hsplit, hname, ?_⟩
  split_ifs at h
  · exact .inl (Option.some.inj h).symm
  · exact .inr (Option.some.inj h).symm

theorem file_of_readPart {part data : List UInt8} {contentType : Option String}
    (h : readPart part = some (.file contentType data)) :
    data <:+: part ∧ ∀ value ∈ contentType, trim (lowercase value.toList) = value.toList := by
  obtain ⟨headers, body, name, hsplit, -, heq | heq⟩ := readPart_cases h
  · cases heq
    refine ⟨(splitHeadersBody_isInfix hsplit).2, fun value hvalue => ?_⟩
    obtain ⟨line, -, hline⟩ := exists_of_findSome?_eq_some hvalue
    exact contentTypeOf_plain hline
  · cases heq

theorem field_of_readPart (b : Boundary) {part : List UInt8} {name value : String}
    (hfree : ¬b.delimiter <:+: part) (h : readPart part = some (.field name value)) :
    ¬b.dashed <:+: name.toList ∧ ¬b.dashed <:+: value.toList := by
  obtain ⟨headers, body, name', hsplit, hname, heq | heq⟩ := readPart_cases h
  · cases heq
  · cases heq
    obtain ⟨hheaders, hbody⟩ := splitHeadersBody_isInfix hsplit
    constructor
    · intro hocc
      rcases exists_line_of_name hname with hnone | ⟨line, hline, hwithin⟩
      · cases hnone
      · have hpiece := infix_of_mem_pieces (cons_ne_nil _ _) hline
        have hdecoded := hocc.trans (hwithin.trans hpiece)
        exact hfree ((Utf8.infix_of_decodeLossy b.dashed_ascii hdecoded).trans hheaders)
    · rw [String.toList_ofList]
      exact fun hocc => hfree ((Utf8.infix_of_decodeLossy b.dashed_ascii hocc).trans hbody)

theorem foldl_take_fields {read : List FormPart} {state : FormState} {name value : String}
    (h : (name, value) ∈ (read.foldl FormState.take state).fields) :
    (name, value) ∈ state.fields ∨ .field name value ∈ read := by
  induction read generalizing state with
  | nil => exact .inl h
  | cons part read ih =>
      rcases ih h with hmem | hmem
      · cases part with
        | field name' value' =>
            rcases mem_cons.mp hmem with heq | hmem
            · cases heq
              exact .inr (.head _)
            · exact .inl hmem
        | file contentType data => exact .inl hmem
      · exact .inr (.tail _ hmem)

theorem foldl_take_file {read : List FormPart} {state : FormState} {contentType : Option String}
    {data : List UInt8}
    (h : (read.foldl FormState.take state).file = some (contentType, data)) :
    state.file = some (contentType, data) ∨ .file contentType data ∈ read := by
  induction read generalizing state with
  | nil => exact .inl h
  | cons part read ih =>
      rcases ih h with hfile | hmem
      · cases part with
        | field name value => exact .inl hfile
        | file contentType' data' =>
            cases hfile
            exact .inr (.head _)
      · exact .inr (.tail _ hmem)

theorem parseMultipart_some {body : List UInt8} {boundary : List Char}
    {file : Option String × List UInt8}
    (h : (readParts (splitMultipartParts body (delimiterOf boundary)
      (endDelimiterOf boundary))).file = some file) :
    parseMultipart body boundary = .ok ⟨(readParts (splitMultipartParts body (delimiterOf boundary)
      (endDelimiterOf boundary))).fields, file.2, file.1⟩ := by
  unfold parseMultipart
  dsimp only
  rw [h]

theorem parseMultipart_none {body : List UInt8} {boundary : List Char}
    (h : (readParts (splitMultipartParts body (delimiterOf boundary)
      (endDelimiterOf boundary))).file = none) :
    ∃ error, parseMultipart body boundary = .error error := by
  unfold parseMultipart
  dsimp only
  rw [h]
  exact ⟨_, rfl⟩

/-- Fields and file of a form that has been read are those of parts. -/
theorem parseMultipart_eq_ok {body : List UInt8} {b : Boundary} {out : MultipartForm}
    (h : parseMultipart body b.text = .ok out) :
    (∃ part ∈ splitMultipartParts body b.delimiter b.endDelimiter,
      readPart part = some (.file out.fileContentType out.fileData)) ∧
    ∀ name value, (name, value) ∈ out.fields →
      ∃ part ∈ splitMultipartParts body b.delimiter b.endDelimiter,
        readPart part = some (.field name value) := by
  cases hfile : (readParts (splitMultipartParts body b.delimiter b.endDelimiter)).file with
  | none =>
      obtain ⟨error, herror⟩ := parseMultipart_none hfile
      rw [herror] at h
      cases h
  | some file =>
      rw [parseMultipart_some hfile] at h
      cases h
      refine ⟨?_, fun name value hmem => ?_⟩
      · rcases foldl_take_file hfile with hnone | hmem
        · cases hnone
        · exact mem_filterMap.mp hmem
      · rcases foldl_take_fields hmem with hnil | hmem
        · cases hnil
        · exact mem_filterMap.mp hmem

theorem not_infix_of_mem_parts {b : Boundary} {body part : List UInt8}
    (h : part ∈ splitMultipartParts body b.delimiter b.endDelimiter) :
    ¬b.delimiter <:+: part := by
  unfold splitMultipartParts at h
  cases hfound : findBytes body b.delimiter with
  | none =>
      rw [hfound] at h
      cases h
  | some pos =>
      rw [hfound] at h
      exact not_infix_of_mem_partsFrom b.delimiter_ne_nil h

end Read

/-! ## Names and headers that are read -/

/-- Where the name has `filename=` in it, nothing but blanks stands up to a semicolon. -/
def Unfiled (name : List Char) : Prop :=
  ∀ p ∈ position "filename=".toList (lowercase name),
    ';' ∈ name.drop (p + 9) ∧ ∀ c ∈ (name.drop (p + 9)).takeWhile (· ≠ ';'), isWhitespace c = true

theorem trim_eq_nil_iff {cs : List Char} : trim cs = [] ↔ ∀ c ∈ cs, isWhitespace c = true := by
  have hlast := @rdropWhile_last_not _ isWhitespace (cs.dropWhile isWhitespace)
  rw [← dropWhile_eq_nil_iff]
  refine ⟨fun h => ?_, fun h => by rw [trim, h, rdropWhile_nil]⟩
  by_contra hne
  have hhead := head_dropWhile_not isWhitespace hne
  rw [trim, rdropWhile_eq_nil_iff] at h
  simp [h _ (head_mem hne)] at hhead

/-- The name is all that is looked through for a file name. -/
theorem position_fieldLine {name : String} (h : escapeParam name.toList = name.toList)
    (tail : List Char) :
    position ('f' :: 'i' :: tail) (lowercase (fieldLine name)) =
      (position ('f' :: 'i' :: tail) (lowercase name.toList ++ ['"'])).map (· + 38) := by
  have hline : lowercase (fieldLine name) = "content-disposition: ".toList ++
      'f' :: ("orm-data; name=\"".toList ++ (lowercase name.toList ++ ['"'])) := by
    rw [fieldLine_eq, h, lowercase_append, lowercase_append, lowercase_append]
    simp [lowercase, toAsciiLowercase, DynamoDB.isAsciiUppercase]
  rw [hline, position_append_of_notMem (by decide), position_cons_of_not (by simp),
    position_append_of_notMem (by decide), Option.map_map, Option.map_map]
  rfl

/-- A field is read as such where its name gives no file name. -/
theorem unfiled_iff {name : String} (h : escapeParam name.toList = name.toList) :
    extractQuotedParam (fieldLine name) "filename".toList = none ↔ Unfiled name.toList := by
  have hquote : '"' ∉ name.toList := h ▸ (escapeParam_plain _).1
  have hdrop : ∀ n k, (fieldLine name).drop (n + 38 + k) =
      (name.toList ++ ['"']).drop (n + k) := fun n k => by
    rw [fieldLine_eq, h, add_right_comm, add_comm, ← drop_drop]
    rfl
  have hquoted : quotedParam (fieldLine name) "filename".toList = none := by
    change (position ('f' :: 'i' :: "lename=\"".toList) (lowercase (fieldLine name))).bind _ = none
    rw [position_fieldLine h, Option.bind_eq_none_iff]
    intro q hq
    obtain ⟨p, hp, rfl⟩ := Option.map_eq_some_iff.mp hq
    refine if_neg fun hmem => ?_
    replace hmem : '"' ∈ (name.toList ++ ['"']).drop (p + 10) := hdrop p 10 ▸ hmem
    -- The quote of the needle is not the last one, and none stands in the name.
    have hle : p + 10 ≤ (lowercase name.toList).length := by
      have hlt := length_pos_of_mem hmem
      rw [length_drop, length_append] at hlt
      rw [lowercase, length_map]
      exact Nat.le_of_lt_succ (Nat.lt_of_sub_pos hlt)
    have hpre := (position_eq_some_iff.mp hp).2.1
    rw [drop_append_of_le_length (by omega)] at hpre
    have hwithin := prefix_of_prefix_length_le hpre (prefix_append _ _) (by
      rw [length_drop]
      exact Nat.le_sub_of_add_le' hle)
    obtain ⟨c, hc, heq⟩ := mem_map.mp (mem_of_mem_drop (hwithin.subset (by decide : '"' ∈ _)))
    rcases toAsciiLowercase_cases c with hsame | hletter
    · exact hquote (heq ▸ hsame.symm ▸ hc)
    · exact absurd (heq ▸ hletter) (by decide)
  rw [extractQuotedParam, hquoted, Option.none_or]
  change (position ('f' :: 'i' :: "lename=".toList) (lowercase (fieldLine name))).bind _ = _ ↔
    ∀ p ∈ position ('f' :: 'i' :: "lename=".toList) (lowercase name.toList), _
  rw [position_fieldLine h, position_append_singleton (by decide), Option.bind_eq_none_iff]
  simp only [Option.map_eq_some_iff, forall_exists_index, and_imp, forall_apply_eq_imp_iff₂]
  refine forall₂_congr fun p hp => ?_
  have hle : p + 9 ≤ (lowercase name.toList).length := (position_eq_some_cut hp).2
  rw [lowercase, length_map] at hle
  have hval : (fieldLine name).drop (p + 38 + 9) = name.toList.drop (p + 9) ++ ['"'] := by
    rw [hdrop, drop_append_of_le_length hle]
  have hempty : ∀ val : List Char, (if val.isEmpty then none else some val) = none ↔ val = [] :=
    fun val => by cases val <;> simp
  refine (hempty (trim (((fieldLine name).drop (p + 38 + 9)).takeWhile (· ≠ ';')))).trans ?_
  rw [hval, trim_eq_nil_iff]
  by_cases hmem : ';' ∈ name.toList.drop (p + 9)
  · rw [takeWhile_append, if_neg fun hlength => ?_]
    · simp [hmem]
    · have hall := takeWhile_eq_self_iff.mp (( takeWhile_prefix _).eq_of_length hlength)
      simpa using hall _ hmem
  · rw [takeWhile_append_of_pos fun c hc => decide_eq_true (ne_of_mem_of_not_mem hc hmem)]
    exact iff_of_false (fun hall => absurd (hall '"' (by simp)) (by decide)) fun h => hmem h.1

theorem foldl_name_eq_none_iff {lines : List (List Char)} {found : ContentDisposition} :
    (lines.foldl readDispositionLine found).name = none ↔ found.name = none ∧
      ∀ line ∈ lines, "content-disposition:".toList <+: lowercase line →
        extractQuotedParam line "name".toList = none := by
  induction lines generalizing found with
  | nil => simp
  | cons line lines ih =>
      rw [foldl_cons, ih, forall_mem_cons, ← and_assoc]
      refine and_congr_left fun _ => ?_
      unfold readDispositionLine
      split_ifs with hpre
      · rw [forall_prop_of_true hpre, and_comm, Option.or_eq_none_iff, Option.map_eq_none_iff,
          and_comm]
      · rw [forall_prop_of_false hpre, and_true]

/-- No header line gives the part a name. -/
def Unheaded (part : List UInt8) : Prop :=
  ∀ headers body, splitHeadersBody part = some (headers, body) →
    ∀ line ∈ headerLines headers, "content-disposition:".toList <+: lowercase line →
      extractQuotedParam line "name".toList = none

theorem readPart_eq_none_iff {part : List UInt8} : readPart part = none ↔ Unheaded part := by
  refine ⟨fun h headers body hsplit => ?_, fun h => Option.eq_none_iff_forall_ne_some.mpr
    fun read hread => ?_⟩
  · refine (foldl_name_eq_none_iff.mp (Option.eq_none_iff_forall_ne_some.mpr fun name hname =>
      ?_ : (parseContentDisposition headers).name = none)).2
    unfold readPart at h
    rw [hsplit] at h
    simp only [bind, Option.bind, hname] at h
    split_ifs at h
  · obtain ⟨headers, body, name, hsplit, hname, -⟩ := readPart_cases hread
    cases hname.symm.trans (foldl_name_eq_none_iff.mpr ⟨rfl, h headers body hsplit⟩)

/-! ## Forms that are read back -/

/-- The delimiter is in no name, no value and not in the file. -/
structure Form.Apart (form : Form) (b : Boundary) : Prop where
  names : ∀ field ∈ form.fields, ¬b.dashed <:+: field.1.toList
  values : ∀ field ∈ form.fields, ¬b.dashed <:+: field.2.toList
  data : ¬b.delimiter <:+: form.file.data

/-- The content type is in lower case and has no blanks around it. -/
def Form.LowerType (form : Form) : Prop :=
  ∀ value ∈ form.file.contentType, trim (lowercase value.toList) = value.toList

/-- Names are written as they are, and none gives a file name. -/
structure Form.Named (form : Form) : Prop where
  plain : ∀ field ∈ form.fields, escapeParam field.1.toList = field.1.toList
  unfiled : ∀ field ∈ form.fields, Unfiled field.1.toList

/-- The delimiter is not in the rest of the encoding, and no part behind its end has a name. -/
structure Form.Quiet (form : Form) (b : Boundary) (preamble epilogue : Option (List UInt8)) :
    Prop where
  preamble : ∀ text ∈ preamble, ¬b.delimiter <:+: text
  filename : ∀ filename ∈ form.file.filename, ¬b.dashed <:+: filename.toList
  contentType : ∀ value ∈ form.file.contentType, ¬b.dashed <:+: value.toList
  epilogue : ∀ part ∈ partsFrom b.delimiter b.endDelimiter (45 :: 45 :: epilogueText epilogue),
    Unheaded part

section Lookup

variable {α : Type} {es : List (String × α)} {name : String} {value : α}

theorem mem_of_lookup_eq (h : es.lookup name = some value) : (name, value) ∈ es := by
  obtain ⟨front, rest, rfl, -⟩ := lookup_eq_some_iff.mp h
  simp

theorem lookup_eq_some_of_mem (hnodup : (es.map Prod.fst).Nodup) (h : (name, value) ∈ es) :
    es.lookup name = some value := by
  induction es with
  | nil => cases h
  | cons e es ih =>
      obtain ⟨hnot, hrest⟩ := nodup_cons.mp hnodup
      rcases mem_cons.mp h with rfl | hmem
      · exact lookup_cons_self
      · have hne : (name == e.1) = false := beq_eq_false_iff_ne.mpr fun heq =>
          hnot (heq ▸ mem_map_of_mem hmem)
        rw [lookup_cons, hne]
        exact ih hrest hmem

/-- Names of their own are found in either order. -/
theorem lookup_reverse (hnodup : (es.map Prod.fst).Nodup) (name : String) :
    es.reverse.lookup name = es.lookup name := by
  have hreverse : (es.reverse.map Prod.fst).Nodup := by
    rw [map_reverse]
    exact nodup_reverse.mpr hnodup
  refine Option.ext fun value => ⟨fun h => ?_, fun h => ?_⟩
  · exact lookup_eq_some_of_mem hnodup (mem_reverse.mp (mem_of_lookup_eq h))
  · exact lookup_eq_some_of_mem hreverse (mem_reverse.mpr (mem_of_lookup_eq h))

end Lookup

namespace Form

variable {form : Form} {b : Boundary} {preamble epilogue : Option (List UInt8)}

theorem nodup (form : Form) : (form.fields.map Prod.fst).Nodup :=
  (nodup_cons.mp form.distinct).2

theorem ne_file {field : String × String} (h : field ∈ form.fields) : field.1 ≠ "file" :=
  fun heq => (nodup_cons.mp form.distinct).1 (heq ▸ mem_map_of_mem h)

theorem framed_parts (hapart : form.Apart b) (hquiet : form.Quiet b preamble epilogue) :
    ∀ part ∈ form.parts, Framed b part := by
  intro part hpart
  rcases mem_append.mp hpart with hpart | hpart
  · obtain ⟨field, hfield, rfl⟩ := mem_map.mp hpart
    obtain ⟨rest, hrest⟩ := starts_fieldLine field.1 (Utf8.encode field.2.toList)
    refine ⟨⟨67, rest, hrest, by decide, by decide⟩, free_partOf b (fun line hline => ?_)
      fun hocc => hapart.values field hfield (b.infix_of_encode hocc)⟩
    rw [mem_singleton.mp hline]
    exact free_fieldLine b (hapart.names field hfield)
  · rw [mem_singleton.mp hpart]
    obtain ⟨rest, hrest⟩ := starts_file form.file
    refine ⟨⟨67, rest, hrest, by decide, by decide⟩, free_partOf b (fun line hline => ?_)
      hapart.data⟩
    rcases mem_cons.mp hline with rfl | hline
    · exact free_fileLine b hquiet.filename
    · obtain ⟨value, hvalue, rfl⟩ := Option.map_eq_some_iff.mp (Option.mem_toList.mp hline)
      exact free_contentTypeLine b (hquiet.contentType value hvalue)

theorem foldl_take_of_fields (fields : List (String × String)) (state : FormState) :
    (fields.map fun field => FormPart.field field.1 field.2).foldl FormState.take state =
      ⟨fields.reverse ++ state.fields, state.file⟩ := by
  induction fields generalizing state with
  | nil => rfl
  | cons field fields ih =>
      rw [map_cons, foldl_cons, ih, reverse_cons, append_assoc]
      rfl

/-- Parts of a form are read as its fields and its file. -/
theorem readParts_parts (hnamed : form.Named) {tail : List (List UInt8)}
    (htail : ∀ part ∈ tail, readPart part = none) :
    readParts (form.parts ++ tail) = ⟨form.fields.reverse,
      some (form.file.contentType.map fun value => String.ofList (trim (lowercase value.toList)),
        form.file.data)⟩ := by
  have hfields : (form.fields.map fieldPart).filterMap readPart =
      form.fields.map fun field => FormPart.field field.1 field.2 := by
    rw [filterMap_map, ← filterMap_eq_map]
    refine filterMap_congr fun field hfield => ?_
    have hplain : String.ofList (escapeParam field.1.toList) = field.1 := by
      rw [hnamed.plain field hfield, String.ofList_toList]
    change readPart (fieldPart field) = some (FormPart.field field.1 field.2)
    rw [readPart_fieldPart, hplain, (unfiled_iff (hnamed.plain field hfield)).mpr
      (hnamed.unfiled field hfield), if_neg]
    rintro (heq | hsome)
    · exact ne_file hfield heq
    · cases hsome
  have hnone : tail.filterMap readPart = [] := filterMap_eq_nil_iff.mpr htail
  unfold readParts parts
  rw [filterMap_append, filterMap_append, hfields, hnone, append_nil,
    filterMap_cons, readPart_filePart, foldl_append, foldl_take_of_fields]
  simp only [append_nil, filterMap_nil, foldl_cons, foldl_nil]
  rfl

theorem returned_of_named (hquiet : form.Quiet b preamble epilogue) (hapart : form.Apart b)
    (hlower : form.LowerType) (hnamed : form.Named) :
    form.Returned (parseMultipart (form.encode b preamble epilogue) b.text) := by
  have hsplit := splitMultipartParts_encode b hquiet.preamble (framed_parts hapart hquiet) epilogue
  have htype : form.file.contentType.map (fun value =>
      String.ofList (trim (lowercase value.toList))) = form.file.contentType := by
    cases hvalue : form.file.contentType with
    | none => rfl
    | some value =>
        rw [Option.map_some, hlower value hvalue, String.ofList_toList]
  refine ⟨⟨form.fields.reverse, form.file.data, form.file.contentType⟩, ?_,
    lookup_reverse form.nodup, rfl, rfl⟩
  have hparts : readParts (splitMultipartParts (form.encode b preamble epilogue) b.delimiter
      b.endDelimiter) = ⟨form.fields.reverse, some (form.file.contentType, form.file.data)⟩ := by
    rw [hsplit, readParts_parts hnamed fun part hpart =>
      readPart_eq_none_iff.mpr (hquiet.epilogue part hpart), htype]
  rw [parseMultipart_some (congrArg FormState.file hparts)]
  exact congrArg Except.ok (congrArg (fun fields => MultipartForm.mk fields _ _)
    (congrArg FormState.fields hparts))

/-- What is read has no delimiter in it. -/
theorem apart_of_returned {body : List UInt8}
    (h : form.Returned (parseMultipart body b.text)) : form.Apart b ∧ form.LowerType := by
  obtain ⟨out, hout, hfields, hdata, htype⟩ := h
  obtain ⟨⟨part, hpart, hfile⟩, hread⟩ := parseMultipart_eq_ok hout
  obtain ⟨hwithin, hlower⟩ := file_of_readPart hfile
  have hfield : ∀ field ∈ form.fields, ¬b.dashed <:+: field.1.toList ∧
      ¬b.dashed <:+: field.2.toList := by
    intro field hfield
    have hlookup := lookup_eq_some_of_mem form.nodup hfield
    rw [← hfields] at hlookup
    obtain ⟨part, hpart, hread⟩ := hread _ _ (mem_of_lookup_eq hlookup)
    exact field_of_readPart b (not_infix_of_mem_parts hpart) hread
  refine ⟨⟨fun field h => (hfield field h).1, fun field h => (hfield field h).2,
    fun hocc => ?_⟩, ?_⟩
  · rw [← hdata] at hocc
    exact not_infix_of_mem_parts hpart (hocc.trans hwithin)
  · rw [htype] at hlower
    exact hlower

theorem escapeParam_escapeParam (value : List Char) :
    escapeParam (escapeParam value) = escapeParam value := by
  have hchar : ∀ c, escapeParam (escapeChar c) = escapeChar c := by
    intro c
    unfold escapeChar
    split_ifs with hquote hreturn hfeed
    · decide
    · decide
    · decide
    · unfold escapeParam escapeChar
      rw [flatMap_cons, if_neg hquote, if_neg hreturn, if_neg hfeed]
      rfl
  induction value with
  | nil => rfl
  | cons c cs ih =>
      have hcons : ∀ ds, escapeParam (escapeChar c ++ ds) = escapeChar c ++ escapeParam ds := by
        intro ds
        have happend : escapeParam (escapeChar c ++ ds) =
            escapeParam (escapeChar c) ++ escapeParam ds := flatMap_append
        rw [happend, hchar]
      change escapeParam (escapeChar c ++ escapeParam cs) = escapeChar c ++ escapeParam cs
      rw [hcons, ih]

/-- Fields that are read back are read from their parts. -/
theorem named_of_returned (hquiet : form.Quiet b preamble epilogue)
    (h : form.Returned (parseMultipart (form.encode b preamble epilogue) b.text)) :
    form.Named := by
  obtain ⟨hapart, -⟩ := apart_of_returned h
  have hsplit := splitMultipartParts_encode b hquiet.preamble (framed_parts hapart hquiet) epilogue
  obtain ⟨out, hout, hfields, -, -⟩ := h
  have hread := (parseMultipart_eq_ok hout).2
  rw [hsplit] at hread
  -- The part that a field has been read from.
  have hsource : ∀ field ∈ form.fields, ∃ other ∈ form.fields,
      field.1.toList = escapeParam other.1.toList ∧
        extractQuotedParam (fieldLine other.1) "filename".toList = none := by
    intro field hfield
    have hlookup := lookup_eq_some_of_mem form.nodup hfield
    rw [← hfields] at hlookup
    obtain ⟨part, hpart, hpartRead⟩ := hread _ _ (mem_of_lookup_eq hlookup)
    rcases mem_append.mp hpart with hpart | hpart
    · rcases mem_append.mp hpart with hpart | hpart
      · obtain ⟨other, hother, rfl⟩ := mem_map.mp hpart
        rw [readPart_fieldPart] at hpartRead
        split_ifs at hpartRead with hfile
        · cases hpartRead
        · rw [not_or, Option.not_isSome_iff_eq_none] at hfile
          have hname := (FormPart.field.inj (Option.some.inj hpartRead)).1
          refine ⟨other, hother, ?_, hfile.2⟩
          rw [← hname, String.toList_ofList]
      · rw [mem_singleton.mp hpart, readPart_filePart] at hpartRead
        cases hpartRead
    · rw [readPart_eq_none_iff.mpr (hquiet.epilogue part hpart)] at hpartRead
      cases hpartRead
  have hplain : ∀ field ∈ form.fields, escapeParam field.1.toList = field.1.toList := by
    intro field hfield
    obtain ⟨other, -, hname, -⟩ := hsource field hfield
    rw [hname, escapeParam_escapeParam]
  refine ⟨hplain, fun field hfield => ?_⟩
  obtain ⟨other, hother, hname, hunfiled⟩ := hsource field hfield
  rw [hplain other hother] at hname
  rw [String.toList_injective hname]
  exact (unfiled_iff (hplain other hother)).mp hunfiled

/-- A form is read back only without the delimiter in its fields and its file and with its
content type in lower case.  With nothing else in the encoding that is read, it is read back
when its names are, too. -/
theorem returned_iff (form : Form) (b : Boundary) (preamble epilogue : Option (List UInt8)) :
    (form.Returned (parseMultipart (form.encode b preamble epilogue) b.text) →
      form.Apart b ∧ form.LowerType) ∧
    (form.Quiet b preamble epilogue →
      (form.Returned (parseMultipart (form.encode b preamble epilogue) b.text) ↔
        (form.Apart b ∧ form.LowerType) ∧ form.Named)) :=
  ⟨apart_of_returned, fun hquiet => ⟨fun h => ⟨apart_of_returned h, named_of_returned hquiet h⟩,
    fun h => returned_of_named hquiet h.1.1 h.1.2 h.2⟩⟩

end Form

/-! ## A form with a key and a note -/

def shortBoundary : Boundary := ⟨['b'], List.all_eq_true.mp (by decide)⟩

/-- A note with its name in front of the name of its field. -/
def noteForm (data : List UInt8) : Form where
  fields := [("key", "notes/1"), ("policy", "eyJ=")]
  file :=
    { filename := some "1.txt"
      nameFirst := false
      contentType := some "text/plain"
      data
      contentType_plain := by
        rintro _ ⟨⟩
        decide }
  distinct := by
    rw [List.nodup_cons]
    decide

theorem noteForm_returned :
    (noteForm [49, 45, 50]).Returned
      (parseMultipart ((noteForm [49, 45, 50]).encode shortBoundary (some [104, 105]) (some []))
        shortBoundary.text) := by
  have hquiet : (noteForm [49, 45, 50]).Quiet shortBoundary (some [104, 105]) (some []) := by
    refine ⟨?_, ?_, ?_, fun part hpart => readPart_eq_none_iff.mp
      ((by decide +kernel : ∀ part ∈ partsFrom shortBoundary.delimiter shortBoundary.endDelimiter
        (45 :: 45 :: epilogueText (some [])), readPart part = none) part hpart)⟩
    · rintro _ ⟨⟩
      decide
    · rintro _ ⟨⟩
      decide
    · rintro _ ⟨⟩
      decide
  have hlower : (noteForm [49, 45, 50]).LowerType := by
    rintro _ ⟨⟩
    decide +kernel
  refine ((Form.returned_iff (noteForm [49, 45, 50]) shortBoundary (some [104, 105])
    (some [])).2 hquiet).mpr ⟨⟨⟨?_, ?_, by decide⟩, hlower⟩, ⟨?_, ?_⟩⟩
  · decide
  · decide
  · decide
  · unfold Unfiled
    decide +kernel

/-- A file with the delimiter within a line is cut there. -/
theorem noteForm_cut :
    ¬crlf ++ shortBoundary.delimiter <:+: [49, 45, 45, 98, 50] ∧
      parseMultipart ((noteForm [49, 45, 45, 98, 50]).encode shortBoundary none none)
        shortBoundary.text =
          .ok ⟨[("policy", "eyJ="), ("key", "notes/1")], [49], some "text/plain"⟩ ∧
      ¬(noteForm [49, 45, 45, 98, 50]).Returned
        (parseMultipart ((noteForm [49, 45, 45, 98, 50]).encode shortBoundary none none)
          shortBoundary.text) :=
  ⟨by decide, by decide +kernel, fun h =>
    absurd (Form.apart_of_returned h).1.data (by decide)⟩

end Rustack.S3.FormData
