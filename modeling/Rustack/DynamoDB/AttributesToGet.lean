import Rustack.DynamoDB.Expression.Render
import Rustack.DynamoDB.Provider.GetItem
import Rustack.DynamoDB.StorageInvariant

/-!
# Attributes by name

The names of `AttributesToGet` are joined to the text of a projection.  Names that read as
identifiers are read back from it, and an item keeps just these attributes.  A name that does not
is never the head of a path of what the text is read as, so that its attribute is not kept.
-/

namespace Rustack.DynamoDB

open Parser (Sound done whileNext andThen_done)
open List EvalContext
open Except (bind_eq_ok)

variable {ts : List Token} {paths : List AttributePath} {c : Char} {name first : String}
  {names : List String} {item : Item}

/-! ## The tokens of a projection -/

/-- Paths between commas. -/
inductive PathListTokens : List Token → List AttributePath → Prop where
  | one {ts : List Token} {es : List PathElement} : PathTokens ts es → PathListTokens ts [⟨es⟩]
  | more {ts us : List Token} {paths : List AttributePath} {es : List PathElement} :
      PathListTokens ts paths → PathTokens us es →
        PathListTokens (ts ++ .comma :: us) (paths ++ [⟨es⟩])

theorem parseProjectionExpr_sound : Sound parseProjectionExpr PathListTokens := by
  intro ts paths rest hdone
  obtain ⟨first, mid, hfirst, hloop⟩ := Parser.andThen_eq_done.mp hdone
  obtain ⟨used, rfl, hused⟩ := parseAttributePath_sound ts first mid hfirst
  obtain ⟨read, rfl, hread⟩ := @Parser.sepLoop_sound _ _ _ _ _ .comma parseAttributePath
    (fun actions a => actions ++ [a]) PathListTokens (fun ts path => PathTokens ts path.elements)
    parseAttributePath_sound (fun _ _ _ _ hpaths hpath => .more hpaths hpath) [first] _ used _ _
    (.one hused) hloop
  exact ⟨used ++ read, by simp, hread⟩

/-- The parser has read paths and looks for a comma. -/
theorem parseProjectionExpr_loop (h : PathListTokens ts paths) :
    ∀ rest, continuesPath (peek rest) = false →
      ∃ fuel, rest.length ≤ fuel ∧ parseProjectionExpr (ts ++ rest) =
        whileNext (fun t => decide (t = .comma))
          (fun paths _ => parseAttributePath.andThen fun path => .ret (paths ++ [path]))
          fuel paths rest := by
  induction h with
  | one hone =>
      intro rest hrest
      exact ⟨rest.length, le_rfl, andThen_done (parseAttributePath_complete hone hrest)⟩
  | @more ts us paths es _ hus ih =>
      intro rest hrest
      obtain ⟨fuel, hfuel, heq⟩ := ih (.comma :: (us ++ rest)) rfl
      obtain ⟨k, rfl⟩ : ∃ k, fuel = k + 1 := ⟨fuel - 1, by simp at hfuel; omega⟩
      refine ⟨k, by simp at hfuel; omega, ?_⟩
      have hround := andThen_done (f := fun path => Parser.ret (paths ++ [path]))
        (parseAttributePath_complete hus hrest)
      rw [append_assoc, cons_append, heq]
      exact Parser.whileNext_round rfl hround k

theorem runProjection_of_tokens {input : String} (hlex : tokenize input = some (.ok (ts ++ [.eof])))
    (h : PathListTokens ts paths) : runProjection input = some (.ok paths) := by
  obtain ⟨fuel, -, heq⟩ := parseProjectionExpr_loop h [.eof] rfl
  have hdone : parseProjectionExpr (ts ++ [.eof]) = done paths [.eof] := by
    rw [heq]
    exact whileNext_stop_peek rfl fuel paths
  unfold runProjection runParser
  rw [hlex]
  dsimp only
  rw [hdone]
  rfl

theorem PathListTokens.eof_notMem (h : PathListTokens ts paths) : Token.eof ∉ ts := by
  induction h with
  | one h => exact h.eof_notMem
  | more _ h ih => simp [ih, h.eof_notMem]

/-- What an accepted projection has been read from. -/
theorem runProjection_tokens {input : String} (h : runProjection input = some (.ok paths)) :
    ∃ ts, tokenize input = some (.ok (ts ++ [.eof])) ∧ PathListTokens ts paths := by
  unfold runProjection runParser at h
  cases hlex : tokenize input with
  | none => rw [hlex] at h; cases h
  | some tokens =>
      rw [hlex] at h
      cases tokens with
      | error e => cases h
      | ok tokens =>
          dsimp only at h
          rcases hparse : parseProjectionExpr tokens with _ | _ | ⟨parsed, rest⟩
          · rw [hparse] at h
            cases h
          · rw [hparse] at h
            cases h
          · rw [hparse] at h
            obtain ⟨ts, rfl, heof⟩ := tokenizeWith_eof hlex
            obtain ⟨used, hused, hderives⟩ := parseProjectionExpr_sound _ _ _ hparse
            have hfinish := Option.some.inj h
            unfold endOfExpression at hfinish
            split_ifs at hfinish with hend
            cases hfinish
            have hrest := rest_eq_eof heof hderives.eof_notMem hused (by simpa [atEnd] using hend)
            rw [hrest] at hused
            obtain rfl := append_cancel_right hused
            exact ⟨ts, rfl, hderives⟩

/-! ## Names that are read back -/

theorem toNat_of_identContinue (h : isIdentContinue c = true) :
    (48 ≤ c.toNat ∧ c.toNat ≤ 57) ∨ (65 ≤ c.toNat ∧ c.toNat ≤ 90) ∨ c.toNat = 95 ∨
      (97 ≤ c.toNat ∧ c.toNat ≤ 122) := by
  simp only [isIdentContinue, isIdentStart, isAsciiUppercase, isAsciiLowercase, isAsciiDigit,
    Bool.or_eq_true, Bool.and_eq_true, decide_eq_true_eq, beq_iff_eq] at h
  rcases h with ((⟨hlo, hhi⟩ | ⟨hlo, hhi⟩) | ⟨hlo, hhi⟩) | rfl
  · exact .inr (.inl ⟨hlo, hhi⟩)
  · exact .inr (.inr (.inr ⟨hlo, hhi⟩))
  · exact .inl ⟨hlo, hhi⟩
  · exact .inr (.inr (.inl rfl))

theorem not_whitespace_of_identContinue (h : isIdentContinue c = true) :
    isWhitespace c = false := by
  have hcases := toNat_of_identContinue h
  simp only [isWhitespace, Bool.or_eq_false_iff, Bool.and_eq_false_iff, decide_eq_false_iff_not]
  omega

theorem not_asciiWhitespace_of_identContinue (h : isIdentContinue c = true) :
    isAsciiWhitespace c = false := by
  rw [Bool.eq_false_iff]
  intro hblank
  simp only [isAsciiWhitespace, Bool.or_eq_true, beq_iff_eq] at hblank
  rcases hblank with (((rfl | rfl) | rfl) | rfl) | rfl <;> cases h

theorem ne_comma_of_identContinue (h : isIdentContinue c = true) : c ≠ ',' := by
  rintro rfl
  cases h

/-- An identifier is a letter, followed by letters, digits and underscores. -/
theorem identifierName_cases {name : List Char} (h : isIdentifierName name = true) :
    ∃ c cs, name = c :: cs ∧ isIdentStart c = true ∧ (∀ c ∈ name, isIdentContinue c = true) ∧
      identifierToken name = .identifier (String.ofList name) := by
  cases name with
  | nil => cases h
  | cons c cs =>
      simp only [isIdentifierName, Bool.and_eq_true, beq_iff_eq] at h
      obtain ⟨⟨hstart, hall⟩, htok⟩ := h
      refine ⟨c, cs, rfl, hstart, fun d hd => ?_, htok⟩
      rcases mem_cons.mp hd with rfl | hd
      · unfold isIdentContinue
        rw [hstart]
        rfl
      · exact all_eq_true.mp hall d hd

theorem spells_identifier (h : isIdentifierName name.toList = true) :
    Spells name.toList [.identifier name] := by
  obtain ⟨c, cs, hname, hstart, hall, htok⟩ := identifierName_cases h
  have hcs : cs.all isIdentContinue = true :=
    all_eq_true.mpr fun d hd => hall d (hname ▸ .tail _ hd)
  have hspells := spells_word hstart hcs
  rwa [← hname, htok, String.ofList_toList] at hspells

/-- The text of a list of names. -/
theorem toList_convertAttributesToGet (first : String) (names : List String) :
    (convertAttributesToGet (first :: names)).toList =
      first.toList ++ names.flatMap fun name => ',' :: ' ' :: name.toList := by
  induction names generalizing first with
  | nil => rw [convertAttributesToGet, String.intercalate_singleton]; simp
  | cons name names ih =>
      unfold convertAttributesToGet at ih ⊢
      rw [String.intercalate_cons_cons, String.toList_append, String.toList_append, ih,
        flatMap_cons]
      simp

/-- The tokens of names between commas. -/
def nameTokens (first : String) (names : List String) : List Token :=
  .identifier first :: names.flatMap fun name => [.comma, .identifier name]

theorem spells_names (h : ∀ name ∈ first :: names, isIdentifierName name.toList = true) :
    Spells (convertAttributesToGet (first :: names)).toList (nameTokens first names) := by
  rw [toList_convertAttributesToGet]
  induction names using reverseRecOn with
  | nil => simpa [nameTokens] using spells_identifier (h first (.head _))
  | append_singleton names name ih =>
      have hfront := ih fun other hother => h other (by
        rcases mem_cons.mp hother with rfl | hother
        · exact .head _
        · exact .tail _ (mem_append_left _ hother))
      have hname := spells_identifier (h name (by simp))
      have hnext := hfront.then rfl (opens_comma.then hname)
      simpa [nameTokens, flatMap_append, append_assoc] using hnext

/-- The path of an attribute. -/
def namePath (name : String) : AttributePath := ⟨[.attribute name]⟩

theorem pathListTokens_names (first : String) (names : List String) :
    PathListTokens (nameTokens first names) ((first :: names).map namePath) := by
  induction names using reverseRecOn with
  | nil => exact .one (.head (.identifier first))
  | append_singleton names name ih =>
      have hnext := PathListTokens.more ih (.head (.identifier name))
      simpa [nameTokens, namePath, flatMap_append] using hnext

/-! ## Checks of a projection -/

theorem emptySegment_name {name rest : List Char} {sawComma : Bool} (hne : name ≠ [])
    (hname : ∀ c ∈ name, isIdentContinue c = true) :
    emptySegment sawComma (name ++ rest) = emptySegment false rest := by
  induction name generalizing sawComma with
  | nil => exact absurd rfl hne
  | cons c cs ih =>
      have hc := hname c (.head _)
      have hstep : emptySegment sawComma (c :: (cs ++ rest)) = emptySegment false (cs ++ rest) := by
        rw [emptySegment, if_neg (ne_comma_of_identContinue hc),
          if_neg (Bool.eq_false_iff.mp (not_asciiWhitespace_of_identContinue hc))]
      rw [cons_append, hstep]
      by_cases hcs : cs = []
      · rw [hcs]
        rfl
      · exact ih hcs fun d hd => hname d (.tail _ hd)

theorem emptySegment_names (h : ∀ name ∈ names, isIdentifierName name.toList = true) :
    emptySegment false (names.flatMap fun name => ',' :: ' ' :: name.toList) = false := by
  induction names with
  | nil => rfl
  | cons name names ih =>
      obtain ⟨c, cs, hname, -, hall, -⟩ := identifierName_cases (h name (.head _))
      have hne : name.toList ≠ [] := by rw [hname]; exact cons_ne_nil _ _
      rw [flatMap_cons]
      change emptySegment false (',' :: ' ' :: (name.toList ++ _)) = false
      have hcomma : ∀ rest, emptySegment false (',' :: ' ' :: rest) = emptySegment true rest :=
        fun rest => rfl
      rw [hcomma, emptySegment_name hne hall]
      exact ih fun other hother => h other (.tail _ hother)

/-- The text of names starts and ends with a character of a name. -/
theorem ends_names (h : ∀ name ∈ first :: names, isIdentifierName name.toList = true) :
    (∃ c cs, (convertAttributesToGet (first :: names)).toList = c :: cs ∧
      isIdentContinue c = true) ∧
    ∃ cs c, (convertAttributesToGet (first :: names)).toList = cs ++ [c] ∧
      isIdentContinue c = true := by
  rw [toList_convertAttributesToGet]
  obtain ⟨c, cs, hfirst, -, hall, -⟩ := identifierName_cases (h first (.head _))
  constructor
  · rw [hfirst]
    exact ⟨c, _, cons_append, hall c (hfirst ▸ mem_cons_self)⟩
  · have hlast : ∀ front name, isIdentifierName (String.toList name) = true →
        ∃ cs c, front ++ name.toList = cs ++ [c] ∧ isIdentContinue c = true := by
      intro front name hname
      obtain ⟨c, cs, heq, -, hall, -⟩ := identifierName_cases hname
      have hne : name.toList ≠ [] := by rw [heq]; exact cons_ne_nil _ _
      refine ⟨front ++ name.toList.dropLast, name.toList.getLast hne, ?_,
        hall _ (getLast_mem hne)⟩
      rw [append_assoc, dropLast_append_getLast hne]
    rcases eq_nil_or_concat names with rfl | ⟨front, name, rfl⟩
    · simpa using hlast [] first (h first (.head _))
    · obtain ⟨cs, c, heq, hc⟩ := hlast
        (first.toList ++ (front.flatMap fun name => ',' :: ' ' :: name.toList) ++ [',', ' ']) name
        (h name (by simp))
      exact ⟨cs, c, by simpa [flatMap_append, append_assoc] using heq, hc⟩

theorem checkProjectionText_names
    (h : ∀ name ∈ first :: names, isIdentifierName name.toList = true) :
    checkProjectionText (convertAttributesToGet (first :: names)) = .ok () := by
  obtain ⟨⟨c, cs, hhead, hc⟩, ⟨ds, d, hlast, hd⟩⟩ := ends_names h
  have htrim : trim (convertAttributesToGet (first :: names)).toList =
      (convertAttributesToGet (first :: names)).toList := by
    have hdrop : (convertAttributesToGet (first :: names)).toList.dropWhile isWhitespace =
        (convertAttributesToGet (first :: names)).toList := by
      rw [hhead, dropWhile_cons_of_neg
        (Bool.eq_false_iff.mp (not_whitespace_of_identContinue hc))]
    unfold trim
    rw [hdrop, rdropWhile_eq_self_iff]
    intro hl
    simp only [hlast, getLast_append_singleton]
    exact Bool.eq_false_iff.mp (not_whitespace_of_identContinue hd)
  have hsegment : emptySegment false (convertAttributesToGet (first :: names)).toList = false := by
    obtain ⟨e, es, hfirst, -, hall, -⟩ := identifierName_cases (h first (.head _))
    rw [toList_convertAttributesToGet, emptySegment_name (by rw [hfirst]; simp) hall]
    exact emptySegment_names fun name hname => h name (.tail _ hname)
  unfold checkProjectionText
  dsimp only
  rw [htrim, hsegment, if_neg (by rw [hhead]; simp), if_neg, if_neg, if_neg Bool.false_ne_true]
  · rw [hlast, getLast?_concat]
    exact fun heq => ne_comma_of_identContinue hd (Option.some.inj heq)
  · rw [hhead, head?_cons]
    exact fun heq => ne_comma_of_identContinue hc (Option.some.inj heq)

theorem checkProjectionDepths_names (names : List String) :
    checkProjectionDepths (names.map namePath) = .ok () := by
  induction names with
  | nil => rfl
  | cons name names ih =>
      have hlength : ¬32 < (namePath name).elements.length := by
        rw [namePath, length_singleton]
        decide
      rw [map_cons, checkProjectionDepths, if_neg hlength]
      exact ih

theorem checkProjectionRepeats_eq_ok {seen : List String} :
    checkProjectionRepeats seen paths = .ok () ↔ (paths.map AttributePath.display).Nodup ∧
      ∀ path ∈ paths, path.display ∉ seen := by
  induction paths generalizing seen with
  | nil => simp [checkProjectionRepeats]
  | cons path paths ih =>
      rw [checkProjectionRepeats]
      by_cases hmem : path.display ∈ seen
      · rw [if_pos (contains_iff_mem.mpr hmem)]
        simp [hmem]
      · rw [if_neg fun h => hmem (contains_iff_mem.mp h), ih]
        simp only [map_cons, nodup_cons, mem_map, mem_cons, not_or,
          forall_eq_or_imp]
        constructor
        · rintro ⟨hnodup, hseen⟩
          exact ⟨⟨fun ⟨other, hother, heq⟩ => (hseen other hother).1 heq, hnodup⟩, hmem,
            fun other hother => (hseen other hother).2⟩
        · rintro ⟨⟨hnot, hnodup⟩, -, hseen⟩
          exact ⟨hnodup, fun other hother =>
            ⟨fun heq => hnot ⟨other, hother, heq⟩, hseen other hother⟩⟩

theorem checkProjectionAgainst_eq_ok {path : AttributePath} :
    checkProjectionAgainst path paths = .ok () ↔
      ∀ other ∈ paths, checkProjectionPair path other = .ok () := by
  induction paths with
  | nil => simp [checkProjectionAgainst]
  | cons other paths ih =>
      rw [checkProjectionAgainst, bind_eq_ok, forall_mem_cons, ← ih]
      exact ⟨fun ⟨_, hother, hrest⟩ => ⟨hother, hrest⟩, fun ⟨hother, hrest⟩ => ⟨(), hother, hrest⟩⟩

theorem validateProjectionPaths_eq_ok :
    validateProjectionPaths paths = .ok () ↔
      paths.Pairwise fun a b => checkProjectionPair a b = .ok () := by
  induction paths with
  | nil => simp [validateProjectionPaths]
  | cons path paths ih =>
      rw [validateProjectionPaths, bind_eq_ok, pairwise_cons, ← ih,
        ← checkProjectionAgainst_eq_ok]
      exact ⟨fun ⟨_, hpath, hrest⟩ => ⟨hpath, hrest⟩, fun ⟨hpath, hrest⟩ => ⟨(), hpath, hrest⟩⟩

theorem PathListTokens.wellFormed (h : PathListTokens ts paths)
    (hts : ∀ t ∈ ts, t.wellFormed = true) : ∀ path ∈ paths, path.wellFormed = true := by
  induction h with
  | one hpath =>
      intro path hmem
      obtain rfl := mem_singleton.mp hmem
      exact hpath.wellFormed hts
  | more _ hpath ih =>
      intro path hmem
      rcases mem_append.mp hmem with hmem | hmem
      · exact ih (fun t ht => hts t (mem_append_left _ ht)) path hmem
      · obtain rfl := mem_singleton.mp hmem
        exact hpath.wellFormed fun t ht =>
          hts t (mem_append_right _ (.tail _ ht))

/-- Every accepted path is one that the parser can build. -/
theorem parseProjection_wellFormed {input : String} (h : parseProjection input = .ok paths) :
    ∀ path ∈ paths, path.wellFormed = true := by
  obtain ⟨_, -, h⟩ := bind_eq_ok.mp h
  obtain ⟨parsed, hparsed, h⟩ := bind_eq_ok.mp h
  obtain ⟨_, -, h⟩ := bind_eq_ok.mp h
  obtain ⟨_, -, h⟩ := bind_eq_ok.mp h
  obtain ⟨_, -, h⟩ := bind_eq_ok.mp h
  cases h
  have hrun : runProjection input = some (.ok paths) := by rw [← hparsed, Option.some_get]
  obtain ⟨ts, hlex, hts⟩ := runProjection_tokens hrun
  exact hts.wellFormed fun t ht =>
    tokenizeWith_wellFormed hlex t (mem_append_left _ ht)

/-- Identifiers without repetition are read back as their paths. -/
theorem parseProjection_names (hnodup : (first :: names).Nodup)
    (h : ∀ name ∈ first :: names, isIdentifierName name.toList = true) :
    parseProjection (convertAttributesToGet (first :: names)) =
      .ok ((first :: names).map namePath) := by
  have hrun := runProjection_of_tokens (spells_names h).tokenize_eq
    (pathListTokens_names first names)
  have hget : (runProjection (convertAttributesToGet (first :: names))).get
      (runProjection_isSome _) = .ok ((first :: names).map namePath) := by
    simp only [hrun, Option.get_some]
  have hrepeats : checkProjectionRepeats [] ((first :: names).map namePath) = .ok () := by
    refine checkProjectionRepeats_eq_ok.mpr ⟨?_, fun path _ => not_mem_nil⟩
    have hdisplay : ((first :: names).map namePath).map AttributePath.display = first :: names := by
      rw [map_map]
      refine (map_congr_left fun name _ => ?_).trans (map_id _)
      change name ++ String.join [] = name
      rw [String.join_nil, String.append_empty]
    rw [hdisplay]
    exact hnodup
  have hpaths : validateProjectionPaths ((first :: names).map namePath) = .ok () := by
    rw [validateProjectionPaths_eq_ok, pairwise_map]
    refine hnodup.imp fun {a b} _ => ?_
    have hconflict : pathsConflict [.attribute a] [.attribute b] = false := by
      change (a == b && false) = false
      exact Bool.and_false _
    change (if pathsConflict [.attribute a] [.attribute b] then _ else _) = Except.ok ()
    rw [hconflict, if_neg Bool.false_ne_true, if_neg fun hand => hand.2 rfl]
  unfold parseProjection
  rw [checkProjectionText_names h, hget]
  refine bind_eq_ok.mpr ⟨_, rfl, bind_eq_ok.mpr ⟨_, rfl, ?_⟩⟩
  refine bind_eq_ok.mpr ⟨_, checkProjectionDepths_names _, ?_⟩
  refine bind_eq_ok.mpr ⟨_, hrepeats, ?_⟩
  exact bind_eq_ok.mpr ⟨_, hpaths, rfl⟩

/-! ## Requests -/

theorem validateNoDuplicateAttributesToGet_eq_ok {seen attrs : List String} :
    validateNoDuplicateAttributesToGet seen attrs = .ok () ↔
      attrs.Nodup ∧ ∀ attr ∈ attrs, attr ∉ seen := by
  induction attrs generalizing seen with
  | nil => simp [validateNoDuplicateAttributesToGet]
  | cons attr attrs ih =>
      rw [validateNoDuplicateAttributesToGet]
      by_cases hmem : attr ∈ seen
      · rw [if_pos (contains_iff_mem.mpr hmem)]
        simp [hmem]
      · rw [if_neg fun h => hmem (contains_iff_mem.mp h), ih]
        simp only [nodup_cons, mem_cons, not_or, forall_eq_or_imp]
        constructor
        · rintro ⟨hnodup, hseen⟩
          exact ⟨⟨fun hattr => (hseen attr hattr).1 rfl, hnodup⟩, hmem,
            fun other hother => (hseen other hother).2⟩
        · rintro ⟨⟨hnot, hnodup⟩, -, hseen⟩
          exact ⟨hnodup, fun other hother =>
            ⟨fun heq => hnot (heq ▸ hother), hseen other hother⟩⟩

/-- The request is for an item that is there. -/
structure RustackDynamoDB.Reaches (p : RustackDynamoDB) (input : GetItemInput) (item : Item) :
    Prop where
  admitted : p.closed = false
  tableName : validateTableName input.tableName = .ok ()
  there : ∃ table key, p.requireTable input.tableName = .ok table ∧
    validateKeyOnlyHasKeyAttrs table.keySchema input.key = .ok () ∧
    validateKeyTypes table.keySchema input.key = .ok () ∧
    validateKeyNotEmpty table.keySchema input.key = .ok () ∧
    extractPrimaryKey table.keySchema input.key = .ok key ∧
    table.storage.getItem key = some item

/-- A request for the attributes of these names and nothing else. -/
structure GetItemInput.Names (input : GetItemInput) (atg : List String) : Prop where
  attributesToGet : input.attributesToGet = some atg
  projectionExpression : input.projectionExpression = none
  expressionAttributeNames : input.expressionAttributeNames = []

theorem handleGetItem_eq {p : RustackDynamoDB} {input : GetItemInput} {atg : List String}
    (hreaches : p.Reaches input item) (hnames : input.Names atg) (hne : atg ≠ [])
    (hnodup : atg.Nodup) :
    p.handleGetItem input = (do
      let paths ← parseProjectionText (convertAttributesToGet atg)
      .ok ⟨some (applyProjection ⟨item, [], []⟩ paths)⟩) := by
  obtain ⟨hclosed, htableName, table, key, htable, hkeyOnly, htypes, hempty, hkey, hitem⟩ :=
    hreaches
  obtain ⟨hatg, hprojection, hnone⟩ := hnames
  have huse : useAttributesToGet input = .ok (some (convertAttributesToGet atg)) := by
    unfold useAttributesToGet
    rw [hatg, hprojection]
    dsimp only
    rw [if_neg (fun h => hne (isEmpty_iff.mp h))]
    exact bind_eq_ok.mpr ⟨(), rfl, bind_eq_ok.mpr ⟨(),
      validateNoDuplicateAttributesToGet_eq_ok.mpr ⟨hnodup, fun _ _ => not_mem_nil⟩, rfl⟩⟩
  have hunused : ∀ used, validateNoUnusedNames [] used = .ok () := fun used => rfl
  unfold RustackDynamoDB.handleGetItem RustackDynamoDB.getItem
  rw [hclosed, if_neg Bool.false_ne_true, htableName, htable, hprojection, hnone]
  simp only [bind, Except.bind, Option.isSome_none, Bool.false_and, Bool.false_eq_true, if_false,
    hkeyOnly, htypes, hempty, primaryKeyOf_eq_ok.mpr hkey, huse, namesOfProjection, hitem,
    projectItem]
  cases parseProjectionText (convertAttributesToGet atg) with
  | error e => rfl
  | ok paths => simp only [hunused]

/-! ## What a projection keeps -/

/-- A path leads to something from an attribute of the item. -/
theorem resolvePath_cases {path : AttributePath} {v : AttributeValue}
    (h : resolvePath ⟨item, [], []⟩ path = some v) :
    ∃ name rest, path.elements = .attribute name :: rest ∧ isReference name = false ∧
      walkPath [] rest (item.lookup name) = some v := by
  unfold resolvePath at h
  split at h
  · cases h
  · next name rest helements =>
    obtain ⟨resolved, hresolved, hwalk⟩ := Option.bind_eq_some_iff.mp h
    unfold resolveName at hresolved
    split_ifs at hresolved with hreference
    · cases hresolved
    · cases hresolved
      exact ⟨name, rest, helements, Bool.eq_false_iff.mpr hreference, hwalk⟩
  · cases h

/-- A path changes nothing, or the attribute that it starts with. -/
theorem projectPath_cases (item result : Item) (path : AttributePath) :
    projectPath ⟨item, [], []⟩ result path = result ∨
      ∃ name rest w, path.elements = .attribute name :: rest ∧ isReference name = false ∧
        projectPath ⟨item, [], []⟩ result path = insertAttr name w result := by
  unfold projectPath
  cases hpath : resolvePath ⟨item, [], []⟩ path with
  | none => exact .inl rfl
  | some v =>
      obtain ⟨name, rest, helements, hreference, -⟩ := resolvePath_cases hpath
      have htop : resolveTopLevelNameOpt [] path = some name := by
        unfold resolveTopLevelNameOpt resolveName
        rw [helements]
        dsimp only
        rw [hreference]
        rfl
      have hresolve : resolveElement [] (.attribute name) = .mapKey name := by
        change ResolvedElement.mapKey (if isReference name = true then _ else name) = _
        rw [hreference]
        rfl
      dsimp only
      rw [htop]
      dsimp only
      split_ifs with hlength
      · exact .inr ⟨name, rest, v, helements, hreference, rfl⟩
      · unfold deepInsert
        rw [helements, map_cons, hresolve]
        cases rest with
        | nil => exact .inr ⟨name, [], v, rfl, hreference, rfl⟩
        | cons e rest => exact .inr ⟨name, e :: rest, _, rfl, hreference, rfl⟩

/-- What is kept is what some path starts with. -/
theorem exists_path_of_kept {result : Item}
    (h : (paths.foldl (projectPath ⟨item, [], []⟩) result).lookup name ≠ none) :
    result.lookup name ≠ none ∨
      ∃ path ∈ paths, ∃ rest, path.elements = .attribute name :: rest ∧
        isReference name = false := by
  induction paths generalizing result with
  | nil => exact .inl h
  | cons path paths ih =>
      rw [foldl_cons] at h
      rcases ih h with hkept | ⟨other, hother, hstarts⟩
      · rcases projectPath_cases item result path with
          hsame | ⟨top, rest, w, helements, hreference, hinsert⟩
        · rw [hsame] at hkept
          exact .inl hkept
        · by_cases hname : name = top
          · subst hname
            exact .inr ⟨path, mem_cons_self, rest, helements, hreference⟩
          · rw [hinsert, lookup_insertAttr, if_neg hname] at hkept
            exact .inl hkept
      · exact .inr ⟨other, .tail _ hother, hstarts⟩

theorem isReference_of_identifierName (h : isIdentifierName name.toList = true) :
    isReference name = false := by
  obtain ⟨c, cs, hname, hstart, -⟩ := identifierName_cases h
  unfold isReference
  rw [hname, head?_cons]
  refine beq_eq_false_iff_ne.mpr fun heq => ?_
  cases heq
  cases hstart

/-- The path of an attribute brings it along. -/
theorem projectPath_name (item result : Item) (h : isIdentifierName name.toList = true) :
    projectPath ⟨item, [], []⟩ result (namePath name) =
      match item.lookup name with
      | none => result
      | some v => insertAttr name v result := by
  have hreference := isReference_of_identifierName h
  have hresolve : resolvePath ⟨item, [], []⟩ (namePath name) = item.lookup name := by
    change (resolveName [] name).bind (fun resolved => walkPath [] [] (item.lookup resolved)) = _
    unfold resolveName
    rw [hreference]
    exact walkPath.eq_1 [] (item.lookup name)
  have htop : resolveTopLevelNameOpt [] (namePath name) = some name := by
    change resolveName [] name = some name
    unfold resolveName
    rw [hreference]
    rfl
  unfold projectPath
  rw [hresolve]
  cases item.lookup name with
  | none => rfl
  | some v =>
      dsimp only
      rw [htop]
      rfl

/-- Paths of attributes keep these attributes. -/
theorem lookup_foldl_names {result : Item} (h : ∀ name ∈ names, isIdentifierName name.toList = true)
    (probe : String) :
    ((names.map namePath).foldl (projectPath ⟨item, [], []⟩) result).lookup probe =
      if probe ∈ names then (item.lookup probe).or (result.lookup probe)
      else result.lookup probe := by
  induction names generalizing result with
  | nil => rw [if_neg not_mem_nil]; rfl
  | cons name names ih =>
      have hlookup : (projectPath ⟨item, [], []⟩ result (namePath name)).lookup probe =
          if probe = name then (item.lookup probe).or (result.lookup probe)
          else result.lookup probe := by
        rw [projectPath_name item result (h name (.head _))]
        by_cases hprobe : probe = name
        · subst hprobe
          cases item.lookup probe with
          | none => simp
          | some v => simp [lookup_insertAttr]
        · rw [if_neg hprobe]
          cases item.lookup name with
          | none => rfl
          | some v => exact (lookup_insertAttr ..).trans (if_neg hprobe)
      rw [map_cons, foldl_cons,
        ih fun other hother => h other (.tail _ hother), hlookup]
      by_cases hprobe : probe = name
      · subst hprobe
        rw [if_pos rfl, if_pos mem_cons_self]
        split_ifs
        · cases item.lookup probe <;> rfl
        · rfl
      · simp only [mem_cons, hprobe, false_or, if_false]

/-- Every item is returned with the attributes of these names and no others. -/
def SelectsByName (atg : List String) : Prop :=
  ∀ (p : RustackDynamoDB) (input : GetItemInput) (item : Item), p.Reaches input item →
    input.Names atg → ∃ output, p.handleGetItem input = .ok ⟨some output⟩ ∧
      ∀ name, output.lookup name = if name ∈ atg then item.lookup name else none

theorem selectsByName_of_identifiers {atg : List String} (hne : atg ≠ []) (hnodup : atg.Nodup)
    (h : ∀ name ∈ atg, isIdentifierName name.toList = true) : SelectsByName atg := by
  intro p input item hreaches hnames
  obtain ⟨first, names, rfl⟩ := exists_cons_of_ne_nil hne
  refine ⟨applyProjection ⟨item, [], []⟩ ((first :: names).map namePath), ?_,
    fun name => ?_⟩
  · rw [handleGetItem_eq hreaches hnames hne hnodup, parseProjectionText,
      parseProjection_names hnodup h]
    rfl
  · unfold applyProjection
    rw [lookup_foldl_names h, lookup_nil, Option.or_none]

/-! ## A table of notes -/

def notesSchema : KeySchema := ⟨⟨"id", .s⟩, none⟩

/-- A table with one item, under the key `1`. -/
def notesTable (item : Item) : DynamoDBTable where
  name := "notes"
  status := .active
  keySchemaElements := [⟨"id", .hash⟩]
  keySchema := notesSchema
  attributeDefinitions := [⟨"id", .s⟩]
  billingMode := .payPerRequest
  provisionedThroughput := none
  gsiDefinitions := []
  lsiDefinitions := []
  streamSpecification := none
  sseSpecification := none
  tags := []
  ttl := none
  pointInTimeRecovery := ⟨false, none⟩
  arn := "arn:aws:dynamodb:us-east-1:000000000000:table/notes"
  tableId := "11111111-2222-3333-4444-555555555555"
  createdAt := 0
  storage := ((TableStorage.new notesSchema).putPrepared ⟨.s "1", none⟩ item).1

def notes (item : Item) : RustackDynamoDB :=
  { RustackDynamoDB.new with
    tables := (RustackDynamoDB.new.tables).insert "notes" (notesTable item) }

def noteInput (atg : List String) : GetItemInput where
  tableName := "notes"
  key := [("id", .s "1")]
  attributesToGet := some atg
  projectionExpression := none
  expressionAttributeNames := []

theorem names_noteInput (atg : List String) : (noteInput atg).Names atg := ⟨rfl, rfl, rfl⟩

theorem reaches_notes (item : Item) (atg : List String) :
    (notes item).Reaches (noteInput atg) item := by
  have hname : validateTableName "notes" = .ok () := by decide
  have hkey : validateKeyNotEmpty notesSchema [("id", .s "1")] = .ok () := by decide
  refine ⟨rfl, hname, notesTable item, ⟨.s "1", none⟩, ?_, rfl, rfl, hkey, rfl, ?_⟩
  · unfold RustackDynamoDB.requireTable notes noteInput
    simp only [AList.lookup_insert]
  · refine (TableStorage.getItem_putPrepared ..).trans ?_
    exact if_pos (PrimaryKey.sameSlot_refl _)

/-- A note with one more attribute. -/
def noteWith (name : String) : Item := insertAttr name (.s "v") [("id", .s "1")]

/-- A name that is kept of a note is an identifier. -/
theorem identifier_of_kept {text : String} (hparse : parseProjection text = .ok paths)
    (h : (applyProjection ⟨noteWith name, [], []⟩ paths).lookup name ≠ none) :
    isIdentifierName name.toList = true := by
  rcases exists_path_of_kept h with hnil | ⟨path, hpath, rest, helements, hreference⟩
  · exact absurd rfl hnil
  · have hwellFormed := parseProjection_wellFormed hparse path hpath
    unfold AttributePath.wellFormed at hwellFormed
    rw [helements] at hwellFormed
    have hname := (Bool.and_eq_true_iff.mp hwellFormed).1
    unfold isAttributeName at hname
    split at hname
    · next cs hcs =>
      unfold isReference at hreference
      rw [hcs] at hreference
      cases hreference
    · exact hname

/-- Attributes are selected by name for just the names that read as identifiers. -/
theorem selectsByName_iff {atg : List String} (hne : atg ≠ []) (hnodup : atg.Nodup) :
    SelectsByName atg ↔ ∀ name ∈ atg, isIdentifierName name.toList = true := by
  refine ⟨fun h name hname => ?_, selectsByName_of_identifiers hne hnodup⟩
  have hreaches := reaches_notes (noteWith name) atg
  obtain ⟨output, houtput, hlookup⟩ := h _ _ _ hreaches (names_noteInput atg)
  rw [handleGetItem_eq hreaches (names_noteInput atg) hne hnodup] at houtput
  obtain ⟨paths, hpaths, heq⟩ := bind_eq_ok.mp houtput
  cases heq
  refine identifier_of_kept (Outcome.except_mapError_eq_ok.mp hpaths) ?_
  rw [hlookup name, if_pos hname, noteWith, lookup_insertAttr, if_pos rfl]
  exact Option.some_ne_none _

theorem selectsByName_title_body :
    SelectsByName ["title", "body"] ↔
      ∀ name ∈ ["title", "body"], isIdentifierName name.toList = true :=
  selectsByName_iff (cons_ne_nil _ _) (by decide)

/-- A name with a dot is read as a path into a map, and its attribute is left out. -/
theorem dotted_not_selected :
    (notes (noteWith "a.b")).handleGetItem (noteInput ["a.b"]) = .ok ⟨some []⟩ ∧
      (noteWith "a.b").lookup "a.b" = some (.s "v") ∧ ¬SelectsByName ["a.b"] := by
  have hget : (notes (noteWith "a.b")).handleGetItem (noteInput ["a.b"]) = .ok ⟨some []⟩ := by
    rw [handleGetItem_eq (reaches_notes _ _) (names_noteInput _) (cons_ne_nil _ _)
      (nodup_singleton _)]
    decide +kernel
  refine ⟨hget, by decide +kernel, fun h => ?_⟩
  obtain ⟨output, houtput, hlookup⟩ := h _ _ _ (reaches_notes (noteWith "a.b") ["a.b"])
    (names_noteInput _)
  rw [hget] at houtput
  cases houtput
  have hnone := hlookup "a.b"
  rw [if_pos mem_cons_self, noteWith, lookup_insertAttr, if_pos rfl] at hnone
  cases hnone

end Rustack.DynamoDB
