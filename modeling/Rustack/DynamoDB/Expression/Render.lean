import Rustack.DynamoDB.Expression.Total

/-!
# Conditions as text

A condition is written back with the display forms of its parts and with
parentheses around every logical sub-expression.  The trees the parser can
build are the well-formed ones, and reading a well-formed tree's text gives
the tree again.
-/

namespace Rustack.DynamoDB

open Parser (done done_inj)
open List
open Bool (and_eq_true not_eq_true')

variable {chars cs ds rest : List Char} {tokens ts us : List Token} {input : String} {c : Char}
  {tok : Token} {list : List Operand} {expr : Expr}

/-! ### The text of a tree -/

def Operand.render : Operand → String
  | .path p => p.display
  | .value name => ":" ++ name
  | .size inner => "size(" ++ inner.render ++ ")"

/-- Operands with commas between them. -/
def renderOperands : List Operand → String
  | [] => ""
  | [operand] => operand.render
  | operand :: next :: rest => operand.render ++ ", " ++ renderOperands (next :: rest)

def Expr.render : Expr → String
  | .compare left op right => left.render ++ " " ++ op.display ++ " " ++ right.render
  | .between value low high => value.render ++ " BETWEEN " ++ low.render ++ " AND " ++ high.render
  | .inList value list => value.render ++ " IN (" ++ renderOperands list ++ ")"
  | .logical op left right => "(" ++ left.render ++ " " ++ op.display ++ " " ++ right.render ++ ")"
  | .not inner => "NOT " ++ inner.render
  | .function name args => name.display ++ "(" ++ renderOperands args ++ ")"

/-! ### Trees the parser can build -/

/-- What may stand behind `#` or `:`. -/
def isReferenceName (name : List Char) : Bool := !name.isEmpty && name.all isIdentContinue

/-- A name that reads as an identifier and not as a keyword or a function. -/
def isIdentifierName (name : List Char) : Bool :=
  match name with
  | [] => false
  | c :: cs =>
    isIdentStart c && cs.all isIdentContinue &&
      (identifierToken (c :: cs) == .identifier (String.ofList (c :: cs)))

def isAttributeName (name : String) : Bool :=
  match name.toList with
  | '#' :: cs => isReferenceName cs
  | cs => isIdentifierName cs

def PathElement.wellFormed : PathElement → Bool
  | .attribute name => isAttributeName name
  | .index idx => idx ≤ i32Max

/-- A path starts with an attribute. -/
def AttributePath.wellFormed (path : AttributePath) : Bool :=
  match path.elements with
  | .attribute name :: rest => isAttributeName name && rest.all PathElement.wellFormed
  | _ => false

def Operand.wellFormed : Operand → Bool
  | .path p => p.wellFormed
  | .value name => isReferenceName name.toList
  | .size inner => inner.wellFormed

/-- `size` is an operand and not a condition, and no list of operands is empty. -/
def Expr.wellFormed : Expr → Bool
  | .compare left _ right => left.wellFormed && right.wellFormed
  | .between value low high => value.wellFormed && low.wellFormed && high.wellFormed
  | .inList value list => value.wellFormed && !list.isEmpty && list.all Operand.wellFormed
  | .logical _ left right => left.wellFormed && right.wellFormed
  | .not inner => inner.wellFormed
  | .function name args => name != .size && !args.isEmpty && args.all Operand.wellFormed

/-! ### Token sequences -/

/-- The tokens of a text, without a bound on their number. -/
inductive TokensOf : List Char → List Token → Prop where
  | eof {chars rest : List Char} : nextToken chars = .ok (.eof, rest) → TokensOf chars [.eof]
  | cons {chars rest : List Char} {tok : Token} {tokens : List Token} :
      nextToken chars = .ok (tok, rest) → tok ≠ .eof → TokensOf rest tokens →
        TokensOf chars (tok :: tokens)

theorem TokensOf.tokenizeWith_eq (h : TokensOf chars tokens) {fuel : ℕ}
    (hfuel : chars.length < fuel) : tokenizeWith fuel chars = some (.ok tokens) := by
  induction h generalizing fuel with
  | eof hnext =>
      obtain ⟨k, rfl⟩ : ∃ k, fuel = k + 1 := ⟨fuel - 1, by omega⟩
      simp [tokenizeWith, hnext]
  | cons hnext htok _ ih =>
      obtain ⟨k, rfl⟩ : ∃ k, fuel = k + 1 := ⟨fuel - 1, by omega⟩
      have hlt := nextToken_length hnext htok
      have hrest := @ih k (by omega)
      simp [tokenizeWith, hnext, hrest, Except.map]

theorem TokensOf.tokenize_eq (h : TokensOf input.toList tokens) :
    tokenize input = some (.ok tokens) :=
  h.tokenizeWith_eq (by omega)

/-- A character that ends a name, a number or a comparison sign before it. -/
def breaks (c : Char) : Bool := !isIdentContinue c && c != '=' && c != '>'

/-- `chars` reads as `tokens` whatever follows. -/
def Opens (chars : List Char) (tokens : List Token) : Prop :=
  ∀ rest more, TokensOf rest more → TokensOf (chars ++ rest) (tokens ++ more)

/-- `chars` reads as `tokens` when what follows starts with a break. -/
def Spells (chars : List Char) (tokens : List Token) : Prop :=
  ∀ rest more, (∀ c ∈ rest.head?, breaks c = true) → TokensOf rest more →
    TokensOf (chars ++ rest) (tokens ++ more)

theorem Opens.spells (h : Opens chars tokens) :
    Spells chars tokens :=
  fun rest more _ hrest => h rest more hrest

theorem Opens.then (h : Opens cs ts) (h' : Spells ds us) : Spells (cs ++ ds) (ts ++ us) := by
  intro rest more hbreak hrest
  rw [append_assoc, append_assoc]
  exact h _ _ (h' rest more hbreak hrest)

theorem Opens.append (h : Opens cs ts) (h' : Opens ds us) : Opens (cs ++ ds) (ts ++ us) := by
  intro rest more hrest
  rw [append_assoc, append_assoc]
  exact h _ _ (h' rest more hrest)

theorem Spells.then (h : Spells cs ts) (hc : breaks c = true) (h' : Spells (c :: ds) us) :
    Spells (cs ++ c :: ds) (ts ++ us) := by
  intro rest more hbreak hrest
  rw [append_assoc, append_assoc]
  apply h _ _ _ (h' rest more hbreak hrest)
  simpa using hc

theorem Spells.opens (h : Spells cs ts) (hc : breaks c = true) (h' : Opens (c :: ds) us) :
    Opens (cs ++ c :: ds) (ts ++ us) := by
  intro rest more hrest
  rw [append_assoc, append_assoc]
  apply h _ _ _ (h' rest more hrest)
  simpa using hc

theorem Spells.tokenize_eq {text : String} (h : Spells text.toList tokens) :
    tokenize text = some (.ok (tokens ++ [.eof])) := by
  have := h [] [.eof] (by simp) (@TokensOf.eof [] [] rfl)
  rw [append_nil] at this
  exact this.tokenize_eq

theorem opens_space : Opens [' '] [] := by
  intro rest more hrest
  cases hrest with
  | eof hnext => exact .eof hnext
  | cons hnext htok hmore => exact .cons hnext htok hmore

theorem opens_punctuation (h : punctuation c = some tok) : Opens [c] [tok] := by
  intro rest more hrest
  refine .cons ?_ (punctuation_ne_eof h) hrest
  unfold punctuation at h
  split at h <;> cases h <;> rfl

/-! ### Words -/

theorem takeWhile_word {p : Char → Bool} {word : List Char} (hword : word.all p = true)
    (hrest : ∀ c ∈ rest.head?, p c = false) :
    (word ++ rest).takeWhile p = word ∧ (word ++ rest).dropWhile p = rest := by
  induction word with
  | nil =>
      cases rest with
      | nil => simp
      | cons c cs => simp [hrest c rfl]
  | cons c cs ih =>
      simp only [all_cons, and_eq_true] at hword
      simp [hword.1, ih hword.2]

theorem breaks_continue (h : ∀ c ∈ rest.head?, breaks c = true) :
    ∀ c ∈ rest.head?, isIdentContinue c = false := by
  intro c hc
  have := h c hc
  simp only [breaks, and_eq_true, not_eq_true'] at this
  exact this.1.1

/-- Spaces, sigils and punctuation. -/
def separators : List Char :=
  [' ', '\t', '\n', '\x0c', '\r', '#', ':', '<', '>', '=', '+', '-', '.', ',', '(', ')', '[', ']']

theorem nextToken_of_not_separator (h : c ∉ separators) (rest : List Char) :
    nextToken (c :: rest) = readWord c rest := by
  have hne : ∀ d ∈ separators, c ≠ d := by
    rintro d hd rfl
    exact h hd
  have hspace : isAsciiWhitespace c = false := by
    simp [isAsciiWhitespace, hne ' ' (by decide), hne '\t' (by decide), hne '\n' (by decide),
      hne '\x0c' (by decide), hne '\r' (by decide)]
  have hpunctuation : punctuation c = none := by
    unfold punctuation
    split <;> first | rfl | exact absurd rfl (hne _ (by decide))
  unfold nextToken
  simp only [dropWhile_cons, hspace]
  simp [hne '#' (by decide), hne ':' (by decide), hne '<' (by decide), hne '>' (by decide),
    hpunctuation]

theorem identStart_nextToken (h : isIdentStart c = true) (rest : List Char) :
    nextToken (c :: rest) = .ok (readIdentifierOrKeyword (c :: rest)) := by
  have hrange : ('A' ≤ c ∧ c ≤ 'Z') ∨ ('a' ≤ c ∧ c ≤ 'z') := by
    simpa [isIdentStart, isAsciiUppercase, isAsciiLowercase] using h
  have hseparators : separators.all fun d => !isIdentStart d := by decide
  have hdigit : isAsciiDigit c = false := by
    simp only [isAsciiDigit, Bool.and_eq_false_iff, decide_eq_false_iff_not]
    simp only [Char.le_def, UInt32.le_iff_toNat_le] at hrange ⊢
    right
    rcases hrange with h | h
    · have := h.1
      simp at this ⊢
      omega
    · have := h.1
      simp at this ⊢
      omega
  rw [nextToken_of_not_separator fun hmem => by simpa [h] using all_eq_true.mp hseparators c hmem]
  simp [readWord, hdigit, h]

/-- Letters, digits and underscores after a letter read as one word. -/
theorem spells_word (hc : isIdentStart c = true) (hcs : cs.all isIdentContinue = true) :
    Spells (c :: cs) [identifierToken (c :: cs)] := by
  intro rest more hbreak hrest
  have hword : (c :: cs).all isIdentContinue = true := by
    simp [isIdentContinue, hc] at hcs ⊢
    exact hcs
  obtain ⟨htake, hdrop⟩ := takeWhile_word hword (breaks_continue hbreak)
  refine @TokensOf.cons _ rest _ _ ?_ (identifierToken_ne_eof _) hrest
  rw [cons_append, identStart_nextToken hc, readIdentifierOrKeyword, ← cons_append,
    htake, hdrop]

theorem spells_keyword {text : String} (htext : text.toList = c :: cs) (hc : isIdentStart c = true)
    (hcs : cs.all isIdentContinue = true) (htok : identifierToken (c :: cs) = tok) :
    Spells text.toList [tok] := by
  rw [htext, ← htok]
  exact spells_word hc hcs

theorem spells_exprAttrName {name : List Char} (h : isReferenceName name = true) :
    Spells ('#' :: name) [.exprAttrName (String.ofList name)] := by
  intro rest more hbreak hrest
  simp only [isReferenceName, and_eq_true, not_eq_true'] at h
  obtain ⟨htake, hdrop⟩ := takeWhile_word h.2 (breaks_continue hbreak)
  refine @TokensOf.cons _ rest _ _ ?_ (by simp) hrest
  have hnext : nextToken ('#' :: name ++ rest) = readExprAttrName (name ++ rest) := rfl
  rw [hnext, readExprAttrName, htake, hdrop]
  simp [h.1]

theorem spells_exprAttrValue {name : List Char} (h : isReferenceName name = true) :
    Spells (':' :: name) [.exprAttrValue (String.ofList name)] := by
  intro rest more hbreak hrest
  simp only [isReferenceName, and_eq_true, not_eq_true'] at h
  obtain ⟨htake, hdrop⟩ := takeWhile_word h.2 (breaks_continue hbreak)
  refine @TokensOf.cons _ rest _ _ ?_ (by simp) hrest
  have hnext : nextToken (':' :: name ++ rest) = readExprAttrValue (name ++ rest) := rfl
  rw [hnext, readExprAttrValue, htake, hdrop]
  simp [h.1]

/-! ### Numbers -/

theorem isAsciiDigit_iff : isAsciiDigit c = true ↔ c.isDigit = true := by
  simp only [isAsciiDigit, Char.isDigit, and_eq_true, decide_eq_true_eq, Char.le_def]

theorem digit_nextToken (h : isAsciiDigit c = true) (rest : List Char) :
    nextToken (c :: rest) = readNumber (c :: rest) := by
  have hseparators : separators.all fun d => !isAsciiDigit d := by decide
  rw [nextToken_of_not_separator fun hmem => by simpa [h] using all_eq_true.mp hseparators c hmem]
  simp [readWord, h]

theorem spells_number {idx : ℕ} (h : idx ≤ i32Max) :
    Spells (toString idx).toList [.number idx] := by
  intro rest more hbreak hrest
  have hdigits : (toString idx).toList = Nat.toDigits 10 idx := Nat.toList_repr
  have hall : (Nat.toDigits 10 idx).all isAsciiDigit = true := by
    rw [all_eq_true]
    intro c hc
    exact isAsciiDigit_iff.mpr (Nat.isDigit_of_mem_toDigits (by omega) (by omega) hc)
  have hstop : ∀ c ∈ rest.head?, isAsciiDigit c = false := by
    intro c hc
    have := breaks_continue hbreak c hc
    simp only [isIdentContinue, Bool.or_eq_false_iff] at this
    exact this.1.2
  obtain ⟨htake, hdrop⟩ := takeWhile_word hall hstop
  rw [hdigits]
  refine @TokensOf.cons _ rest _ _ ?_ (by simp) hrest
  cases hd : Nat.toDigits 10 idx with
  | nil => exact absurd hd Nat.toDigits_ne_nil
  | cons c cs =>
      rw [hd] at htake hdrop hall
      simp only [all_cons, and_eq_true] at hall
      rw [cons_append, digit_nextToken hall.1, readNumber, ← cons_append, htake, hdrop,
        ← hd, Nat.ofDigitChars_ten_toDigits]
      simp [h]

/-! ### Paths and operands -/

theorem spells_attribute {name : String} (h : isAttributeName name = true) :
    ∃ tok, PathHead [tok] (.attribute name) ∧ Spells name.toList [tok] := by
  unfold isAttributeName at h
  split at h
  · rename_i cs hcs
    refine ⟨.exprAttrName (String.ofList cs), ?_, by rw [hcs]; exact spells_exprAttrName h⟩
    have hname : name = "#" ++ String.ofList cs := by
      rw [← String.toList_inj, hcs]
      simp
    rw [hname]
    exact .reference _
  · cases hcs : name.toList with
    | nil => simp [hcs, isIdentifierName] at h
    | cons c cs =>
        simp only [hcs, isIdentifierName, and_eq_true, beq_iff_eq] at h
        obtain ⟨⟨hstart, hall⟩, htok⟩ := h
        refine ⟨.identifier name, .identifier name, ?_⟩
        have hspells := spells_word hstart hall
        rwa [htok, ← hcs, String.ofList_toList, hcs] at hspells

theorem spells_pathRest {es more : List PathElement} (hes : PathTokens ts es) (hcs : Spells cs ts)
    (hmore : more.all PathElement.wellFormed = true) :
    ∃ us, PathTokens us (es ++ more) ∧
      Spells (cs ++ (String.join (more.map PathElement.display)).toList) us := by
  induction more generalizing ts es cs with
  | nil => exact ⟨ts, by simpa using hes, by simpa using hcs⟩
  | cons e more ih =>
      simp only [all_cons, and_eq_true] at hmore
      rcases e with name | idx
      · obtain ⟨tok, htok, hname⟩ := spells_attribute hmore.1
        have hdot : Spells ('.' :: name.toList) [.dot, tok] :=
          (opens_punctuation (c := '.') rfl).then hname
        obtain ⟨us, hus, hspells⟩ := ih (.dot hes htok) (hcs.then rfl hdot) hmore.2
        exact ⟨us, by simpa using hus, by simpa [PathElement.display] using hspells⟩
      · have hnumber : Opens ('[' :: (toString idx).toList ++ [']'])
            [.lBracket, .number idx, .rBracket] := by
          have hinner := (spells_number (by simpa [PathElement.wellFormed] using hmore.1)).opens
            (c := ']') rfl (opens_punctuation rfl)
          exact (opens_punctuation (c := '[') rfl).append hinner
        obtain ⟨us, hus, hspells⟩ := ih (.index idx hes) (hcs.then rfl hnumber.spells) hmore.2
        exact ⟨us, by simpa using hus, by simpa [PathElement.display] using hspells⟩

theorem spells_path {path : AttributePath} (h : path.wellFormed = true) :
    ∃ ts, PathTokens ts path.elements ∧ Spells path.display.toList ts := by
  obtain ⟨elements⟩ := path
  simp only [AttributePath.wellFormed] at h
  split at h
  · rename_i name rest
    simp only [and_eq_true] at h
    obtain ⟨tok, htok, hname⟩ := spells_attribute h.1
    obtain ⟨us, hus, hspells⟩ := spells_pathRest (.head htok) hname h.2
    exact ⟨us, hus, by simpa [AttributePath.display] using hspells⟩
  · simp at h

theorem spells_operand {operand : Operand} (h : operand.wellFormed = true) :
    ∃ ts, OperandTokens ts operand ∧ Spells operand.render.toList ts := by
  induction operand with
  | path p =>
      obtain ⟨ts, hts, hspells⟩ := spells_path h
      exact ⟨ts, .path hts, hspells⟩
  | value name =>
      refine ⟨_, .value name, ?_⟩
      have hspells := @spells_exprAttrValue name.toList h
      rw [String.ofList_toList] at hspells
      simpa [Operand.render] using hspells
  | size inner ih =>
      obtain ⟨ts, hts, hspells⟩ := ih h
      refine ⟨_, .size hts, ?_⟩
      have hsize : Spells "size".toList [.size] :=
        spells_keyword rfl rfl (by decide) (by decide)
      have hclose := hspells.opens (c := ')') rfl (opens_punctuation rfl)
      have hinner := (opens_punctuation (c := '(') rfl).append hclose
      simpa [Operand.render] using (hsize.then rfl hinner.spells)

theorem opens_comma : Opens [',', ' '] [.comma] :=
  (opens_punctuation (c := ',') rfl).append opens_space

theorem spells_operandRest {more : List Operand} (hts : OperandListTokens ts list)
    (hcs : Spells cs ts) (hmore : more.all Operand.wellFormed = true) :
    ∃ us, OperandListTokens us (list ++ more) ∧
      Spells (cs ++ (String.join (more.map fun o => ", " ++ o.render)).toList) us := by
  induction more generalizing ts list cs with
  | nil => exact ⟨ts, by simpa using hts, by simpa using hcs⟩
  | cons operand more ih =>
      simp only [all_cons, and_eq_true] at hmore
      obtain ⟨us, hus, hspells⟩ := spells_operand hmore.1
      have hnext := hcs.then rfl (opens_comma.then hspells)
      obtain ⟨vs, hvs, hrest⟩ := ih (.more hts hus) hnext hmore.2
      exact ⟨vs, by simpa using hvs, by simpa using hrest⟩

theorem renderOperands_cons (operand : Operand) (rest : List Operand) :
    renderOperands (operand :: rest) =
      operand.render ++ String.join (rest.map fun o => ", " ++ o.render) := by
  induction rest generalizing operand with
  | nil => simp [renderOperands]
  | cons next rest ih => rw [renderOperands, ih]; simp [String.append_assoc]

theorem spells_operands (hne : list.isEmpty = false) (h : list.all Operand.wellFormed = true) :
    ∃ ts, OperandListTokens ts list ∧ Spells (renderOperands list).toList ts := by
  cases list with
  | nil => simp at hne
  | cons operand rest =>
      simp only [all_cons, and_eq_true] at h
      obtain ⟨ts, hts, hspells⟩ := spells_operand h.1
      obtain ⟨us, hus, hrest⟩ := spells_operandRest (.one hts) hspells h.2
      exact ⟨us, hus, by simpa [renderOperands_cons] using hrest⟩

/-! ### Conditions -/

/-- A word between two spaces. -/
theorem opens_between {word : List Char} (h : Spells word [tok]) :
    Opens (' ' :: word ++ [' ']) [tok] :=
  @Spells.opens _ [] _ _ ' ' (opens_space.then h) rfl opens_space

theorem opens_compareOp (op : CompareOp) :
    ∃ tok, parseCompareOp tok = some op ∧ Opens (' ' :: op.display.toList ++ [' ']) [tok] := by
  have hsign : ∀ (word : List Char) (tok : Token), tok ≠ .eof →
      (∀ rest, nextToken (' ' :: word ++ ' ' :: rest) = .ok (tok, ' ' :: rest)) →
      Opens (' ' :: word ++ [' ']) [tok] := by
    intro word tok htok hnext rest more hrest
    have hword := hnext rest
    simp only [cons_append, append_assoc, nil_append] at hword ⊢
    exact .cons hword htok (opens_space rest more hrest)
  cases op with
  | eq => exact ⟨.eq, rfl, hsign _ _ (by simp) fun _ => rfl⟩
  | ne => exact ⟨.ne, rfl, hsign _ _ (by simp) fun _ => rfl⟩
  | lt => exact ⟨.lt, rfl, hsign _ _ (by simp) fun _ => rfl⟩
  | le => exact ⟨.le, rfl, hsign _ _ (by simp) fun _ => rfl⟩
  | gt => exact ⟨.gt, rfl, hsign _ _ (by simp) fun _ => rfl⟩
  | ge => exact ⟨.ge, rfl, hsign _ _ (by simp) fun _ => rfl⟩

theorem spells_functionName {name : FunctionName} (h : name ≠ .size) :
    ∃ tok, peekFunctionName tok = some name ∧ Spells name.display.toList [tok] := by
  cases name with
  | attributeExists =>
      exact ⟨.attributeExists, rfl, spells_keyword rfl rfl (by decide) (by decide)⟩
  | attributeNotExists =>
      exact ⟨.attributeNotExists, rfl, spells_keyword rfl rfl (by decide) (by decide)⟩
  | attributeType => exact ⟨.attributeType, rfl, spells_keyword rfl rfl (by decide) (by decide)⟩
  | beginsWith => exact ⟨.beginsWith, rfl, spells_keyword rfl rfl (by decide) (by decide)⟩
  | contains => exact ⟨.contains, rfl, spells_keyword rfl rfl (by decide) (by decide)⟩
  | size => exact absurd rfl h

theorem spells_compare {left right : Operand} (op : CompareOp) (hleft : left.wellFormed = true)
    (hright : right.wellFormed = true) :
    ∃ ts, ConditionTokens .primary ts (.compare left op right) ∧
      Spells (Expr.compare left op right).render.toList ts := by
  obtain ⟨ts, hts, hspells⟩ := spells_operand hleft
  obtain ⟨us, hus, hspells'⟩ := spells_operand hright
  obtain ⟨tok, htok, hop⟩ := opens_compareOp op
  refine ⟨_, .compare hts htok hus, ?_⟩
  simpa [Expr.render] using (hspells.opens rfl hop).then hspells'

theorem spells_between {value low high : Operand} (hvalue : value.wellFormed = true)
    (hlow : low.wellFormed = true) (hhigh : high.wellFormed = true) :
    ∃ ts, ConditionTokens .primary ts (.between value low high) ∧
      Spells (Expr.between value low high).render.toList ts := by
  obtain ⟨ts, hts, hspells⟩ := spells_operand hvalue
  obtain ⟨us, hus, hspells₁⟩ := spells_operand hlow
  obtain ⟨vs, hvs, hspells₂⟩ := spells_operand hhigh
  have hbetween : Opens (' ' :: "BETWEEN".toList ++ [' ']) [.between] :=
    opens_between (spells_keyword rfl rfl (by decide) (by decide))
  have hand : Opens (' ' :: "AND".toList ++ [' ']) [.and] :=
    opens_between (spells_keyword rfl rfl (by decide) (by decide))
  refine ⟨_, .between hts hus hvs, ?_⟩
  simpa [Expr.render] using
    (hspells.opens rfl hbetween).then ((hspells₁.opens rfl hand).then hspells₂)

theorem spells_inList {value : Operand} (hvalue : value.wellFormed = true)
    (hne : list.isEmpty = false) (hlist : list.all Operand.wellFormed = true) :
    ∃ ts, ConditionTokens .primary ts (.inList value list) ∧
      Spells (Expr.inList value list).render.toList ts := by
  obtain ⟨ts, hts, hspells⟩ := spells_operand hvalue
  obtain ⟨us, hus, hspells'⟩ := spells_operands hne hlist
  have hin : Opens (' ' :: "IN".toList ++ [' ']) [.in_] :=
    opens_between (spells_keyword rfl rfl (by decide) (by decide))
  have hclose := hspells'.opens (c := ')') rfl (opens_punctuation rfl)
  have hgroup := (opens_punctuation (c := '(') rfl).append hclose
  refine ⟨_, .inList hts hus, ?_⟩
  simpa [Expr.render] using ((hspells.opens rfl hin).append hgroup).spells

theorem spells_function {name : FunctionName} {args : List Operand} (hname : name ≠ .size)
    (hne : args.isEmpty = false) (hargs : args.all Operand.wellFormed = true) :
    ∃ ts, ConditionTokens .primary ts (.function name args) ∧
      Spells (Expr.function name args).render.toList ts := by
  obtain ⟨tok, htok, hspells⟩ := spells_functionName hname
  obtain ⟨us, hus, hspells'⟩ := spells_operands hne hargs
  have hclose := hspells'.opens (c := ')') rfl (opens_punctuation rfl)
  have hgroup := (opens_punctuation (c := '(') rfl).append hclose
  refine ⟨_, .function htok hus, ?_⟩
  simpa [Expr.render] using (hspells.opens rfl hgroup).spells

theorem opens_logicalOp (op : LogicalOp) :
    Opens (' ' :: op.display.toList ++ [' ']) [match op with | .and => .and | .or => .or] := by
  cases op with
  | and | or => exact opens_between (spells_keyword rfl rfl (by decide) (by decide))

theorem spells_logical {op : LogicalOp} {left right : Expr} (hts : ConditionTokens .not ts left)
    (hleft : Spells left.render.toList ts) (hus : ConditionTokens .not us right)
    (hright : Spells right.render.toList us) :
    ∃ vs, ConditionTokens .primary vs (.logical op left right) ∧
      Spells (Expr.logical op left right).render.toList vs := by
  have hinner := (hleft.opens rfl (opens_logicalOp op)).then hright
  have hclose := hinner.opens (c := ')') rfl (opens_punctuation rfl)
  have hgroup := (opens_punctuation (c := '(') rfl).append hclose
  cases op with
  | and =>
      refine ⟨_, .group (.ofAnd (.andChain (.ofNot hts) hus)), ?_⟩
      simpa [Expr.render] using hgroup.spells
  | or =>
      refine ⟨_, .group (.orChain (.ofAnd (.ofNot hts)) (.ofNot hus)), ?_⟩
      simpa [Expr.render] using hgroup.spells

theorem spells_not {inner : Expr} (hts : ConditionTokens .not ts inner)
    (hinner : Spells inner.render.toList ts) :
    ∃ us, ConditionTokens .not us (.not inner) ∧ Spells (Expr.not inner).render.toList us := by
  have hnot : Spells "NOT".toList [.not] := spells_keyword rfl rfl (by decide) (by decide)
  refine ⟨_, .negation hts, ?_⟩
  simpa [Expr.render] using (hnot.opens (c := ' ') rfl opens_space).then hinner

theorem spells_expr (h : expr.wellFormed = true) :
    ∃ ts, ConditionTokens .not ts expr ∧ Spells expr.render.toList ts := by
  have ofPrimary : ∀ {e : Expr}, (∃ ts, ConditionTokens .primary ts e ∧
      Spells e.render.toList ts) → ∃ ts, ConditionTokens .not ts e ∧ Spells e.render.toList ts := by
    rintro e ⟨ts, hts, hspells⟩
    exact ⟨ts, .ofPrimary hts, hspells⟩
  induction expr with
  | compare left op right =>
      simp only [Expr.wellFormed, and_eq_true] at h
      exact ofPrimary (spells_compare op h.1 h.2)
  | between value low high =>
      simp only [Expr.wellFormed, and_eq_true] at h
      exact ofPrimary (spells_between h.1.1 h.1.2 h.2)
  | inList value list =>
      simp only [Expr.wellFormed, and_eq_true, not_eq_true'] at h
      exact ofPrimary (spells_inList h.1.1 h.1.2 h.2)
  | logical op left right ihLeft ihRight =>
      simp only [Expr.wellFormed, and_eq_true] at h
      obtain ⟨ts, hts, hleft⟩ := ihLeft h.1
      obtain ⟨us, hus, hright⟩ := ihRight h.2
      exact ofPrimary (spells_logical hts hleft hus hright)
  | not inner ih =>
      obtain ⟨ts, hts, hspells⟩ := ih h
      exact spells_not hts hspells
  | function name args =>
      simp only [Expr.wellFormed, and_eq_true, not_eq_true', bne_iff_ne] at h
      exact ofPrimary (spells_function h.1.1 h.1.2 h.2)

/-! ### Trees from tokens -/

/-- What the tokenizer promises about the tokens that carry data. -/
def Token.wellFormed : Token → Bool
  | .identifier name => isIdentifierName name.toList
  | .exprAttrName name => isReferenceName name.toList
  | .exprAttrValue name => isReferenceName name.toList
  | .number idx => idx ≤ i32Max
  | _ => true

theorem keyword_wellFormed {lower : String} (h : keyword lower = some tok) :
    tok.wellFormed = true := by
  unfold keyword at h
  split_ifs at h <;> cases h <;> rfl

theorem functionToken_wellFormed {ident : String} (h : functionToken ident = some tok) :
    tok.wellFormed = true := by
  unfold functionToken at h
  split_ifs at h <;> cases h <;> rfl

theorem identifierToken_wellFormed (hc : isIdentStart c = true)
    (hcs : cs.all isIdentContinue = true) : (identifierToken (c :: cs)).wellFormed = true := by
  cases hkeyword : keyword (String.ofList ((c :: cs).map toAsciiLowercase)) with
  | some tok =>
      rw [identifierToken, hkeyword]
      exact keyword_wellFormed hkeyword
  | none =>
      cases hfunction : functionToken (String.ofList (c :: cs)) with
      | some tok =>
          rw [identifierToken, hkeyword, hfunction]
          exact functionToken_wellFormed hfunction
      | none =>
          have htok : identifierToken (c :: cs) = .identifier (String.ofList (c :: cs)) := by
            rw [identifierToken, hkeyword, hfunction]
            rfl
          rw [htok, Token.wellFormed, String.toList_ofList]
          simp [isIdentifierName, hc, hcs, htok]

theorem readReference_wellFormed (h : ¬(rest.takeWhile isIdentContinue).isEmpty = true) :
    isReferenceName (String.ofList (rest.takeWhile isIdentContinue)).toList = true := by
  rw [Bool.not_eq_true] at h
  rw [String.toList_ofList, isReferenceName, h]
  exact all_takeWhile

theorem punctuation_wellFormed {ch : Char} (h : punctuation ch = some tok) :
    tok.wellFormed = true := by
  unfold punctuation at h
  split at h <;> cases h <;> rfl

theorem readWord_wellFormed {ch : Char} {rest' : List Char}
    (h : readWord ch rest = .ok (tok, rest')) : tok.wellFormed = true := by
  unfold readWord at h
  split_ifs at h with hdigit hident
  · unfold readNumber at h
    simp only at h
    split_ifs at h with hmax
    cases h
    simpa [Token.wellFormed] using hmax
  · cases h
    have hcontinue : isIdentContinue ch = true := by simp [isIdentContinue, hident]
    rw [takeWhile_cons, if_pos hcontinue]
    exact identifierToken_wellFormed hident all_takeWhile

theorem nextToken_wellFormed (h : nextToken chars = .ok (tok, rest)) : tok.wellFormed = true := by
  unfold nextToken at h
  cases hcs : chars.dropWhile isAsciiWhitespace with
  | nil =>
      rw [hcs] at h
      cases h
      rfl
  | cons ch cs =>
      rw [hcs] at h
      simp only at h
      by_cases hname : ch = '#'
      · rw [if_pos hname] at h
        unfold readExprAttrName at h
        simp only at h
        split_ifs at h with hempty
        cases h
        exact readReference_wellFormed hempty
      rw [if_neg hname] at h
      by_cases hvalue : ch = ':'
      · rw [if_pos hvalue] at h
        unfold readExprAttrValue at h
        simp only at h
        split_ifs at h with hempty
        cases h
        exact readReference_wellFormed hempty
      rw [if_neg hvalue] at h
      by_cases hlt : ch = '<'
      · rw [if_pos hlt] at h
        unfold readLtFamily at h
        split at h <;> cases h <;> rfl
      rw [if_neg hlt] at h
      by_cases hgt : ch = '>'
      · rw [if_pos hgt] at h
        unfold readGtFamily at h
        split at h <;> cases h <;> rfl
      rw [if_neg hgt] at h
      cases hpunctuation : punctuation ch with
      | some t =>
          rw [hpunctuation] at h
          cases h
          exact punctuation_wellFormed hpunctuation
      | none =>
          rw [hpunctuation] at h
          exact readWord_wellFormed h

theorem tokenizeWith_wellFormed {fuel : ℕ} (h : tokenizeWith fuel chars = some (.ok tokens)) :
    ∀ t ∈ tokens, t.wellFormed = true := by
  induction fuel generalizing chars tokens with
  | zero => simp [tokenizeWith] at h
  | succ fuel ih =>
      unfold tokenizeWith at h
      split at h
      · simp at h
      · cases h
        simp [Token.wellFormed]
      · rename_i tok rest _ hnext
        obtain ⟨result, hresult, hmap⟩ := Option.map_eq_some_iff.mp h
        cases result with
        | error e => cases hmap
        | ok toks =>
            cases hmap
            intro t ht
            rcases mem_cons.mp ht with rfl | ht
            · exact nextToken_wellFormed hnext
            · exact ih hresult t ht

theorem PathHead.wellFormed {e : PathElement} (h : PathHead ts e)
    (hts : ∀ t ∈ ts, t.wellFormed = true) :
    ∃ name, e = .attribute name ∧ isAttributeName name = true := by
  cases h with
  | identifier name =>
      refine ⟨name, rfl, ?_⟩
      have hname : isIdentifierName name.toList = true := hts _ (mem_singleton_self _)
      unfold isAttributeName
      split
      · rename_i cs hcs
        rw [hcs] at hname
        simp [isIdentifierName, show isIdentStart '#' = false from rfl] at hname
      · exact hname
  | reference name =>
      refine ⟨_, rfl, ?_⟩
      have hname : isReferenceName name.toList = true := hts _ (mem_singleton_self _)
      simpa [isAttributeName] using hname

theorem AttributePath.wellFormed_append {es : List PathElement} {e : PathElement}
    (hes : AttributePath.wellFormed ⟨es⟩ = true) (he : e.wellFormed = true) :
    AttributePath.wellFormed ⟨es ++ [e]⟩ = true := by
  simp only [AttributePath.wellFormed] at hes ⊢
  split at hes
  · simpa [he] using hes
  · simp at hes

theorem PathTokens.wellFormed {es : List PathElement} (h : PathTokens ts es)
    (hts : ∀ t ∈ ts, t.wellFormed = true) : AttributePath.wellFormed ⟨es⟩ = true := by
  induction h with
  | head hhead =>
      obtain ⟨name, rfl, hname⟩ := hhead.wellFormed hts
      simpa [AttributePath.wellFormed] using hname
  | dot _ he ih =>
      simp only [mem_append, mem_cons] at hts
      obtain ⟨name, rfl, hname⟩ := he.wellFormed fun t ht => hts t (.inr (.inr ht))
      exact AttributePath.wellFormed_append (ih fun t ht => hts t (.inl ht)) hname
  | index idx _ ih =>
      have hidx : Token.wellFormed (.number idx) = true := hts _ (by simp)
      simp only [mem_append, mem_cons] at hts
      exact AttributePath.wellFormed_append (ih fun t ht => hts t (.inl ht)) hidx

theorem OperandTokens.wellFormed {operand : Operand} (h : OperandTokens ts operand)
    (hts : ∀ t ∈ ts, t.wellFormed = true) : operand.wellFormed = true := by
  induction h with
  | value name => exact hts _ (mem_singleton_self _)
  | path hpath => exact hpath.wellFormed hts
  | size _ ih => exact ih fun t ht => hts t (by simp [ht])

theorem OperandListTokens.wellFormed (h : OperandListTokens ts list)
    (hts : ∀ t ∈ ts, t.wellFormed = true) :
    list.isEmpty = false ∧ list.all Operand.wellFormed = true := by
  induction h with
  | one hone => exact ⟨rfl, by simpa using hone.wellFormed hts⟩
  | more _ hus ih =>
      simp only [mem_append, mem_cons] at hts
      have hlist := (ih fun t ht => hts t (.inl ht)).2
      have hlast := hus.wellFormed fun t ht => hts t (.inr (.inr ht))
      exact ⟨by simp, by simp [hlist, hlast]⟩

theorem ConditionTokens.wellFormed {level : Level} (h : ConditionTokens level ts expr)
    (hts : ∀ t ∈ ts, t.wellFormed = true) : expr.wellFormed = true := by
  induction h with
  | orChain _ _ ihLeft ihRight =>
      simp only [mem_append, mem_cons] at hts
      simp [Expr.wellFormed, ihLeft fun t ht => hts t (.inl ht),
        ihRight fun t ht => hts t (.inr (.inr ht))]
  | ofAnd _ ih => exact ih hts
  | andChain _ _ ihLeft ihRight =>
      simp only [mem_append, mem_cons] at hts
      simp [Expr.wellFormed, ihLeft fun t ht => hts t (.inl ht),
        ihRight fun t ht => hts t (.inr (.inr ht))]
  | ofNot _ ih => exact ih hts
  | negation _ ih => exact ih fun t ht => hts t (.tail _ ht)
  | ofPrimary _ ih => exact ih hts
  | group _ ih => exact ih fun t ht => hts t (by simp [ht])
  | @function t _ name _ ht hargs =>
      have hname : name ≠ .size := by
        rintro rfl
        cases t <;> simp [peekFunctionName] at ht
      obtain ⟨hne, hall⟩ := hargs.wellFormed fun t ht => hts t (by simp [ht])
      simp only [Expr.wellFormed, and_eq_true, not_eq_true', bne_iff_ne]
      exact ⟨⟨hname, hne⟩, hall⟩
  | compare hleft _ hright =>
      simp only [mem_append, mem_cons] at hts
      simp [Expr.wellFormed, hleft.wellFormed fun t ht => hts t (.inl ht),
        hright.wellFormed fun t ht => hts t (.inr (.inr ht))]
  | between hvalue hlow hhigh =>
      have hv := hvalue.wellFormed fun t ht => hts t (by simp [ht])
      have hl := hlow.wellFormed fun t ht => hts t (by simp [ht])
      have hh := hhigh.wellFormed fun t ht => hts t (by simp [ht])
      simp [Expr.wellFormed, hv, hl, hh]
  | inList hvalue hlist =>
      have hv := hvalue.wellFormed fun t ht => hts t (by simp [ht])
      obtain ⟨hne, hall⟩ := hlist.wellFormed fun t ht => hts t (by simp [ht])
      simp only [Expr.wellFormed, hv, hne, hall]
      rfl

/-! ### The parser and its grammar -/

theorem parseCondition_of_tokens (hlex : tokenize input = some (.ok (ts ++ [.eof])))
    (h : ConditionTokens .or ts expr) : parseCondition input = .ok expr := by
  have hrun : runCondition input = some (.ok expr) := by
    simp [runCondition, runParser, hlex, parseOrExpr_complete h, done, endOfExpression, atEnd,
      peek]
  simpa [runCondition_eq] using hrun

/-- At the end of the tokens, with no end token used up, just that token is left. -/
theorem rest_eq_eof {used rest : List Token} (hts : .eof ∉ ts) (hused : .eof ∉ used)
    (heq : ts ++ [.eof] = used ++ rest) (hend : peek rest = .eof) : rest = [.eof] := by
  cases rest with
  | nil =>
      rw [append_nil] at heq
      exact absurd (heq ▸ mem_append_right ts (mem_singleton_self _)) hused
  | cons t rest =>
      obtain rfl : t = .eof := hend
      rcases append_eq_append_iff.mp heq with ⟨more, hmore, hsplit⟩ | ⟨more, hmore, hsplit⟩
      · cases more with
        | nil => simpa using hsplit.symm
        | cons t more =>
            simp only [cons_append, cons.injEq] at hsplit
            rw [hmore, ← hsplit.1] at hused
            simp at hused
      · cases more with
        | nil => simpa using hsplit
        | cons t more =>
            simp only [cons_append, cons.injEq] at hsplit
            rw [hmore, ← hsplit.1] at hts
            simp at hts

theorem parseCondition_tokens (h : parseCondition input = .ok expr) :
    ∃ ts, tokenize input = some (.ok (ts ++ [.eof])) ∧ ConditionTokens .or ts expr := by
  have hrun := runCondition_eq input
  rw [h, runCondition, runParser] at hrun
  cases hlex : tokenize input with
  | none => simp [hlex] at hrun
  | some result =>
      cases result with
      | error e => simp [hlex] at hrun
      | ok tokens =>
          rcases hparse : parseOrExpr tokens with _ | _ | ⟨e, rest⟩
          · simp [hlex, hparse] at hrun
          · simp [hlex, hparse] at hrun
          · obtain ⟨ts, rfl, heof⟩ := tokenizeWith_eof hlex
            simp only [hlex, hparse, endOfExpression, Option.some.injEq] at hrun
            split_ifs at hrun with hend
            cases hrun
            obtain ⟨used, hused, hderives⟩ := parseOrExpr_sound _ _ _ hparse
            -- what is left starts with the end token, and that one is the last
            have hrest := rest_eq_eof heof hderives.eof_notMem hused (by simpa [atEnd] using hend)
            rw [hrest] at hused
            obtain rfl := append_cancel_right hused
            exact ⟨ts, rfl, hderives⟩

theorem parseCondition_wellFormed (h : parseCondition input = .ok expr) :
    expr.wellFormed = true := by
  obtain ⟨ts, hlex, hts⟩ := parseCondition_tokens h
  exact hts.wellFormed fun t ht => tokenizeWith_wellFormed hlex t (mem_append_left _ ht)

theorem parseCondition_render (h : expr.wellFormed = true) :
    parseCondition expr.render = .ok expr := by
  obtain ⟨ts, hts, hspells⟩ := spells_expr h
  exact parseCondition_of_tokens hspells.tokenize_eq (.ofAnd (.ofNot hts))

/-- The bounded run always ends; it returns a tree just when the tokens derive that tree, which
is the only one they derive; and the trees it returns are the ones whose text gives them back. -/
theorem parseCondition_grammar :
    (∀ input, ∃ result, runCondition input = some result) ∧
      (∀ input expr, parseCondition input = .ok expr ↔
        ∃ ts, tokenize input = some (.ok (ts ++ [.eof])) ∧ ConditionTokens .or ts expr) ∧
      (∀ ts expr expr', ConditionTokens .or ts expr → ConditionTokens .or ts expr' →
        expr = expr') ∧
      (∀ expr : Expr, expr.wellFormed = true ↔ parseCondition expr.render = .ok expr) ∧
      ∀ input expr, parseCondition input = .ok expr → expr.wellFormed = true := by
  refine ⟨fun input => ⟨_, runCondition_eq input⟩, ?_, ?_, ?_, ?_⟩
  · intro input expr
    constructor
    · exact parseCondition_tokens
    · rintro ⟨ts, hlex, hts⟩
      exact parseCondition_of_tokens hlex hts
  · intro ts expr expr' h h'
    exact h.unique h'
  · intro expr
    exact ⟨parseCondition_render, parseCondition_wellFormed⟩
  · intro input expr h
    exact parseCondition_wellFormed h

end Rustack.DynamoDB
