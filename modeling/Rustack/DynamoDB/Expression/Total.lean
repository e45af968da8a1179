import Rustack.DynamoDB.Expression.Grammar

/-!
# Parsing terminates

The tokenizer uses up a character for every token and the parsers use up
tokens, so no bound ever runs out and the parsers are functions from strings
to a tree or an error.
-/

namespace Rustack.DynamoDB

open Parser (Sound Total Forward fail done loop sepLoop andThen_eq_done done_inj)

/-! ### The tokenizer -/

theorem readExprAttrName_length {rest rest' : List Char} {tok : Token}
    (h : readExprAttrName rest = .ok (tok, rest')) :
    rest'.length ≤ rest.length ∧ tok ≠ .eof := by
  unfold readExprAttrName at h
  simp only at h
  split_ifs at h
  cases h
  exact ⟨(List.dropWhile_sublist _).length_le, by simp⟩

theorem readExprAttrValue_length {rest rest' : List Char} {tok : Token}
    (h : readExprAttrValue rest = .ok (tok, rest')) :
    rest'.length ≤ rest.length ∧ tok ≠ .eof := by
  unfold readExprAttrValue at h
  simp only at h
  split_ifs at h
  cases h
  exact ⟨(List.dropWhile_sublist _).length_le, by simp⟩

theorem readLtFamily_length (rest : List Char) :
    (readLtFamily rest).2.length ≤ rest.length ∧ (readLtFamily rest).1 ≠ .eof := by
  unfold readLtFamily
  split <;> simp

theorem readGtFamily_length (rest : List Char) :
    (readGtFamily rest).2.length ≤ rest.length ∧ (readGtFamily rest).1 ≠ .eof := by
  unfold readGtFamily
  split <;> simp

theorem dropWhile_length_lt {p : Char → Bool} {ch : Char} {rest : List Char} (hch : p ch = true) :
    ((ch :: rest).dropWhile p).length < (ch :: rest).length := by
  have hle := (List.dropWhile_sublist p (l := rest)).length_le
  simp only [List.dropWhile_cons, hch, if_true, List.length_cons]
  omega

theorem readNumber_length {ch : Char} {rest rest' : List Char} {tok : Token}
    (hch : isAsciiDigit ch = true) (h : readNumber (ch :: rest) = .ok (tok, rest')) :
    rest'.length < (ch :: rest).length ∧ tok ≠ .eof := by
  unfold readNumber at h
  simp only at h
  split_ifs at h
  cases h
  exact ⟨dropWhile_length_lt hch, by simp⟩

theorem keyword_ne_eof {lower : String} {tok : Token} (h : keyword lower = some tok) :
    tok ≠ .eof := by
  unfold keyword at h
  split_ifs at h <;> cases h <;> simp

theorem functionToken_ne_eof {ident : String} {tok : Token} (h : functionToken ident = some tok) :
    tok ≠ .eof := by
  unfold functionToken at h
  split_ifs at h <;> cases h <;> simp

theorem identifierToken_ne_eof (ident : List Char) : identifierToken ident ≠ .eof := by
  unfold identifierToken
  split
  · exact keyword_ne_eof ‹_›
  · cases h : functionToken (String.ofList ident) with
    | none => simp
    | some tok => simpa using functionToken_ne_eof h

theorem punctuation_ne_eof {ch : Char} {tok : Token} (h : punctuation ch = some tok) :
    tok ≠ .eof := by
  unfold punctuation at h
  split at h <;> cases h <;> simp

theorem readWord_length {ch : Char} {rest rest' : List Char} {tok : Token}
    (h : readWord ch rest = .ok (tok, rest')) :
    rest'.length < (ch :: rest).length ∧ tok ≠ .eof := by
  unfold readWord at h
  split_ifs at h with hdigit hident
  · exact readNumber_length hdigit h
  · cases h
    have hcontinue : isIdentContinue ch = true := by simp [isIdentContinue, hident]
    exact ⟨dropWhile_length_lt hcontinue, identifierToken_ne_eof _⟩

/-- Behind a character that is not whitespace stands a token, not the end. -/
theorem nextToken_of_cons {chars cs rest : List Char} {ch : Char} {tok : Token}
    (hcs : chars.dropWhile isAsciiWhitespace = ch :: cs) (h : nextToken chars = .ok (tok, rest)) :
    rest.length < (ch :: cs).length ∧ tok ≠ .eof := by
  unfold nextToken at h
  rw [hcs] at h
  simp only [List.length_cons, Nat.lt_succ_iff] at h ⊢
  by_cases hname : ch = '#'
  · rw [if_pos hname] at h
    exact readExprAttrName_length h
  rw [if_neg hname] at h
  by_cases hvalue : ch = ':'
  · rw [if_pos hvalue] at h
    exact readExprAttrValue_length h
  rw [if_neg hvalue] at h
  by_cases hlt : ch = '<'
  · rw [if_pos hlt, Except.ok.injEq] at h
    simpa [h] using readLtFamily_length cs
  rw [if_neg hlt] at h
  by_cases hgt : ch = '>'
  · rw [if_pos hgt, Except.ok.injEq] at h
    simpa [h] using readGtFamily_length cs
  rw [if_neg hgt] at h
  cases hpunctuation : punctuation ch with
  | some t =>
      rw [hpunctuation] at h
      cases h
      exact ⟨le_rfl, punctuation_ne_eof hpunctuation⟩
  | none =>
      rw [hpunctuation] at h
      exact ⟨Nat.lt_succ_iff.mp (readWord_length h).1, (readWord_length h).2⟩

/-- A token other than the end uses up at least one character. -/
theorem nextToken_length {chars rest : List Char} {tok : Token}
    (h : nextToken chars = .ok (tok, rest)) (htok : tok ≠ .eof) :
    rest.length < chars.length := by
  have hdrop := (List.dropWhile_sublist isAsciiWhitespace (l := chars)).length_le
  cases hcs : chars.dropWhile isAsciiWhitespace with
  | nil =>
      simp only [nextToken, hcs, Except.ok.injEq, Prod.mk.injEq] at h
      exact absurd h.1.symm htok
  | cons ch cs =>
      rw [hcs] at hdrop
      exact lt_of_lt_of_le (nextToken_of_cons hcs h).1 hdrop

theorem tokenizeWith_ne_none {fuel : ℕ} {chars : List Char} (hfuel : chars.length < fuel) :
    tokenizeWith fuel chars ≠ none := by
  induction fuel generalizing chars with
  | zero => simp at hfuel
  | succ fuel ih =>
      unfold tokenizeWith
      split
      · simp
      · simp
      · rename_i tok rest hnot hnext
        have htok : tok ≠ .eof := by
          rintro rfl
          exact hnot rfl
        have := ih (lt_of_lt_of_le (nextToken_length hnext htok) (by omega))
        simpa using this

theorem tokenize_ne_none (input : String) : tokenize input ≠ none :=
  tokenizeWith_ne_none (by omega)

/-- The tokens of an input end with the end token, and it stands nowhere else. -/
theorem tokenizeWith_eof {fuel : ℕ} {chars : List Char} {tokens : List Token}
    (h : tokenizeWith fuel chars = some (.ok tokens)) :
    ∃ ts, tokens = ts ++ [.eof] ∧ .eof ∉ ts := by
  induction fuel generalizing chars tokens with
  | zero => simp [tokenizeWith] at h
  | succ fuel ih =>
      unfold tokenizeWith at h
      split at h
      · simp at h
      · cases h
        exact ⟨[], rfl, by simp⟩
      · rename_i tok rest hnot hnext
        obtain ⟨result, hresult, hmap⟩ := Option.map_eq_some_iff.mp h
        cases result with
        | error e => cases hmap
        | ok toks =>
            obtain ⟨ts, rfl, hts⟩ := ih hresult
            cases hmap
            refine ⟨tok :: ts, rfl, ?_⟩
            rw [List.mem_cons, not_or]
            refine ⟨?_, hts⟩
            rintro rfl
            exact hnot rfl

/-! ### Update expressions -/

theorem parseClause_total {α : Type} {action : TokenParser α} {n : ℕ} (h : Forward action)
    (ht : Total action n) : Total (parseClause action) n :=
  ht.andThen h fun _ => Total.sepLoop ht h _

/-! ### Whole inputs -/

theorem runParser_isSome {α : Type} {p : TokenParser α} (hp : ∀ n, Total p n)
    (finish : α → List Token → Except ExpressionError α) (input : String) :
    (runParser p finish input).isSome := by
  unfold runParser
  split
  · exact absurd ‹_› (tokenize_ne_none input)
  · rfl
  · rename_i tokens _
    split
    · exact absurd ‹_› (hp (tokens.length + 1) tokens (by omega))
    · rfl
    · rfl

theorem runCondition_isSome (input : String) : (runCondition input).isSome :=
  runParser_isSome parseOrExpr_total _ input

def parseCondition (input : String) : Except ExpressionError Expr :=
  (runCondition input).get (runCondition_isSome input)

theorem runCondition_eq (input : String) : runCondition input = some (parseCondition input) :=
  (Option.some_get _).symm

end Rustack.DynamoDB
