import Rustack.Lib.Outcome
import Rustack.Lib.Text
import Rustack.Lib.Wildcard
import Rustack.StepFunctions.Json

/-!
# `StringMatches`

A compiled pattern is matched by one loop that remembers the last star it has passed.  On a
mismatch it goes back there and gives the star one more character.
-/

namespace Rustack.StepFunctions

open Text (sliceFrom sliceFrom_eq_some sliceFrom_next byteLength byteLength_append)
open Wildcard (Accepts)
open List Wildcard

/-- The work one evaluation of a choice may still do. -/
structure Budget where
  units : ℕ
  bytes : ℕ
  deriving DecidableEq

abbrev Token := Wildcard.Token Char

structure Glob where
  tokens : List Token
  deriving DecidableEq

namespace Glob

def MAX_PATTERN_BYTES : ℕ := 4096

def MAX_TOKENS : ℕ := 1024

/-- `usize::checked_add`. -/
def checkedAdd (a b : ℕ) : Except AslError ℕ :=
  if a + b < 2 ^ 64 then .ok (a + b) else .error .workLimit

def push (tokens : List Token) (token : Token) : Except AslError (List Token) :=
  if MAX_TOKENS ≤ tokens.length then .error .invalidPredicate else .ok (tokens ++ [token])

/-- The loop over the characters of a pattern.  A star behind a star is left out. -/
def compileFrom : List Char → List Token → Except AslError (List Token)
  | [], tokens => .ok tokens
  | '*' :: chars, tokens =>
    if tokens.getLast? = some .star then compileFrom chars tokens
    else do
      let tokens ← push tokens .star
      compileFrom chars tokens
  | '\\' :: ch :: chars, tokens =>
    if ch = '*' ∨ ch = '\\' then do
      let tokens ← push tokens (.literal ch)
      compileFrom chars tokens
    else .error .invalidPredicate
  | ['\\'], _ => .error .invalidPredicate
  | ch :: chars, tokens => do
    let tokens ← push tokens (.literal ch)
    compileFrom chars tokens

def compile (pattern : String) : Except AslError Glob :=
  if MAX_PATTERN_BYTES < pattern.utf8ByteSize then .error .invalidPredicate
  else do
    let tokens ← compileFrom pattern.toList []
    .ok ⟨tokens⟩

/-- Where the loop stands, and where it goes back to: the token behind the last star and the
place its run ends at. -/
structure Cursor where
  position : ℕ
  token : ℕ
  star : Option (ℕ × ℕ)
  deriving DecidableEq

def charAt (text : List Char) (position : ℕ) : Option Char :=
  (sliceFrom text position).bind List.head?

/-- Go back to the last star. -/
def retry (text : List Char) (star : Option (ℕ × ℕ)) : Except AslError (Bool ⊕ Cursor) :=
  match star with
  | none => .ok (.inl false)
  | some (after, backup) =>
    match charAt text backup with
    | none => .ok (.inl false)
    | some next => do
      let advanced ← checkedAdd backup next.utf8Size
      .ok (.inr ⟨advanced, after, some (after, advanced)⟩)

/-- One round of the loop at the character `ch`: a verdict, or where the loop goes on. -/
def turn (tokens : List Token) (text : List Char) (cursor : Cursor) (ch : Char) :
    Except AslError (Bool ⊕ Cursor) :=
  match tokens[cursor.token]? with
  | some (.literal expected) =>
    if expected = ch then do
      let position ← checkedAdd cursor.position ch.utf8Size
      let token ← checkedAdd cursor.token 1
      .ok (.inr ⟨position, token, cursor.star⟩)
    else retry text cursor.star
  | some .star => do
    let token ← checkedAdd cursor.token 1
    if token = tokens.length then .ok (.inl true)
    else .ok (.inr ⟨cursor.position, token, some (token, cursor.position)⟩)
  | none => retry text cursor.star

/-- The stars that are left where the text ends, each of which costs a unit. -/
def finish (tokens : List Token) : ℕ → ℕ → Except AslError (Bool × ℕ)
  | 0, token =>
    if tokens[token]? = some .star then .error .workLimit else .ok (token == tokens.length, 0)
  | units + 1, token =>
    if tokens[token]? = some .star then do
      let token ← checkedAdd token 1
      finish tokens units token
    else .ok (token == tokens.length, units + 1)

/-- The loop, with the units that are left to it; every round costs one. -/
def scan (tokens : List Token) (text : List Char) : ℕ → Cursor → Except AslError (Bool × ℕ)
  | 0, cursor =>
    match charAt text cursor.position with
    | some _ => .error .workLimit
    | none => finish tokens 0 cursor.token
  | units + 1, cursor =>
    match charAt text cursor.position with
    | some ch => do
      match ← turn tokens text cursor ch with
      | .inl verdict => .ok (verdict, units)
      | .inr cursor => scan tokens text units cursor
    | none => finish tokens (units + 1) cursor.token

/-- The verdict and the budget that is left. -/
def matches_ (glob : Glob) (text : String) (budget : Budget) : Except AslError (Bool × Budget) := do
  let (verdict, units) ← scan glob.tokens text.toList budget.units ⟨0, 0, none⟩
  .ok (verdict, { budget with units })

/-! ## What a pattern says -/

/-- The tokens as they are written, stars in a row included. -/
def readPattern : List Char → Option (List Token)
  | [] => some []
  | '*' :: chars => (readPattern chars).map (.star :: ·)
  | '\\' :: ch :: chars =>
    if ch = '*' ∨ ch = '\\' then (readPattern chars).map (.literal ch :: ·) else none
  | ['\\'] => none
  | ch :: chars => (readPattern chars).map (.literal ch :: ·)

theorem push_eq_ok {tokens tokens' : List Token} {token : Token}
    (h : push tokens token = .ok tokens') :
    tokens' = tokens ++ [token] ∧ tokens'.length ≤ MAX_TOKENS := by
  unfold push at h
  split_ifs at h with hfull
  cases h
  refine ⟨rfl, ?_⟩
  rw [length_append, length_singleton]
  omega

/-- What compiling adds to the tokens there are: the written ones, of which it may leave out
stars. -/
structure Adds (chars : List Char) (tokens tokens' : List Token) : Prop where
  read : ∃ written, readPattern chars = some written ∧
    ∀ text, Accepts tokens' text ↔ Accepts (tokens ++ written) text
  length_le : tokens'.length ≤ tokens.length + chars.length
  bounded : tokens.length ≤ MAX_TOKENS → tokens'.length ≤ MAX_TOKENS

/-- One token is written and added. -/
theorem Adds.push {chars rest : List Char} {tokens next tokens' : List Token} {token : Token}
    (hpush : push tokens token = .ok next) (hrest : Adds rest next tokens')
    (hread : ∀ written, readPattern rest = some written →
      readPattern chars = some (token :: written)) (hlength : rest.length < chars.length) :
    Adds chars tokens tokens' := by
  obtain ⟨rfl, hbounded⟩ := push_eq_ok hpush
  obtain ⟨written, hwritten, haccepts⟩ := hrest.read
  have hlength' := hrest.length_le
  rw [length_append, length_singleton] at hlength'
  refine ⟨⟨token :: written, hread written hwritten, fun text => ?_⟩, by omega,
    fun _ => hrest.bounded hbounded⟩
  rw [haccepts, append_assoc]
  rfl

/-- A second star is written and not added. -/
theorem Adds.skip {rest : List Char} {tokens tokens' : List Token}
    (hlast : tokens.getLast? = some .star) (hrest : Adds rest tokens tokens') :
    Adds ('*' :: rest) tokens tokens' := by
  obtain ⟨written, hwritten, haccepts⟩ := hrest.read
  obtain ⟨front, rfl⟩ := getLast?_eq_some_iff.mp hlast
  refine ⟨⟨.star :: written, by rw [readPattern, hwritten]; rfl, fun text => ?_⟩, ?_,
    hrest.bounded⟩
  · rw [haccepts, append_assoc, append_assoc]
    exact accepts_append_congr fun text => accepts_star_star.symm
  · exact hrest.length_le.trans (Nat.add_le_add_left (Nat.le_succ _) _)

theorem compileFrom_adds {chars : List Char} {tokens tokens' : List Token}
    (h : compileFrom chars tokens = .ok tokens') : Adds chars tokens tokens' := by
  fun_induction compileFrom chars tokens with
  | case1 tokens =>
      cases h
      refine ⟨⟨[], rfl, fun text => ?_⟩, Nat.le_refl _, id⟩
      rw [append_nil]
  | case2 chars tokens hlast ih => exact (ih h).skip hlast
  | case3 chars tokens hlast ih =>
      obtain ⟨next, hpush, h⟩ := Except.bind_eq_ok.mp h
      exact (ih next h).push hpush (fun written hwritten => by rw [readPattern, hwritten]; rfl)
        (Nat.lt_succ_self _)
  | case4 ch chars tokens hescape ih =>
      obtain ⟨next, hpush, h⟩ := Except.bind_eq_ok.mp h
      refine (ih next h).push hpush (fun written hwritten => ?_)
        (Nat.lt_succ_of_lt (Nat.lt_succ_self _))
      rw [readPattern, if_pos hescape, hwritten]
      rfl
  | case5 => cases h
  | case6 => cases h
  | case7 ch chars tokens hstar hescape hlone ih =>
      obtain ⟨next, hpush, h⟩ := Except.bind_eq_ok.mp h
      refine (ih next h).push hpush (fun written hwritten => ?_) (Nat.lt_succ_self _)
      rw [readPattern, hwritten]
      · rfl
      · exact hstar
      · exact hescape
      · exact hlone

theorem compile_adds {pattern : String} {glob : Glob} (h : compile pattern = .ok glob) :
    Adds pattern.toList [] glob.tokens := by
  unfold compile at h
  split_ifs at h
  obtain ⟨tokens, htokens, h⟩ := Except.bind_eq_ok.mp h
  cases h
  exact compileFrom_adds htokens

/-! ## The loop -/

section Loop

variable {tokens : List Token} {text : List Char} {cursor : Cursor}

/-- Where the loop can stand: behind it a word has been read since the last star, and what is
left decides the whole text.  `back` is the text from the place the loop would go back to. -/
structure Reached (tokens : List Token) (text : List Char) (cursor : Cursor)
    (back rest : List Char) : Prop where
  position : sliceFrom text cursor.position = some rest
  token_le : cursor.token ≤ tokens.length
  start : cursor.star = none → back = rest ∧
    (Accepts tokens text ↔ Accepts (tokens.drop cursor.token) rest)
  behind : ∀ after backup, cursor.star = some (after, backup) →
    sliceFrom text backup = some back ∧ after ≤ tokens.length ∧
    (∃ word : List Char, back = word ++ rest ∧
      tokens.drop after = word.map Wildcard.Token.literal ++ tokens.drop cursor.token) ∧
    (Accepts tokens text ↔ Accepts (.star :: tokens.drop after) back)

theorem Reached.initial : Reached tokens text ⟨0, 0, none⟩ text text where
  position := Text.sliceFrom_zero text
  token_le := Nat.zero_le _
  start := fun _ => ⟨rfl, Iff.rfl⟩
  behind := fun _ _ h => nomatch h

theorem Reached.length_le {back rest : List Char} (h : Reached tokens text cursor back rest) :
    rest.length ≤ back.length := by
  cases hstar : cursor.star with
  | none =>
      obtain ⟨rfl, -⟩ := h.start hstar
      exact Nat.le_refl _
  | some star =>
      obtain ⟨-, -, ⟨word, rfl, -⟩, -⟩ := h.behind star.1 star.2 hstar
      simp

/-- The rounds that may still come: going back shortens the text behind the star, every other
round moves on in the pattern. -/
def measure (tokens : List Token) (cursor : Cursor) (back : List Char) : ℕ :=
  back.length * (tokens.length + 2) + (tokens.length - cursor.token)

theorem drop_of_getElem? {i : ℕ} {token : Token} (h : tokens[i]? = some token) :
    tokens.drop i = token :: tokens.drop (i + 1) := by
  obtain ⟨hi, rfl⟩ := List.getElem?_eq_some_iff.mp h
  exact List.drop_eq_getElem_cons hi

/-- A place in the text does not overflow. -/
theorem checkedAdd_position {position : ℕ} {ch : Char} {rest : List Char}
    (htext : byteLength text < 2 ^ 63) (h : sliceFrom text position = some (ch :: rest)) :
    checkedAdd position ch.utf8Size = .ok (position + ch.utf8Size) := by
  obtain ⟨front, rfl, rfl⟩ := sliceFrom_eq_some h
  rw [byteLength_append] at htext
  have hsize : byteLength (ch :: rest) = ch.utf8Size + byteLength rest := sum_cons
  exact if_pos (by omega)

theorem checkedAdd_token {i : ℕ} (hbounded : tokens.length ≤ MAX_TOKENS) (hi : i ≤ tokens.length) :
    checkedAdd i 1 = .ok (i + 1) := by
  have hlimit : MAX_TOKENS = 1024 := rfl
  exact if_pos (by omega)

theorem charAt_of_sliceFrom {position : ℕ} {ch : Char} {rest : List Char}
    (h : sliceFrom text position = some (ch :: rest)) : charAt text position = some ch := by
  rw [charAt, h]
  rfl

/-- What one round does from where the loop can stand: it settles the question, or the loop
stands again where it can, with fewer rounds to come. -/
def Settles (tokens : List Token) (text : List Char) (cursor : Cursor) (back : List Char) :
    Bool ⊕ Cursor → Prop
  | .inl verdict => verdict = true ↔ Accepts tokens text
  | .inr next => ∃ back' rest', Reached tokens text next back' rest' ∧
      measure tokens next back' < measure tokens cursor back

/-- Going back is right where what is left cannot be accepted. -/
theorem Reached.retry {back rest : List Char} {ch : Char}
    (h : Reached tokens text cursor back (ch :: rest)) (htext : byteLength text < 2 ^ 63)
    (hnot : ¬Accepts (tokens.drop cursor.token) (ch :: rest)) :
    ∃ result, retry text cursor.star = .ok result ∧ Settles tokens text cursor back result := by
  cases hstar : cursor.star with
  | none =>
      refine ⟨.inl false, rfl, ?_⟩
      simp [Settles, (h.start hstar).2, hnot]
  | some star =>
      obtain ⟨after, backup⟩ := star
      obtain ⟨hbackup, hafter, ⟨word, hback, hdrop⟩, haccepts⟩ := h.behind after backup hstar
      cases hback' : back with
      | nil => simp [hback] at hback'
      | cons next back' =>
          rw [hback'] at hbackup
          have hplace := sliceFrom_next hbackup
          refine ⟨.inr ⟨backup + next.utf8Size, after, some (after, backup + next.utf8Size)⟩, ?_,
            back', back', ⟨hplace, hafter, (fun h => nomatch h), ?_⟩, ?_⟩
          · simp only [Glob.retry, charAt_of_sliceFrom hbackup]
            rw [checkedAdd_position htext hbackup]
            rfl
          · rintro after' backup' heq
            cases heq
            refine ⟨hplace, hafter, ⟨[], rfl, rfl⟩, ?_⟩
            have hfirst : ¬Accepts (tokens.drop after) (next :: back') := by
              rw [← hback', hback, hdrop]
              exact fun haccept => hnot (accepts_word_append.mp haccept)
            rw [haccepts, hback', accepts_star_cons]
            exact or_iff_right hfirst
          · simp only [measure, length_cons, Nat.add_mul, Nat.one_mul]
            omega

/-- The text goes on with the letter the pattern has. -/
theorem Reached.literal {back rest : List Char} {ch : Char}
    (h : Reached tokens text cursor back (ch :: rest))
    (hget : tokens[cursor.token]? = some (.literal ch)) :
    ∃ back', Reached tokens text ⟨cursor.position + ch.utf8Size, cursor.token + 1, cursor.star⟩
      back' rest ∧ back'.length ≤ back.length := by
  have hdrop := drop_of_getElem? hget
  have hlt : cursor.token < tokens.length := (List.getElem?_eq_some_iff.mp hget).1
  have hposition := sliceFrom_next h.position
  cases hstar : cursor.star with
  | none =>
      obtain ⟨rfl, haccepts⟩ := h.start hstar
      refine ⟨rest, ⟨hposition, hlt, fun _ => ⟨rfl, ?_⟩, (fun _ _ h => nomatch h)⟩, Nat.le_succ _⟩
      rw [haccepts, hdrop]
      exact @Wildcard.accepts_word_append _ _ rest [ch]
  | some star =>
      refine ⟨back, ⟨hposition, hlt, fun h => (nomatch h), fun after backup heq => ?_⟩,
        Nat.le_refl _⟩
      obtain ⟨hbackup, hafter, ⟨word, hback, hword⟩, haccepts⟩ :=
        h.behind after backup (hstar.trans heq)
      refine ⟨hbackup, hafter, ⟨word ++ [ch], by simp [hback], ?_⟩, haccepts⟩
      rw [hword, hdrop, map_append, append_assoc]
      rfl

/-- At a star what has been read since the last one is settled. -/
theorem Reached.star {back rest : List Char} (h : Reached tokens text cursor back rest)
    (hget : tokens[cursor.token]? = some .star) :
    Accepts tokens text ↔ Accepts (.star :: tokens.drop (cursor.token + 1)) rest := by
  have hdrop := drop_of_getElem? hget
  cases hstar : cursor.star with
  | none => rw [(h.start hstar).2, hdrop]
  | some star =>
      obtain ⟨-, -, ⟨word, rfl, hword⟩, haccepts⟩ := h.behind star.1 star.2 hstar
      rw [haccepts, hword, hdrop]
      exact accepts_star_commit

/-- One round. -/
theorem Reached.turn {back rest : List Char} {ch : Char}
    (h : Reached tokens text cursor back (ch :: rest)) (htext : byteLength text < 2 ^ 63)
    (hbounded : tokens.length ≤ MAX_TOKENS) :
    ∃ result, turn tokens text cursor ch = .ok result ∧
      Settles tokens text cursor back result := by
  unfold Glob.turn
  cases hget : tokens[cursor.token]? with
  | none =>
      refine h.retry htext ?_
      rw [drop_eq_nil_of_le (getElem?_eq_none_iff.mp hget), accepts_nil]
      exact cons_ne_nil _ _
  | some token =>
      have hlt : cursor.token < tokens.length := (List.getElem?_eq_some_iff.mp hget).1
      have hnext : checkedAdd cursor.token 1 = .ok (cursor.token + 1) :=
        checkedAdd_token hbounded hlt.le
      cases token with
      | literal expected =>
          dsimp only
          split_ifs with heq
          · subst heq
            obtain ⟨back', hreached, hle⟩ := h.literal hget
            refine ⟨.inr _, ?_, back', rest, hreached, ?_⟩
            · rw [checkedAdd_position htext h.position, hnext]
              rfl
            · have hmul := Nat.mul_le_mul_right (tokens.length + 2) hle
              simp only [measure]
              omega
          · refine h.retry htext ?_
            rw [drop_of_getElem? hget, accepts_literal]
            rintro ⟨rest', heq', -⟩
            exact heq (cons.inj heq').1.symm
      | star =>
          have haccepts := h.star hget
          dsimp only
          rw [hnext]
          by_cases hlast : cursor.token + 1 = tokens.length
          · refine ⟨.inl true, if_pos hlast, ?_⟩
            rw [hlast, drop_length] at haccepts
            simp [Settles, haccepts, accepts_only_star]
          · refine ⟨.inr ⟨cursor.position, cursor.token + 1,
              some (cursor.token + 1, cursor.position)⟩, if_neg hlast, ch :: rest, ch :: rest,
              ⟨h.position, hlt, (fun h => nomatch h), ?_⟩, ?_⟩
            · rintro after backup heq
              cases heq
              exact ⟨h.position, hlt, ⟨[], rfl, rfl⟩, haccepts⟩
            · have hmul := Nat.mul_le_mul_right (tokens.length + 2) h.length_le
              simp only [measure]
              omega

/-- At the end of the text only the tokens that are left matter. -/
theorem Reached.end_ {back : List Char} (h : Reached tokens text cursor back []) :
    Accepts tokens text ↔ Accepts (tokens.drop cursor.token) [] := by
  cases hstar : cursor.star with
  | none => exact (h.start hstar).2
  | some star =>
      obtain ⟨-, -, ⟨word, rfl, hword⟩, haccepts⟩ := h.behind star.1 star.2 hstar
      rw [haccepts, hword, append_nil]
      exact accepts_star_end

/-! ## Verdicts and their cost -/

/-- A verdict for so many units, and no verdict for fewer. -/
structure Costs (run : ℕ → Except AslError (Bool × ℕ)) (spent : ℕ) (verdict : Bool) : Prop where
  enough : ∀ units, spent ≤ units → run units = .ok (verdict, units - spent)
  short : ∀ units, units < spent → run units = .error .workLimit

/-- One more unit in front. -/
theorem Costs.step {run next : ℕ → Except AslError (Bool × ℕ)} {spent : ℕ} {verdict : Bool}
    (h : Costs next spent verdict) (hzero : run 0 = .error .workLimit)
    (hsucc : ∀ units, run (units + 1) = next units) : Costs run (spent + 1) verdict where
  enough := by
    intro units hunits
    obtain ⟨n, rfl⟩ : ∃ n, units = n + 1 := ⟨units - 1, by omega⟩
    rw [hsucc, h.enough n (by omega), Nat.add_sub_add_right]
  short := by
    intro units hunits
    cases units with
    | zero => exact hzero
    | succ n => rw [hsucc, h.short n (by omega)]

theorem Costs.free {run : ℕ → Except AslError (Bool × ℕ)} {verdict : Bool}
    (h : ∀ units, run units = .ok (verdict, units)) : Costs run 0 verdict where
  enough := fun units _ => h units
  short := fun _ h => absurd h (Nat.not_lt_zero _)

/-- The stars that are left. -/
theorem finish_costs (hbounded : tokens.length ≤ MAX_TOKENS) (token : ℕ)
    (hle : token ≤ tokens.length) :
    ∃ spent verdict, Costs (finish tokens · token) spent verdict ∧
      spent ≤ tokens.length - token ∧ (verdict = true ↔ Accepts (tokens.drop token) []) := by
  induction hn : tokens.length - token generalizing token with
  | zero =>
      obtain rfl : token = tokens.length := by omega
      refine ⟨0, true, .free fun units => ?_, Nat.le_refl _, by simp⟩
      cases units <;> simp [finish]
  | succ n ih =>
      by_cases hget : tokens[token]? = some .star
      · have hlt : token < tokens.length := (List.getElem?_eq_some_iff.mp hget).1
        obtain ⟨spent, verdict, hcosts, hspent, hverdict⟩ := ih (token + 1) hlt (by omega)
        refine ⟨spent + 1, verdict, hcosts.step ?_ fun units => ?_, by omega, ?_⟩
        · exact if_pos hget
        · rw [finish, if_pos hget, checkedAdd_token hbounded hle]
          rfl
        · rw [hverdict, drop_of_getElem? hget, accepts_empty, accepts_empty]
          simp
      · refine ⟨0, token == tokens.length, .free fun units => ?_, Nat.zero_le _, ?_⟩
        · cases units <;> exact if_neg hget
        · have hlt : token < tokens.length := by omega
          rw [drop_eq_getElem_cons hlt, accepts_empty]
          simp only [beq_iff_eq, forall_mem_cons]
          have hne : tokens[token] ≠ .star := fun heq =>
            hget (List.getElem?_eq_some_iff.mpr ⟨hlt, heq⟩)
          constructor
          · intro heq
            omega
          · exact fun hall => absurd hall.1 hne

/-- The loop gives the right verdict from wherever it can stand. -/
theorem scan_costs (htext : byteLength text < 2 ^ 63) (hbounded : tokens.length ≤ MAX_TOKENS)
    {back rest : List Char} (h : Reached tokens text cursor back rest) :
    ∃ spent verdict, Costs (scan tokens text · cursor) spent verdict ∧
      spent ≤ measure tokens cursor back ∧ (verdict = true ↔ Accepts tokens text) := by
  induction hn : measure tokens cursor back using Nat.strong_induction_on
    generalizing cursor back rest with
  | _ n ih =>
      cases hrest : rest with
      | nil =>
          rw [hrest] at h
          have hend : charAt text cursor.position = none := by rw [charAt, h.position]; rfl
          obtain ⟨spent, verdict, hcosts, hspent, hverdict⟩ :=
            finish_costs hbounded cursor.token h.token_le
          have hrun : (scan tokens text · cursor) = (finish tokens · cursor.token) := by
            funext units
            cases units <;> simp only [scan, hend]
          refine ⟨spent, verdict, hrun ▸ hcosts, ?_, hverdict.trans h.end_.symm⟩
          rw [← hn, measure]
          omega
      | cons ch rest' =>
          rw [hrest] at h
          have hchar := charAt_of_sliceFrom h.position
          obtain ⟨result, hturn, hsettles⟩ := h.turn htext hbounded
          have hzero : scan tokens text 0 cursor = .error .workLimit := by
            rw [scan, hchar]
          cases result with
          | inl verdict =>
              have hsucc : ∀ units, scan tokens text (units + 1) cursor = .ok (verdict, units) := by
                intro units
                rw [scan, hchar]
                dsimp only
                rw [hturn]
                rfl
              refine ⟨1, verdict, (Costs.free fun units => rfl).step hzero hsucc, ?_, hsettles⟩
              have hpos : 1 ≤ back.length := (Nat.succ_pos _).trans_le h.length_le
              have hmul := Nat.mul_le_mul_right (tokens.length + 2) hpos
              rw [← hn, measure]
              omega
          | inr next =>
              obtain ⟨back', rest'', hreached, hless⟩ := hsettles
              obtain ⟨spent, verdict, hcosts, hspent, hverdict⟩ :=
                ih _ (hn ▸ hless) hreached rfl
              refine ⟨spent + 1, verdict, hcosts.step hzero fun units => ?_, by omega, hverdict⟩
              rw [scan, hchar]
              dsimp only
              rw [hturn]
              rfl

end Loop

/-! ## Patterns and texts -/

/-- A compiled pattern decides the texts that split into a run for each written token, at a cost
that the two lengths bound; only a budget below that cost is a reason not to.  No text has `2 ^ 63`
bytes. -/
theorem matches_decides {pattern : String} {glob : Glob} (hcompile : compile pattern = .ok glob)
    (text : String) (hfits : byteLength text.toList < 2 ^ 63) :
    ∃ written spent verdict, readPattern pattern.toList = some written ∧
      spent ≤ (text.toList.length + 1) * (pattern.toList.length + 2) ∧
      (verdict = true ↔ Accepts written text.toList) ∧
      ∀ budget : Budget,
        (spent ≤ budget.units → glob.matches_ text budget =
          .ok (verdict, { budget with units := budget.units - spent })) ∧
        (budget.units < spent → glob.matches_ text budget = .error .workLimit) := by
  have hadds := compile_adds hcompile
  obtain ⟨written, hwritten, haccepts⟩ := hadds.read
  obtain ⟨spent, verdict, hcosts, hspent, hverdict⟩ :=
    scan_costs hfits (hadds.bounded (Nat.zero_le _)) (@Reached.initial glob.tokens text.toList)
  have hlength : glob.tokens.length ≤ pattern.toList.length := by
    simpa using hadds.length_le
  refine ⟨written, spent, verdict, hwritten, ?_, hverdict.trans (haccepts text.toList),
    fun budget => ⟨fun henough => ?_, fun hshort => ?_⟩⟩
  · have hmul := Nat.mul_le_mul_left text.toList.length (Nat.add_le_add_right hlength 2)
    have hsplit : (text.toList.length + 1) * (pattern.toList.length + 2) =
        text.toList.length * (pattern.toList.length + 2) + (pattern.toList.length + 2) :=
      Nat.succ_mul _ _
    rw [measure] at hspent
    omega
  · rw [matches_, hcosts.enough budget.units henough]
    rfl
  · rw [matches_, hcosts.short budget.units hshort]
    rfl

/-- An escaped star is the character. -/
theorem matches_decides_escape :
    ∃ glob, compile "a*\\*b" = .ok glob ∧
      ∃ written spent verdict, readPattern "a*\\*b".toList = some written ∧
        spent ≤ ("axé*b".toList.length + 1) * ("a*\\*b".toList.length + 2) ∧
        (verdict = true ↔ Accepts written "axé*b".toList) ∧
        ∀ budget : Budget,
          (spent ≤ budget.units → glob.matches_ "axé*b" budget =
            .ok (verdict, { budget with units := budget.units - spent })) ∧
          (budget.units < spent → glob.matches_ "axé*b" budget = .error .workLimit) :=
  ⟨⟨[.literal 'a', .star, .literal '*', .literal 'b']⟩, by decide +kernel,
    matches_decides (by decide +kernel) "axé*b" (by decide +kernel)⟩

example : Glob.matches_ ⟨[.literal 'a', .star, .literal '*', .literal 'b']⟩ "axé*b" ⟨6, 0⟩ =
    .ok (true, ⟨0, 0⟩) := by decide +kernel

end Glob

end Rustack.StepFunctions
