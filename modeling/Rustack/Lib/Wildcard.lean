import Mathlib.Data.List.Forall2

/-!
# Patterns with wildcards

A pattern is a list of tokens, each a letter or a star, and accepts a text that splits into one
run for each token: the letter itself, or anything for a star.  A star in front of another one
needs to be tried no more once the word between the two has been found: what the text has there is
the first place of the word, and every later place leaves less text.
-/

universe u

namespace Wildcard

open List

variable {α : Type u}

inductive Token (α : Type u) where
  | literal (a : α)
  | star
  deriving DecidableEq

/-- The runs a token stands for. -/
def Fits : Token α → List α → Prop
  | .literal a, run => run = [a]
  | .star, _ => True

/-- The text is one run after the other. -/
def Accepts (tokens : List (Token α)) (text : List α) : Prop :=
  ∃ runs, List.Forall₂ Fits tokens runs ∧ runs.flatten = text

variable {tokens : List (Token α)} {text rest word : List α} {a : α}

@[simp] theorem accepts_nil : Accepts [] text ↔ text = [] := by
  constructor
  · rintro ⟨runs, hruns, rfl⟩
    cases hruns
    rfl
  · rintro rfl
    exact ⟨[], .nil, rfl⟩

theorem accepts_cons {token : Token α} :
    Accepts (token :: tokens) text ↔
      ∃ run rest, Fits token run ∧ text = run ++ rest ∧ Accepts tokens rest := by
  constructor
  · rintro ⟨runs, hruns, rfl⟩
    cases hruns with
    | @cons _ run _ runs hfits hrest => exact ⟨run, runs.flatten, hfits, rfl, runs, hrest, rfl⟩
  · rintro ⟨run, rest, hfits, rfl, runs, hruns, rfl⟩
    exact ⟨run :: runs, .cons hfits hruns, rfl⟩

theorem accepts_literal :
    Accepts (.literal a :: tokens) text ↔ ∃ rest, text = a :: rest ∧ Accepts tokens rest := by
  rw [accepts_cons]
  constructor
  · rintro ⟨run, rest, rfl, rfl, h⟩
    exact ⟨rest, rfl, h⟩
  · rintro ⟨rest, rfl, h⟩
    exact ⟨[a], rest, rfl, rfl, h⟩

theorem accepts_star :
    Accepts (.star :: tokens) text ↔ ∃ run rest, text = run ++ rest ∧ Accepts tokens rest := by
  rw [accepts_cons]
  constructor
  · rintro ⟨run, rest, -, htext, h⟩
    exact ⟨run, rest, htext, h⟩
  · rintro ⟨run, rest, htext, h⟩
    exact ⟨run, rest, trivial, htext, h⟩

theorem accepts_only_star : Accepts [.star] text :=
  accepts_star.mpr ⟨text, [], (append_nil text).symm, accepts_nil.mpr rfl⟩

/-- Two stars in a row say what one does. -/
theorem accepts_star_star :
    Accepts (.star :: .star :: tokens) text ↔ Accepts (.star :: tokens) text := by
  constructor
  · intro h
    obtain ⟨run, rest, rfl, hrest⟩ := accepts_star.mp h
    obtain ⟨run', rest', rfl, hrest'⟩ := accepts_star.mp hrest
    exact accepts_star.mpr ⟨run ++ run', rest', (append_assoc _ _ _).symm, hrest'⟩
  · intro h
    exact accepts_star.mpr ⟨[], text, rfl, h⟩

/-- A star is passed over, or takes one more letter. -/
theorem accepts_star_cons :
    Accepts (.star :: tokens) (a :: text) ↔
      Accepts tokens (a :: text) ∨ Accepts (.star :: tokens) text := by
  constructor
  · intro h
    obtain ⟨run, rest, htext, hrest⟩ := accepts_star.mp h
    cases run with
    | nil =>
        rw [htext]
        exact .inl hrest
    | cons b run =>
        obtain ⟨-, rfl⟩ := cons.inj htext
        exact .inr (accepts_star.mpr ⟨run, rest, rfl, hrest⟩)
  · rintro (h | h)
    · exact accepts_star.mpr ⟨[], a :: text, rfl, h⟩
    · obtain ⟨run, rest, rfl, hrest⟩ := accepts_star.mp h
      exact accepts_star.mpr ⟨a :: run, rest, rfl, hrest⟩

/-- The letters of a word have to stand in front. -/
theorem accepts_word :
    Accepts (word.map Token.literal ++ tokens) text ↔
      ∃ rest, text = word ++ rest ∧ Accepts tokens rest := by
  induction word generalizing text with
  | nil => simp
  | cons a word ih =>
      rw [map_cons, cons_append, accepts_literal]
      constructor
      · rintro ⟨rest, rfl, h⟩
        obtain ⟨rest', rfl, h'⟩ := ih.mp h
        exact ⟨rest', rfl, h'⟩
      · rintro ⟨rest, rfl, h⟩
        exact ⟨word ++ rest, rfl, ih.mpr ⟨rest, rfl, h⟩⟩

theorem accepts_word_append :
    Accepts (word.map Token.literal ++ tokens) (word ++ rest) ↔ Accepts tokens rest := by
  rw [accepts_word]
  constructor
  · rintro ⟨rest', heq, h⟩
    rwa [append_cancel_left heq]
  · exact fun h => ⟨rest, rfl, h⟩

/-- Once the word behind a star has been found and a star follows, no other place of the word has
to be tried: the text behind it would be a part of the text that is left. -/
theorem accepts_star_commit :
    Accepts (.star :: (word.map Token.literal ++ .star :: tokens)) (word ++ rest) ↔
      Accepts (.star :: tokens) rest := by
  constructor
  · intro h
    obtain ⟨run, text, htext, hword⟩ := accepts_star.mp h
    obtain ⟨text', rfl, hstar⟩ := accepts_word.mp hword
    obtain ⟨run', tail, rfl, htail⟩ := accepts_star.mp hstar
    have hlength := congrArg length htext
    simp only [length_append] at hlength
    have hwhole : tail <:+ word ++ rest := by
      rw [htext]
      exact ((suffix_append run' tail).trans (suffix_append word _)).trans
        (suffix_append run _)
    have hsuffix : tail <:+ rest :=
      suffix_of_suffix_length_le hwhole (suffix_append _ _) (by omega)
    obtain ⟨front, rfl⟩ := hsuffix
    exact accepts_star.mpr ⟨front, tail, rfl, htail⟩
  · intro h
    exact accepts_star.mpr ⟨[], word ++ rest, rfl, accepts_word_append.mpr h⟩

/-- At the end of the text the word has no other place. -/
theorem accepts_star_end :
    Accepts (.star :: (word.map Token.literal ++ tokens)) word ↔ Accepts tokens [] := by
  constructor
  · intro h
    obtain ⟨run, text, htext, hword⟩ := accepts_star.mp h
    obtain ⟨text', rfl, hrest⟩ := accepts_word.mp hword
    have hlength := congrArg length htext
    simp only [length_append] at hlength
    obtain rfl : text' = [] := length_eq_zero_iff.mp (by omega)
    exact hrest
  · intro h
    exact accepts_star.mpr ⟨[], word, rfl, accepts_word.mpr ⟨[], (append_nil _).symm, h⟩⟩

theorem accepts_append {tokens' : List (Token α)} :
    Accepts (tokens ++ tokens') text ↔
      ∃ front rest, text = front ++ rest ∧ Accepts tokens front ∧ Accepts tokens' rest := by
  induction tokens generalizing text with
  | nil => simp
  | cons token tokens ih =>
      rw [cons_append, accepts_cons]
      constructor
      · rintro ⟨run, rest, hfits, rfl, h⟩
        obtain ⟨front, rest', rfl, hfront, hrest⟩ := ih.mp h
        exact ⟨run ++ front, rest', (append_assoc _ _ _).symm,
          accepts_cons.mpr ⟨run, front, hfits, rfl, hfront⟩, hrest⟩
      · rintro ⟨front, rest, rfl, hfront, hrest⟩
        obtain ⟨run, front', hfits, rfl, hfront'⟩ := accepts_cons.mp hfront
        exact ⟨run, front' ++ rest, hfits, append_assoc _ _ _,
          ih.mpr ⟨front', rest, rfl, hfront', hrest⟩⟩

/-- Behind the same tokens, tokens that accept the same texts can be exchanged. -/
theorem accepts_append_congr {tokens₁ tokens₂ : List (Token α)}
    (h : ∀ text, Accepts tokens₁ text ↔ Accepts tokens₂ text) :
    Accepts (tokens ++ tokens₁) text ↔ Accepts (tokens ++ tokens₂) text := by
  simp only [accepts_append, h]

/-- Only stars accept the empty text. -/
theorem accepts_empty : Accepts tokens [] ↔ ∀ token ∈ tokens, token = .star := by
  induction tokens with
  | nil => simp
  | cons token tokens ih =>
      cases token with
      | literal a => simp [accepts_literal]
      | star =>
          rw [forall_mem_cons, ← ih, accepts_star]
          simp

end Wildcard
