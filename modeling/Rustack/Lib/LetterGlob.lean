import Mathlib.Data.List.Forall2

/-!
# Patterns of stars and letter classes

A pattern is a list of symbols, some of them stars.  It accepts a text that splits into one run
for each symbol: anything for a star, and for any other symbol one letter that it takes.  As with
words, a star in front of another one is done with once what stands between the two has been
found.
-/

universe u v

namespace LetterGlob

open List

variable {α : Type u} {β : Type v} (star : α → Prop) (takes : α → β → Prop)

/-- The runs a symbol stands for. -/
def Fits (a : α) (run : List β) : Prop := star a ∨ ¬star a ∧ ∃ b, run = [b] ∧ takes a b

/-- The text is one run after the other. -/
def Accepts (pattern : List α) (text : List β) : Prop :=
  ∃ runs, List.Forall₂ (Fits star takes) pattern runs ∧ runs.flatten = text

/-- A word of symbols that are no stars takes the letters of a text. -/
def Word (word : List α) (text : List β) : Prop :=
  List.Forall₂ (fun a b => ¬star a ∧ takes a b) word text

variable {star takes} {pattern word : List α} {text found rest : List β} {a : α} {b : β}

@[simp] theorem accepts_nil : Accepts star takes [] text ↔ text = [] := by
  constructor
  · rintro ⟨runs, hruns, rfl⟩
    cases hruns
    rfl
  · rintro rfl
    exact ⟨[], .nil, rfl⟩

theorem accepts_cons : Accepts star takes (a :: pattern) text ↔
    ∃ run rest, Fits star takes a run ∧ text = run ++ rest ∧ Accepts star takes pattern rest := by
  constructor
  · rintro ⟨runs, hruns, rfl⟩
    cases hruns with
    | @cons _ run _ runs hfits hrest => exact ⟨run, runs.flatten, hfits, rfl, runs, hrest, rfl⟩
  · rintro ⟨run, rest, hfits, rfl, runs, hruns, rfl⟩
    exact ⟨run :: runs, .cons hfits hruns, rfl⟩

theorem accepts_letter (ha : ¬star a) : Accepts star takes (a :: pattern) text ↔
    ∃ b rest, takes a b ∧ text = b :: rest ∧ Accepts star takes pattern rest := by
  rw [accepts_cons]
  constructor
  · rintro ⟨run, rest, hstar | ⟨-, b, rfl, hb⟩, rfl, h⟩
    · exact absurd hstar ha
    · exact ⟨b, rest, hb, rfl, h⟩
  · rintro ⟨b, rest, hb, rfl, h⟩
    exact ⟨[b], rest, .inr ⟨ha, b, rfl, hb⟩, rfl, h⟩

theorem accepts_star (ha : star a) : Accepts star takes (a :: pattern) text ↔
    ∃ run rest, text = run ++ rest ∧ Accepts star takes pattern rest := by
  rw [accepts_cons]
  constructor
  · rintro ⟨run, rest, -, htext, h⟩
    exact ⟨run, rest, htext, h⟩
  · rintro ⟨run, rest, htext, h⟩
    exact ⟨run, rest, .inl ha, htext, h⟩

/-- A star is passed over, or takes one more letter. -/
theorem accepts_star_cons (ha : star a) : Accepts star takes (a :: pattern) (b :: text) ↔
    Accepts star takes pattern (b :: text) ∨ Accepts star takes (a :: pattern) text := by
  rw [accepts_star ha, accepts_star ha]
  constructor
  · rintro ⟨run, rest, htext, hrest⟩
    cases run with
    | nil =>
        rw [htext]
        exact .inl hrest
    | cons b' run =>
        obtain ⟨-, rfl⟩ := cons.inj htext
        exact .inr ⟨run, rest, rfl, hrest⟩
  · rintro (h | ⟨run, rest, rfl, hrest⟩)
    · exact ⟨[], b :: text, rfl, h⟩
    · exact ⟨b :: run, rest, rfl, hrest⟩

theorem accepts_word : Accepts star takes (word ++ pattern) text → (∀ a ∈ word, ¬star a) →
    ∃ found rest, text = found ++ rest ∧ found.length = word.length ∧
      Accepts star takes pattern rest := by
  intro h hword
  induction word generalizing text with
  | nil => exact ⟨[], text, rfl, rfl, h⟩
  | cons a word ih =>
      rw [forall_mem_cons] at hword
      obtain ⟨b, rest, -, rfl, hrest⟩ := (accepts_letter hword.1).mp h
      obtain ⟨found, rest', rfl, hlength, hpattern⟩ := ih hrest hword.2
      exact ⟨b :: found, rest', rfl, congrArg (· + 1) hlength, hpattern⟩

theorem Word.no_star (h : Word star takes word found) : ∀ a ∈ word, ¬star a := by
  induction h with
  | nil => exact fun a ha => absurd ha not_mem_nil
  | cons hab _ ih => exact forall_mem_cons.mpr ⟨hab.1, ih⟩

theorem Word.length_eq (h : Word star takes word found) : word.length = found.length :=
  List.Forall₂.length_eq h

/-- Behind letters that a word takes, what is left of the pattern decides. -/
theorem Word.accepts_append (h : Word star takes word found) :
    Accepts star takes (word ++ pattern) (found ++ rest) ↔ Accepts star takes pattern rest := by
  induction h with
  | nil => exact Iff.rfl
  | cons hab _ ih =>
      rw [cons_append, cons_append, accepts_letter hab.1, ← ih]
      constructor
      · rintro ⟨b', rest', -, heq, hrest⟩
        rwa [(cons.inj heq).2]
      · exact fun hrest => ⟨_, _, hab.2, rfl, hrest⟩

theorem Word.concat (h : Word star takes word found) (ha : ¬star a) (hab : takes a b) :
    Word star takes (word ++ [a]) (found ++ [b]) :=
  rel_append h (.cons ⟨ha, hab⟩ .nil)

/-- Once the word behind a star has been found and a star follows, no other place of the word has
to be tried: the text behind it would be a part of the text that is left. -/
theorem Word.accepts_commit {a' : α} (h : Word star takes word found) (ha : star a)
    (ha' : star a') :
    Accepts star takes (a :: (word ++ a' :: pattern)) (found ++ rest) ↔
      Accepts star takes (a' :: pattern) rest := by
  constructor
  · intro hall
    obtain ⟨run, text, htext, hword⟩ := (accepts_star ha).mp hall
    obtain ⟨found', text', rfl, hlength, hstar⟩ := accepts_word hword h.no_star
    obtain ⟨run', tail, rfl, htail⟩ := (accepts_star ha').mp hstar
    have hcount := congrArg length htext
    have hsame := h.length_eq
    simp only [length_append] at hcount
    have hwhole : tail <:+ found ++ rest := by
      rw [htext]
      exact ((suffix_append run' tail).trans (suffix_append found' _)).trans
        (suffix_append run _)
    have hsuffix : tail <:+ rest :=
      suffix_of_suffix_length_le hwhole (suffix_append _ _) (by omega)
    obtain ⟨front, rfl⟩ := hsuffix
    exact (accepts_star ha').mpr ⟨front, tail, rfl, htail⟩
  · exact fun hrest => (accepts_star ha).mpr ⟨[], found ++ rest, rfl, h.accepts_append.mpr hrest⟩

/-- At the end of the text the word has no other place. -/
theorem Word.accepts_end (h : Word star takes word found) (ha : star a) :
    Accepts star takes (a :: (word ++ pattern)) found ↔ Accepts star takes pattern [] := by
  constructor
  · intro hall
    obtain ⟨run, text, htext, hword⟩ := (accepts_star ha).mp hall
    obtain ⟨found', text', rfl, hlength, hrest⟩ := accepts_word hword h.no_star
    have hcount := congrArg length htext
    have hsame := h.length_eq
    simp only [length_append] at hcount
    obtain rfl : text' = [] := length_eq_zero_iff.mp (by omega)
    exact hrest
  · intro hrest
    refine (accepts_star ha).mpr ⟨[], found, rfl, ?_⟩
    have happend := h.accepts_append.mpr hrest
    rwa [append_nil] at happend

/-- Only stars accept the empty text. -/
theorem accepts_empty : Accepts star takes pattern [] ↔ ∀ a ∈ pattern, star a := by
  induction pattern with
  | nil => simp
  | cons a pattern ih =>
      rw [forall_mem_cons, ← ih]
      by_cases ha : star a
      · rw [accepts_star ha]
        simp [ha]
      · rw [accepts_letter ha]
        simp [ha]

end LetterGlob
