import Mathlib.Data.List.TakeWhile
import Mathlib.Tactic.Common

/-!
# Fields between separators

A text is cut at a separator into a bounded number of fields, the last of which may hold
separators.  Fields without the separator are read back as they were written.
-/

namespace Text

open List

/-- Cut at the first separators, into so many fields at most. -/
def splitN (separator : Char) : ℕ → List Char → List (List Char)
  | 0, _ => []
  | 1, cs => [cs]
  | n + 2, cs =>
    match cs.dropWhile (· ≠ separator) with
    | [] => [cs]
    | _ :: rest => cs.takeWhile (· ≠ separator) :: splitN separator (n + 1) rest

variable {separator : Char} {field rest : List Char}

theorem all_ne (h : separator ∉ field) : ∀ c ∈ field, decide (c ≠ separator) = true := by
  intro c hc
  refine decide_eq_true ?_
  rintro rfl
  exact h hc

theorem dropWhile_field (h : separator ∉ field) :
    (field ++ separator :: rest).dropWhile (· ≠ separator) = separator :: rest := by
  rw [dropWhile_append_of_pos (all_ne h)]
  simp

theorem takeWhile_field (h : separator ∉ field) :
    (field ++ separator :: rest).takeWhile (· ≠ separator) = field := by
  rw [takeWhile_append_of_pos (all_ne h)]
  simp

theorem field_inj {field' rest' : List Char} (h : separator ∉ field) (h' : separator ∉ field') :
    field ++ separator :: rest = field' ++ separator :: rest' ↔ field = field' ∧ rest = rest' := by
  constructor
  · intro heq
    have hfield := congrArg (takeWhile fun c => decide (c ≠ separator)) heq
    rw [takeWhile_field h, takeWhile_field h'] at hfield
    subst hfield
    exact ⟨rfl, cons_inj_right separator |>.mp (append_cancel_left heq)⟩
  · rintro ⟨rfl, rfl⟩
    rfl

/-- A field that is followed by a separator is the first one. -/
theorem splitN_field (h : separator ∉ field) (n : ℕ) :
    splitN separator (n + 2) (field ++ separator :: rest) =
      field :: splitN separator (n + 1) rest := by
  rw [splitN, dropWhile_field h, takeWhile_field h]

theorem intercalate_splitN (n : ℕ) (cs : List Char) :
    [separator].intercalate (splitN separator (n + 1) cs) = cs := by
  induction n generalizing cs with
  | zero => exact intercalate_singleton
  | succ n ih =>
      rw [splitN]
      split
      · exact intercalate_singleton
      · next c rest hdrop =>
          have hc : c = separator := by
            have hhead := head_dropWhile_not (· ≠ separator) (l := cs) (by rw [hdrop]; simp)
            simp only [hdrop, head_cons] at hhead
            simpa using hhead
          have hne : splitN separator (n + 1) rest ≠ [] := by
            cases n with
            | zero => exact cons_ne_nil _ _
            | succ n =>
                rw [splitN]
                split <;> exact cons_ne_nil _ _
          subst hc
          rw [intercalate_cons_of_ne_nil hne, ih, append_assoc, singleton_append,
            ← hdrop]
          exact takeWhile_append_dropWhile

/-- The first of several fields has no separator. -/
theorem notMem_head_splitN {piece : List Char} {n : ℕ} {cs : List Char}
    (h : (splitN separator (n + 2) cs).head? = some piece) : separator ∉ piece := by
  intro hmem
  rw [splitN] at h
  split at h
  · next hdrop =>
      cases h
      have hne := dropWhile_eq_nil_iff.mp hdrop separator hmem
      exact absurd rfl (of_decide_eq_true hne)
  · cases h
    have hne := mem_takeWhile_imp (p := fun c => decide (c ≠ separator)) hmem
    exact absurd rfl (of_decide_eq_true hne)

/-! ## Two pieces -/

/-- What comes before and behind the first separator. -/
def splitOnce (separator : Char) (cs : List Char) : Option (List Char × List Char) :=
  if separator ∈ cs then some (cs.takeWhile (· ≠ separator), (cs.dropWhile (· ≠ separator)).tail)
  else none

variable {cs : List Char}

theorem splitOnce_eq_some_iff :
    splitOnce separator cs = some (field, rest) ↔
      cs = field ++ separator :: rest ∧ separator ∉ field := by
  unfold splitOnce
  constructor
  · intro h
    split at h
    · next hmem =>
        cases h
        refine ⟨?_, fun hsep => by simpa using mem_takeWhile_imp hsep⟩
        cases hdrop : cs.dropWhile (· ≠ separator) with
        | nil =>
            rw [dropWhile_eq_nil_iff] at hdrop
            simpa using hdrop separator hmem
        | cons x rest =>
            have hx : x = separator := by
              have hhead := head_dropWhile_not (· ≠ separator) (l := cs) (by rw [hdrop]; simp)
              simp only [hdrop, head_cons] at hhead
              simpa using hhead
            have happend := takeWhile_append_dropWhile (p := (· ≠ separator)) (l := cs)
            rw [hdrop, hx] at happend
            exact happend.symm
    · cases h
  · rintro ⟨rfl, hnot⟩
    rw [if_pos (mem_append_right _ (.head _)), takeWhile_field hnot,
      dropWhile_field hnot]
    rfl

theorem splitOnce_eq_none_iff : splitOnce separator cs = none ↔ separator ∉ cs := by
  unfold splitOnce
  split
  · next h => exact iff_of_false (Option.some_ne_none _) (not_not.mpr h)
  · next h => exact iff_of_true rfl h

/-! ## Many pieces -/

theorem not_mem_of_mem_splitOn {piece : List Char} (h : piece ∈ cs.splitOn separator) :
    separator ∉ piece := by
  induction cs generalizing piece with
  | nil =>
      rw [splitOn_nil, mem_singleton] at h
      rw [h]
      exact not_mem_nil
  | cons c cs ih =>
      rw [splitOn_cons_eq_if_modifyHead] at h
      split at h
      · rcases mem_cons.mp h with rfl | h
        · exact not_mem_nil
        · exact ih h
      · next hne =>
          cases hsplit : cs.splitOn separator with
          | nil => exact absurd hsplit (splitOn_ne_nil _ _)
          | cons first more =>
              rw [hsplit, modifyHead_cons] at h
              rcases mem_cons.mp h with rfl | h
              · rw [mem_cons, not_or]
                refine ⟨fun heq => hne (beq_iff_eq.mpr heq.symm), ih ?_⟩
                rw [hsplit]
                exact .head _
              · apply ih
                rw [hsplit]
                exact .tail _ h

theorem mem_of_mem_splitOn {piece : List Char} {c : Char} (h : piece ∈ cs.splitOn separator)
    (hc : c ∈ piece) : c ∈ cs := by
  have hcs : [separator].intercalate (cs.splitOn separator) = cs := intercalate_splitOn separator
  rw [← hcs]
  generalize cs.splitOn separator = pieces at h
  induction pieces with
  | nil => cases h
  | cons first more ih =>
      cases more with
      | nil =>
          rw [mem_singleton.mp h] at hc
          rw [intercalate_singleton]
          exact hc
      | cons second more =>
          rw [intercalate_cons_cons]
          rcases mem_cons.mp h with rfl | h
          · exact mem_append_left _ (mem_append_left _ hc)
          · exact mem_append_right _ (ih h)

theorem not_mem_intercalate {pieces : List (List Char)} {c : Char} (hc : c ≠ separator)
    (h : ∀ piece ∈ pieces, c ∉ piece) : c ∉ [separator].intercalate pieces := by
  induction pieces with
  | nil => exact not_mem_nil
  | cons first more ih =>
      have hfirst := h first (.head _)
      cases more with
      | nil =>
          rw [intercalate_singleton]
          exact hfirst
      | cons second more =>
          rw [intercalate_cons_cons, mem_append, mem_append, mem_singleton]
          rintro ((hmem | hmem) | hmem)
          · exact hfirst hmem
          · exact hc hmem
          · exact ih (fun piece hpiece => h piece (.tail _ hpiece)) hmem

/-- Lines that are followed by a text are read back, if it is known how many there are. -/
theorem lines_inj {lines lines' : List (List Char)} {tail tail' : List Char}
    (hlength : lines.length = lines'.length) (hlines : ∀ l ∈ lines, separator ∉ l)
    (hlines' : ∀ l ∈ lines', separator ∉ l)
    (h : [separator].intercalate lines ++ separator :: tail =
      [separator].intercalate lines' ++ separator :: tail') : lines = lines' ∧ tail = tail' := by
  induction lines generalizing lines' with
  | nil =>
      obtain rfl := length_eq_zero_iff.mp hlength.symm
      exact ⟨rfl, (cons.inj h).2⟩
  | cons line lines ih =>
      cases lines' with
      | nil => cases hlength
      | cons line' lines' =>
          have hlength : lines.length = lines'.length := Nat.succ.inj hlength
          have hline := hlines line (.head _)
          have hline' := hlines' line' (.head _)
          cases lines with
          | nil =>
              obtain rfl := length_eq_zero_iff.mp hlength.symm
              rw [intercalate_singleton, intercalate_singleton,
                field_inj hline hline'] at h
              rw [h.1]
              exact ⟨rfl, h.2⟩
          | cons second lines =>
              obtain ⟨second', lines', rfl⟩ := exists_cons_of_length_eq_add_one hlength.symm
              simp only [intercalate_cons_cons, append_assoc, singleton_append] at h
              obtain ⟨hfirst, hrest⟩ := (field_inj hline hline').mp h
              obtain ⟨hlines, htail⟩ := ih hlength (fun l hl => hlines l (.tail _ hl))
                (fun l hl => hlines' l (.tail _ hl)) hrest
              rw [hfirst, hlines]
              exact ⟨rfl, htail⟩

end Text
