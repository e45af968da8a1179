import Mathlib.Data.List.Infix

/-!
# Needles

The position at which a needle first occurs in a list, and the pieces a list is cut into
where it occurs.  A needle that cannot overlap with itself is found right behind what does
not contain it.
-/

namespace Needle

open List

variable {α : Type} [DecidableEq α] {needle hay front rest : List α} {p : ℕ}

/-! ## The first occurrence -/

def position (needle : List α) : List α → Option ℕ
  | [] => if needle <+: [] then some 0 else none
  | a :: hay => if needle <+: a :: hay then some 0 else (position needle hay).map (· + 1)

theorem position_eq_some_iff :
    position needle hay = some p ↔
      p ≤ hay.length ∧ needle <+: hay.drop p ∧ ∀ q < p, ¬needle <+: hay.drop q := by
  induction hay generalizing p with
  | nil =>
      unfold position
      split
      · next h =>
          constructor
          · intro hp
            cases hp
            exact ⟨Nat.zero_le _, h, fun q hq => absurd hq (Nat.not_lt_zero q)⟩
          · rintro ⟨hp, -, -⟩
            rw [Nat.le_zero.mp hp]
      · next h =>
          refine iff_of_false (Option.some_ne_none p).symm ?_
          rintro ⟨-, hp, -⟩
          exact h (by simpa using hp)
  | cons a hay ih =>
      unfold position
      split
      · next h =>
          constructor
          · intro hp
            cases hp
            exact ⟨Nat.zero_le _, h, fun q hq => absurd hq (Nat.not_lt_zero q)⟩
          · rintro ⟨-, -, hfirst⟩
            cases p with
            | zero => rfl
            | succ p => exact absurd h (hfirst 0 (Nat.succ_pos p))
      · next h =>
          cases p with
          | zero => simp [h]
          | succ p =>
              rw [Option.map_eq_some_iff]
              constructor
              · rintro ⟨p', hp', heq⟩
                cases heq
                obtain ⟨hle, hocc, hfirst⟩ := ih.mp hp'
                refine ⟨Nat.succ_le_succ hle, hocc, fun q hq => ?_⟩
                cases q with
                | zero => exact h
                | succ q => exact hfirst q (Nat.lt_of_succ_lt_succ hq)
              · rintro ⟨hle, hocc, hfirst⟩
                exact ⟨p, ih.mpr ⟨Nat.le_of_succ_le_succ hle, hocc,
                  fun q hq => hfirst (q + 1) (Nat.succ_lt_succ hq)⟩, rfl⟩

theorem position_eq_none_iff : position needle hay = none ↔ ¬needle <:+: hay := by
  induction hay with
  | nil =>
      unfold position
      rw [infix_nil, ← prefix_nil]
      split
      · next h => exact iff_of_false (Option.some_ne_none 0) (not_not.mpr h)
      · next h => exact iff_of_true rfl h
  | cons a hay ih =>
      unfold position
      rw [infix_cons_iff]
      split
      · next h => exact iff_of_false (Option.some_ne_none 0) (not_not.mpr (.inl h))
      · next h => rw [Option.map_eq_none_iff, ih, not_or, and_iff_right h]

/-- What stands around a first occurrence. -/
theorem position_eq_some_cut (h : position needle hay = some p) :
    hay = hay.take p ++ needle ++ hay.drop (p + needle.length) ∧
      p + needle.length ≤ hay.length := by
  obtain ⟨hle, hocc, -⟩ := position_eq_some_iff.mp h
  obtain ⟨behind, hbehind⟩ := hocc
  have hdrop : hay.drop (p + needle.length) = behind := by
    rw [← drop_drop, ← hbehind, drop_left]
  have hlength := congrArg length hbehind
  rw [length_append, length_drop] at hlength
  refine ⟨?_, by omega⟩
  rw [hdrop, append_assoc, hbehind, take_append_drop]

theorem not_infix_take (hne : needle ≠ []) (h : position needle hay = some p) :
    ¬needle <:+: hay.take p := by
  rintro ⟨before, behind, hcut⟩
  obtain ⟨hle, -, hfirst⟩ := position_eq_some_iff.mp h
  have hlength := congrArg length hcut
  simp only [length_append, length_take] at hlength
  have hpos := length_pos_iff.mpr hne
  refine hfirst before.length (by omega) ⟨behind ++ hay.drop p, ?_⟩
  have hhay : hay = before ++ (needle ++ (behind ++ hay.drop p)) := by
    calc hay = hay.take p ++ hay.drop p := (take_append_drop p hay).symm
      _ = before ++ (needle ++ (behind ++ hay.drop p)) := by
          rw [← hcut, append_assoc, append_assoc]
  have hdrop := congrArg (drop before.length) hhay
  rw [drop_left] at hdrop
  exact hdrop.symm

theorem position_append_iff :
    position needle (front ++ needle ++ rest) = some front.length ↔
      ∀ q < front.length, ¬needle <+: (front ++ needle ++ rest).drop q := by
  rw [position_eq_some_iff]
  refine ⟨fun h => h.2.2, fun h => ⟨?_, ?_, h⟩⟩
  · simp
  · rw [append_assoc, drop_left]
    exact prefix_append needle rest

/-- No end of the needle is a beginning of it. -/
def Unbordered (needle : List α) : Prop :=
  ∀ k, 0 < k → k < needle.length → ¬needle.drop k <+: needle

instance (needle : List α) : Decidable (Unbordered needle) :=
  decidable_of_iff (∀ k < needle.length, 0 < k → ¬needle.drop k <+: needle)
    ⟨fun h k hpos hlt => h k hlt hpos, fun h k hlt hpos => h k hpos hlt⟩

theorem position_of_unbordered (h : Unbordered needle) (hfront : ¬needle <:+: front) :
    position needle (front ++ needle ++ rest) = some front.length := by
  refine position_append_iff.mpr fun q hq hocc => ?_
  rw [append_assoc, drop_append_of_le_length hq.le] at hocc
  by_cases hin : needle.length ≤ (front.drop q).length
  · refine hfront (List.IsInfix.trans ?_ (drop_suffix q front).isInfix)
    exact (prefix_of_prefix_length_le hocc (prefix_append _ _) hin).isInfix
  · have hlt := Nat.lt_of_not_le hin
    -- The occurrence begins in `front` and ends in the needle behind it.
    have hcut : front.drop q <+: needle :=
      prefix_of_prefix_length_le (prefix_append _ _) hocc hlt.le
    obtain ⟨tail, htail⟩ := hcut
    refine h (front.drop q).length (by rw [length_drop]; omega) hlt ?_
    have hdrop : needle.drop (front.drop q).length = tail := by
      rw [← htail, drop_left]
    have htailocc : tail <+: needle ++ rest := by
      refine (prefix_append_right_inj (front.drop q)).mp ?_
      rw [htail]
      exact hocc
    rw [hdrop]
    refine prefix_of_prefix_length_le htailocc (prefix_append _ _) ?_
    rw [← htail, length_append]
    exact Nat.le_add_left _ _

omit [DecidableEq α] in
/-- A needle whose first element is not in `front` does not begin there. -/
theorem infix_of_append {a : α} {tail : List α} (hfront : a ∉ front)
    (h : a :: tail <:+: front ++ rest) : a :: tail <:+: rest := by
  induction front with
  | nil => exact h
  | cons b front ih =>
      rw [mem_cons, not_or] at hfront
      rw [cons_append, infix_cons_iff] at h
      rcases h with h | h
      · exact absurd (cons_prefix_cons.mp h).1 hfront.1
      · exact ih hfront.2 h

omit [DecidableEq α] in
theorem prefix_of_append_cons {a : α} (ha : a ∉ needle) (h : needle <+: front ++ a :: rest) :
    needle <+: front := by
  rcases Nat.lt_or_ge front.length needle.length with hlt | hle
  · have hpre : front ++ [a] <+: needle := by
      refine prefix_of_prefix_length_le ?_ h (by simpa using Nat.succ_le_of_lt hlt)
      exact ⟨rest, by simp⟩
    exact absurd (hpre.subset (by simp)) ha
  · exact prefix_of_prefix_length_le h (prefix_append _ _) hle

omit [DecidableEq α] in
/-- A needle does not reach across an element that it does not have. -/
theorem infix_of_append_cons {a : α} (ha : a ∉ needle) (h : needle <:+: front ++ a :: rest) :
    needle <:+: front ∨ needle <:+: rest := by
  induction front with
  | nil =>
      rw [nil_append, infix_cons_iff] at h
      rcases h with h | h
      · exact .inl (@prefix_of_append_cons _ _ [] _ _ ha h).isInfix
      · exact .inr h
  | cons b front ih =>
      rw [cons_append, infix_cons_iff] at h
      rcases h with h | h
      · exact .inl (@prefix_of_append_cons _ _ (b :: front) _ _ ha h).isInfix
      · exact (ih h).imp_left fun h => infix_cons_iff.mpr (.inr h)

theorem position_cons_of_not {a : α} (h : ¬needle <+: a :: hay) :
    position needle (a :: hay) = (position needle hay).map (· + 1) := if_neg h

theorem position_self (needle rest : List α) : position needle (needle ++ rest) = some 0 :=
  (@position_append_iff _ _ needle [] rest).mpr fun _ hq => absurd hq (Nat.not_lt_zero _)

/-- Elements that a needle does not have keep it apart from what stands in front of them. -/
theorem position_of_apart {sep : List α} (hne : needle ≠ []) (hsep : sep ≠ [])
    (hapart : ∀ a ∈ sep, a ∉ needle) (hfront : ¬needle <:+: front) :
    position needle (front ++ (sep ++ (needle ++ rest))) = some (front.length + sep.length) := by
  induction front with
  | nil =>
      clear hsep
      induction sep with
      | nil => exact position_self needle rest
      | cons a sep ih =>
          have hnot : ¬needle <+: a :: (sep ++ (needle ++ rest)) := fun h =>
            hne (prefix_nil.mp (@prefix_of_append_cons _ _ [] _ _
              (hapart a (.head _)) h))
          rw [nil_append] at ih ⊢
          rw [cons_append, position_cons_of_not hnot,
            ih fun b hb => hapart b (.tail _ hb)]
          simp
  | cons b front ih =>
      obtain ⟨a, tail, rfl⟩ := exists_cons_of_ne_nil hsep
      rw [infix_cons_iff, not_or] at hfront
      have hnot : ¬needle <+: b :: (front ++ (a :: tail ++ (needle ++ rest))) := fun h =>
        hfront.1 (@prefix_of_append_cons _ _ (b :: front) _ _ (hapart a (.head _)) h)
      rw [cons_append, position_cons_of_not hnot, ih hfront.2]
      simp [Nat.add_right_comm]

/-- A needle does not begin where its first element is missing. -/
theorem position_append_of_notMem {a : α} {tail : List α} (h : a ∉ front) (rest : List α) :
    position (a :: tail) (front ++ rest) = (position (a :: tail) rest).map (· + front.length) := by
  induction front with
  | nil => exact Option.map_id'.symm
  | cons b front ih =>
      rw [mem_cons, not_or] at h
      have hnot : ¬a :: tail <+: b :: (front ++ rest) := fun hpre =>
        h.1 (cons_prefix_cons.mp hpre).1
      rw [cons_append, position_cons_of_not hnot, ih h.2, Option.map_map]
      rfl

theorem position_append_singleton {a : α} (ha : a ∉ needle) (hay : List α) :
    position needle (hay ++ [a]) = position needle hay := by
  have hnot : ∀ front, (needle <+: front ++ [a] ↔ needle <+: front) := fun front =>
    ⟨prefix_of_append_cons ha, fun h => h.trans (prefix_append _ _)⟩
  induction hay with
  | nil =>
      have hnil := hnot []
      rw [nil_append] at hnil ⊢
      simp only [position, hnil]
      split_ifs <;> rfl
  | cons b hay ih =>
      rw [cons_append]
      simp only [position, ih, hnot (b :: hay), ← cons_append]

/-! ## Pieces -/

/-- The pieces between the occurrences; so much of an occurrence is still to be passed. -/
def piecesFrom (needle : List α) : ℕ → List α → List (List α)
  | _, [] => [[]]
  | k + 1, _ :: hay => piecesFrom needle k hay
  | 0, a :: hay =>
    if needle <+: a :: hay then [] :: piecesFrom needle (needle.length - 1) hay
    else (piecesFrom needle 0 hay).modifyHead (a :: ·)

def pieces (needle hay : List α) : List (List α) := piecesFrom needle 0 hay

theorem piecesFrom_length (needle hay : List α) (skip : List α) :
    piecesFrom needle skip.length (skip ++ hay) = pieces needle hay := by
  induction skip with
  | nil => rfl
  | cons a skip ih =>
      rw [length_cons, cons_append, piecesFrom]
      exact ih

theorem pieces_of_position (hne : needle ≠ []) (h : position needle hay = some p) :
    pieces needle hay = hay.take p :: pieces needle (hay.drop (p + needle.length)) := by
  induction hay generalizing p with
  | nil =>
      unfold position at h
      split at h
      · next hnil => exact absurd (prefix_nil.mp hnil) hne
      · cases h
  | cons a hay ih =>
      unfold position at h
      rw [pieces, piecesFrom]
      split at h
      · next hocc =>
          cases h
          obtain ⟨behind, hbehind⟩ := hocc
          rw [if_pos ⟨behind, hbehind⟩]
          cases needle with
          | nil => exact absurd rfl hne
          | cons b needle =>
              obtain ⟨rfl, rfl⟩ := cons.inj hbehind
              simp [piecesFrom_length]
      · next hocc =>
          obtain ⟨p', hp', rfl⟩ := Option.map_eq_some_iff.mp h
          have hrest := ih hp'
          rw [pieces] at hrest
          rw [if_neg hocc, hrest, Nat.add_right_comm]
          rfl

theorem pieces_of_not_isInfix (h : ¬needle <:+: hay) : pieces needle hay = [hay] := by
  induction hay with
  | nil => rfl
  | cons a hay ih =>
      rw [infix_cons_iff, not_or] at h
      have hrest := ih h.2
      rw [pieces] at hrest
      rw [pieces, piecesFrom, if_neg h.1, hrest]
      rfl

theorem not_infix_of_mem_pieces {piece : List α} (hne : needle ≠ [])
    (h : piece ∈ pieces needle hay) : ¬needle <:+: piece := by
  induction hlength : hay.length using Nat.strong_induction_on generalizing hay with
  | _ n ih =>
      subst hlength
      cases hposition : position needle hay with
      | none =>
          have hnot := position_eq_none_iff.mp hposition
          rw [pieces_of_not_isInfix hnot, mem_singleton] at h
          rwa [h]
      | some p =>
          have hle := (position_eq_some_cut hposition).2
          have hpos := length_pos_iff.mpr hne
          rw [pieces_of_position hne hposition] at h
          rcases mem_cons.mp h with rfl | h
          · exact not_infix_take hne hposition
          · exact ih _ (by rw [length_drop]; omega) h rfl

theorem infix_of_mem_pieces {piece : List α} (hne : needle ≠ []) (h : piece ∈ pieces needle hay) :
    piece <:+: hay := by
  induction hlength : hay.length using Nat.strong_induction_on generalizing hay with
  | _ n ih =>
      subst hlength
      cases hposition : position needle hay with
      | none =>
          rw [pieces_of_not_isInfix (position_eq_none_iff.mp hposition), mem_singleton] at h
          rw [h]
      | some p =>
          have hle := (position_eq_some_cut hposition).2
          have hpos := length_pos_iff.mpr hne
          rw [pieces_of_position hne hposition] at h
          rcases mem_cons.mp h with rfl | h
          · exact ( take_prefix p hay).isInfix
          · exact (ih _ (by rw [length_drop]; omega) h rfl).trans
              (drop_suffix _ _).isInfix

/-- Pieces without the needle, each with the needle behind it, are read back. -/
theorem pieces_flatMap (h : Unbordered needle) (hne : needle ≠ []) {items : List (List α)}
    (hitems : ∀ item ∈ items, ¬needle <:+: item) (rest : List α) :
    pieces needle (items.flatMap (· ++ needle) ++ rest) = items ++ pieces needle rest := by
  induction items with
  | nil => rfl
  | cons item items ih =>
      rw [forall_mem_cons] at hitems
      have hposition : position needle
          (item ++ needle ++ (items.flatMap (· ++ needle) ++ rest)) = some item.length :=
        position_of_unbordered h hitems.1
      rw [flatMap_cons, append_assoc, pieces_of_position hne hposition,
        ← length_append, drop_left, ih hitems.2, append_assoc, take_left]
      rfl

/-! ## Replacing -/

/-- The text with another one in place of every occurrence of the needle. -/
def replace (needle text hay : List α) : List α := List.intercalate text (pieces needle hay)

theorem pieces_ne_nil (needle hay : List α) : pieces needle hay ≠ [] := by
  have hfrom : ∀ k, piecesFrom needle k hay ≠ [] := by
    induction hay with
    | nil =>
        intro k
        cases k <;> simp [piecesFrom]
    | cons a hay ih =>
        intro k
        cases k with
        | succ k => exact ih k
        | zero =>
            rw [piecesFrom]
            split
            · simp
            · intro hnil
              cases hpieces : piecesFrom needle 0 hay with
              | nil => exact ih 0 hpieces
              | cons piece pieces =>
                  rw [hpieces] at hnil
                  cases hnil
  exact hfrom 0

theorem pieces_append_self (hne : needle ≠ []) (rest : List α) :
    pieces needle (needle ++ rest) = [] :: pieces needle rest := by
  rw [pieces_of_position hne (position_self needle rest), Nat.zero_add, drop_left]
  rfl

theorem pieces_cons_of_not {a : α} (h : ¬needle <+: a :: hay) :
    pieces needle (a :: hay) = (pieces needle hay).modifyHead (a :: ·) := by
  rw [pieces, piecesFrom, if_neg h]
  rfl

@[simp] theorem replace_nil (needle text : List α) : replace needle text [] = [] := rfl

theorem replace_append_self (hne : needle ≠ []) (text rest : List α) :
    replace needle text (needle ++ rest) = text ++ replace needle text rest := by
  rw [replace, pieces_append_self hne, intercalate_cons_of_ne_nil (pieces_ne_nil _ _)]
  rfl

theorem replace_cons_of_not {a : α} (h : ¬needle <+: a :: hay) (text : List α) :
    replace needle text (a :: hay) = a :: replace needle text hay := by
  rw [replace, pieces_cons_of_not h, replace]
  cases hpieces : pieces needle hay with
  | nil => exact absurd hpieces (pieces_ne_nil _ _)
  | cons piece rest =>
      rw [modifyHead_cons]
      cases rest with
      | nil => simp
      | cons other rest => rw [intercalate_cons_cons, intercalate_cons_cons]; rfl

theorem replace_of_not_infix (h : ¬needle <:+: hay) (text : List α) :
    replace needle text hay = hay := by
  rw [replace, pieces_of_not_isInfix h, intercalate_singleton]

/-- What the needle does not begin in is kept. -/
theorem replace_append_of_not (text : List α)
    (h : ∀ i < front.length, ¬needle <+: front.drop i ++ rest) :
    replace needle text (front ++ rest) = front ++ replace needle text rest := by
  induction front with
  | nil => rfl
  | cons a front ih =>
      have hfirst : ¬needle <+: a :: (front ++ rest) := h 0 (Nat.succ_pos _)
      rw [cons_append, replace_cons_of_not hfirst,
        ih fun i hi => h (i + 1) (Nat.succ_lt_succ hi)]
      rfl

omit [DecidableEq α] in
/-- A needle does not end in the padding behind a text, and does not reach over it. -/
theorem prefix_of_pad {x : α} {n : ℕ} (hne : needle ≠ []) (hlast : needle.getLast hne ≠ x)
    (hlength : needle.length ≤ n) (h : needle <+: front ++ (replicate n x ++ rest)) :
    needle <+: front := by
  by_cases hle : needle.length ≤ front.length
  · exact prefix_of_prefix_length_le h (prefix_append _ _) hle
  · refine absurd ?_ hlast
    have hpos := length_pos_iff.mpr hne
    rw [getLast_eq_getElem, h.getElem (by omega), getElem_append_right (by omega),
      getElem_append_left (by rw [length_replicate]; omega), getElem_replicate]

/-- Replacing goes on separately on both sides of a padding. -/
theorem replace_pad {x : α} {n : ℕ} (hne : needle ≠ []) (hfirst : needle.head hne ≠ x)
    (hlast : needle.getLast hne ≠ x) (hlength : needle.length ≤ n) (text front rest : List α) :
    replace needle text (front ++ (replicate n x ++ rest)) =
      replace needle text front ++ (replicate n x ++ replace needle text rest) := by
  induction hfront : front.length using Nat.strong_induction_on generalizing front with
  | _ size ih =>
      subst hfront
      cases front with
      | nil =>
          rw [nil_append, replace_nil, nil_append]
          refine replace_append_of_not text fun i hi hprefix => hfirst ?_
          rw [length_replicate] at hi
          rw [drop_replicate, show n - i = n - i - 1 + 1 by omega,
            replicate_succ] at hprefix
          cases needle with
          | nil => exact absurd rfl hne
          | cons b needle => exact (cons_prefix_cons.mp hprefix).1
      | cons a front =>
          by_cases hprefix : needle <+: a :: front ++ (replicate n x ++ rest)
          · obtain ⟨behind, hbehind⟩ := prefix_of_pad hne hlast hlength hprefix
            have hpos := length_pos_iff.mpr hne
            have hsize := congrArg length hbehind
            rw [length_append] at hsize
            rw [← hbehind, append_assoc, replace_append_self hne, replace_append_self hne,
              ih behind.length (by omega) behind rfl, append_assoc]
          · have hown : ¬needle <+: a :: front := fun h =>
              hprefix (h.trans (prefix_append _ _))
            rw [cons_append] at hprefix ⊢
            rw [replace_cons_of_not hprefix, replace_cons_of_not hown,
              ih front.length (Nat.lt_succ_self _) front rfl]
            rfl

end Needle

/-! ## Texts -/

namespace Needle

open String.Slice String.Slice.Pattern String.Slice.Pattern.Model

variable {pattern : String} {s : String.Slice} {p q : s.Pos}

theorem replace_of_rejected (text : List Char) (hle : p ≤ q)
    (hnot : ∀ pos, p ≤ pos → pos < q → ¬MatchesAt pattern pos) {front back front' back' : String}
    (hp : p.Splits front back) (hq : q.Splits front' back') :
    replace pattern.toList text back.toList =
      (s.slice p q hle).copy.toList ++ replace pattern.toList text back'.toList := by
  induction p using WellFounded.induction String.Slice.Pos.wellFounded_gt
      generalizing front back with
  | _ p ih =>
      by_cases hlt : p < q
      · have hend := String.Slice.Pos.ne_endPos_of_lt hlt
        have hsplit := String.Slice.Pos.splits_next_right p hend
        have hnext := String.Slice.Pos.splits_next p hend
        obtain rfl := hp.eq_right hsplit
        have hfirst : ¬pattern.toList <+:
            p.get hend :: (s.sliceFrom (p.next hend)).copy.toList := by
          rintro ⟨rest, hrest⟩
          have heq : String.singleton (p.get hend) ++ (s.sliceFrom (p.next hend)).copy =
              pattern ++ String.ofList rest := by
            refine String.toList_inj.mp ?_
            simpa using hrest.symm
          rw [heq] at hsplit
          exact hnot p (Std.le_refl _) hlt (ForwardStringSearcher.matchesAt_iff_splits.mpr
            ⟨_, _, hsplit⟩)
        rw [String.Slice.copy_slice_eq_append_of_lt hlt]
        simp only [String.toList_append, String.toList_singleton, List.cons_append,
          List.nil_append]
        rw [replace_cons_of_not hfirst, ih (p.next hend) (by simp) (by simpa using hlt)
          (fun pos hpos => hnot pos (Std.le_of_lt (by simpa using hpos))) hnext]
      · obtain rfl : p = q := Std.le_antisymm hle (Std.not_lt.mp hlt)
        obtain rfl := hp.eq_right hq
        simp

/-- The steps of a search put the text in place of what they matched. -/
theorem foldl_steps (hne : pattern ≠ "") (text : String) {steps : List (SearchStep s)}
    (h : IsValidSearchFrom pattern p steps) {front back : String} (hp : p.Splits front back)
    (sofar : String) :
    (steps.foldl (fun
      | sofar, .matched .. => sofar ++ text.toSlice
      | sofar, .rejected start stop => sofar ++ s.slice! start stop) sofar).toList =
        sofar.toList ++ replace pattern.toList text.toList back.toList := by
  induction h generalizing front back sofar with
  | endPos =>
      obtain rfl := hp.eq_right (String.Slice.splits_endPos s)
      simp
  | matched hmatch _ ih =>
      obtain ⟨before, behind, hstart, hstop⟩ :=
        ForwardStringSearcher.isLongestMatchAt_iff_splits.mp hmatch
      obtain rfl := hp.eq_right hstart
      have hneedle : pattern.toList ≠ [] := by simpa using hne
      rw [List.foldl_cons, ih hstop]
      simp [replace_append_self hneedle]
  | @mismatched _ p q hlt hnot _ ih =>
      rw [List.foldl_cons, ih q.splits,
        replace_of_rejected text.toList (Std.le_of_lt hlt) hnot hp q.splits]
      change (sofar ++ s.slice! p q).toList ++ _ = _
      rw [← String.Slice.slice_eq_slice! (h := Std.le_of_lt hlt)]
      simp

theorem toList_replace (hne : pattern ≠ "") (hay text : String) :
    (hay.replace pattern text).toList = replace pattern.toList text.toList hay.toList := by
  have hlawful := ForwardStringSearcher.lawfulToForwardSearcherModel hne
  unfold String.replace String.Slice.replace
  rw [← Std.Iter.foldl_toList]
  have hsteps := foldl_steps hne text (hlawful.isValidSearchFrom_toList hay.toSlice)
    (String.Slice.splits_startPos _) ""
  simp only [String.copy_toSlice, String.toList_empty, List.nil_append] at hsteps
  exact hsteps

end Needle
