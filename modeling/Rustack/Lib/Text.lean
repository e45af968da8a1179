import Mathlib.Data.String.Basic
import Mathlib.Data.List.Infix
import Mathlib.Algebra.Ring.Nat

/-!
# Texts as lists of characters

Prefix tests and the search for a needle, on the characters of a text, and how
they go with the order of texts.
-/

namespace Text

open List

def startsWith (text pre : String) : Bool := pre.toList.isPrefixOf text.toList

theorem startsWith_iff {text pre : String} :
    startsWith text pre = true ↔ pre.toList <+: text.toList := by
  rw [startsWith, isPrefixOf_iff_prefix]

/-- What stands in front of the first occurrence of a needle. -/
def beforeFirst (needle : List Char) : List Char → Option (List Char)
  | [] => if needle.isPrefixOf [] then some [] else none
  | c :: cs =>
    if needle.isPrefixOf (c :: cs) then some [] else (beforeFirst needle cs).map (c :: ·)

theorem beforeFirst_isPrefix {needle hay before : List Char}
    (h : beforeFirst needle hay = some before) : before ++ needle <+: hay := by
  induction hay generalizing before with
  | nil =>
      unfold beforeFirst at h
      split at h
      · next hpre =>
          cases h
          exact isPrefixOf_iff_prefix.mp hpre
      · cases h
  | cons c cs ih =>
      unfold beforeFirst at h
      split at h
      · next hpre =>
          cases h
          exact isPrefixOf_iff_prefix.mp hpre
      · obtain ⟨rest, hrest, rfl⟩ := Option.map_eq_some_iff.mp h
        exact cons_prefix_cons.mpr ⟨rfl, ih hrest⟩

theorem beforeFirst_eq_none_iff {needle hay : List Char} :
    beforeFirst needle hay = none ↔ ¬needle <:+: hay := by
  induction hay with
  | nil =>
      rw [beforeFirst, infix_nil, ← prefix_nil, ← isPrefixOf_iff_prefix]
      split
      · next h => simp [h]
      · next h => simp [h]
  | cons c cs ih =>
      rw [beforeFirst, infix_cons_iff, ← isPrefixOf_iff_prefix]
      split
      · next h => simp [h]
      · next h => rw [Option.map_eq_none_iff, ih, not_or, and_iff_right h]

theorem length_le_of_beforeFirst {needle hay before other : List Char}
    (h : beforeFirst needle hay = some before) (hother : other ++ needle <+: hay) :
    before.length ≤ other.length := by
  induction hay generalizing before other with
  | nil =>
      unfold beforeFirst at h
      split at h
      · cases h
        exact Nat.zero_le _
      · cases h
  | cons c cs ih =>
      unfold beforeFirst at h
      split at h
      · cases h
        exact Nat.zero_le _
      · next hpre =>
          obtain ⟨rest, hrest, rfl⟩ := Option.map_eq_some_iff.mp h
          cases other with
          | nil => exact absurd ( isPrefixOf_iff_prefix.mpr hother) hpre
          | cons d other => exact Nat.succ_le_succ (ih hrest (cons_prefix_cons.mp hother).2)

theorem beforeFirst_eq_some_iff {needle hay before : List Char} :
    beforeFirst needle hay = some before ↔ before ++ needle <+: hay ∧
      ∀ other, other ++ needle <+: hay → before.length ≤ other.length := by
  constructor
  · intro h
    exact ⟨beforeFirst_isPrefix h, fun other hother => length_le_of_beforeFirst h hother⟩
  · rintro ⟨hpre, hleast⟩
    cases hfirst : beforeFirst needle hay with
    | none =>
        refine absurd ?_ (beforeFirst_eq_none_iff.mp hfirst)
        exact (suffix_append before needle).isInfix.trans hpre.isInfix
    | some first =>
        have hle := hleast first (beforeFirst_isPrefix hfirst)
        have hge := length_le_of_beforeFirst hfirst hpre
        have hfront : first <+: hay := (prefix_append _ _).trans (beforeFirst_isPrefix hfirst)
        have hbefore : before <+: hay := (prefix_append _ _).trans hpre
        rw [List.IsPrefix.eq_of_length (prefix_of_prefix_length_le hfront hbefore hge)
          (le_antisymm hge hle)]

/-- Where a needle is first found depends on the text up to its end only. -/
theorem beforeFirst_eq_of_isPrefix {needle hay hay' before : List Char}
    (h : beforeFirst needle hay = some before) (hpre : before ++ needle <+: hay') :
    beforeFirst needle hay' = some before := by
  induction before generalizing hay hay' with
  | nil =>
      have hneedle : needle.isPrefixOf hay' = true := isPrefixOf_iff_prefix.mpr hpre
      cases hay' <;> simp [beforeFirst, hneedle]
  | cons b before ih =>
      obtain ⟨t', rfl⟩ := hpre
      obtain ⟨t, rfl⟩ := beforeFirst_isPrefix h
      -- the needle does not start at the first character in either text
      have hnot : ∀ rest, needle.isPrefixOf (b :: (before ++ needle ++ rest)) = true ↔
          needle <+: b :: (before ++ needle) := by
        intro rest
        rw [ isPrefixOf_iff_prefix]
        constructor
        · intro hp
          refine prefix_of_prefix_length_le hp ?_ ?_
          · rw [← cons_append]
            exact prefix_append _ _
          · simp only [length_cons, length_append]
            omega
        · intro hp
          rw [← cons_append]
          exact hp.trans (prefix_append _ _)
      simp only [cons_append, beforeFirst] at h ⊢
      have hstart : ¬needle <+: b :: (before ++ needle) := by
        intro hp
        rw [if_pos ((hnot t).mpr hp)] at h
        cases h
      rw [if_neg (fun hp => hstart ((hnot t).mp hp))] at h
      rw [if_neg (fun hp => hstart ((hnot t').mp hp))]
      obtain ⟨rest, hrest, heq⟩ := Option.map_eq_some_iff.mp h
      cases heq
      rw [ih hrest (prefix_append _ _)]
      rfl

/-! ## Prefixes and the order -/

theorem not_lt_of_isPrefix {s t : List Char} (h : s <+: t) : ¬t < s := by
  obtain ⟨rest, rfl⟩ := h
  induction s with
  | nil => exact not_lt_nil _
  | cons c cs ih =>
      rw [cons_append, cons_lt_cons_iff]
      rintro (hlt | ⟨-, hlt⟩)
      · exact lt_irrefl c hlt
      · exact ih hlt

/-- What lies between two texts that start with `pre` starts with it too. -/
theorem isPrefix_of_between {pre s t u : List Char} (hs : pre <+: s) (hu : pre <+: u)
    (hst : ¬t < s) (htu : ¬u < t) : pre <+: t := by
  induction pre generalizing s t u with
  | nil => exact nil_prefix
  | cons c pre ih =>
      obtain ⟨s, rfl⟩ := hs
      obtain ⟨u, rfl⟩ := hu
      cases t with
      | nil => exact absurd (nil_lt_cons _ _) hst
      | cons d t =>
          rw [cons_append, cons_lt_cons_iff, not_or, not_and] at hst htu
          have hcd : c = d := le_antisymm (not_lt.mp hst.1) (not_lt.mp htu.1)
          refine cons_prefix_cons.mpr ⟨hcd, ?_⟩
          exact ih (prefix_append _ _) (prefix_append _ _) (hst.2 hcd.symm) (htu.2 hcd)

/-- Behind a text, and not one of its extensions: then behind all of its extensions. -/
theorem lt_of_not_isPrefix {pre s t : List Char} (hs : pre <+: s) (hlt : pre < t)
    (ht : ¬pre <+: t) : s < t := by
  by_contra hle
  exact ht (isPrefix_of_between (prefix_refl pre) hs (lt_asymm hlt) hle)

/-- Two texts of which neither is a prefix of the other are in the order of their extensions. -/
theorem lt_of_lt_of_isPrefix {a b s t : List Char} (ha : a <+: s) (hb : b <+: t) (hst : s < t)
    (hne : a ≠ b) (hba : ¬b <+: s) : a < b := by
  rcases lt_trichotomy a b with hlt | heq | hgt
  · exact hlt
  · exact absurd heq hne
  · have hpre : ¬b <+: a := fun hpre => hba (hpre.trans ha)
    have hta : t < a := lt_of_not_isPrefix hb hgt hpre
    exact absurd (hst.trans hta) (not_lt_of_isPrefix ha)

/-! ## Slices by bytes -/

def byteLength (cs : List Char) : ℕ := (cs.map Char.utf8Size).sum

/-- The first `n` bytes of a text; `none` where this is no place between two characters. -/
def sliceTo : List Char → ℕ → Option (List Char)
  | _, 0 => some []
  | [], _ + 1 => none
  | c :: cs, n + 1 =>
    if c.utf8Size ≤ n + 1 then (sliceTo cs (n + 1 - c.utf8Size)).map (c :: ·) else none

theorem sliceTo_zero (cs : List Char) : sliceTo cs 0 = some [] := by
  cases cs <;> rfl

theorem sliceTo_append (cs ds : List Char) (n : ℕ) :
    sliceTo (cs ++ ds) (byteLength cs + n) = (sliceTo ds n).map (cs ++ ·) := by
  induction cs with
  | nil =>
      rw [nil_append, byteLength, map_nil, sum_nil, Nat.zero_add]
      exact (congrFun Option.map_id _).symm
  | cons c cs ih =>
      have hsize := c.utf8Size_pos
      have hlength : byteLength (c :: cs) = c.utf8Size + byteLength cs := sum_cons
      obtain ⟨m, hm⟩ : ∃ m, byteLength (c :: cs) + n = m + 1 :=
        ⟨byteLength (c :: cs) + n - 1, by omega⟩
      have hrest : m + 1 - c.utf8Size = byteLength cs + n := by omega
      rw [cons_append, hm, sliceTo, if_pos (by omega), hrest, ih, Option.map_map]
      rfl

/-- Taking one byte off the end cuts a character exactly if it has more than one. -/
theorem sliceTo_dropLast_eq_none_iff (cs : List Char) (c : Char) :
    sliceTo (cs ++ [c]) (max (byteLength (cs ++ [c]) - 1) 1) = none ↔ 1 < c.utf8Size := by
  have hsize := c.utf8Size_pos
  have hlength : byteLength (cs ++ [c]) = byteLength cs + c.utf8Size := by
    simp [byteLength]
  rw [hlength]
  rcases Nat.lt_or_ge 1 c.utf8Size with hmany | hone
  · obtain ⟨k, hk⟩ : ∃ k, c.utf8Size = k + 2 := ⟨c.utf8Size - 2, by omega⟩
    have hmax : max (byteLength cs + c.utf8Size - 1) 1 = byteLength cs + (k + 1) := by omega
    rw [hmax, sliceTo_append, sliceTo, if_neg (by omega)]
    simp [hmany]
  · have hsize : c.utf8Size = 1 := by omega
    rw [hsize, Nat.add_sub_cancel]
    refine iff_of_false (fun hnone => ?_) (lt_irrefl 1)
    rcases Nat.eq_zero_or_pos (byteLength cs) with hzero | hpos
    · have hmax : max (byteLength cs) 1 = byteLength cs + 1 := by omega
      rw [hmax, sliceTo_append, sliceTo, if_pos (by omega), hsize, Nat.sub_self, sliceTo_zero]
        at hnone
      cases hnone
    · have hmax : max (byteLength cs) 1 = byteLength cs + 0 := by omega
      rw [hmax, sliceTo_append, sliceTo_zero] at hnone
      cases hnone

/-- What is left behind the first `n` bytes, again only at a place between two characters. -/
def sliceFrom : List Char → ℕ → Option (List Char)
  | cs, 0 => some cs
  | [], _ + 1 => none
  | c :: cs, n + 1 => if c.utf8Size ≤ n + 1 then sliceFrom cs (n + 1 - c.utf8Size) else none

@[simp] theorem sliceFrom_zero (cs : List Char) : sliceFrom cs 0 = some cs := by
  cases cs <;> rfl

theorem sliceFrom_append (front rest : List Char) :
    sliceFrom (front ++ rest) (byteLength front) = some rest := by
  induction front with
  | nil => exact sliceFrom_zero rest
  | cons c front ih =>
      have hsize := c.utf8Size_pos
      have hlength : byteLength (c :: front) = c.utf8Size + byteLength front := sum_cons
      obtain ⟨m, hm⟩ : ∃ m, byteLength (c :: front) = m + 1 :=
        ⟨byteLength (c :: front) - 1, by omega⟩
      have hrest : m + 1 - c.utf8Size = byteLength front := by omega
      rw [hm, cons_append, sliceFrom, if_pos (by omega), hrest, ih]

/-- A place is the length of the text in front of it. -/
theorem sliceFrom_eq_some {cs rest : List Char} {n : ℕ} (h : sliceFrom cs n = some rest) :
    ∃ front, cs = front ++ rest ∧ n = byteLength front := by
  induction cs generalizing n with
  | nil =>
      cases n with
      | zero =>
          cases h
          exact ⟨[], rfl, rfl⟩
      | succ n => cases h
  | cons c cs ih =>
      cases n with
      | zero =>
          cases h
          exact ⟨[], rfl, rfl⟩
      | succ n =>
          unfold sliceFrom at h
          split at h
          · next hsize =>
              obtain ⟨front, rfl, hn⟩ := ih h
              refine ⟨c :: front, rfl, ?_⟩
              have hlength : byteLength (c :: front) = c.utf8Size + byteLength front := sum_cons
              omega
          · cases h

theorem byteLength_append (front rest : List Char) :
    byteLength (front ++ rest) = byteLength front + byteLength rest := by
  simp [byteLength]

/-- The place behind the next character. -/
theorem sliceFrom_next {cs rest : List Char} {c : Char} {n : ℕ}
    (h : sliceFrom cs n = some (c :: rest)) : sliceFrom cs (n + c.utf8Size) = some rest := by
  obtain ⟨front, rfl, rfl⟩ := sliceFrom_eq_some h
  have hplace : byteLength front + c.utf8Size = byteLength (front ++ [c]) := by
    rw [byteLength_append]
    rfl
  rw [hplace, show front ++ c :: rest = front ++ [c] ++ rest by simp]
  exact sliceFrom_append _ _

end Text
