import Mathlib.Data.List.Induction
import Mathlib.Data.List.Sort

/-!
# Lists under ordered keys

What a map from ordered keys to lists shows: its keys in order, each with its list, and no list
empty.  A value is pushed at the end of the list of its key, and values are drained from the
front of the first lists.  The values, list after list, are those that were pushed in the stable
order of their keys.
-/

universe u v

structure Groups (κ : Type u) [LinearOrder κ] (α : Type v) where
  entries : List (κ × List α)
  sorted : entries.Pairwise fun e e' => e.1 < e'.1
  ne_nil : ∀ e ∈ entries, e.2 ≠ []

namespace Groups

open List

variable {κ : Type u} [LinearOrder κ] {α : Type v}

/-! ## Operations -/

def empty : Groups κ α := ⟨[], .nil, nofun⟩

def pushEntry (key : κ) (a : α) : List (κ × List α) → List (κ × List α)
  | [] => [(key, [a])]
  | e :: es =>
    if key < e.1 then (key, [a]) :: e :: es
    else if key = e.1 then (e.1, e.2 ++ [a]) :: es
    else e :: pushEntry key a es

def drainEntries : ℕ → List (κ × List α) → List (κ × List α)
  | _, [] => []
  | n, e :: es =>
    if n = 0 then e :: es
    else
      let rest := e.2.drop (min n e.2.length)
      if rest = [] then drainEntries (n - min n e.2.length) es
      else (e.1, rest) :: drainEntries (n - min n e.2.length) es

theorem key_of_mem_pushEntry {key : κ} {a : α} {es : List (κ × List α)} {x : κ × List α}
    (h : x ∈ pushEntry key a es) :
    x ∈ es ∨ x.1 = key ∧ (x.2 = [a] ∨ ∃ as, (key, as) ∈ es ∧ x.2 = as ++ [a]) := by
  induction es with
  | nil =>
      rw [mem_singleton.mp h]
      exact .inr ⟨rfl, .inl rfl⟩
  | cons e es ih =>
      rw [pushEntry] at h
      split at h
      · rcases mem_cons.mp h with rfl | h
        · exact .inr ⟨rfl, .inl rfl⟩
        · exact .inl h
      · split at h
        · next hkey =>
            rcases mem_cons.mp h with rfl | h
            · exact .inr ⟨hkey.symm, .inr ⟨e.2, hkey ▸ mem_cons_self, rfl⟩⟩
            · exact .inl (.tail _ h)
        · rcases mem_cons.mp h with rfl | h
          · exact .inl (.head _)
          · obtain h | ⟨hkey, h | ⟨as, has, h⟩⟩ := ih h
            · exact .inl (.tail _ h)
            · exact .inr ⟨hkey, .inl h⟩
            · exact .inr ⟨hkey, .inr ⟨as, .tail _ has, h⟩⟩

theorem pairwise_pushEntry {key : κ} {a : α} {es : List (κ × List α)}
    (h : es.Pairwise fun e e' => e.1 < e'.1) :
    (pushEntry key a es).Pairwise fun e e' => e.1 < e'.1 := by
  induction es with
  | nil => exact pairwise_singleton _ _
  | cons e es ih =>
      obtain ⟨hhead, htail⟩ := pairwise_cons.mp h
      rw [pushEntry]
      split
      · next hlt =>
          refine pairwise_cons.mpr ⟨forall_mem_cons.mpr ⟨hlt, ?_⟩, h⟩
          exact fun x hx => hlt.trans (hhead x hx)
      · next hlt =>
          split
          · exact pairwise_cons.mpr ⟨hhead, htail⟩
          · next hne =>
              refine pairwise_cons.mpr ⟨fun x hx => ?_, ih htail⟩
              obtain hx | ⟨hkey, -⟩ := key_of_mem_pushEntry hx
              · exact hhead x hx
              · rw [hkey]
                exact lt_of_le_of_ne (not_lt.mp hlt) fun heq => hne heq.symm

def push (g : Groups κ α) (key : κ) (a : α) : Groups κ α where
  entries := pushEntry key a g.entries
  sorted := pairwise_pushEntry g.sorted
  ne_nil e he := by
    obtain he | ⟨-, h | ⟨as, -, h⟩⟩ := key_of_mem_pushEntry he
    · exact g.ne_nil e he
    · rw [h]
      exact List.cons_ne_nil _ _
    · rw [h]
      exact List.append_ne_nil_of_right_ne_nil _ (List.cons_ne_nil _ _)

omit [LinearOrder κ] in
theorem mem_drainEntries {n : ℕ} {es : List (κ × List α)} {x : κ × List α}
    (h : x ∈ drainEntries n es) : x.2 ≠ [] ∧ (∃ as, (x.1, as) ∈ es ∧ x.2 <:+ as) ∨ x ∈ es := by
  induction es generalizing n with
  | nil => cases h
  | cons e es ih =>
      rw [drainEntries] at h
      have htail : ∀ {n}, x ∈ drainEntries n es →
          x.2 ≠ [] ∧ (∃ as, (x.1, as) ∈ e :: es ∧ x.2 <:+ as) ∨ x ∈ e :: es := fun h =>
        (ih h).imp (fun ⟨hne, as, has, hsuffix⟩ => ⟨hne, as, .tail _ has, hsuffix⟩)
          (mem_cons_of_mem _)
      split at h
      · exact .inr h
      · dsimp only at h
        split at h
        · exact htail h
        · next hrest =>
            rcases mem_cons.mp h with rfl | h
            · exact .inl ⟨hrest, e.2, mem_cons_self, drop_suffix _ _⟩
            · exact htail h

omit [LinearOrder κ] in
theorem keys_drainEntries (n : ℕ) (es : List (κ × List α)) :
    ((drainEntries n es).map Prod.fst).Sublist (es.map Prod.fst) := by
  induction es generalizing n with
  | nil => exact .slnil
  | cons e es ih =>
      rw [drainEntries]
      split
      · exact List.Sublist.refl _
      · dsimp only
        split
        · exact (ih _).cons _
        · exact (ih _).cons_cons _

def drain (g : Groups κ α) (n : ℕ) : Groups κ α where
  entries := drainEntries n g.entries
  sorted := List.pairwise_map.mp ((List.pairwise_map.mpr g.sorted).sublist (keys_drainEntries n _))
  ne_nil e he := by
    obtain ⟨hne, -⟩ | he := mem_drainEntries he
    · exact hne
    · exact g.ne_nil e he

/-! ## The values in order -/

def values (g : Groups κ α) : List α := g.entries.flatMap Prod.snd

/-- The values with their keys in a range. -/
def between (g : Groups κ α) (low high : κ) : List α :=
  (g.entries.filter fun e => low ≤ e.1 ∧ e.1 < high).flatMap Prod.snd

variable (f : α → κ)

/-- Every value is under its own key. -/
def Keyed (g : Groups κ α) : Prop := ∀ e ∈ g.entries, ∀ a ∈ e.2, f a = e.1

/-- A value behind those of a key that is not above its own. -/
def place (a : α) (as : List α) : List α := as.orderedInsert (fun x y => f x < f y) a

/-- Values in the order of their keys, and in their own order where these agree. -/
def arrange (as : List α) : List α := as.foldl (fun placed a => place f a placed) []

variable {f}

theorem keyed_empty : Keyed f (empty : Groups κ α) := nofun

theorem Keyed.push {g : Groups κ α} (h : g.Keyed f) (a : α) : (g.push (f a) a).Keyed f := by
  intro e he b hb
  obtain he | ⟨hkey, hone | ⟨as, has, happend⟩⟩ := key_of_mem_pushEntry he
  · exact h e he b hb
  · rw [hone, mem_singleton] at hb
    rw [hb, hkey]
  · rw [happend] at hb
    rcases mem_append.mp hb with hb | hb
    · exact (h _ has b hb).trans hkey.symm
    · rw [mem_singleton.mp hb, hkey]

theorem Keyed.drain {g : Groups κ α} (h : g.Keyed f) (n : ℕ) : (g.drain n).Keyed f := by
  intro e he b hb
  obtain ⟨-, as, has, hsuffix⟩ | he := mem_drainEntries he
  · exact h _ has b (hsuffix.subset hb)
  · exact h e he b hb

theorem place_append {a : α} {front back : List α} (h : ∀ b ∈ front, ¬f a < f b) :
    place f a (front ++ back) = front ++ place f a back := by
  induction front with
  | nil => rfl
  | cons b front ih =>
      obtain ⟨hb, hfront⟩ := forall_mem_cons.mp h
      exact (if_neg hb).trans (congrArg (b :: ·) (ih hfront))

theorem place_of_lt {a : α} {as : List α} (h : ∀ b ∈ as, f a < f b) : place f a as = a :: as := by
  cases as with
  | nil => rfl
  | cons b as => exact if_pos (h b (.head _))

theorem values_pushEntry {es : List (κ × List α)} (hsorted : es.Pairwise fun e e' => e.1 < e'.1)
    (hkeyed : ∀ e ∈ es, ∀ a ∈ e.2, f a = e.1) (a : α) :
    (pushEntry (f a) a es).flatMap Prod.snd = place f a (es.flatMap Prod.snd) := by
  induction es with
  | nil => rfl
  | cons e es ih =>
      obtain ⟨hhead, htail⟩ := pairwise_cons.mp hsorted
      obtain ⟨hfirst, hrest⟩ := forall_mem_cons.mp hkeyed
      have hbehind : ∀ b ∈ es.flatMap Prod.snd, e.1 < f b := by
        intro b hb
        obtain ⟨x, hx, hb⟩ := mem_flatMap.mp hb
        rw [hrest x hx b hb]
        exact hhead x hx
      rw [pushEntry, flatMap_cons]
      split
      · next hlt =>
          rw [place_of_lt]
          · rfl
          · intro b hb
            rcases mem_append.mp hb with hb | hb
            · rwa [hfirst b hb]
            · exact hlt.trans (hbehind b hb)
      · next hlt =>
          rw [place_append fun b hb => by rwa [hfirst b hb]]
          split
          · next heq =>
              rw [place_of_lt (heq ▸ hbehind), flatMap_cons, append_assoc]
              rfl
          · rw [flatMap_cons, ih htail hrest]

theorem Keyed.values_push {g : Groups κ α} (h : g.Keyed f) (a : α) :
    (g.push (f a) a).values = place f a g.values := values_pushEntry g.sorted h a

theorem values_drain (g : Groups κ α) (n : ℕ) : (g.drain n).values = g.values.drop n := by
  change (drainEntries n g.entries).flatMap Prod.snd = (g.entries.flatMap Prod.snd).drop n
  induction g.entries generalizing n with
  | nil => exact drop_nil.symm
  | cons e es ih =>
      rw [drainEntries]
      split
      · next hzero =>
          rw [hzero]
          rfl
      · have hdrop : e.2.drop (min n e.2.length) = e.2.drop n := by
          rcases Nat.le_total n e.2.length with hle | hle
          · rw [Nat.min_eq_left hle]
          · rw [Nat.min_eq_right hle, drop_length, drop_eq_nil_of_le hle]
        have hleft : n - min n e.2.length = n - e.2.length := by omega
        dsimp only
        rw [flatMap_cons, drop_append, hdrop, hleft, ← ih]
        split
        · next hnil =>
            rw [hnil]
            rfl
        · rfl

theorem Keyed.between_eq {g : Groups κ α} (h : g.Keyed f) (low high : κ) :
    g.between low high = g.values.filter fun a => low ≤ f a ∧ f a < high := by
  unfold between values
  unfold Keyed at h
  revert h
  induction g.entries with
  | nil => exact fun _ => rfl
  | cons e es ih =>
      intro h
      obtain ⟨hfirst, hrest⟩ := forall_mem_cons.mp h
      have hsame : e.2.filter (fun a => low ≤ f a ∧ f a < high) =
          e.2.filter fun _ => low ≤ e.1 ∧ e.1 < high :=
        filter_congr fun a ha => by rw [hfirst a ha]
      rw [flatMap_cons, filter_append, ← ih hrest, hsame, filter_cons]
      cases decide (low ≤ e.1 ∧ e.1 < high) with
      | true => rw [if_pos rfl, flatMap_cons, filter_true]
      | false => rw [if_neg Bool.false_ne_true, filter_false, nil_append]

theorem filter_flatMap {es : List (κ × List α)} {e : κ × List α}
    (hsorted : es.Pairwise fun e e' => e.1 < e'.1) (hkeyed : ∀ e ∈ es, ∀ a ∈ e.2, f a = e.1)
    (he : e ∈ es) : (es.flatMap Prod.snd).filter (fun a => f a = e.1) = e.2 := by
  induction es with
  | nil => cases he
  | cons x es ih =>
      obtain ⟨hhead, htail⟩ := pairwise_cons.mp hsorted
      obtain ⟨hfirst, hrest⟩ := forall_mem_cons.mp hkeyed
      rw [flatMap_cons, filter_append]
      rcases mem_cons.mp he with rfl | he
      · rw [filter_eq_self.mpr fun a ha => decide_eq_true (hfirst a ha),
          filter_eq_nil_iff.mpr, append_nil]
        intro a ha
        obtain ⟨y, hy, ha⟩ := mem_flatMap.mp ha
        rw [hrest y hy a ha, decide_eq_true_eq]
        exact (hhead y hy).ne'
      · rw [ih htail hrest he, filter_eq_nil_iff.mpr, nil_append]
        intro a ha
        rw [hfirst a ha, decide_eq_true_eq]
        exact (hhead e he).ne

/-- The list of a key is what there is under it. -/
theorem Keyed.mem_entries_iff {g : Groups κ α} (h : g.Keyed f) {key : κ} {as : List α} :
    (key, as) ∈ g.entries ↔ as ≠ [] ∧ as = g.values.filter fun a => f a = key := by
  constructor
  · exact fun he => ⟨g.ne_nil _ he, (filter_flatMap g.sorted h he).symm⟩
  · rintro ⟨hne, has⟩
    obtain ⟨a, ha⟩ := exists_mem_of_ne_nil as hne
    rw [has, mem_filter, decide_eq_true_eq] at ha
    obtain ⟨e, he, hmem⟩ := mem_flatMap.mp ha.1
    obtain rfl : e.1 = key := (h e he a hmem).symm.trans ha.2
    have hsecond : as = e.2 := has.trans (filter_flatMap g.sorted h he)
    rw [hsecond]
    exact he

/-! ## Placing and dropping -/

theorem perm_place (a : α) (as : List α) : (place f a as).Perm (a :: as) :=
  perm_orderedInsert _ a as

theorem exists_place (a : α) {as : List α} (h : as.Pairwise fun b c => f b ≤ f c) :
    ∃ front back, as = front ++ back ∧ (∀ b ∈ front, f b ≤ f a) ∧ (∀ b ∈ back, f a < f b) ∧
      place f a as = front ++ a :: back := by
  induction as with
  | nil => exact ⟨[], [], rfl, forall_mem_nil _, forall_mem_nil _, rfl⟩
  | cons b as ih =>
      obtain ⟨hhead, htail⟩ := pairwise_cons.mp h
      by_cases hlt : f a < f b
      · refine ⟨[], b :: as, rfl, forall_mem_nil _, forall_mem_cons.mpr ⟨hlt, ?_⟩,
          if_pos hlt⟩
        exact fun c hc => hlt.trans_le (hhead c hc)
      · obtain ⟨front, back, hsplit, hfront, hback, hplace⟩ := ih htail
        exact ⟨b :: front, back, congrArg (b :: ·) hsplit,
          forall_mem_cons.mpr ⟨not_lt.mp hlt, hfront⟩, hback,
          (if_neg hlt).trans (congrArg (b :: ·) hplace)⟩

theorem pairwise_place (a : α) {as : List α} (h : as.Pairwise fun b c => f b ≤ f c) :
    (place f a as).Pairwise fun b c => f b ≤ f c := by
  obtain ⟨front, back, hsplit, hfront, hback, hplace⟩ := exists_place a h
  rw [hsplit] at h
  obtain ⟨hleft, hright, hacross⟩ := pairwise_append.mp h
  rw [hplace]
  refine pairwise_append.mpr ⟨hleft, pairwise_cons.mpr ⟨?_, hright⟩, fun b hb => ?_⟩
  · exact fun b hb => (hback b hb).le
  · exact forall_mem_cons.mpr ⟨hfront b hb, hacross b hb⟩

/-- Dropping first does not matter, but for one value more to drop. -/
theorem drop_place (a : α) (n : ℕ) {as : List α} (h : as.Pairwise fun b c => f b ≤ f c) :
    (place f a (as.drop n)).drop 1 = (place f a as).drop (n + 1) := by
  induction n generalizing as with
  | zero => rfl
  | succ n ih =>
      cases as with
      | nil => rfl
      | cons b as =>
          obtain ⟨hhead, htail⟩ := pairwise_cons.mp h
          rw [drop_succ_cons]
          by_cases hlt : f a < f b
          · have hplace : place f a (b :: as) = a :: b :: as := if_pos hlt
            rw [hplace, place_of_lt fun c hc => hlt.trans_le (hhead c (mem_of_mem_drop hc))]
            rfl
          · have hplace : place f a (b :: as) = b :: place f a as := if_neg hlt
            rw [hplace, ih htail]
            rfl

theorem arrange_concat (as : List α) (a : α) : arrange f (as ++ [a]) = place f a (arrange f as) :=
  foldl_concat _ _ _ _

theorem perm_arrange (as : List α) : (arrange f as).Perm as := by
  induction as using reverseRecOn with
  | nil => exact .nil
  | append_singleton as a ih =>
      rw [arrange_concat]
      exact ((perm_place a _).trans (ih.cons a)).trans (perm_append_singleton a as).symm

theorem pairwise_arrange (as : List α) : (arrange f as).Pairwise fun a b => f a ≤ f b := by
  induction as using reverseRecOn with
  | nil => exact .nil
  | append_singleton as a ih =>
      rw [arrange_concat]
      exact pairwise_place a ih

/-- The values of one key keep their order. -/
theorem filter_arrange (key : κ) (as : List α) :
    (arrange f as).filter (fun a => f a = key) = as.filter fun a => f a = key := by
  induction as using reverseRecOn with
  | nil => rfl
  | append_singleton as a ih =>
      obtain ⟨front, back, hsplit, -, hback, hplace⟩ :=
        exists_place (f := f) a (pairwise_arrange as)
      rw [arrange_concat, hplace, filter_append, filter_append, ← ih, hsplit,
        filter_append, append_assoc]
      refine congrArg _ ?_
      by_cases hkey : f a = key
      · have hnone : back.filter (fun b => f b = key) = [] := by
          refine filter_eq_nil_iff.mpr fun b hb => ?_
          rw [decide_eq_true_eq, ← hkey]
          exact (hback b hb).ne'
        simp only [filter_cons, hkey, decide_true, if_true, hnone, filter_nil,
          nil_append]
      · simp only [filter_cons, hkey, decide_false, Bool.false_eq_true, if_false,
          filter_nil, append_nil]

end Groups
