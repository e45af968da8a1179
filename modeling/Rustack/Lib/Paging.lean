import Mathlib.Algebra.BigOperators.Group.List.Basic
import Mathlib.Algebra.Order.Ring.Int

/-!
# Reading a long list page by page

Two parts.  A page takes elements while a size budget lasts, but always one,
and not more than a count.  A reader follows the cursor that comes with a page
until there is none; if every cursor stands for the part of the list that is
still to come, the pages put together are the list.
-/

universe u v

namespace Paging

open List

section Page

variable {α : Type u} (size : α → ℕ) (budget : ℕ)

/-- Take elements until the next one would go over the budget; `true` if one did.
The first element of a page is taken whatever its size. -/
def fill (used : ℕ) (first : Bool) : List α → List α × Bool
  | [] => ([], false)
  | x :: xs =>
    if !first && budget < used + size x then ([], true)
    else
      let (selected, sizeLimited) := fill (used + size x) false xs
      (x :: selected, sizeLimited)

/-- The page at the front of `items`: what is selected and whether more is to come. -/
def page (limit : Option ℕ) (items : List α) : List α × Bool :=
  let candidates := match limit with
    | some n => items.take n
    | none => items
  let (selected, sizeLimited) := fill size budget 0 true candidates
  let countLimited := !sizeLimited && match limit with
    | some n => selected.length == n && decide (n < items.length)
    | none => false
  (selected, sizeLimited || countLimited)

variable {size budget}

theorem fill_isPrefix (used : ℕ) (first : Bool) (items : List α) :
    (fill size budget used first items).1 <+: items := by
  induction items generalizing used first with
  | nil => exact prefix_rfl
  | cons x xs ih =>
      unfold fill
      split
      · exact nil_prefix
      · exact (prefix_cons_inj x).mpr (ih _ _)

theorem fill_snd_iff (used : ℕ) (first : Bool) (items : List α) :
    (fill size budget used first items).2 = true ↔
      (fill size budget used first items).1 ≠ items := by
  induction items generalizing used first with
  | nil => simp [fill]
  | cons x xs ih =>
      unfold fill
      split
      · simp
      · simpa using ih (used + size x) false

/-- Everything fits: no element was turned away. -/
theorem fill_eq_self_iff (used : ℕ) (first : Bool) (items : List α) :
    (fill size budget used first items).1 = items ↔
      used + (items.map size).sum ≤ budget ∨ items = [] ∨ first = true ∧ items.length = 1 := by
  induction items generalizing used first with
  | nil => simp [fill]
  | cons x xs ih =>
      have htail := ih (used + size x) false
      have hnil : (xs.map size).sum = 0 ∨ xs ≠ [] := by
        cases xs <;> simp
      unfold fill
      split
      · next h =>
          simp only [Bool.and_eq_true, Bool.not_eq_true', decide_eq_true_eq] at h
          simp [h.1]
          omega
      · next h =>
          simp only [cons.injEq, true_and, htail, map_cons, sum_cons]
          cases first with
          | true =>
              cases xs with
              | nil => simp
              | cons y ys => simp [Nat.add_assoc]
          | false =>
              simp at h
              cases xs with
              | nil => simp; omega
              | cons y ys => simp [Nat.add_assoc]

/-- An element is taken if it is the first, or fits with all before it. -/
theorem fill_take_iff (used : ℕ) (first : Bool) (pre post : List α) (x : α) :
    pre ++ [x] <+: (fill size budget used first (pre ++ x :: post)).1 ↔
      first = true ∧ pre = [] ∨ used + (pre.map size).sum + size x ≤ budget := by
  induction pre generalizing used first with
  | nil =>
      simp only [nil_append, map_nil, sum_nil, Nat.add_zero, and_true]
      unfold fill
      split_ifs with h
      · simp only [Bool.and_eq_true, Bool.not_eq_true', decide_eq_true_eq] at h
        simp [h.1]
        omega
      · simp only [Bool.and_eq_true, Bool.not_eq_true', decide_eq_true_eq, not_and] at h
        simp only [prefix_cons_inj, nil_prefix, true_iff]
        cases first with
        | true => exact .inl rfl
        | false => exact .inr (by have := h rfl; omega)
  | cons y pre ih =>
      simp only [cons_append, map_cons, sum_cons, reduceCtorEq, and_false, false_or]
      unfold fill
      split_ifs with h
      · simp only [Bool.and_eq_true, Bool.not_eq_true', decide_eq_true_eq] at h
        simp
        omega
      · rw [prefix_cons_inj, ih (used + size y) false]
        simp only [Bool.false_eq_true, false_and, false_or]
        omega

variable (size budget)

theorem page_isPrefix (limit : Option ℕ) (items : List α) :
    (page size budget limit items).1 <+: items := by
  cases limit with
  | none => exact fill_isPrefix 0 true items
  | some n => exact (fill_isPrefix 0 true _).trans ( take_prefix n items)

/-- A page says that more is to come exactly when it leaves something out. -/
theorem page_snd_iff (limit : Option ℕ) (items : List α) :
    (page size budget limit items).2 = true ↔
      (page size budget limit items).1.length < items.length := by
  have hlength : ∀ {l l' : List α}, l <+: l' → (l ≠ l' ↔ l.length < l'.length) := by
    intro l l' h
    refine ⟨fun hne => Nat.lt_of_le_of_ne h.length_le fun heq => hne (h.eq_of_length heq), ?_⟩
    rintro hlt rfl
    exact Nat.lt_irrefl _ hlt
  cases limit with
  | none =>
      simp only [page, Bool.and_false, Bool.or_false]
      rw [fill_snd_iff, hlength (fill_isPrefix 0 true items)]
  | some n =>
      simp only [page]
      have hpre : (fill size budget 0 true (items.take n)).1 <+: items.take n :=
        fill_isPrefix 0 true _
      have hlen := hpre.length_le
      rw [length_take] at hlen
      cases hlimited : (fill size budget 0 true (items.take n)).2 with
      | true =>
          have hne := (fill_snd_iff 0 true _).mp hlimited
          have hlt := (hlength hpre).mp hne
          rw [length_take] at hlt
          simp only [Bool.true_or, true_iff]
          omega
      | false =>
          have hall : (fill size budget 0 true (items.take n)).1 = items.take n := by
            by_contra hne
            rw [(fill_snd_iff 0 true _).mpr hne] at hlimited
            exact Bool.noConfusion hlimited
          simp only [Bool.false_or, Bool.not_false, Bool.true_and, hall, length_take,
            Bool.and_eq_true, beq_iff_eq, decide_eq_true_eq]
          omega

theorem page_ne_nil {limit : Option ℕ} {items : List α} (hlimit : limit ≠ some 0)
    (hitems : items ≠ []) : (page size budget limit items).1 ≠ [] := by
  obtain ⟨x, xs, rfl⟩ := exists_cons_of_ne_nil hitems
  cases limit with
  | none => simp [page, fill]
  | some n =>
      cases n with
      | zero => exact absurd rfl hlimit
      | succ n => simp [page, fill]

end Page

section Follow

variable {α : Type u} {C : Type v} (next : ℕ → Option C → List α × Option C)

/-- Read on from `cursor` until a page comes without one; `none` if the fuel does
not last.  Page `i` may be read with its own limit, so `next` sees its number. -/
def follow : ℕ → ℕ → Option C → Option (List α)
  | 0, _, _ => none
  | fuel + 1, i, cursor =>
    match next i cursor with
    | (items, none) => some items
    | (items, some cursor') => (follow fuel (i + 1) (some cursor')).map (items ++ ·)

variable {next} {denotes : Option C → List α → Prop}

/-- If a cursor that denotes a list gets a page of its front and a cursor that
denotes what is left, reading on terminates with the whole list. -/
theorem follow_eq
    (hnext : ∀ i cursor rest, denotes cursor rest →
      (next i cursor).2 = none ∧ (next i cursor).1 = rest ∨
      ∃ cursor' rest', (next i cursor).2 = some cursor' ∧ denotes (some cursor') rest' ∧
        (next i cursor).1 ≠ [] ∧ rest = (next i cursor).1 ++ rest')
    {fuel i : ℕ} {cursor : Option C} {rest : List α} (hrest : denotes cursor rest)
    (hfuel : rest.length < fuel) : follow next fuel i cursor = some rest := by
  induction fuel generalizing i cursor rest with
  | zero => omega
  | succ fuel ih =>
      have hstep := hnext i cursor rest hrest
      unfold follow
      cases hpage : next i cursor with
      | mk items last =>
          simp only [hpage] at hstep
          rcases hstep with ⟨rfl, rfl⟩ | ⟨cursor', rest', rfl, hden, hne, rfl⟩
          · rfl
          · have hpos : 0 < items.length := length_pos_iff.mpr hne
            rw [length_append] at hfuel
            simp only [ih hden (by omega), Option.map_some]

/-- Reading on does the same with what the elements of a page are turned into. -/
theorem follow_filterMap {β : Type*} (f : α → Option β) (fuel i : ℕ) (cursor : Option C) :
    follow (fun i cursor => ((next i cursor).1.filterMap f, (next i cursor).2)) fuel i cursor =
      (follow next fuel i cursor).map (filterMap f) := by
  induction fuel generalizing i cursor with
  | zero => rfl
  | succ fuel ih =>
      unfold follow
      cases hpage : next i cursor with
      | mk items last =>
          cases last with
          | none => simp only [Option.map_some]
          | some cursor' =>
              simp only [ih, Option.map_map]
              refine congrArg (fun g => Option.map g _) (funext fun rest => ?_)
              exact filterMap_append.symm

end Follow

/-! ## Pages by position

A page begins at a position and has some number of elements.  The cursor that comes with a page
that leaves something out names an element, from which the next page tells its position. -/

section Slices

variable {α : Type u} {C : Type v} (xs : List α) (limit : ℕ)

/-- The elements of a page that begins at a position, and whether more are to come. -/
def slice (start : ℕ) : List α × Bool :=
  ((xs.drop start).take limit, decide (min (start + limit) xs.length < xs.length))

variable (key : α → C) (start : Option C → ℕ)

/-- The cursor names the last element of the page. -/
def nextByLast (cursor : Option C) : List α × Option C :=
  let (items, more) := slice xs limit (start cursor)
  (items, if more then items.getLast?.map key else none)

/-- The cursor names the first element of the next page. -/
def nextByFirst (cursor : Option C) : List α × Option C :=
  let (items, more) := slice xs limit (start cursor)
  (items, if more then xs[min (start cursor + limit) xs.length]?.map key else none)

variable {xs limit key start}

/-- A cursor stands behind the element that it names. -/
def Behind (xs : List α) (key : α → C) (start : Option C → ℕ) : Prop :=
  ∀ i x, xs[i]? = some x → start (some (key x)) = i + 1

theorem slice_more {n : ℕ} : (slice xs limit n).2 = true ↔ n + limit < xs.length := by
  unfold slice
  rw [decide_eq_true_eq]
  omega

/-- Where a cursor names the last element of a page and the next page begins behind it, the
pages are the list. -/
theorem follow_byLast (hbehind : Behind xs key start) (hstart : start none = 0)
    (hlimit : 0 < limit) {fuel : ℕ} (hfuel : xs.length < fuel) :
    follow (fun _ => nextByLast xs limit key start) fuel 0 none = some xs := by
  let denotes : Option C → List α → Prop := fun cursor rest => rest = xs.drop (start cursor)
  have hfirst : denotes none xs := by
    change xs = xs.drop (start none)
    rw [hstart, drop_zero]
  refine follow_eq ?_ hfirst hfuel
  rintro - cursor rest rfl
  by_cases hmore : start cursor + limit < xs.length
  · right
    have hlast : ((xs.drop (start cursor)).take limit).getLast? =
        xs[start cursor + limit - 1]? := by
      rw [getLast?_take, if_neg hlimit.ne', getElem?_drop,
        show start cursor + (limit - 1) = start cursor + limit - 1 by omega,
        getElem?_eq_getElem (by omega), Option.some_or]
    have hx := getElem?_eq_getElem (show start cursor + limit - 1 < xs.length by omega)
    refine ⟨key xs[start cursor + limit - 1], xs.drop (start cursor + limit), ?_, ?_, ?_, ?_⟩
    · unfold nextByLast
      simp only [slice_more.mpr hmore, if_true]
      exact (congrArg (Option.map key) (hlast.trans hx)).trans rfl
    · have hstart' := hbehind _ _ hx
      change xs.drop (start cursor + limit) = xs.drop (start _)
      rw [hstart', show start cursor + limit - 1 + 1 = start cursor + limit by omega]
    · intro hnil
      have hlength := congrArg length hnil
      change ((xs.drop (start cursor)).take limit).length = 0 at hlength
      rw [length_take, length_drop] at hlength
      omega
    · rw [← drop_drop]
      exact (take_append_drop limit _).symm
  · left
    have hnone : (slice xs limit (start cursor)).2 = false :=
      Bool.eq_false_iff.mpr fun h => hmore (slice_more.mp h)
    unfold nextByLast
    simp only [hnone, Bool.false_eq_true, if_false, true_and]
    refine take_of_length_le ?_
    rw [length_drop]
    omega

/-- Where a cursor names the first element of the next page, but that page begins behind it, a
list that is longer than a page loses an element with every page. -/
theorem follow_byFirst_length_le (hbehind : Behind xs key start) {fuel i : ℕ} {cursor : Option C}
    {items : List α}
    (h : follow (fun _ => nextByFirst xs limit key start) fuel i cursor = some items)
    (hmore : start cursor + limit < xs.length) : items.length + start cursor < xs.length := by
  induction fuel generalizing i cursor items with
  | zero => cases h
  | succ fuel ih =>
      have hx := getElem?_eq_getElem hmore
      have hnext : nextByFirst xs limit key start cursor =
          ((xs.drop (start cursor)).take limit, some (key xs[start cursor + limit])) := by
        unfold nextByFirst
        simp only [slice_more.mpr hmore, if_true]
        rw [show min (start cursor + limit) xs.length = start cursor + limit by omega, hx]
        rfl
      unfold follow at h
      simp only [hnext] at h
      obtain ⟨rest, hrest, rfl⟩ := Option.map_eq_some_iff.mp h
      have hfirst : ((xs.drop (start cursor)).take limit).length = limit := by
        rw [length_take, length_drop]
        omega
      have hstart := hbehind _ _ hx
      rw [length_append, hfirst]
      by_cases hagain : start cursor + limit + 1 + limit < xs.length
      · have hlt := ih hrest (by rw [hstart]; exact hagain)
        rw [hstart] at hlt
        omega
      · cases fuel with
        | zero => cases hrest
        | succ fuel =>
            have hnone : (slice xs limit (start (some (key xs[start cursor + limit])))).2 = false :=
              Bool.eq_false_iff.mpr fun h => hagain (by rw [hstart] at h; exact slice_more.mp h)
            unfold follow nextByFirst at hrest
            simp only [hnone, Bool.false_eq_true, if_false, Option.some.injEq] at hrest
            rw [← hrest]
            unfold slice
            rw [hstart, length_take, length_drop]
            omega

/-- A single page is the whole list. -/
theorem follow_byFirst (hstart : start none = 0) (hshort : xs.length ≤ limit) {fuel : ℕ}
    (hfuel : 0 < fuel) :
    follow (fun _ => nextByFirst xs limit key start) fuel 0 none = some xs := by
  obtain ⟨fuel, rfl⟩ := Nat.exists_eq_succ_of_ne_zero hfuel.ne'
  have hnone : (slice xs limit 0).2 = false :=
    Bool.eq_false_iff.mpr fun h => by have := slice_more.mp h; omega
  unfold follow nextByFirst
  simp only [hstart, hnone, Bool.false_eq_true, if_false, Option.some.injEq]
  exact take_of_length_le hshort

end Slices

end Paging
