import Mathlib.Data.List.Nodup

/-!
# Pages of a listing with groups

A listing walks over entries in order.  Some are shown one by one, others stand
together under the name of their group.  A page ends in front of the item that
no longer fits; a group takes no room and is named once a page.  The next page
starts behind what the last item of the page stands for, so what lies between
that item and the end of the page is walked over twice.
-/

universe u v w x

namespace GroupedPages

open List GroupedPages

inductive Entry (γ : Type u) (α : Type v) where
  | group (name : γ)
  | item (value : α)

structure Page (γ : Type u) (α : Type v) where
  items : List α
  groups : List γ
  truncated : Bool

variable {γ : Type u} {α : Type v}

def items : List (Entry γ α) → List α
  | [] => []
  | .group _ :: es => items es
  | .item a :: es => a :: items es

/-- The entries in front of item number `n`. -/
def front : ℕ → List (Entry γ α) → List (Entry γ α)
  | _, [] => []
  | n, .group g :: es => .group g :: front n es
  | 0, .item _ :: _ => []
  | n + 1, .item a :: es => .item a :: front n es

/-- The entries behind the first `n` items. -/
def behind : ℕ → List (Entry γ α) → List (Entry γ α)
  | 0, es => es
  | _ + 1, [] => []
  | n + 1, .group _ :: es => behind (n + 1) es
  | n + 1, .item _ :: es => behind n es

@[simp] theorem behind_nil (n : ℕ) : behind n ([] : List (Entry γ α)) = [] := by
  cases n <;> rfl

@[simp] theorem behind_zero (es : List (Entry γ α)) : behind 0 es = es := by
  cases es <;> rfl

theorem items_append (es es' : List (Entry γ α)) : items (es ++ es') = items es ++ items es' := by
  induction es with
  | nil => rfl
  | cons e es ih => cases e <;> simp [items, ih]

theorem items_behind (n : ℕ) (es : List (Entry γ α)) : items (behind n es) = (items es).drop n := by
  induction es generalizing n with
  | nil => simp [items]
  | cons e es ih =>
      cases n with
      | zero => rfl
      | succ n => cases e <;> simp [behind, items, ih]

theorem behind_behind (m n : ℕ) (es : List (Entry γ α)) :
    behind n (behind m es) = behind (m + n) es := by
  induction es generalizing m n with
  | nil => simp
  | cons e es ih =>
      cases m with
      | zero => rw [Nat.zero_add]; rfl
      | succ m =>
          rw [Nat.add_right_comm]
          cases e with
          | group g =>
              simp only [behind]
              rw [ih, Nat.add_right_comm]
          | item a =>
              simp only [behind]
              rw [ih]

theorem behind_append_of_le {n : ℕ} {es es' : List (Entry γ α)} (h : n ≤ (items es).length) :
    behind n (es ++ es') = behind n es ++ es' := by
  induction es generalizing n with
  | nil =>
      obtain rfl : n = 0 := Nat.le_zero.mp h
      simp
  | cons e es ih =>
      cases n with
      | zero => simp
      | succ n =>
          cases e with
          | group g => exact ih h
          | item a => exact ih (Nat.le_of_succ_le_succ h)

theorem behind_append_of_lt {n : ℕ} {es es' : List (Entry γ α)} (h : (items es).length < n) :
    behind n (es ++ es') = behind (n - (items es).length) es' := by
  induction es generalizing n with
  | nil => simp [items]
  | cons e es ih =>
      obtain ⟨n, rfl⟩ : ∃ m, n = m + 1 := ⟨n - 1, by omega⟩
      cases e with
      | group g => exact ih h
      | item a =>
          rw [cons_append, behind, ih (Nat.lt_of_succ_lt_succ h), items, length_cons,
            Nat.add_sub_add_right]

theorem items_map_item (as : List α) : items (as.map (Entry.item (γ := γ))) = as := by
  induction as with
  | nil => rfl
  | cons a as ih => rw [map_cons, items, ih]

theorem behind_map_item (n : ℕ) (as : List α) :
    behind n (as.map (Entry.item (γ := γ))) = (as.drop n).map .item := by
  induction as generalizing n with
  | nil => simp
  | cons a as ih =>
      cases n with
      | zero => simp
      | succ n => exact ih n

/-- Show something else of every item. -/
def Entry.map {β : Type x} (f : α → β) : Entry γ α → Entry γ β
  | .group g => .group g
  | .item a => .item (f a)

theorem items_map {β : Type x} (f : α → β) (es : List (Entry γ α)) :
    items (es.map (Entry.map f)) = (items es).map f := by
  induction es with
  | nil => rfl
  | cons e es ih => cases e <;> simp [Entry.map, items, ih]

theorem front_map {β : Type x} (f : α → β) (n : ℕ) (es : List (Entry γ α)) :
    front n (es.map (Entry.map f)) = (front n es).map (Entry.map f) := by
  induction es generalizing n with
  | nil => simp [front]
  | cons e es ih =>
      cases e with
      | group g => simp [Entry.map, front, ih]
      | item a => cases n <;> simp [Entry.map, front, ih]

theorem group_mem_map {β : Type x} (f : α → β) {es : List (Entry γ α)} {g : γ} :
    .group g ∈ es.map (Entry.map f) ↔ .group g ∈ es := by
  induction es with
  | nil => simp
  | cons e es ih =>
      rw [map_cons, mem_cons, mem_cons, ih]
      cases e <;> simp [Entry.map]

section Names

variable [DecidableEq γ]

def addName (seen : List γ) (name : γ) : List γ := if name ∈ seen then seen else seen ++ [name]

/-- The group names in the order they are first met. -/
def names : List γ → List (Entry γ α) → List γ
  | seen, [] => seen
  | seen, .group g :: es => names (addName seen g) es
  | seen, .item _ :: es => names seen es

theorem names_append (seen : List γ) (es es' : List (Entry γ α)) :
    names seen (es ++ es') = names (names seen es) es' := by
  induction es generalizing seen with
  | nil => rfl
  | cons e es ih => cases e <;> simp [names, ih]

theorem names_map {β : Type x} (f : α → β) (seen : List γ) (es : List (Entry γ α)) :
    names seen (es.map (Entry.map f)) = names seen es := by
  induction es generalizing seen with
  | nil => rfl
  | cons e es ih => cases e <;> simp [Entry.map, names, ih]

theorem mem_addName {seen : List γ} {name g : γ} : g ∈ addName seen name ↔ g ∈ seen ∨ g = name := by
  unfold addName
  split
  · next h =>
      constructor
      · exact .inl
      · rintro (hg | rfl)
        · exact hg
        · exact h
  · simp

theorem mem_names {seen : List γ} {es : List (Entry γ α)} {g : γ} :
    g ∈ names seen es ↔ g ∈ seen ∨ .group g ∈ es := by
  induction es generalizing seen with
  | nil => simp [names]
  | cons e es ih =>
      cases e with
      | group name => simp [names, ih, mem_addName, or_assoc]
      | item a => simp [names, ih]

theorem nodup_addName {seen : List γ} (h : seen.Nodup) (name : γ) : (addName seen name).Nodup := by
  unfold addName
  split
  · exact h
  · next hname => exact nodup_append.mpr ⟨h, nodup_singleton name, by
      rintro a ha b hb rfl
      exact hname (mem_singleton.mp hb ▸ ha)⟩

theorem nodup_names {seen : List γ} (h : seen.Nodup) (es : List (Entry γ α)) :
    (names seen es).Nodup := by
  induction es generalizing seen with
  | nil => exact h
  | cons e es ih =>
      cases e with
      | group name => exact ih (nodup_addName h name)
      | item a => exact ih h

/-- Names that have not been seen are put behind the others as if these were not there. -/
theorem names_eq_append {seen seen' : List γ} {es : List (Entry γ α)}
    (h : ∀ g, .group g ∈ es → g ∉ seen) :
    names (seen ++ seen') es = seen ++ names seen' es := by
  induction es generalizing seen' with
  | nil => rfl
  | cons e es ih =>
      have htail : ∀ g, .group g ∈ es → g ∉ seen := fun g hg => h g (.tail _ hg)
      cases e with
      | item a => exact ih htail
      | group name =>
          have hname : name ∉ seen := h name (.head _)
          have hadd : addName (seen ++ seen') name = seen ++ addName seen' name := by
            by_cases hmem : name ∈ seen' <;> simp [addName, hname, hmem]
          rw [names, hadd, names]
          exact ih htail

theorem names_eq_nil_iff {es : List (Entry γ α)} :
    names [] es = [] ↔ ∀ g, .group g ∉ es := by
  rw [eq_nil_iff_forall_not_mem]
  simp [mem_names]

/-- Group names that come in order are named in order. -/
theorem pairwise_names {r : γ → γ → Prop} {seen : List γ} {es : List (Entry γ α)}
    (hseen : seen.Pairwise r) (hnew : ∀ s ∈ seen, ∀ g, .group g ∈ es → s = g ∨ r s g)
    (hes : es.Pairwise fun e e' => ∀ g g', e = .group g → e' = .group g' → g = g' ∨ r g g') :
    (names seen es).Pairwise r := by
  induction es generalizing seen with
  | nil => exact hseen
  | cons e es ih =>
      obtain ⟨hhead, htail⟩ := pairwise_cons.mp hes
      cases e with
      | item a => exact ih hseen (fun s hs g hg => hnew s hs g (.tail _ hg)) htail
      | group name =>
          refine ih ?_ ?_ htail
          · unfold addName
            split
            · exact hseen
            · next hname =>
                refine pairwise_append.mpr ⟨hseen, pairwise_singleton r name, ?_⟩
                intro s hs g hg
                obtain rfl := mem_singleton.mp hg
                refine (hnew s hs g (.head _)).resolve_left ?_
                rintro rfl
                exact hname hs
          · intro s hs g hg
            rcases mem_addName.mp hs with hs | rfl
            · exact hnew s hs g (.tail _ hg)
            · exact hhead _ hg s g rfl rfl

end Names

/-! ## One page -/

section Fill

variable [DecidableEq γ]

/-- Go on with a page until an item comes that has no room. -/
def fill (limit : ℕ) (page : Page γ α) : List (Entry γ α) → Page γ α
  | [] => page
  | .group g :: es => fill limit { page with groups := addName page.groups g } es
  | .item a :: es =>
    if limit ≤ page.items.length then { page with truncated := true }
    else fill limit { page with items := page.items ++ [a] } es

def page (limit : ℕ) (es : List (Entry γ α)) : Page γ α :=
  fill limit { items := [], groups := [], truncated := false } es

theorem fill_of_le {limit : ℕ} {page : Page γ α} {es : List (Entry γ α)}
    (h : page.items.length + (items es).length ≤ limit) :
    fill limit page es = { page with
      items := page.items ++ items es, groups := names page.groups es } := by
  induction es generalizing page with
  | nil => simp [fill, items, names]
  | cons e es ih =>
      cases e with
      | group g =>
          rw [fill, ih]
          · rfl
          · exact h
      | item a =>
          have hroom : ¬limit ≤ page.items.length := by
            simp only [items, length_cons] at h
            omega
          rw [fill, if_neg hroom, ih]
          · simp [items, names]
          · simp only [items, length_cons, length_append, length_nil] at h ⊢
            omega

theorem fill_of_lt {limit : ℕ} {page : Page γ α} {es : List (Entry γ α)}
    (hpage : page.items.length ≤ limit) (h : limit < page.items.length + (items es).length) :
    fill limit page es = {
      items := page.items ++ (items es).take (limit - page.items.length)
      groups := names page.groups (front (limit - page.items.length) es)
      truncated := true } := by
  induction es generalizing page with
  | nil =>
      simp only [items, length_nil] at h
      omega
  | cons e es ih =>
      cases e with
      | group g =>
          rw [fill, ih]
          · cases hroom : limit - page.items.length <;> rfl
          · exact hpage
          · exact h
      | item a =>
          by_cases hfull : limit ≤ page.items.length
          · have hroom : limit - page.items.length = 0 := by omega
            rw [fill, if_pos hfull, hroom]
            simp [front, names]
          · obtain ⟨room, hroom⟩ : ∃ room, limit - page.items.length = room + 1 :=
              ⟨limit - page.items.length - 1, by omega⟩
            have hnext : limit - (page.items ++ [a]).length = room := by
              rw [length_append, length_singleton]
              omega
            rw [fill, if_neg hfull, ih]
            · rw [hnext, hroom]
              simp [items, front, names]
            · rw [length_append, length_singleton]
              omega
            · simp only [items, length_cons, length_append, length_nil] at h ⊢
              omega

theorem fill_append {limit : ℕ} {page : Page γ α} (hpage : page.truncated = false)
    (es es' : List (Entry γ α)) : fill limit page (es ++ es') =
      if (fill limit page es).truncated then fill limit page es
      else fill limit (fill limit page es) es' := by
  induction es generalizing page with
  | nil => rw [nil_append, fill, hpage]; rfl
  | cons e es ih =>
      cases e with
      | group g =>
          rw [cons_append, fill, fill]
          exact ih hpage
      | item a =>
          rw [cons_append, fill, fill]
          split
          · rfl
          · exact ih hpage

theorem page_of_le {limit : ℕ} {es : List (Entry γ α)} (h : (items es).length ≤ limit) :
    page limit es = { items := items es, groups := names [] es, truncated := false } := by
  rw [page, fill_of_le (by simpa using h)]
  rfl

theorem page_of_lt {limit : ℕ} {es : List (Entry γ α)} (h : limit < (items es).length) :
    page limit es =
      { items := (items es).take limit, groups := names [] (front limit es),
        truncated := true } := by
  rw [page, fill_of_lt (Nat.zero_le _) (by simpa using h)]
  rfl

theorem page_truncated_iff {limit : ℕ} {es : List (Entry γ α)} :
    (page limit es).truncated = true ↔ limit < (items es).length := by
  rcases Nat.lt_or_ge limit (items es).length with h | h
  · simp [page_of_lt h, h]
  · simp [page_of_le h, h]

end Fill

/-! ## Reading on -/

section Follow

variable {C : Type w} {P : Type x}

/-- Read page after page until one comes without a cursor; `none` if a page cannot be had or
the fuel does not last. -/
def follow (next : Option C → Option (P × Option C)) : ℕ → Option C → Option (List P)
  | 0, _ => none
  | fuel + 1, cursor =>
    match next cursor with
    | none => none
    | some (page, none) => some [page]
    | some (page, some cursor') => (follow next fuel (some cursor')).map (page :: ·)

theorem follow_of_le {next : Option C → Option (P × Option C)} {fuel fuel' : ℕ}
    {cursor : Option C} {pages : List P} (h : follow next fuel cursor = some pages)
    (hle : fuel ≤ fuel') : follow next fuel' cursor = some pages := by
  induction fuel generalizing fuel' cursor pages with
  | zero => cases h
  | succ fuel ih =>
      obtain ⟨fuel', rfl⟩ : ∃ k, fuel' = k + 1 := ⟨fuel' - 1, by omega⟩
      unfold follow at h ⊢
      split
      · next hnext => simp [hnext] at h
      · next page hnext => simpa [hnext] using h
      · next page cursor' hnext =>
          simp only [hnext, Option.map_eq_some_iff] at h
          obtain ⟨rest, hrest, rfl⟩ := h
          rw [ih hrest (Nat.le_of_succ_le_succ hle), Option.map_some]

theorem follow_unique {next : Option C → Option (P × Option C)} {fuel fuel' : ℕ}
    {cursor : Option C} {pages pages' : List P} (h : follow next fuel cursor = some pages)
    (h' : follow next fuel' cursor = some pages') : pages = pages' := by
  have hmax := follow_of_le h (Nat.le_max_left fuel fuel')
  have hmax' := follow_of_le h' (Nat.le_max_right fuel fuel')
  exact Option.some.inj (hmax.symm.trans hmax')

/-- Reading on does not look into the pages. -/
theorem follow_map {Q : Type x} (f : P → Q) (next : Option C → Option (P × Option C)) (fuel : ℕ)
    (cursor : Option C) :
    follow (fun c => (next c).map (Prod.map f id)) fuel cursor =
      (follow next fuel cursor).map (map f) := by
  induction fuel generalizing cursor with
  | zero => rfl
  | succ fuel ih =>
      unfold follow
      cases hnext : next cursor with
      | none => rfl
      | some pc =>
          obtain ⟨p, c⟩ := pc
          cases c with
          | none => rfl
          | some c =>
              simp only [Option.map_some, Prod.map, id]
              rw [ih, Option.map_map, Option.map_map]
              rfl

theorem exists_next_of_mem_follow {next : Option C → Option (P × Option C)} {fuel : ℕ}
    {cursor : Option C} {pages : List P} (h : follow next fuel cursor = some pages) {p : P}
    (hp : p ∈ pages) : ∃ cursor' c, next cursor' = some (p, c) := by
  induction fuel generalizing cursor pages with
  | zero => cases h
  | succ fuel ih =>
      unfold follow at h
      split at h
      · cases h
      · next page hnext =>
          cases h
          obtain rfl := mem_singleton.mp hp
          exact ⟨_, _, hnext⟩
      · next page cursor' hnext =>
          obtain ⟨rest, hrest, rfl⟩ := Option.map_eq_some_iff.mp h
          rcases mem_cons.mp hp with rfl | hp
          · exact ⟨_, _, hnext⟩
          · exact ih hrest hp

/-- Every page end leads on to what lies behind it. -/
def Resumes (limit : ℕ) (denote : Option C → List (Entry γ α)) (mark : α → C)
    (es : List (Entry γ α)) : Prop :=
  ∀ j a, (items es)[(j + 1) * limit - 1]? = some a → (j + 1) * limit < (items es).length →
    denote (some (mark a)) = behind ((j + 1) * limit) es

variable {limit : ℕ} {denote : Option C → List (Entry γ α)} {mark : α → C}
  {next : Option C → Option (P × Option C)} {view : P → Page γ α} {es : List (Entry γ α)}

theorem getElem?_limit (hlimit : 0 < limit) (hlt : limit < (items es).length) :
    ∃ a, (items es)[limit - 1]? = some a :=
  ⟨_, getElem?_eq_getElem (by omega)⟩

theorem Resumes.behind (h : Resumes limit denote mark es) (hlimit : 0 < limit) :
    Resumes limit denote mark (behind limit es) := by
  intro j a ha hlt
  rw [items_behind, getElem?_drop] at ha
  rw [items_behind, length_drop] at hlt
  have hsum : (j + 1 + 1) * limit = limit + (j + 1) * limit := by
    rw [Nat.add_one_mul (j + 1), Nat.add_comm]
  have hpos : 0 < (j + 1) * limit := Nat.mul_pos (Nat.succ_pos j) hlimit
  rw [behind_behind, ← hsum]
  refine h (j + 1) a ?_ (by omega)
  rwa [hsum, Nat.add_sub_assoc hpos]

variable [DecidableEq γ]

/-- The pages of a listing in which every page starts behind the items of the one before. -/
def chunks (limit : ℕ) : ℕ → List (Entry γ α) → List (Page γ α)
  | 0, _ => []
  | fuel + 1, es =>
    page limit es :: if limit < (items es).length then chunks limit fuel (behind limit es) else []

/-- What the pages show and where they lead, in terms of the entries a cursor stands for. -/
structure Reads (limit : ℕ) (denote : Option C → List (Entry γ α)) (mark : α → C)
    (next : Option C → Option (P × Option C)) (view : P → Page γ α) : Prop where
  view_eq : ∀ {cursor p c}, next cursor = some (p, c) → view p = page limit (denote cursor)
  cursor_eq : ∀ {cursor p c}, next cursor = some (p, c) →
    c = if limit < (items (denote cursor)).length then
      ((items (denote cursor))[limit - 1]?).map mark else none

/-- If every page end leads on, reading on yields the chunks. -/
theorem Reads.follow_eq (h : Reads limit denote mark next view) (hlimit : 0 < limit)
    (hmark : ∀ a, next (some (mark a)) ≠ none) {fuel : ℕ} {cursor : Option C}
    (hsome : next cursor ≠ none) (hresumes : Resumes limit denote mark (denote cursor))
    (hfuel : (items (denote cursor)).length < fuel) :
    ∃ pages, follow next fuel cursor = some pages ∧
      pages.map view = chunks limit fuel (denote cursor) := by
  induction fuel generalizing cursor with
  | zero => omega
  | succ fuel ih =>
      obtain ⟨⟨p, c⟩, hnext⟩ := Option.ne_none_iff_exists'.mp hsome
      have hview := h.view_eq hnext
      have hcursor := h.cursor_eq hnext
      unfold follow chunks
      by_cases hlt : limit < (items (denote cursor)).length
      · obtain ⟨a, ha⟩ := getElem?_limit hlimit hlt
        rw [if_pos hlt, ha, Option.map_some] at hcursor
        have hdenote : denote (some (mark a)) = behind limit (denote cursor) := by
          have := hresumes 0 a (by simpa using ha) (by simpa using hlt)
          simpa using this
        obtain ⟨pages, hpages, hmap⟩ := ih (hmark a)
          (by rw [hdenote]; exact hresumes.behind hlimit)
          (by rw [hdenote, items_behind, length_drop]; omega)
        refine ⟨p :: pages, ?_, ?_⟩
        · simp only [hnext, hcursor, hpages, Option.map_some]
        · rw [map_cons, hview, hmap, hdenote, if_pos hlt]
      · rw [if_neg hlt] at hcursor
        refine ⟨[p], ?_, ?_⟩
        · simp only [hnext, hcursor]
        · rw [map_singleton, hview, if_neg hlt]

/-- A page end that does not lead on leads back over items. -/
def LeadsBack (limit : ℕ) (denote : Option C → List (Entry γ α)) (mark : α → C) : Prop :=
  ∀ cursor a, (items (denote cursor))[limit - 1]? = some a →
    ∃ again, denote (some (mark a)) = again ++ behind limit (denote cursor) ∧
      (again = [] ∨ items again ≠ [])

theorem Reads.length_le (h : Reads limit denote mark next view) (hlimit : 0 < limit)
    (hback : LeadsBack limit denote mark) {fuel : ℕ} {cursor : Option C} {pages : List P}
    (hfollow : follow next fuel cursor = some pages) :
    (items (denote cursor)).length ≤ (pages.flatMap fun p => (view p).items).length := by
  induction fuel generalizing cursor pages with
  | zero => cases hfollow
  | succ fuel ih =>
      unfold follow at hfollow
      cases hnext : next cursor with
      | none => simp [hnext] at hfollow
      | some pc =>
          obtain ⟨p, c⟩ := pc
          have hview := h.view_eq hnext
          have hcursor := h.cursor_eq hnext
          by_cases hlt : limit < (items (denote cursor)).length
          · obtain ⟨a, ha⟩ := getElem?_limit hlimit hlt
            rw [if_pos hlt, ha, Option.map_some] at hcursor
            simp only [hnext, hcursor, Option.map_eq_some_iff] at hfollow
            obtain ⟨rest, hrest, rfl⟩ := hfollow
            obtain ⟨again, hagain, -⟩ := hback cursor a ha
            have hle := ih hrest
            rw [hagain, items_append, length_append, items_behind, length_drop] at hle
            rw [flatMap_cons, length_append, hview, page_of_lt hlt, length_take]
            omega
          · rw [if_neg hlt] at hcursor
            simp only [hnext, hcursor, Option.some.injEq] at hfollow
            subst hfollow
            apply Nat.le_of_eq
            rw [flatMap_singleton, hview, page_of_le (by omega)]

/-- If no more items come out than there are, every page end leads on. -/
theorem Reads.resumes_of_length (h : Reads limit denote mark next view) (hlimit : 0 < limit)
    (hback : LeadsBack limit denote mark) {fuel : ℕ} {cursor : Option C} {pages : List P}
    (hfollow : follow next fuel cursor = some pages)
    (hlength : (pages.flatMap fun p => (view p).items).length ≤ (items (denote cursor)).length) :
    Resumes limit denote mark (denote cursor) := by
  induction fuel generalizing cursor pages with
  | zero => cases hfollow
  | succ fuel ih =>
      unfold follow at hfollow
      cases hnext : next cursor with
      | none => simp [hnext] at hfollow
      | some pc =>
          obtain ⟨p, c⟩ := pc
          have hview := h.view_eq hnext
          have hcursor := h.cursor_eq hnext
          by_cases hlt : limit < (items (denote cursor)).length
          · obtain ⟨a, ha⟩ := getElem?_limit hlimit hlt
            rw [if_pos hlt, ha, Option.map_some] at hcursor
            simp only [hnext, hcursor, Option.map_eq_some_iff] at hfollow
            obtain ⟨rest, hrest, rfl⟩ := hfollow
            obtain ⟨again, hagain, hor⟩ := hback cursor a ha
            have hroom : (rest.flatMap fun p => (view p).items).length ≤
                (items (behind limit (denote cursor))).length := by
              rw [flatMap_cons, length_append, hview, page_of_lt hlt,
                length_take] at hlength
              rw [items_behind, length_drop]
              omega
            have hnil : again = [] := by
              refine hor.resolve_right fun hne => ?_
              have hle := h.length_le hlimit hback hrest
              rw [hagain, items_append, length_append] at hle
              have := length_pos_iff.mpr hne
              omega
            rw [hnil, nil_append] at hagain
            have hrec : Resumes limit denote mark (behind limit (denote cursor)) := by
              have := ih hrest (by rw [hagain]; exact hroom)
              rwa [hagain] at this
            intro j b hb hj
            cases j with
            | zero =>
                simp only [Nat.zero_add, Nat.one_mul] at hb ⊢
                obtain rfl : a = b := Option.some.inj (ha.symm.trans hb)
                exact hagain
            | succ j =>
                have hsum : (j + 1 + 1) * limit = limit + (j + 1) * limit := by
                  rw [Nat.add_one_mul (j + 1), Nat.add_comm]
                have hpos : 0 < (j + 1) * limit := Nat.mul_pos (Nat.succ_pos j) hlimit
                have := hrec j b
                  (by rw [items_behind, getElem?_drop, ← Nat.add_sub_assoc hpos, ← hsum]
                      exact hb)
                  (by rw [items_behind, length_drop]; omega)
                rw [this, behind_behind, hsum]
          · intro j b hb hj
            have : limit ≤ (j + 1) * limit := Nat.le_mul_of_pos_left limit (Nat.succ_pos j)
            omega

end Follow

/-! ## What the chunks show -/

theorem group_mem_front_add {m n : ℕ} {es : List (Entry γ α)} {g : γ} :
    .group g ∈ front (m + n) es ↔ .group g ∈ front m es ∨ .group g ∈ front n (behind m es) := by
  induction es generalizing m with
  | nil => simp [front]
  | cons e es ih =>
      cases m with
      | zero =>
          cases e with
          | group h =>
              have := ih (m := 0)
              simp only [Nat.zero_add] at this ⊢
              simp only [behind, front, mem_cons] at this ⊢
              tauto
          | item a => simp [behind, front]
      | succ m =>
          rw [Nat.add_right_comm]
          cases e with
          | group h =>
              have := ih (m := m + 1)
              rw [Nat.add_right_comm] at this
              simp only [behind, front, mem_cons, this, or_assoc]
          | item a => simp [behind, front, ih]

theorem front_append_behind {n : ℕ} {es : List (Entry γ α)} (h : front 0 (behind n es) = []) :
    front n es ++ behind n es = es := by
  induction es generalizing n with
  | nil => simp [front]
  | cons e es ih =>
      cases n with
      | zero =>
          cases e with
          | group g => cases h
          | item a => rfl
      | succ n => cases e <;> simp only [front, behind, cons_append, ih h]

theorem exists_append_item_behind {n : ℕ} {es : List (Entry γ α)} (hn : n < (items es).length) :
    ∃ l a, es = l ++ .item a :: behind (n + 1) es := by
  induction es generalizing n with
  | nil => cases hn
  | cons e es ih =>
      cases e with
      | group g =>
          obtain ⟨l, a, h⟩ := ih hn
          exact ⟨.group g :: l, a, congrArg (.group g :: ·) h⟩
      | item b =>
          cases n with
          | zero => exact ⟨[], b, by rw [behind, behind, nil_append]⟩
          | succ n =>
              obtain ⟨l, a, h⟩ := ih (Nat.lt_of_succ_lt_succ hn)
              exact ⟨.item b :: l, a, congrArg (.item b :: ·) h⟩

theorem exists_group_of_front_ne_nil {es : List (Entry γ α)} (h : front 0 es ≠ []) :
    ∃ g, .group g ∈ front 0 es := by
  cases es with
  | nil => exact absurd rfl h
  | cons e es =>
      cases e with
      | group g => exact ⟨g, mem_cons_self⟩
      | item a => exact absurd rfl h

theorem mem_of_mem_front {n : ℕ} {es : List (Entry γ α)} {e : Entry γ α} (h : e ∈ front n es) :
    e ∈ es := by
  induction es generalizing n with
  | nil => simp [front] at h
  | cons x es ih =>
      cases x with
      | group g =>
          rcases mem_cons.mp h with rfl | h
          · exact .head _
          · exact .tail _ (ih h)
      | item a =>
          cases n with
          | zero => cases h
          | succ n =>
              rcases mem_cons.mp h with rfl | h
              · exact .head _
              · exact .tail _ (ih h)

theorem behind_isSuffix (n : ℕ) (es : List (Entry γ α)) : behind n es <:+ es := by
  induction es generalizing n with
  | nil => simp
  | cons e es ih =>
      cases n with
      | zero => exact suffix_refl _
      | succ n => cases e <;> exact (ih _).trans (suffix_cons _ _)

theorem group_mem_front_or_behind {n : ℕ} {es : List (Entry γ α)} {g : γ} (hg : .group g ∈ es) :
    .group g ∈ front n es ∨ .group g ∈ behind n es := by
  induction es generalizing n with
  | nil => cases hg
  | cons e es ih =>
      cases n with
      | zero => exact .inr (by rwa [behind_zero])
      | succ n =>
          cases e with
          | group name =>
              rcases mem_cons.mp hg with heq | hg
              · exact .inl (heq ▸ mem_cons_self)
              · exact (ih hg).imp (mem_cons_of_mem _) id
          | item a =>
              rcases mem_cons.mp hg with heq | hg
              · cases heq
              · exact (ih hg).imp (mem_cons_of_mem _) id

/-- The entries of a group stand together: no item is among them. -/
def Contiguous (es : List (Entry γ α)) : Prop :=
  ∀ l a l', es = l ++ .item a :: l' → ∀ g, .group g ∈ l → .group g ∉ l'

theorem Contiguous.behind {es : List (Entry γ α)} (h : Contiguous es) (n : ℕ) :
    Contiguous (behind n es) := by
  obtain ⟨pre, hpre⟩ := behind_isSuffix n es
  intro l a l' heq g hg
  refine h (pre ++ l) a l' ?_ g (mem_append_right pre hg)
  rw [← hpre, heq, append_assoc]

section Chunks

variable [DecidableEq γ] {limit : ℕ} {es : List (Entry γ α)}

theorem items_chunks (hlimit : 0 < limit) {fuel : ℕ} (hfuel : (items es).length < fuel) :
    (chunks limit fuel es).flatMap Page.items = items es := by
  induction fuel generalizing es with
  | zero => omega
  | succ fuel ih =>
      unfold chunks
      by_cases hlt : limit < (items es).length
      · rw [if_pos hlt, flatMap_cons, ih, page_of_lt hlt, items_behind,
          take_append_drop]
        rw [items_behind, length_drop]
        omega
      · rw [if_neg hlt, flatMap_singleton, page_of_le (Nat.le_of_not_lt hlt)]

theorem names_behind_of_front {n : ℕ} {seen : List γ} (h : ∀ g, .group g ∉ front n es) :
    names seen es = names seen (behind n es) := by
  induction es generalizing n with
  | nil => simp
  | cons e es ih =>
      cases n with
      | zero => rfl
      | succ n =>
          cases e with
          | group g => exact absurd (.head _) (h g)
          | item a => exact ih fun g hg => h g (.tail _ hg)

/-- How many items come in front of the last page. -/
def lastStart (limit count : ℕ) : ℕ := (count - 1) / limit * limit

theorem lastStart_of_le {count : ℕ} (hlimit : 0 < limit) (h : count ≤ limit) :
    lastStart limit count = 0 := by
  have : (count - 1) / limit = 0 := Nat.div_eq_of_lt (by omega)
  rw [lastStart, this, Nat.zero_mul]

theorem lastStart_of_lt {count : ℕ} (hlimit : 0 < limit) (h : limit < count) :
    lastStart limit count = limit + lastStart limit (count - limit) := by
  have hsub : count - 1 = count - limit - 1 + limit := by omega
  rw [lastStart, lastStart, hsub, Nat.add_div_right _ hlimit, Nat.succ_mul, Nat.add_comm]

/-- All groups come on the last page, and it has room for them. -/
def Fits (limit : ℕ) (es : List (Entry γ α)) : Prop :=
  (lastStart limit (items es).length = 0 ∨
      ∀ g, .group g ∉ front (lastStart limit (items es).length) es) ∧
    (items es).length - lastStart limit (items es).length + (names [] es).length ≤ limit

theorem fits_map_iff {β : Type x} (f : α → β) :
    Fits limit (es.map (Entry.map f)) ↔ Fits limit es := by
  rw [Fits, Fits, items_map, front_map, names_map, length_map]
  simp only [group_mem_map]

/-- The pages name every group once and keep to the limit, groups counted, exactly if the groups
fit on the last page. -/
theorem chunks_fit_iff (hlimit : 0 < limit) {fuel : ℕ} (hfuel : (items es).length < fuel) :
    (∀ p ∈ chunks limit fuel es, p.items.length + p.groups.length ≤ limit) ∧
      (chunks limit fuel es).flatMap Page.groups = names [] es ↔ Fits limit es := by
  induction fuel generalizing es with
  | zero => omega
  | succ fuel ih =>
      unfold chunks
      by_cases hlt : limit < (items es).length
      · have hitems : (items (behind limit es)).length = (items es).length - limit := by
          rw [items_behind, length_drop]
        have hshort : (items (behind limit es)).length < fuel := by omega
        have hrest := ih hshort
        rw [if_pos hlt, page_of_lt hlt, forall_mem_cons, flatMap_cons, Fits,
          lastStart_of_lt hlimit hlt]
        rw [Fits, hitems] at hrest
        set last := lastStart limit ((items es).length - limit)
        constructor
        · rintro ⟨⟨hroom, hfit⟩, hgroups⟩
          have hnil : names [] (front limit es) = [] := by
            change ((items es).take limit).length + (names [] (front limit es)).length ≤ limit
              at hroom
            rw [length_take] at hroom
            exact length_eq_zero_iff.mp (by omega)
          have hfront := names_eq_nil_iff.mp hnil
          have hnames : names [] es = _ := names_behind_of_front hfront
          rw [hnil, nil_append, hnames] at hgroups
          obtain ⟨hlast, hlen⟩ := hrest.mp ⟨hfit, hgroups⟩
          refine ⟨.inr fun g hg => ?_, by rw [hnames]; omega⟩
          rcases group_mem_front_add.mp hg with hg | hg
          · exact hfront g hg
          · rcases hlast with hlast | hlast
            · rw [hlast] at hg
              exact hfront g (group_mem_front_add.mpr (.inr hg))
            · exact hlast g hg
        · rintro ⟨hlast, hlen⟩
          have hlast : ∀ g, .group g ∉ front (limit + last) es :=
            hlast.resolve_left (by omega)
          have hfront : ∀ g, .group g ∉ front limit es :=
            fun g hg => hlast g (group_mem_front_add.mpr (.inl hg))
          have hnames : names [] es = _ := names_behind_of_front hfront
          have hnil := names_eq_nil_iff.mpr hfront
          obtain ⟨hfit, hgroups⟩ := hrest.mpr
            ⟨.inr fun g hg => hlast g (group_mem_front_add.mpr (.inr hg)), by
              rw [hnames] at hlen
              omega⟩
          refine ⟨⟨?_, hfit⟩, ?_⟩
          · change ((items es).take limit).length + (names [] (front limit es)).length ≤ limit
            rw [hnil, length_take]
            exact Nat.min_le_left _ _
          · rw [hnil, hgroups, hnames, nil_append]
      · have hle := Nat.le_of_not_lt hlt
        rw [if_neg hlt, page_of_le hle, Fits, lastStart_of_le hlimit hle]
        simp

/-- No group lies between the last item of a page and the first of the next. -/
def Gapless (limit : ℕ) (es : List (Entry γ α)) : Prop :=
  ∀ j, (j + 1) * limit < (items es).length → front 0 (behind ((j + 1) * limit) es) = []

theorem group_mem_chunks {fuel : ℕ} (hfuel : (items es).length < fuel) (hlimit : 0 < limit)
    {g : γ} : g ∈ (chunks limit fuel es).flatMap Page.groups ↔ .group g ∈ es := by
  induction fuel generalizing es with
  | zero => omega
  | succ fuel ih =>
      unfold chunks
      by_cases hlt : limit < (items es).length
      · have hitems : (items (behind limit es)).length = (items es).length - limit := by
          rw [items_behind, length_drop]
        rw [if_pos hlt, flatMap_cons, mem_append, ih (by omega), page_of_lt hlt,
          mem_names]
        simp only [not_mem_nil, false_or]
        constructor
        · rintro (hg | hg)
          · exact mem_of_mem_front hg
          · exact (behind_isSuffix limit es).mem hg
        · intro hg
          by_contra hnot
          obtain ⟨hfront, hbehind⟩ := not_or.mp hnot
          exact hnot (group_mem_front_or_behind hg)
      · rw [if_neg hlt, flatMap_singleton, page_of_le (Nat.le_of_not_lt hlt), mem_names]
        simp

omit [DecidableEq γ] in
theorem Gapless.behind (h : Gapless limit es) : Gapless limit (behind limit es) := by
  intro j hj
  rw [items_behind, length_drop] at hj
  have hsum : (j + 1 + 1) * limit = limit + (j + 1) * limit := by
    rw [Nat.add_one_mul (j + 1), Nat.add_comm]
  rw [behind_behind, ← hsum]
  exact h (j + 1) (by omega)

/-- Without a gap the groups on both sides of a page end are different ones. -/
theorem names_split (hcontiguous : Contiguous es) (hlimit : 0 < limit)
    (hlt : limit < (items es).length) (hgap : front 0 (behind limit es) = []) :
    names [] es = names [] (front limit es) ++ names [] (behind limit es) := by
  have hes := front_append_behind hgap
  obtain ⟨k, rfl⟩ : ∃ k, limit = k + 1 := ⟨limit - 1, by omega⟩
  obtain ⟨l, a, hl⟩ := exists_append_item_behind (Nat.lt_of_succ_lt hlt)
  have hfront : front (k + 1) es = l ++ [.item a] := by
    refine append_cancel_right (hes.trans (hl.trans ?_))
    rw [append_assoc]
    rfl
  conv_lhs => rw [← hes]
  rw [names_append]
  have hnew : ∀ g, .group g ∈ behind (k + 1) es →
      g ∉ names [] (front (k + 1) es) := by
    intro g hg hmem
    have hmem : Entry.group g ∈ front (k + 1) es := by simpa [mem_names] using hmem
    rw [hfront] at hmem
    have hgl : Entry.group g ∈ l := by simpa using hmem
    exact hcontiguous l a _ hl g hgl hg
  have happend : names (_ ++ []) _ = _ := names_eq_append hnew
  rwa [append_nil] at happend

/-- If no group lies across a page end, the pages name every group once. -/
theorem chunks_groups_of_gapless (hlimit : 0 < limit) (hcontiguous : Contiguous es) {fuel : ℕ}
    (hfuel : (items es).length < fuel) (hgapless : Gapless limit es) :
    (chunks limit fuel es).flatMap Page.groups = names [] es := by
  induction fuel generalizing es with
  | zero => omega
  | succ fuel ih =>
      unfold chunks
      by_cases hlt : limit < (items es).length
      · have hgap : front 0 (behind limit es) = [] := by
          simpa using hgapless 0 (by simpa using hlt)
        have hfuel' : (items (behind limit es)).length < fuel := by
          rw [items_behind, length_drop]
          omega
        rw [if_pos hlt, flatMap_cons, page_of_lt hlt,
          ih (hcontiguous.behind limit) hfuel' hgapless.behind,
          names_split hcontiguous hlimit hlt hgap]
      · rw [if_neg hlt, flatMap_singleton, page_of_le (Nat.le_of_not_lt hlt)]

/-- If the pages name no group twice, none lies across a page end. -/
theorem gapless_of_nodup_groups (hlimit : 0 < limit) {fuel : ℕ}
    (hfuel : (items es).length < fuel)
    (hnodup : ((chunks limit fuel es).flatMap Page.groups).Nodup) : Gapless limit es := by
  induction fuel generalizing es with
  | zero => omega
  | succ fuel ih =>
      unfold chunks at hnodup
      by_cases hlt : limit < (items es).length
      · have hfuel' : (items (behind limit es)).length < fuel := by
          rw [items_behind, length_drop]
          omega
        rw [if_pos hlt, flatMap_cons, page_of_lt hlt] at hnodup
        obtain ⟨-, hrest, hdisjoint⟩ := nodup_append.mp hnodup
        have hgap : front 0 (behind limit es) = [] := by
          by_contra hne
          obtain ⟨g, hg⟩ := exists_group_of_front_ne_nil hne
          refine hdisjoint g ?_ g ?_ rfl
          · exact mem_names.mpr (.inr (group_mem_front_add (n := 0).mpr (.inr hg)))
          · exact (group_mem_chunks hfuel' hlimit).mpr (mem_of_mem_front hg)
        intro j hj
        cases j with
        | zero => simpa using hgap
        | succ j =>
            have hsum : (j + 1 + 1) * limit = limit + (j + 1) * limit := by
              rw [Nat.add_one_mul (j + 1), Nat.add_comm]
            have hbehind := ih hfuel' hrest j (by rw [items_behind, length_drop]; omega)
            rwa [behind_behind, ← hsum] at hbehind
      · intro j hj
        have : limit ≤ (j + 1) * limit := Nat.le_mul_of_pos_left limit (Nat.succ_pos j)
        omega

end Chunks

end GroupedPages
