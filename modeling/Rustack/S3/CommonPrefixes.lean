import Rustack.S3.Listing

/-!
# Keys under their common prefixes

What a listing has to show of each key: nothing if the key lacks the prefix, its
common prefix if a delimiter follows, else what is stored under it.  Keys with
one common prefix follow each other, and common prefixes come in order.
-/

namespace Rustack.S3

open GroupedPages List Text

/-- Start with the prefix and have no delimiter behind it. -/
def Listed (pre delimiter key : String) : Prop :=
  ∃ rest, key.toList = pre.toList ++ rest ∧ (delimiter = "" ∨ ¬delimiter.toList <:+: rest)

/-- Be what a key shows up to the first delimiter behind the prefix. -/
def IsCommonPrefix (pre delimiter key cp : String) : Prop :=
  delimiter ≠ "" ∧ ∃ before rest, key.toList = pre.toList ++ rest ∧
    before ++ delimiter.toList <+: rest ∧
    (∀ other, other ++ delimiter.toList <+: rest → before.length ≤ other.length) ∧
    cp.toList = pre.toList ++ before ++ delimiter.toList

theorem drop_of_startsWith {key pre : String} (h : startsWith key pre = true) :
    key.toList = pre.toList ++ key.toList.drop pre.toList.length := by
  obtain ⟨rest, hrest⟩ := startsWith_iff.mp h
  rw [← hrest, drop_left]

theorem drop_of_append {key pre : String} {rest : List Char} (h : key.toList = pre.toList ++ rest) :
    startsWith key pre = true ∧ key.toList.drop pre.toList.length = rest := by
  refine ⟨startsWith_iff.mpr ⟨rest, h.symm⟩, ?_⟩
  rw [h, drop_left]

theorem commonPrefixOf_eq_none_iff {pre delimiter key : String} :
    commonPrefixOf pre delimiter key = none ↔
      delimiter = "" ∨ ¬delimiter.toList <:+: key.toList.drop pre.toList.length := by
  unfold commonPrefixOf
  split
  · next h => simp [h]
  · next h => rw [Option.map_eq_none_iff, beforeFirst_eq_none_iff, or_iff_right h]

theorem listed_iff {pre delimiter key : String} :
    Listed pre delimiter key ↔
      startsWith key pre = true ∧ commonPrefixOf pre delimiter key = none := by
  rw [commonPrefixOf_eq_none_iff]
  constructor
  · rintro ⟨rest, hkey, hnone⟩
    obtain ⟨hstarts, hdrop⟩ := drop_of_append hkey
    exact ⟨hstarts, by rwa [hdrop]⟩
  · rintro ⟨hstarts, hnone⟩
    exact ⟨_, drop_of_startsWith hstarts, hnone⟩

theorem isCommonPrefix_iff {pre delimiter key cp : String} :
    IsCommonPrefix pre delimiter key cp ↔
      startsWith key pre = true ∧ commonPrefixOf pre delimiter key = some cp := by
  unfold commonPrefixOf
  constructor
  · rintro ⟨hdelimiter, before, rest, hkey, hpre, hleast, hcp⟩
    obtain ⟨hstarts, hdrop⟩ := drop_of_append hkey
    refine ⟨hstarts, ?_⟩
    rw [if_neg hdelimiter, hdrop, beforeFirst_eq_some_iff.mpr ⟨hpre, hleast⟩, Option.map_some,
      Option.some.injEq, ← String.toList_inj, hcp]
    simp
  · rintro ⟨hstarts, hcp⟩
    split at hcp
    · cases hcp
    · next hdelimiter =>
        obtain ⟨before, hbefore, rfl⟩ := Option.map_eq_some_iff.mp hcp
        obtain ⟨hpre, hleast⟩ := beforeFirst_eq_some_iff.mp hbefore
        exact ⟨hdelimiter, before, _, drop_of_startsWith hstarts, hpre, hleast, by simp⟩

instance (pre delimiter key : String) : Decidable (Listed pre delimiter key) :=
  decidable_of_iff _ listed_iff.symm

theorem IsCommonPrefix.not_listed {pre delimiter key cp : String}
    (h : IsCommonPrefix pre delimiter key cp) : ¬Listed pre delimiter key := by
  intro hlisted
  have hsome := (isCommonPrefix_iff.mp h).2
  rw [(listed_iff.mp hlisted).2] at hsome
  cases hsome

theorem IsCommonPrefix.isPrefix {pre delimiter key cp : String}
    (h : IsCommonPrefix pre delimiter key cp) : cp.toList <+: key.toList := by
  obtain ⟨-, before, rest, hkey, hpre, -, hcp⟩ := h
  rw [hkey, hcp, append_assoc]
  exact (prefix_append_right_inj _).mpr hpre

/-- A key that starts with a common prefix is grouped under it. -/
theorem IsCommonPrefix.of_isPrefix {pre delimiter key key' cp : String}
    (h : IsCommonPrefix pre delimiter key cp) (hpre : cp.toList <+: key'.toList) :
    IsCommonPrefix pre delimiter key' cp := by
  obtain ⟨hdelimiter, before, rest, -, hbefore, hleast, hcp⟩ := h
  obtain ⟨rest', hrest'⟩ := hpre
  have hfirst : beforeFirst delimiter.toList (before ++ delimiter.toList ++ rest') = _ :=
    beforeFirst_eq_of_isPrefix (beforeFirst_eq_some_iff.mpr ⟨hbefore, hleast⟩)
      (prefix_append _ _)
  obtain ⟨hbefore', hleast'⟩ := beforeFirst_eq_some_iff.mp hfirst
  refine ⟨hdelimiter, before, _, ?_, hbefore', hleast', hcp⟩
  rw [← hrest', hcp]
  simp only [append_assoc]

theorem IsCommonPrefix.unique {pre delimiter key cp cp' : String}
    (h : IsCommonPrefix pre delimiter key cp) (h' : IsCommonPrefix pre delimiter key cp') :
    cp = cp' :=
  Option.some.inj ((isCommonPrefix_iff.mp h).2.symm.trans (isCommonPrefix_iff.mp h').2)

/-- Different common prefixes are in the order of the keys they come from. -/
theorem IsCommonPrefix.lt {pre delimiter key key' cp cp' : String}
    (h : IsCommonPrefix pre delimiter key cp) (h' : IsCommonPrefix pre delimiter key' cp')
    (hlt : key < key') (hne : cp ≠ cp') : cp < cp' := by
  rw [String.lt_iff_toList_lt] at hlt ⊢
  refine lt_of_lt_of_isPrefix h.isPrefix h'.isPrefix hlt (fun heq => ?_) (fun hpre => ?_)
  · exact hne (String.toList_inj.mp heq)
  · exact hne (h.unique (h'.of_isPrefix hpre))

/-! ## What there is to show -/

section Entries

variable {β : Type} {pre delimiter : String}

/-- What a key and what is stored under it show. -/
def keyEntries (pre delimiter : String) (e : String × List β) : List (Entry String β) :=
  if Text.startsWith e.1 pre then
    match commonPrefixOf pre delimiter e.1 with
    | some cp => [.group cp]
    | none => e.2.map .item
  else []

def entriesOf (pre delimiter : String) (es : List (String × List β)) : List (Entry String β) :=
  es.flatMap (keyEntries pre delimiter)

theorem keyEntries_of_listed {e : String × List β} (h : Listed pre delimiter e.1) :
    keyEntries pre delimiter e = e.2.map .item := by
  obtain ⟨hstarts, hnone⟩ := listed_iff.mp h
  rw [keyEntries, if_pos hstarts, hnone]

theorem keyEntries_of_isCommonPrefix {e : String × List β} {cp : String}
    (h : IsCommonPrefix pre delimiter e.1 cp) : keyEntries pre delimiter e = [.group cp] := by
  obtain ⟨hstarts, hsome⟩ := isCommonPrefix_iff.mp h
  rw [keyEntries, if_pos hstarts, hsome]

theorem keyEntries_cases (pre delimiter : String) (e : String × List β) :
    Listed pre delimiter e.1 ∧ keyEntries pre delimiter e = e.2.map .item ∨
      (∃ cp, IsCommonPrefix pre delimiter e.1 cp ∧ keyEntries pre delimiter e = [.group cp]) ∨
      startsWith e.1 pre = false ∧ keyEntries pre delimiter e = [] := by
  cases hstarts : startsWith e.1 pre with
  | false => exact .inr (.inr ⟨rfl, by simp [keyEntries, hstarts]⟩)
  | true =>
      cases hcp : commonPrefixOf pre delimiter e.1 with
      | none =>
          have h := listed_iff.mpr ⟨hstarts, hcp⟩
          exact .inl ⟨h, keyEntries_of_listed h⟩
      | some cp =>
          have h := isCommonPrefix_iff.mpr ⟨hstarts, hcp⟩
          exact .inr (.inl ⟨cp, h, keyEntries_of_isCommonPrefix h⟩)

theorem group_mem_keyEntries {e : String × List β} {cp : String} :
    .group cp ∈ keyEntries pre delimiter e ↔ IsCommonPrefix pre delimiter e.1 cp := by
  constructor
  · intro hmem
    rcases keyEntries_cases pre delimiter e with ⟨-, h⟩ | ⟨cp', hcp', h⟩ | ⟨-, h⟩
    · rw [h] at hmem
      obtain ⟨b, -, hb⟩ := mem_map.mp hmem
      cases hb
    · rw [h] at hmem
      cases mem_singleton.mp hmem
      exact hcp'
    · rw [h] at hmem
      cases hmem
  · intro h
    rw [keyEntries_of_isCommonPrefix h]
    exact mem_singleton_self _

theorem item_mem_keyEntries {e : String × List β} {b : β}
    (h : .item b ∈ keyEntries pre delimiter e) :
    Listed pre delimiter e.1 ∧ b ∈ e.2 := by
  rcases keyEntries_cases pre delimiter e with ⟨hlisted, heq⟩ | ⟨cp, -, heq⟩ | ⟨-, heq⟩
  · rw [heq] at h
    obtain ⟨b', hb', heq'⟩ := mem_map.mp h
    cases heq'
    exact ⟨hlisted, hb'⟩
  · rw [heq] at h
    cases mem_singleton.mp h
  · rw [heq] at h
    cases h

theorem group_mem_entriesOf {es : List (String × List β)} {cp : String} :
    .group cp ∈ entriesOf pre delimiter es ↔ ∃ e ∈ es, IsCommonPrefix pre delimiter e.1 cp := by
  rw [entriesOf, mem_flatMap]
  simp only [group_mem_keyEntries]

theorem items_entriesOf (es : List (String × List β)) :
    items (entriesOf pre delimiter es) =
      (es.filter fun e => Listed pre delimiter e.1).flatMap Prod.snd := by
  induction es with
  | nil => rfl
  | cons e es ih =>
      rw [entriesOf, flatMap_cons, items_append, ← entriesOf, ih]
      rcases keyEntries_cases pre delimiter e with ⟨hlisted, h⟩ | ⟨cp, hcp, h⟩ | ⟨hstarts, h⟩
      · rw [h, items_map_item, filter_cons_of_pos (by simpa using hlisted), flatMap_cons]
      · rw [h, filter_cons_of_neg (by simpa using hcp.not_listed)]
        rfl
      · have hnot : ¬Listed pre delimiter e.1 := by
          intro hlisted
          rw [(listed_iff.mp hlisted).1] at hstarts
          cases hstarts
        rw [h, filter_cons_of_neg (by simpa using hnot)]
        rfl

theorem entriesOf_map {α : Type} (f : β → α) (es : List (String × List β)) :
    entriesOf pre delimiter (es.map fun e => (e.1, e.2.map f)) =
      (entriesOf pre delimiter es).map (Entry.map f) := by
  rw [entriesOf, entriesOf, flatMap_map, map_flatMap]
  congr 1
  funext e
  rcases keyEntries_cases pre delimiter e with ⟨hlisted, h⟩ | ⟨cp, hcp, h⟩ | ⟨hstarts, h⟩
  · rw [h, keyEntries_of_listed (e := (e.1, e.2.map f)) hlisted, map_map, map_map]
    rfl
  · rw [h, keyEntries_of_isCommonPrefix (e := (e.1, e.2.map f)) hcp]
    rfl
  · rw [h]
    simp [keyEntries, hstarts]

/-! ## Keys in order -/

/-- The entries, each with the key it comes from. -/
def taggedEntries (pre delimiter : String) (es : List (String × List β)) :
    List (String × Entry String β) :=
  es.flatMap fun e => (keyEntries pre delimiter e).map (Prod.mk e.1)

theorem map_snd_taggedEntries (es : List (String × List β)) :
    (taggedEntries pre delimiter es).map Prod.snd = entriesOf pre delimiter es := by
  rw [taggedEntries, map_flatMap, entriesOf]
  congr 1
  funext e
  rw [map_map]
  exact map_id _

theorem pairwise_taggedEntries {es : List (String × List β)}
    (hes : es.Pairwise fun e e' => e.1 < e'.1) :
    (taggedEntries pre delimiter es).Pairwise fun x y => x.1 ≤ y.1 := by
  refine pairwise_flatMap.mpr ⟨fun e _ => ?_, hes.imp ?_⟩
  · exact pairwise_map.mpr (pairwise_of_forall fun _ _ => le_refl _)
  · intro e e' hlt x hx y hy
    obtain ⟨_, _, rfl⟩ := mem_map.mp hx
    obtain ⟨_, _, rfl⟩ := mem_map.mp hy
    exact hlt.le

theorem group_mem_taggedEntries {es : List (String × List β)} {key cp : String}
    (h : (key, Entry.group cp) ∈ taggedEntries pre delimiter es) :
    IsCommonPrefix pre delimiter key cp := by
  obtain ⟨e, -, he⟩ := mem_flatMap.mp h
  obtain ⟨x, hx, heq⟩ := mem_map.mp he
  cases heq
  exact group_mem_keyEntries.mp hx

theorem item_mem_taggedEntries {es : List (String × List β)} {key : String} {b : β}
    (h : (key, Entry.item b) ∈ taggedEntries pre delimiter es) : Listed pre delimiter key := by
  obtain ⟨e, -, he⟩ := mem_flatMap.mp h
  obtain ⟨x, hx, heq⟩ := mem_map.mp he
  cases heq
  exact (item_mem_keyEntries hx).1

theorem exists_mem_taggedEntries {tagged : List (String × Entry String β)} {x : Entry String β}
    (h : x ∈ tagged.map Prod.snd) : ∃ key, (key, x) ∈ tagged := by
  obtain ⟨⟨key, _⟩, hmem, rfl⟩ := mem_map.mp h
  exact ⟨key, hmem⟩

/-- The keys of a group stand together. -/
theorem contiguous_entriesOf {es : List (String × List β)}
    (hes : es.Pairwise fun e e' => e.1 < e'.1) : Contiguous (entriesOf pre delimiter es) := by
  intro l a l' heq cp hl hl'
  rw [← map_snd_taggedEntries] at heq
  obtain ⟨t, t', htagged, rfl, hrest⟩ := map_eq_append_iff.mp heq
  obtain ⟨⟨key, x⟩, t', rfl, rfl, rfl⟩ := map_eq_cons_iff.mp hrest
  obtain ⟨low, hlow⟩ := exists_mem_taggedEntries hl
  obtain ⟨high, hhigh⟩ := exists_mem_taggedEntries hl'
  have hsorted : (taggedEntries pre delimiter es).Pairwise fun x y => x.1 ≤ y.1 :=
    pairwise_taggedEntries hes
  have hmem : ∀ y, y ∈ t ++ (key, Entry.item a) :: t' →
      y ∈ taggedEntries pre delimiter es := fun y hy => htagged ▸ hy
  rw [htagged, pairwise_append] at hsorted
  have hlowkey : low ≤ key := hsorted.2.2 _ hlow _ (.head _)
  have hhighkey : key ≤ high := (pairwise_cons.mp hsorted.2.1).1 _ hhigh
  have hcplow := group_mem_taggedEntries (hmem _ (mem_append_left _ hlow))
  have hcphigh := group_mem_taggedEntries
    (hmem _ (mem_append_right _ (.tail _ hhigh)))
  have hlisted := item_mem_taggedEntries (hmem _ (mem_append_right _ (.head _)))
  -- the key in between starts with the common prefix as well
  refine (hcplow.of_isPrefix ?_).not_listed hlisted
  refine isPrefix_of_between hcplow.isPrefix hcphigh.isPrefix ?_ ?_
  · rw [← String.lt_iff_toList_lt]
    exact not_lt.mpr hlowkey
  · rw [← String.lt_iff_toList_lt]
    exact not_lt.mpr hhighkey

/-- Common prefixes are named in order. -/
theorem pairwise_names_entriesOf {es : List (String × List β)}
    (hes : es.Pairwise fun e e' => e.1 < e'.1) :
    (names [] (entriesOf pre delimiter es)).Pairwise (· < ·) := by
  refine pairwise_names List.Pairwise.nil (fun s hs => absurd hs not_mem_nil) ?_
  refine pairwise_flatMap.mpr ⟨fun e _ => ?_, hes.imp ?_⟩
  · rcases keyEntries_cases pre delimiter e with ⟨-, h⟩ | ⟨cp, -, h⟩ | ⟨-, h⟩
    · rw [h]
      refine pairwise_map.mpr (pairwise_of_forall fun _ _ g _ hg => ?_)
      cases hg
    · rw [h]
      exact pairwise_singleton _ _
    · rw [h]
      exact List.Pairwise.nil
  · rintro e e' hlt x hx y hy g g' rfl rfl
    by_cases heq : g = g'
    · exact .inl heq
    · exact .inr ((group_mem_keyEntries.mp hx).lt (group_mem_keyEntries.mp hy) hlt heq)

/-- Behind an item come the other items of its key and then the keys behind it. -/
theorem exists_behind_entriesOf {es : List (String × List β)} {n : ℕ} {b : β}
    (hb : (items (entriesOf pre delimiter es))[n]? = some b) :
    ∃ before key bs i after, es = before ++ (key, bs) :: after ∧ Listed pre delimiter key ∧
      bs[i]? = some b ∧ n = (items (entriesOf pre delimiter before)).length + i ∧
      behind (n + 1) (entriesOf pre delimiter es) =
        (bs.drop (i + 1)).map .item ++ entriesOf pre delimiter after := by
  induction es generalizing n with
  | nil => cases hb
  | cons e es ih =>
      have hcons : ∀ es, entriesOf pre delimiter (e :: es) =
          keyEntries pre delimiter e ++ entriesOf pre delimiter es := fun es => flatMap_cons ..
      rw [hcons] at hb ⊢
      rcases keyEntries_cases pre delimiter e with ⟨hlisted, h⟩ | ⟨cp, -, h⟩ | ⟨-, h⟩
      · rw [h] at hb ⊢
        rw [items_append, items_map_item] at hb
        by_cases hn : n < e.2.length
        · rw [getElem?_append_left hn] at hb
          refine ⟨[], e.1, e.2, n, es, rfl, hlisted, hb, by simp [entriesOf, items], ?_⟩
          rw [behind_append_of_le (by rw [items_map_item]; omega), behind_map_item]
        · have hle := Nat.le_of_not_lt hn
          rw [getElem?_append_right hle] at hb
          obtain ⟨before, key, bs, i, after, rfl, hkey, hbs, hplace, hbehind⟩ := ih hb
          refine ⟨e :: before, key, bs, i, after, rfl, hkey, hbs, ?_, ?_⟩
          · rw [hcons, h, items_append, items_map_item, length_append]
            omega
          · rw [← hbehind, behind_append_of_lt (by rw [items_map_item]; omega), items_map_item]
            congr 1
            omega
      · rw [h] at hb ⊢
        obtain ⟨before, key, bs, i, after, rfl, hkey, hbs, hplace, hbehind⟩ := ih hb
        exact ⟨e :: before, key, bs, i, after, rfl, hkey, hbs, by rwa [hcons, h], hbehind⟩
      · rw [h] at hb ⊢
        obtain ⟨before, key, bs, i, after, rfl, hkey, hbs, hplace, hbehind⟩ := ih hb
        exact ⟨e :: before, key, bs, i, after, rfl, hkey, hbs, by rwa [hcons, h], hbehind⟩

end Entries

end Rustack.S3
