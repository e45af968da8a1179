import Rustack.S3.CommonPrefixes

/-!
# When the pages of a listing cover a bucket

The pages add up to the listed objects whatever the page size, except for an
object under the empty key, whose key as a marker asks for the first page again.
The common prefixes come out once each, and no page grows beyond its limit,
exactly if the last page takes them all.
-/

namespace Rustack.S3

open GroupedPages List

/-! ## The objects of a store -/

namespace ObjectStore

theorem pairwise_currentObjects (store : ObjectStore) :
    store.currentObjects.Pairwise fun a b => a.key < b.key := by
  cases store with
  | unversioned ks =>
      refine pairwise_map.mpr (ks.objects.sorted.imp_of_mem ?_)
      intro a b ha hb hlt
      rw [ks.keyed a ha, ks.keyed b hb]
      exact compare_lt_iff_lt.mp hlt
  | versioned vs =>
      refine pairwise_filterMap.mpr (vs.objects.sorted.imp_of_mem ?_)
      intro a b ha hb hlt oa hoa ob hob
      have hkey : ∀ {e : String × List ObjectVersion} {obj}, e ∈ vs.objects.entries →
          e.2.head?.bind ObjectVersion.asObject = some obj → obj.key = e.1 := by
        intro e obj he hobj
        obtain ⟨v, hv, hasObject⟩ := Option.bind_eq_some_iff.mp hobj
        have := (vs.keyed e he).2 v (mem_of_mem_head? hv)
        rwa [ObjectVersion.asObject_eq_some.mp hasObject] at this
      rw [hkey ha hoa, hkey hb hob]
      exact compare_lt_iff_lt.mp hlt

theorem mem_currentObjects {store : ObjectStore} {obj : S3Object} :
    obj ∈ store.currentObjects ↔ store.get obj.key = some obj := by
  cases store with
  | unversioned ks =>
      rw [currentObjects, get, KeyStore.get, ← SortedMap.mem_entries_iff, mem_map]
      constructor
      · rintro ⟨e, he, rfl⟩
        rw [ks.keyed e he]
        exact he
      · intro h
        exact ⟨_, h, rfl⟩
  | versioned vs =>
      rw [currentObjects, get, VersionedKeyStore.get, VersionedKeyStore.versionsOf,
        mem_filterMap]
      constructor
      · rintro ⟨e, he, hobj⟩
        obtain ⟨v, hv, hasObject⟩ := Option.bind_eq_some_iff.mp hobj
        have hkey := (vs.keyed e he).2 v (mem_of_mem_head? hv)
        rw [ObjectVersion.asObject_eq_some.mp hasObject] at hkey
        have hfound : vs.objects.get? obj.key = some e.2 := by
          rw [show obj.key = e.1 from hkey]
          exact vs.objects.get?_of_mem he
        rw [hfound]
        exact hobj
      · intro h
        cases hfound : vs.objects.get? obj.key with
        | none => simp [hfound] at h
        | some versions =>
            rw [hfound] at h
            exact ⟨_, (SortedMap.mem_entries_iff _).mpr hfound, h⟩

end ObjectStore

/-! ## The loop and the pages -/

section Listing

variable {β : Type} (render : S3Object → β) (pre delimiter : String)

def keyed (objects : List S3Object) : List (String × List β) :=
  objects.map fun obj => (obj.key, [render obj])

/-- What there is to list behind a start key. -/
def listing (startAfter : String) (objects : List S3Object) : List (Entry String β) :=
  entriesOf pre delimiter
    ((keyed render objects).filter fun e => startAfter = "" ∨ startAfter < e.1)

def ListScan.page (scan : ListScan) : Page String β where
  items := scan.resultObjects.map render
  groups := scan.commonPrefixes
  truncated := scan.isTruncated

theorem startsWith_of_empty {key : String} : Text.startsWith key "" = true :=
  Text.startsWith_iff.mpr nil_prefix

theorem page_listLoop {startAfter : String} {maxKeys : ℕ} {scan : ListScan}
    (hcount : scan.count = scan.resultObjects.length) (objects : List S3Object) :
    (listLoop pre delimiter startAfter maxKeys scan objects).page render =
      fill maxKeys (scan.page render) (listing render pre delimiter startAfter objects) := by
  induction objects generalizing scan with
  | nil => rfl
  | cons obj objects ih =>
      have hcons : listing render pre delimiter startAfter (obj :: objects) =
          if startAfter = "" ∨ startAfter < obj.key then
            keyEntries pre delimiter (obj.key, [render obj]) ++
              listing render pre delimiter startAfter objects
          else listing render pre delimiter startAfter objects := by
        unfold listing keyed
        rw [map_cons, filter_cons]
        simp only [decide_eq_true_eq]
        split
        · rw [entriesOf, flatMap_cons, ← entriesOf]
        · rfl
      rw [listLoop, hcons]
      by_cases hstart : startAfter ≠ "" ∧ ¬startAfter < obj.key
      · have hskip : ¬(startAfter = "" ∨ startAfter < obj.key) := by tauto
        rw [if_pos hstart, if_neg hskip, ih hcount]
      · have hafter : startAfter = "" ∨ startAfter < obj.key := by tauto
        rw [if_neg hstart, if_pos hafter]
        cases hpre : Text.startsWith obj.key pre with
        | false =>
            have hne : pre ≠ "" := by
              rintro rfl
              rw [startsWith_of_empty] at hpre
              cases hpre
            rw [if_pos ⟨hne, rfl⟩, ih hcount]
            simp [keyEntries, hpre]
        | true =>
            rw [if_neg (by simp)]
            simp only [keyEntries, hpre, if_true]
            cases commonPrefixOf pre delimiter obj.key with
            | some cp =>
                simp only [singleton_append, fill]
                refine (ih ?_).trans ?_
                · exact hcount
                · rfl
            | none =>
                simp only [map_cons, map_nil, singleton_append, fill]
                have hlength : (scan.page render).items.length = scan.count := by
                  rw [hcount]
                  exact length_map _
                rw [hlength]
                split
                · rfl
                · refine (ih ?_).trans ?_
                  · simp [hcount]
                  · simp [ListScan.page]

theorem page_listFromBtree (startAfter : String) (maxKeys : ℕ) (objects : List S3Object) :
    ({ items := (listFromBtree objects pre delimiter startAfter maxKeys).objects.map render
       groups := (listFromBtree objects pre delimiter startAfter maxKeys).commonPrefixes
       truncated := (listFromBtree objects pre delimiter startAfter maxKeys).isTruncated } :
      Page String β) = page maxKeys (listing render pre delimiter startAfter objects) :=
  page_listLoop render pre delimiter rfl objects

theorem nextMarker_listFromBtree {key : β → String} (hkey : ∀ obj, key (render obj) = obj.key)
    {startAfter : String} {maxKeys : ℕ} (hmax : 0 < maxKeys) (objects : List S3Object) :
    (listFromBtree objects pre delimiter startAfter maxKeys).nextMarker =
      if maxKeys < (items (listing render pre delimiter startAfter objects)).length then
        ((items (listing render pre delimiter startAfter objects))[maxKeys - 1]?).map key
      else none := by
  have hpage := page_listFromBtree render pre delimiter startAfter maxKeys objects
  set result := listFromBtree objects pre delimiter startAfter maxKeys with hresult
  have hmarker : result.nextMarker =
      if result.isTruncated then ((result.objects.map render).getLast?).map key else none := by
    rw [getLast?_map, Option.map_map]
    rw [show key ∘ render = S3Object.key from funext hkey]
    rfl
  have htruncated : (page maxKeys (listing render pre delimiter startAfter
      objects)).truncated = true ↔ _ := page_truncated_iff
  rw [← hpage] at htruncated
  rw [hmarker]
  by_cases hlt : maxKeys < (items (listing render pre delimiter startAfter objects)).length
  · rw [if_pos (htruncated.mpr hlt), if_pos hlt]
    have hitems := congrArg Page.items hpage
    rw [page_of_lt hlt] at hitems
    change result.objects.map render = _ at hitems
    rw [hitems, getLast?_take, if_neg hmax.ne', getElem?_eq_getElem (by omega)]
    rfl
  · rw [if_neg hlt, if_neg]
    exact fun h => hlt (htruncated.mp h)

/-- Behind a key in a sorted list come the greater keys. -/
theorem filter_lt_of_pairwise {before after : List (String × List β)} {e : String × List β}
    (h : (before ++ e :: after).Pairwise fun x y => x.1 < y.1) :
    ((before ++ e :: after).filter fun x => e.1 < x.1) = after := by
  obtain ⟨-, hafter, hbefore⟩ := pairwise_append.mp h
  rw [filter_append, filter_cons_of_neg (by simp), filter_eq_nil_iff.mpr,
    nil_append, filter_eq_self]
  · intro x hx
    rw [decide_eq_true_eq]
    exact (pairwise_cons.mp hafter).1 x hx
  · intro x hx
    rw [decide_eq_true_eq]
    exact (hbefore x hx e (.head _)).not_gt

variable {render pre delimiter}

theorem pairwise_keyed (render : S3Object → β) {objects : List S3Object}
    (h : objects.Pairwise fun a b => a.key < b.key) :
    (keyed render objects).Pairwise fun x y => x.1 < y.1 :=
  pairwise_map.mpr h

/-- Behind an object the pages show what sorts behind its key. -/
theorem behind_listing {startAfter : String} {objects : List S3Object} {n : ℕ} {b : β}
    (hobjects : objects.Pairwise fun a b => a.key < b.key)
    (hb : (items (listing render pre delimiter startAfter objects))[n]? = some b) :
    ∃ obj ∈ objects, b = render obj ∧ (startAfter = "" ∨ startAfter < obj.key) ∧
      Listed pre delimiter obj.key ∧
      behind (n + 1) (listing render pre delimiter startAfter objects) =
        entriesOf pre delimiter ((keyed render objects).filter fun e => obj.key < e.1) := by
  obtain ⟨before, key, bs, i, after, hes, hlisted, hbs, -, hbehind⟩ := exists_behind_entriesOf hb
  have hfiltered := (pairwise_keyed render hobjects).filter
    fun e => startAfter = "" ∨ startAfter < e.1
  have hmem : (key, bs) ∈ (keyed render objects).filter
      fun e => startAfter = "" ∨ startAfter < e.1 := by
    rw [hes]
    exact mem_append_right _ (.head _)
  rw [hes] at hfiltered
  have hafter := filter_lt_of_pairwise hfiltered
  obtain ⟨hmem, hstart⟩ := mem_filter.mp hmem
  obtain ⟨obj, hobj, heq⟩ := mem_map.mp hmem
  cases heq
  rw [decide_eq_true_eq] at hstart
  have hi : i = 0 := by
    by_contra hne
    rw [getElem?_eq_none (by simpa using Nat.one_le_iff_ne_zero.mpr hne)] at hbs
    cases hbs
  subst hi
  refine ⟨obj, hobj, by simpa using hbs.symm, hstart, hlisted, hbehind.trans ?_⟩
  rw [← hafter, ← hes, filter_filter]
  simp only [Nat.zero_add, drop_succ_cons, drop_zero, map_nil, nil_append]
  congr 1
  refine filter_congr fun x _ => ?_
  by_cases hlt : obj.key < x.1
  · have hafter : startAfter = "" ∨ startAfter < x.1 := hstart.imp_right fun h => h.trans hlt
    simp only [hlt, hafter, decide_true, Bool.and_self]
  · simp only [hlt, decide_false, Bool.false_and]

theorem listing_of_ne_empty {key : String} (hkey : key ≠ "") (objects : List S3Object) :
    listing render pre delimiter key objects =
      entriesOf pre delimiter ((keyed render objects).filter fun e => key < e.1) := by
  unfold listing
  simp only [hkey, false_or]

theorem items_listing (render : S3Object → β) (pre delimiter startAfter : String)
    (objects : List S3Object) :
    items (listing render pre delimiter startAfter objects) =
      (objects.filter fun obj =>
        (startAfter = "" ∨ startAfter < obj.key) ∧ Listed pre delimiter obj.key).map render := by
  rw [listing, items_entriesOf, filter_filter, keyed, filter_map, flatMap_map]
  simp only [Function.comp_def, ← map_eq_flatMap]
  congr 1
  refine filter_congr fun obj _ => ?_
  rw [← Bool.decide_and, decide_eq_decide]
  exact and_comm

end Listing

theorem not_lt_empty (key : String) : ¬key < "" := by
  rw [String.lt_iff_toList_lt]
  exact not_lt_nil _

theorem empty_lt {key : String} (h : key ≠ "") : "" < key := by
  rw [String.lt_iff_toList_lt]
  cases hkey : key.toList with
  | nil => exact absurd (String.toList_inj.mp hkey) h
  | cons c cs => exact nil_lt_cons c cs

/-! ## Where a marker leads -/

section Resume

variable {β C : Type} {render : S3Object → β} {key : β → String}
  {position : Option C → String} {token : String → C} {objects : List S3Object} {maxKeys : ℕ}

theorem leadsBack_listing (pre delimiter : String)
    (hobjects : objects.Pairwise fun a b => a.key < b.key)
    (hkey : ∀ obj, key (render obj) = obj.key) (hposition : ∀ k, position (some (token k)) = k)
    (hmax : 0 < maxKeys) :
    LeadsBack maxKeys (fun c => listing render pre delimiter (position c) objects)
      fun b => token (key b) := by
  intro cursor b hb
  obtain ⟨obj, -, rfl, hstart, -, hbehind⟩ := behind_listing hobjects hb
  simp only [hkey, hposition]
  rw [Nat.sub_add_cancel hmax] at hbehind
  by_cases hempty : obj.key = ""
  · -- the empty marker asks for the first page again
    have hfirst : position cursor = "" := by
      rw [hempty] at hstart
      exact hstart.resolve_right (not_lt_empty _)
    have hlength := (List.getElem?_eq_some_iff.mp hb).1
    obtain ⟨l, c, hl⟩ := exists_append_item_behind hlength
    rw [Nat.sub_add_cancel hmax] at hl
    refine ⟨l ++ [.item c], ?_, .inr ?_⟩
    · rw [hempty, ← hfirst]
      change listing render pre delimiter (position cursor) objects = _ at hl
      conv_lhs => rw [hl]
      rw [append_assoc]
      rfl
    · rw [items_append]
      exact append_ne_nil_of_right_ne_nil _ (cons_ne_nil _ _)
  · refine ⟨[], ?_, .inl rfl⟩
    rw [nil_append, hbehind, listing_of_ne_empty hempty]

/-- All page ends lead on unless a page ends behind an object under the empty key. -/
theorem resumes_listing_iff (pre delimiter : String)
    (hobjects : objects.Pairwise fun a b => a.key < b.key)
    (hkey : ∀ obj, key (render obj) = obj.key) (hposition : ∀ k, position (some (token k)) = k)
    (hfirst : position none = "") (hmax : 0 < maxKeys) :
    Resumes maxKeys (fun c => listing render pre delimiter (position c) objects)
        (fun b => token (key b)) (listing render pre delimiter (position none) objects) ↔
      ¬(maxKeys = 1 ∧ ∃ obj ∈ objects, ∃ obj' ∈ objects, Listed pre delimiter obj.key ∧
        Listed pre delimiter obj'.key ∧ obj.key = "" ∧ obj'.key ≠ "") := by
  rw [hfirst]
  have hitems := items_listing render pre delimiter "" objects
  simp only [true_or, true_and] at hitems
  set shown := objects.filter fun obj => Listed pre delimiter obj.key with hshown
  have hsorted : shown.Pairwise fun a b => a.key < b.key := hobjects.filter _
  have hmem : ∀ {obj}, obj ∈ shown ↔ obj ∈ objects ∧ Listed pre delimiter obj.key := by
    intro obj
    rw [hshown, mem_filter, decide_eq_true_eq]
  constructor
  · rintro hresumes ⟨rfl, obj, hobj, obj', hobj', hlisted, hlisted', hempty, hne⟩
    have h := hmem.mpr ⟨hobj, hlisted⟩
    have h' := hmem.mpr ⟨hobj', hlisted'⟩
    cases hcons : shown with
    | nil =>
        rw [hcons] at h
        cases h
    | cons first rest =>
        rw [hcons] at h h' hitems hsorted
        have hfirstEq : first.key = "" := by
          rcases mem_cons.mp h with rfl | h
          · exact hempty
          · have := (pairwise_cons.mp hsorted).1 obj h
            rw [hempty] at this
            exact absurd this (not_lt_empty _)
        have hrest : rest ≠ [] := by
          rintro rfl
          rw [mem_singleton.mp h'] at hne
          exact hne hfirstEq
        have hlength := length_pos_iff.mpr hrest
        have hagain := hresumes 0 (render first) (by simp [hitems]) (by simp [hitems, hlength])
        simp only [hkey, hposition, hfirstEq] at hagain
        have hcount := congrArg (fun es => (items es).length) hagain
        simp only [items_behind, hitems, length_drop, length_map, length_cons]
          at hcount
        omega
  · intro hcond j b hb hlt
    have hpos : 0 < (j + 1) * maxKeys := Nat.mul_pos (Nat.succ_pos j) hmax
    obtain ⟨obj, hobj, rfl, -, hlisted, hbehind⟩ := behind_listing hobjects hb
    simp only [hkey, hposition]
    rw [Nat.sub_add_cancel hpos] at hbehind
    by_cases hempty : obj.key = ""
    · exfalso
      rw [hitems, getElem?_map, Option.map_eq_some_iff] at hb
      rw [hitems, length_map] at hlt
      obtain ⟨obj₀, hobj₀, heq⟩ := hb
      have hkey₀ : obj₀.key = "" := by rw [← hkey obj₀, heq, hkey, hempty]
      obtain ⟨hbound, hget⟩ := List.getElem?_eq_some_iff.mp hobj₀
      rw [List.pairwise_iff_getElem] at hsorted
      have hone : (j + 1) * maxKeys = 1 := by
        by_contra hne
        have hlt₀ := hsorted 0 ((j + 1) * maxKeys - 1) (by omega) hbound (by omega)
        rw [hget, hkey₀] at hlt₀
        exact not_lt_empty _ hlt₀
      have hnext := hsorted ((j + 1) * maxKeys - 1) ((j + 1) * maxKeys) hbound hlt (by omega)
      rw [hget, hkey₀] at hnext
      obtain ⟨hobj₀mem, hobj₀listed⟩ := hmem.mp (hget ▸ getElem_mem hbound)
      obtain ⟨hnextmem, hnextlisted⟩ := hmem.mp (getElem_mem hlt)
      refine hcond ⟨Nat.eq_one_of_mul_eq_one_left hone, obj₀, hobj₀mem, _, hnextmem, hobj₀listed,
        hnextlisted, hkey₀, ?_⟩
      intro heq
      rw [heq] at hnext
      exact lt_irrefl _ hnext
    · rw [hbehind, listing_of_ne_empty hempty]

end Resume

/-! ## The three ways to read on -/

/-- How a client goes on: by `next_marker`, by the last key it was shown, or by token. -/
inductive ListStyle where
  | nextMarker
  | lastKey
  | continuationToken (fetchOwner : Option Bool)

/-- A page, the cursor it was asked for with and the one to go on with. -/
structure ListPage where
  contents : List Model.Object
  commonPrefixes : List String
  isTruncated : Bool
  cursor : Option String
  next : Option String

def ListPage.page (p : ListPage) : Page String Model.Object where
  items := p.contents
  groups := p.commonPrefixes
  truncated := p.isTruncated

def Model.Object.keyText (object : Model.Object) : String := object.key.getD ""

namespace ListStyle

def render : ListStyle → S3Object → Model.Object
  | nextMarker | lastKey => toModelObject
  | continuationToken fetchOwner => toModelObjectV2 (fetchOwner.getD false)

def token : ListStyle → String → String
  | nextMarker | lastKey => id
  | continuationToken _ => encodeContinuationToken

/-- The key behind which a page starts. -/
def position : ListStyle → Option String → String
  | nextMarker, cursor | lastKey, cursor => cursor.getD ""
  | continuationToken _, cursor =>
    match decodeOptionalToken cursor with
    | .ok key => key.getD ""
    | .error _ => ""

/-- What a cursor leaves to be shown. -/
def shownFrom (style : ListStyle) (store : ObjectStore) (pre delimiter : String)
    (cursor : Option String) : List (Entry String Model.Object) :=
  listing style.render pre delimiter (style.position cursor) store.currentObjects

/-- The cursor that stands behind an object. -/
def cursorBehind (style : ListStyle) (object : Model.Object) : String :=
  style.token object.keyText

end ListStyle

def ListObjectsOutput.listPage (out : ListObjectsOutput) (next : Option String) : ListPage where
  contents := out.contents
  commonPrefixes := out.commonPrefixes
  isTruncated := out.isTruncated.getD false
  cursor := out.marker
  next := next

def ListObjectsV2Output.listPage (out : ListObjectsV2Output) : ListPage where
  contents := out.contents
  commonPrefixes := out.commonPrefixes
  isTruncated := out.isTruncated.getD false
  cursor := out.continuationToken
  next := out.nextContinuationToken

section Fetch

variable (state : S3ServiceState) (bucket : String) (keyPrefix delimiter : Option String)
  (maxKeys : Option ℤ)

def fetchPage : ListStyle → Option String → Except S3Error ListPage
  | .nextMarker, cursor =>
    (handleListObjects state
      { bucket, delimiter, encodingType := none, marker := cursor, maxKeys, keyPrefix }).map
        fun out => out.listPage out.nextMarker
  | .lastKey, cursor =>
    (handleListObjects state
      { bucket, delimiter, encodingType := none, marker := cursor, maxKeys, keyPrefix }).map
        fun out => out.listPage (out.contents.getLast?.bind Model.Object.key)
  | .continuationToken fetchOwner, cursor =>
    (handleListObjectsV2 state
      { bucket, continuationToken := cursor, delimiter, encodingType := none, fetchOwner, maxKeys,
        keyPrefix, startAfter := none }).map ListObjectsV2Output.listPage

/-- Fetch a page and go on while it says that it is truncated. -/
def nextPage (style : ListStyle) (cursor : Option String) : Option (ListPage × Option String) :=
  match fetchPage state bucket keyPrefix delimiter maxKeys style cursor with
  | .error _ => none
  | .ok p => some (p, if p.isTruncated then p.next else none)

end Fetch

theorem decode_encode_continuationToken (key : String) :
    decodeContinuationToken (encodeContinuationToken key) = .ok key := by
  rw [decodeContinuationToken, encodeContinuationToken, String.toList_ofList,
    Base64.decode_encode]
  have hvalid : (⟨key.toUTF8.data⟩ : ByteArray).IsValidUTF8 := key.isValidUTF8
  simp only [Array.toArray_toList, String.fromUTF8?, hvalid, dif_pos]
  rfl

namespace ListStyle

theorem position_token (style : ListStyle) (key : String) :
    style.position (some (style.token key)) = key := by
  cases style with
  | nextMarker => rfl
  | lastKey => rfl
  | continuationToken fetchOwner =>
      simp only [position, token, decodeOptionalToken, decode_encode_continuationToken]
      rfl

theorem position_none (style : ListStyle) : style.position none = "" := by
  cases style <;> rfl

theorem keyText_render (style : ListStyle) (obj : S3Object) :
    (style.render obj).keyText = obj.key := by
  cases style with
  | nextMarker => rfl
  | lastKey => rfl
  | continuationToken fetchOwner =>
      change (toModelObjectV2 (fetchOwner.getD false) obj).keyText = obj.key
      unfold toModelObjectV2
      split <;> rfl

end ListStyle

open ListStyle (shownFrom)

section Pages

variable {state : S3ServiceState} {name : String} {bucket : S3Bucket}
  {keyPrefix delimiter : Option String} {maxKeys : Option ℤ}

/-- A page in terms of the walk over the objects of the bucket. -/
structure IsPageOf (bucket : S3Bucket) (pre delimiter : String) (maxKeys : ℕ) (style : ListStyle)
    (cursor : Option String) (p : ListPage) : Prop where
  page_eq : p.page = page maxKeys (style.shownFrom bucket.objects pre delimiter cursor)
  cursor_eq : p.cursor = cursor
  next_eq : p.isTruncated = true → p.next =
    ((items (style.shownFrom bucket.objects pre delimiter cursor))[maxKeys - 1]?).map
      style.cursorBehind

theorem IsPageOf.truncated_iff {pre delimiter : String} {max : ℕ} {style : ListStyle}
    {cursor : Option String} {p : ListPage} (h : IsPageOf bucket pre delimiter max style cursor p) :
    p.isTruncated = true ↔
      max < (items (style.shownFrom bucket.objects pre delimiter cursor)).length := by
  rw [← page_truncated_iff, ← h.page_eq]
  rfl

theorem validateMaxKeys_of_pos (h : 1 ≤ maxKeys.getD defaultMaxKeys) :
    validateMaxKeys maxKeys = .ok (maxKeys.getD defaultMaxKeys) := by
  rw [validateMaxKeys, if_neg (by omega)]

theorem handleListObjects_eq (keyPrefix delimiter : Option String)
    (hbucket : state.getBucket name = .ok bucket)
    (hmax : 1 ≤ maxKeys.getD defaultMaxKeys) (marker : Option String) :
    ∃ out, handleListObjects state
        { bucket := name, delimiter, encodingType := none, marker, maxKeys, keyPrefix } = .ok out ∧
      let result := bucket.objects.listObjects (keyPrefix.getD "") (delimiter.getD "")
        (marker.getD "") (maxKeys.getD defaultMaxKeys).toNat
      out.contents = result.objects.map toModelObject ∧
        out.commonPrefixes = result.commonPrefixes ∧
        out.isTruncated = some result.isTruncated ∧ out.marker = marker ∧
        out.nextMarker = if result.isTruncated then result.nextMarker else none := by
  simp only [handleListObjects, hbucket, validateMaxKeys_of_pos hmax]
  exact ⟨_, rfl, rfl, rfl, rfl, rfl, rfl⟩

theorem handleListObjectsV2_eq (keyPrefix delimiter : Option String)
    (hbucket : state.getBucket name = .ok bucket)
    (hmax : 1 ≤ maxKeys.getD defaultMaxKeys) (fetchOwner : Option Bool)
    {token decoded : Option String} (htoken : decodeOptionalToken token = .ok decoded) :
    ∃ out, handleListObjectsV2 state
        { bucket := name, continuationToken := token, delimiter, encodingType := none, fetchOwner,
          maxKeys, keyPrefix, startAfter := none } = .ok out ∧
      let result := bucket.objects.listObjects (keyPrefix.getD "") (delimiter.getD "")
        (decoded.getD "") (maxKeys.getD defaultMaxKeys).toNat
      out.contents = result.objects.map (toModelObjectV2 (fetchOwner.getD false)) ∧
        out.commonPrefixes = result.commonPrefixes ∧
        out.isTruncated = some result.isTruncated ∧ out.continuationToken = token ∧
        out.nextContinuationToken =
          if result.isTruncated then result.nextMarker.map encodeContinuationToken else none := by
  simp only [handleListObjectsV2, hbucket, validateMaxKeys_of_pos hmax, htoken]
  cases decoded <;> exact ⟨_, rfl, rfl, rfl, rfl, rfl, rfl⟩

theorem lastKey_map_toModelObject (objects : List S3Object) :
    (objects.map toModelObject).getLast?.bind Model.Object.key =
      objects.getLast?.map S3Object.key := by
  rw [getLast?_map]
  cases objects.getLast? <;> rfl

/-- A page that was filled from the result of the walk. -/
theorem isPageOf_of_result {style : ListStyle} {cursor : Option String} {p : ListPage} {max : ℕ}
    (hmax : 0 < max) {pre delimiter : String} {result : ListResult}
    (hresult : result = listFromBtree bucket.objects.currentObjects pre delimiter
      (style.position cursor) max)
    (hcontents : p.contents = result.objects.map style.render)
    (hprefixes : p.commonPrefixes = result.commonPrefixes)
    (htruncated : p.isTruncated = result.isTruncated) (hcursor : p.cursor = cursor)
    (hnext : p.isTruncated = true → p.next = result.nextMarker.map style.token) :
    IsPageOf bucket pre delimiter max style cursor p := by
  have hpage := page_listFromBtree style.render pre delimiter (style.position cursor) max
    bucket.objects.currentObjects
  rw [← hresult] at hpage
  refine ⟨?_, hcursor, fun htrue => ?_⟩
  · rw [shownFrom, ← hpage, ListPage.page, hcontents, hprefixes, htruncated]
  · have hlt := page_truncated_iff.mp ((congrArg Page.truncated hpage).symm.trans
      (htruncated.symm.trans htrue))
    rw [hnext htrue, hresult, nextMarker_listFromBtree style.render pre delimiter
      style.keyText_render hmax, if_pos hlt, Option.map_map]
    rfl

theorem isPageOf_of_fetchPage (hbucket : state.getBucket name = .ok bucket)
    (hmax : 1 ≤ maxKeys.getD defaultMaxKeys) {style : ListStyle} {cursor : Option String}
    {p : ListPage}
    (h : fetchPage state name keyPrefix delimiter maxKeys style cursor = .ok p) :
    IsPageOf bucket (keyPrefix.getD "") (delimiter.getD "") (maxKeys.getD defaultMaxKeys).toNat
      style cursor p := by
  have hpos : 0 < (maxKeys.getD defaultMaxKeys).toNat := by omega
  cases style with
  | nextMarker =>
      obtain ⟨out, hout, hcontents, hprefixes, htruncated, hmarker, hnext⟩ :=
        handleListObjects_eq keyPrefix delimiter hbucket hmax cursor
      rw [fetchPage, hout] at h
      cases h
      refine isPageOf_of_result hpos rfl hcontents hprefixes ?_ hmarker fun htrue => ?_
      · exact congrArg (Option.getD · false) htruncated
      · change out.isTruncated.getD false = true at htrue
        rw [htruncated, Option.getD_some] at htrue
        change out.nextMarker = _
        rw [hnext, if_pos htrue]
        exact (congrFun Option.map_id _).symm
  | lastKey =>
      obtain ⟨out, hout, hcontents, hprefixes, htruncated, hmarker, -⟩ :=
        handleListObjects_eq keyPrefix delimiter hbucket hmax cursor
      rw [fetchPage, hout] at h
      cases h
      refine isPageOf_of_result hpos rfl hcontents hprefixes ?_ hmarker fun htrue => ?_
      · exact congrArg (Option.getD · false) htruncated
      · change out.isTruncated.getD false = true at htrue
        rw [htruncated, Option.getD_some] at htrue
        change out.contents.getLast?.bind Model.Object.key = _
        rw [hcontents, lastKey_map_toModelObject]
        refine Eq.trans ?_ (congrFun Option.map_id _).symm
        exact (if_pos htrue).symm
  | continuationToken fetchOwner =>
      cases htoken : decodeOptionalToken cursor with
      | error e =>
          have hbound := validateMaxKeys_of_pos hmax
          simp only [fetchPage, handleListObjectsV2, hbucket, hbound, htoken] at h
          cases h
      | ok decoded =>
          obtain ⟨out, hout, hcontents, hprefixes, htruncated, hmarker, hnext⟩ :=
            handleListObjectsV2_eq keyPrefix delimiter hbucket hmax fetchOwner htoken
          rw [fetchPage, hout] at h
          cases h
          have hposition : decoded.getD "" =
              (ListStyle.continuationToken fetchOwner).position cursor := by
            simp only [ListStyle.position, htoken]
          rw [hposition] at hcontents hprefixes htruncated hnext
          refine isPageOf_of_result hpos rfl hcontents hprefixes ?_ hmarker fun htrue => ?_
          · exact congrArg (Option.getD · false) htruncated
          · change out.isTruncated.getD false = true at htrue
            rw [htruncated, Option.getD_some] at htrue
            change out.nextContinuationToken = _
            rw [hnext, if_pos htrue]
            rfl

theorem exists_fetchPage (keyPrefix delimiter : Option String)
    (hbucket : state.getBucket name = .ok bucket) (hmax : 1 ≤ maxKeys.getD defaultMaxKeys)
    (style : ListStyle) {cursor : Option String}
    (hcursor : cursor = none ∨ ∃ key, cursor = some (style.token key)) :
    ∃ p, fetchPage state name keyPrefix delimiter maxKeys style cursor = .ok p := by
  cases style with
  | nextMarker | lastKey =>
      obtain ⟨out, hout, -⟩ := handleListObjects_eq keyPrefix delimiter hbucket hmax cursor
      exact ⟨_, by rw [fetchPage, hout]; rfl⟩
  | continuationToken fetchOwner =>
      have htoken : ∃ decoded, decodeOptionalToken cursor = .ok decoded := by
        rcases hcursor with rfl | ⟨key, rfl⟩
        · exact ⟨_, rfl⟩
        · refine ⟨some key, ?_⟩
          change (decodeContinuationToken (encodeContinuationToken key)).map some = .ok (some key)
          rw [decode_encode_continuationToken]
          rfl
      obtain ⟨decoded, hdecoded⟩ := htoken
      obtain ⟨out, hout, -⟩ :=
        handleListObjectsV2_eq keyPrefix delimiter hbucket hmax fetchOwner hdecoded
      exact ⟨_, by rw [fetchPage, hout]; rfl⟩

/-- What the pages of a bucket should add up to. -/
structure CoversOnce (store : ObjectStore) (pre delimiter : String) (maxKeys : ℕ)
    (style : ListStyle) (pages : List ListPage) : Prop where
  contents : ∃ objects : List S3Object,
    pages.flatMap ListPage.contents = objects.map style.render ∧
      objects.Pairwise (fun a b => a.key < b.key) ∧
      ∀ obj, obj ∈ objects ↔ store.get obj.key = some obj ∧ Listed pre delimiter obj.key
  prefixes_sorted : (pages.flatMap ListPage.commonPrefixes).Pairwise (· < ·)
  mem_prefixes : ∀ cp, cp ∈ pages.flatMap ListPage.commonPrefixes ↔
    ∃ obj, store.get obj.key = some obj ∧ IsCommonPrefix pre delimiter obj.key cp
  room : ∀ p ∈ pages, p.contents.length + p.commonPrefixes.length ≤ maxKeys
  progress : ∀ p ∈ pages, p.isTruncated = true → ∃ next, p.next = some next ∧
    style.position p.cursor < style.position (some next)

/-- The common prefixes come behind the first object of the last page, unless there is only one
page; the last page has room for them; and no page of one object ends behind the empty key. -/
def PagesFit (store : ObjectStore) (pre delimiter : String) (maxKeys : ℕ) : Prop :=
  Fits maxKeys (listing id pre delimiter "" store.currentObjects) ∧
    ¬(maxKeys = 1 ∧ ∃ obj ∈ store.currentObjects, ∃ obj' ∈ store.currentObjects,
      Listed pre delimiter obj.key ∧ Listed pre delimiter obj'.key ∧ obj.key = "" ∧ obj'.key ≠ "")

theorem listing_eq_map (render : S3Object → Model.Object) (pre delimiter startAfter : String)
    (objects : List S3Object) :
    listing render pre delimiter startAfter objects =
      (listing id pre delimiter startAfter objects).map (Entry.map render) := by
  have hkeyed : keyed render objects =
      (keyed id objects).map fun e => (e.1, e.2.map render) := by
    rw [keyed, keyed, map_map]
    rfl
  rw [listing, listing, ← entriesOf_map, hkeyed, filter_map]
  rfl

theorem nextPage_ne_none (keyPrefix delimiter : Option String)
    (hbucket : state.getBucket name = .ok bucket) (hmax : 1 ≤ maxKeys.getD defaultMaxKeys)
    (style : ListStyle) {cursor : Option String}
    (hcursor : cursor = none ∨ ∃ key, cursor = some (style.token key)) :
    nextPage state name keyPrefix delimiter maxKeys style cursor ≠ none := by
  obtain ⟨p, hp⟩ := exists_fetchPage keyPrefix delimiter hbucket hmax style hcursor
  rw [nextPage, hp]
  exact Option.some_ne_none _

theorem fetchPage_of_nextPage {style : ListStyle} {cursor c : Option String} {p : ListPage}
    (h : nextPage state name keyPrefix delimiter maxKeys style cursor = some (p, c)) :
    fetchPage state name keyPrefix delimiter maxKeys style cursor = .ok p ∧
      c = if p.isTruncated then p.next else none := by
  unfold nextPage at h
  split at h
  · cases h
  · next p' hp =>
      cases h
      exact ⟨hp, rfl⟩

theorem reads_nextPage (keyPrefix delimiter : Option String)
    (hbucket : state.getBucket name = .ok bucket) (hmax : 1 ≤ maxKeys.getD defaultMaxKeys)
    (style : ListStyle) :
    Reads (maxKeys.getD defaultMaxKeys).toNat
      (style.shownFrom bucket.objects (keyPrefix.getD "") (delimiter.getD "")) style.cursorBehind
      (nextPage state name keyPrefix delimiter maxKeys style) ListPage.page := by
  constructor
  · intro cursor p c h
    exact (isPageOf_of_fetchPage hbucket hmax (fetchPage_of_nextPage h).1).page_eq
  · intro cursor p c h
    obtain ⟨hp, rfl⟩ := fetchPage_of_nextPage h
    have hpage := isPageOf_of_fetchPage hbucket hmax hp
    by_cases htrue : p.isTruncated = true
    · rw [if_pos htrue, if_pos (hpage.truncated_iff.mp htrue), hpage.next_eq htrue]
    · rw [if_neg htrue, if_neg fun h => htrue (hpage.truncated_iff.mpr h)]

/-- If every page end leads on, the marker of a truncated page lies behind the page's start. -/
theorem IsPageOf.progress {pre delimiter : String} {max : ℕ} (hmax : 0 < max) {style : ListStyle}
    {cursor : Option String} {p : ListPage} (h : IsPageOf bucket pre delimiter max style cursor p)
    (hresumes : Resumes max (style.shownFrom bucket.objects pre delimiter) style.cursorBehind
      (style.shownFrom bucket.objects pre delimiter none))
    (htrue : p.isTruncated = true) :
    ∃ next, p.next = some next ∧ style.position p.cursor < style.position (some next) := by
  have hlt := h.truncated_iff.mp htrue
  obtain ⟨object, hobject⟩ := getElem?_limit hmax hlt
  refine ⟨style.cursorBehind object, ?_, ?_⟩
  · rw [h.next_eq htrue, hobject, Option.map_some]
  · obtain ⟨obj, -, rfl, hstart, -, -⟩ :=
      behind_listing bucket.objects.pairwise_currentObjects hobject
    rw [h.cursor_eq, ListStyle.cursorBehind, style.position_token, style.keyText_render]
    refine hstart.elim (fun hempty => ?_) id
    have hfrom : style.shownFrom bucket.objects pre delimiter cursor =
        style.shownFrom bucket.objects pre delimiter none := by
      rw [shownFrom, shownFrom, hempty, style.position_none]
    rw [hfrom] at hobject hlt
    rw [hempty]
    by_contra hle
    have hkey : obj.key = "" := by
      by_contra hne
      exact hle (empty_lt hne)
    have hagain := hresumes 0 _ (by simpa using hobject) (by simpa using hlt)
    have hback : style.shownFrom bucket.objects pre delimiter
        (some (style.cursorBehind (style.render obj))) =
          style.shownFrom bucket.objects pre delimiter none := by
      rw [shownFrom, shownFrom, ListStyle.cursorBehind, style.keyText_render,
        hkey, style.position_token, style.position_none]
    rw [hback] at hagain
    have hcount := congrArg (fun es => (items es).length) hagain
    simp only [items_behind, length_drop] at hcount
    omega

/-- The objects a listing shows one by one. -/
def ObjectStore.shownObjects (store : ObjectStore) (pre delimiter : String) : List S3Object :=
  store.currentObjects.filter fun obj => Listed pre delimiter obj.key

theorem items_shownFrom_none (style : ListStyle) (store : ObjectStore) (pre delimiter : String) :
    items (style.shownFrom store pre delimiter none) =
      (store.shownObjects pre delimiter).map style.render := by
  rw [shownFrom, style.position_none, items_listing]
  simp only [true_or, true_and]
  rfl

theorem eq_shownObjects_iff {store : ObjectStore} {pre delimiter : String}
    {objects : List S3Object} :
    objects = store.shownObjects pre delimiter ↔ objects.Pairwise (fun a b => a.key < b.key) ∧
      ∀ obj, obj ∈ objects ↔ store.get obj.key = some obj ∧ Listed pre delimiter obj.key := by
  have hmem : ∀ obj, obj ∈ store.shownObjects pre delimiter ↔
      store.get obj.key = some obj ∧ Listed pre delimiter obj.key := by
    intro obj
    rw [ObjectStore.shownObjects, mem_filter, decide_eq_true_eq,
      ObjectStore.mem_currentObjects]
  have hsorted := store.pairwise_currentObjects.filter fun obj => Listed pre delimiter obj.key
  constructor
  · rintro rfl
    exact ⟨hsorted, hmem⟩
  · rintro ⟨hobjects, hiff⟩
    exact eq_of_pairwise_of_mem_iff (fun _ _ hab => lt_asymm hab) hobjects hsorted
      fun obj => (hiff obj).trans (hmem obj).symm

theorem eq_names_iff (style : ListStyle) {store : ObjectStore} {pre delimiter : String}
    {cps : List String} :
    cps = names [] (style.shownFrom store pre delimiter none) ↔
      cps.Pairwise (· < ·) ∧ ∀ cp, cp ∈ cps ↔
        ∃ obj, store.get obj.key = some obj ∧ IsCommonPrefix pre delimiter obj.key cp := by
  have hkeys := (pairwise_keyed style.render store.pairwise_currentObjects).filter
    fun e => style.position none = "" ∨ style.position none < e.1
  have hsorted : (names [] (style.shownFrom store pre delimiter none)).Pairwise (· < ·) :=
    pairwise_names_entriesOf hkeys
  have hmem : ∀ cp, cp ∈ names [] (style.shownFrom store pre delimiter none) ↔
      ∃ obj, store.get obj.key = some obj ∧ IsCommonPrefix pre delimiter obj.key cp := by
    intro cp
    rw [mem_names, shownFrom, style.position_none, listing, group_mem_entriesOf]
    simp only [not_mem_nil, false_or, true_or, decide_true, filter_true, keyed,
      mem_map, exists_exists_and_eq_and, ObjectStore.mem_currentObjects]
  constructor
  · rintro rfl
    exact ⟨hsorted, hmem⟩
  · rintro ⟨hcps, hiff⟩
    exact eq_of_pairwise_of_mem_iff (fun _ _ hab => lt_asymm hab) hcps hsorted
      fun cp => (hiff cp).trans (hmem cp).symm

theorem fits_shownFrom_iff (style : ListStyle) {store : ObjectStore} {pre delimiter : String}
    {max : ℕ} : Fits max (style.shownFrom store pre delimiter none) ↔
      Fits max (listing id pre delimiter "" store.currentObjects) := by
  rw [shownFrom, style.position_none, listing_eq_map, fits_map_iff]

/-- If every page end leads on, reading on yields the chunks. -/
theorem exists_pages (keyPrefix delimiter : Option String)
    (hbucket : state.getBucket name = .ok bucket) (hmax : 1 ≤ maxKeys.getD defaultMaxKeys)
    {style : ListStyle} {es : List (Entry String Model.Object)}
    (hes : es = style.shownFrom bucket.objects (keyPrefix.getD "") (delimiter.getD "") none)
    (hresumes : Resumes (maxKeys.getD defaultMaxKeys).toNat
      (style.shownFrom bucket.objects (keyPrefix.getD "") (delimiter.getD "")) style.cursorBehind
      es) :
    ∃ pages, follow (nextPage state name keyPrefix delimiter maxKeys style)
      ((items es).length + 1) none = some pages ∧
      pages.map ListPage.page =
        chunks (maxKeys.getD defaultMaxKeys).toNat ((items es).length + 1) es := by
  subst hes
  have hnone := nextPage_ne_none keyPrefix delimiter hbucket hmax style (.inl rfl)
  refine (reads_nextPage keyPrefix delimiter hbucket hmax style).follow_eq (by omega) ?_ hnone
    hresumes (Nat.lt_succ_self _)
  intro object
  exact nextPage_ne_none keyPrefix delimiter hbucket hmax style (.inr ⟨_, rfl⟩)

/-- The pages of a bucket cover it once, in order and within their size, whichever way a client
reads on, exactly if they fit. -/
theorem pages_coverOnce_iff (keyPrefix delimiter : Option String)
    (hbucket : state.getBucket name = .ok bucket) (hmax : 1 ≤ maxKeys.getD defaultMaxKeys)
    (style : ListStyle) :
    (∃ fuel pages,
        follow (nextPage state name keyPrefix delimiter maxKeys style) fuel none = some pages ∧
        CoversOnce bucket.objects (keyPrefix.getD "") (delimiter.getD "")
          (maxKeys.getD defaultMaxKeys).toNat style pages) ↔
      PagesFit bucket.objects (keyPrefix.getD "") (delimiter.getD "")
        (maxKeys.getD defaultMaxKeys).toNat := by
  have hpos : 0 < (maxKeys.getD defaultMaxKeys).toNat := by omega
  have hobjects := bucket.objects.pairwise_currentObjects
  have hreads := reads_nextPage keyPrefix delimiter hbucket hmax style
  have hresumes := resumes_listing_iff (keyPrefix.getD "") (delimiter.getD "") hobjects
    style.keyText_render style.position_token style.position_none hpos
  have hback := leadsBack_listing (keyPrefix.getD "") (delimiter.getD "") hobjects
    style.keyText_render style.position_token hpos
  have hitems := items_shownFrom_none style bucket.objects (keyPrefix.getD "") (delimiter.getD "")
  constructor
  · rintro ⟨fuel, pages, hfollow, hcovers⟩
    obtain ⟨objects, hcontents, hobjs⟩ := hcovers.contents
    obtain rfl := eq_shownObjects_iff.mpr hobjs
    rw [← hitems] at hcontents
    have hres := hreads.resumes_of_length hpos hback hfollow (congrArg length hcontents).le
    obtain ⟨pages', hpages', hmap⟩ := exists_pages keyPrefix delimiter hbucket hmax rfl hres
    obtain rfl := follow_unique hfollow hpages'
    refine ⟨(fits_shownFrom_iff style).mp ((chunks_fit_iff hpos (Nat.lt_succ_self _)).mp ⟨?_, ?_⟩),
      hresumes.mp hres⟩
    · rw [← hmap, forall_mem_map]
      exact hcovers.room
    · rw [← hmap, flatMap_map]
      exact (eq_names_iff style).mpr ⟨hcovers.prefixes_sorted, hcovers.mem_prefixes⟩
  · rintro ⟨hfit, hcond⟩
    have hres := hresumes.mpr hcond
    obtain ⟨pages, hpages, hmap⟩ := exists_pages keyPrefix delimiter hbucket hmax rfl hres
    obtain ⟨hroom, hgroups⟩ :=
      (chunks_fit_iff hpos (Nat.lt_succ_self _)).mpr ((fits_shownFrom_iff style).mpr hfit)
    rw [← hmap, forall_mem_map] at hroom
    rw [← hmap, flatMap_map] at hgroups
    obtain ⟨hsorted, hmem⟩ := (eq_names_iff style).mp hgroups
    have hall := items_chunks hpos (Nat.lt_succ_self (items
      (style.shownFrom bucket.objects (keyPrefix.getD "") (delimiter.getD "") none)).length)
    rw [← hmap, flatMap_map, hitems] at hall
    refine ⟨_, pages, hpages, ⟨_, hall, eq_shownObjects_iff.mp rfl⟩, hsorted, hmem, hroom, ?_⟩
    intro p hp htrue
    obtain ⟨cursor, c, hnext⟩ := exists_next_of_mem_follow hpages hp
    have hpage := isPageOf_of_fetchPage hbucket hmax (fetchPage_of_nextPage hnext).1
    exact hpage.progress hpos hres htrue

end Pages

/-- An object without content. -/
def emptyObject (key : String) : S3Object where
  key := key
  versionId := "null"
  etag := "\"d41d8cd98f00b204e9800998ecf8427e\""
  size := 0
  lastModified := 0
  storageClass := "STANDARD"
  metadata := .default
  owner := .default
  checksum := none
  partsCount := none
  partEtags := []

def bucketOf (keys : List String) : S3Bucket :=
  { S3Bucket.new "bucket" "us-east-1" .default 0 with
    objects := .unversioned (keys.foldl (fun ks key => ks.put (emptyObject key)) .empty) }

def stateOf (keys : List String) : S3ServiceState where
  buckets := AList.singleton "bucket" (bucketOf keys)
  globalBucketOwner := AList.singleton "bucket" Owner.default.id

theorem pages_coverOnce_iff_twoPages :
    ∃ fuel pages, follow (nextPage (stateOf ["a", "b", "c", "d/1"]) "bucket" none (some "/")
        (some 2) .nextMarker) fuel none = some pages ∧
      CoversOnce (bucketOf ["a", "b", "c", "d/1"]).objects "" "/" 2 .nextMarker pages := by
  refine (pages_coverOnce_iff none (some "/") rfl (by decide) .nextMarker).mpr
    ⟨⟨.inr fun g hg => ?_, ?_⟩, fun h => ?_⟩
  · have hnone : names [] (front (lastStart 2 (items (listing id "" "/" ""
        (bucketOf ["a", "b", "c", "d/1"]).objects.currentObjects)).length) (listing id "" "/" ""
          (bucketOf ["a", "b", "c", "d/1"]).objects.currentObjects)) = [] := by
      decide +kernel
    exact not_mem_nil (hnone ▸ mem_names.mpr (.inr hg))
  · decide +kernel
  · cases h.1

/-- The common prefix between the two objects is on both pages, and makes the first too large. -/
theorem pages_repeat_prefixes :
    ¬∃ fuel pages, follow (nextPage (stateOf ["a", "b/1", "c"]) "bucket" none (some "/") (some 1)
        .nextMarker) fuel none = some pages ∧
      CoversOnce (bucketOf ["a", "b/1", "c"]).objects "" "/" 1 .nextMarker pages := by
  rintro ⟨fuel, pages, hfollow, hcovers⟩
  have hrun : (follow (nextPage (stateOf ["a", "b/1", "c"]) "bucket" none (some "/") (some 1)
      .nextMarker) 2 none).map (fun pages => pages.flatMap ListPage.commonPrefixes) =
        some ["b/", "b/"] := by
    decide +kernel
  obtain ⟨pages', hpages', hprefixes⟩ := Option.map_eq_some_iff.mp hrun
  obtain rfl := follow_unique hfollow hpages'
  have hsorted := hcovers.prefixes_sorted
  rw [hprefixes] at hsorted
  exact absurd (rel_of_pairwise_cons hsorted (.head _)) (lt_irrefl _)

end Rustack.S3
