import Rustack.S3.VersionCoverage

/-!
# Reading the history of a bucket

The pages of `ListObjectVersions` as a client reads them, by the pair of markers
each page gives out, against the history of the bucket.
-/

namespace Rustack.S3

open GroupedPages List ObjectStore VersionListResult

def renderVersion (obj : S3Object) : VersionListEntry :=
  { version := .object obj, isLatest := true }

namespace ObjectStore

/-- The versions of every key, the newest first. -/
def keyedVersions : ObjectStore → List (String × List VersionListEntry)
  | .unversioned ks => ks.objects.entries.map fun e => (e.1, [renderVersion e.2])
  | .versioned vs => vs.objects.entries.map showVersions

/-- The versions and delete markers to be listed one by one. -/
def history (store : ObjectStore) (pre delimiter : String) : List VersionListEntry :=
  (store.keyedVersions.filter fun e => Listed pre delimiter e.1).flatMap Prod.snd

theorem pairwise_keyedVersions (store : ObjectStore) :
    store.keyedVersions.Pairwise fun x y => x.1 < y.1 := by
  cases store with
  | unversioned ks =>
      exact pairwise_map.mpr (ks.objects.sorted.imp fun h => compare_lt_iff_lt.mp h)
  | versioned vs =>
      exact pairwise_map.mpr (vs.objects.sorted.imp fun h => compare_lt_iff_lt.mp h)

theorem key_eq_of_mem_keyedVersions (store : ObjectStore) :
    ∀ e ∈ store.keyedVersions, ∀ v ∈ e.2, v.version.key = e.1 := by
  intro e he v hv
  cases store with
  | unversioned ks =>
      obtain ⟨x, hx, rfl⟩ := mem_map.mp he
      rw [mem_singleton.mp hv]
      exact ks.keyed x hx
  | versioned vs =>
      obtain ⟨x, hx, rfl⟩ := mem_map.mp he
      exact (vs.keyed x hx).2 _ (version_mem_of_mem_versionEntries hv)

theorem history_eq_items (store : ObjectStore) (pre delimiter : String) :
    store.history pre delimiter = items (entriesOf pre delimiter store.keyedVersions) :=
  (items_entriesOf _).symm

/-- What a listing from a pair of markers on should show. -/
def shownFrom (store : ObjectStore) (pre delimiter : String)
    (cursor : Option (String × Option String)) : List (Entry String VersionListEntry) :=
  match store with
  | .unversioned _ => listing renderVersion pre delimiter (keyMarkerOf cursor) store.currentObjects
  | .versioned _ => versionsFrom pre delimiter store.keyedVersions cursor

def cursorBehind (store : ObjectStore) (entry : VersionListEntry) : String × Option String :=
  (entry.version.key, if store.isVersioned then some entry.version.versionId else none)

theorem keyed_currentObjects (ks : KeyStore) :
    keyed renderVersion (unversioned ks).currentObjects =
      (unversioned ks).keyedVersions := by
  rw [keyed, currentObjects, keyedVersions, map_map]
  refine map_congr_left fun e he => ?_
  rw [Function.comp_apply, ks.keyed e he]

theorem shownFrom_none (store : ObjectStore) (pre delimiter : String) :
    store.shownFrom pre delimiter none = entriesOf pre delimiter store.keyedVersions := by
  cases store with
  | unversioned ks =>
      change listing renderVersion pre delimiter "" _ = _
      rw [listing, keyed_currentObjects]
      simp only [true_or, decide_true, filter_true]
  | versioned vs => exact versionsFrom_none pre delimiter _

theorem items_shownFrom_none (store : ObjectStore) (pre delimiter : String) :
    items (store.shownFrom pre delimiter none) = store.history pre delimiter := by
  rw [shownFrom_none, history_eq_items]

/-- The pages show what the markers leave, and give out the pair that belongs to their end. -/
def IsVersionPage (store : ObjectStore) (pre delimiter : String) (maxKeys : ℕ)
    (cursor : Option (String × Option String)) (result : VersionListResult) : Prop :=
  ({ items := result.versions
     groups := result.commonPrefixes
     truncated := result.isTruncated } : Page String VersionListEntry) =
      page maxKeys (store.shownFrom pre delimiter cursor) ∧
    (if result.isTruncated then
        result.nextKeyMarker.map fun key => (key, result.nextVersionIdMarker) else none) =
      if maxKeys < (items (store.shownFrom pre delimiter cursor)).length then
        ((items (store.shownFrom pre delimiter cursor))[maxKeys - 1]?).map store.cursorBehind
      else none

theorem isVersionPage_unversioned (ks : KeyStore) {pre delimiter : String} {maxKeys : ℕ}
    (hmax : 0 < maxKeys) (cursor : Option (String × Option String)) :
    (unversioned ks).IsVersionPage pre delimiter maxKeys cursor
      (ks.listObjectVersions pre delimiter (keyMarkerOf cursor) maxKeys) := by
  have hpage := page_listFromBtree renderVersion pre delimiter (keyMarkerOf cursor) maxKeys
    (unversioned ks).currentObjects
  have hnext := @nextMarker_listFromBtree _ renderVersion pre delimiter
    (fun entry => entry.version.key) (fun _ => rfl) (keyMarkerOf cursor) maxKeys hmax
    (unversioned ks).currentObjects
  refine ⟨hpage, ?_⟩
  have htruncated := congrArg Page.truncated hpage
  change (if (listFromBtree _ _ _ _ _).isTruncated = true then
    (listFromBtree _ _ _ _ _).nextMarker.map _ else none) = _
  change (listFromBtree _ _ _ _ _).isTruncated = _ at htruncated
  rw [hnext, htruncated]
  by_cases hlt : maxKeys < (items (listing renderVersion pre delimiter (keyMarkerOf cursor)
      (unversioned ks).currentObjects)).length
  · rw [if_pos (page_truncated_iff.mpr hlt), if_pos hlt, Option.map_map]
    exact (if_pos hlt).symm
  · rw [if_neg fun h => hlt (page_truncated_iff.mp h)]
    exact (if_neg hlt).symm

theorem remainingFrom_start (keyMarker versionIdMarker : String)
    (entries : List (String × List ObjectVersion)) :
    remainingFrom keyMarker versionIdMarker ((if keyMarker = "" then entries
        else entries.filter fun e => (Bound.included keyMarker).admitsAbove compare e.1).map
          showVersions) =
      remainingFrom keyMarker versionIdMarker (entries.map showVersions) := by
  split
  · rfl
  · rw [remainingFrom, remainingFrom, filter_map, filter_map, filter_filter]
    congr 2
    refine filter_congr fun e _ => ?_
    change (decide ¬e.1 < keyMarker && (compare keyMarker e.1 != .gt)) = decide ¬e.1 < keyMarker
    by_cases hlt : e.1 < keyMarker
    · simp only [hlt, not_true_eq_false, decide_false, Bool.false_and]
    · have hne : compare keyMarker e.1 ≠ .gt := fun h => hlt (compare_gt_iff_gt.mp h)
      rw [bne_iff_ne.mpr hne, Bool.and_true]

theorem isVersionPage_versioned (vs : VersionedKeyStore) {pre delimiter : String} {maxKeys : ℕ}
    (hmax : 0 < maxKeys) {cursor : Option (String × Option String)} {result : VersionListResult}
    (h : vs.listObjectVersions pre delimiter (keyMarkerOf cursor) (versionIdMarkerOf cursor)
      maxKeys = some result) :
    (versioned vs).IsVersionPage pre delimiter maxKeys cursor result := by
  obtain ⟨scan, hscan, rfl⟩ := Option.map_eq_some_iff.mp h
  have hentries : ∀ e ∈ (if keyMarkerOf cursor = "" then vs.objects.entries else
      vs.objects.entries.filter fun e =>
        (Bound.included (keyMarkerOf cursor)).admitsAbove compare e.1), e ∈ vs.objects.entries := by
    intro e he
    split at he
    · exact he
    · exact (mem_filter.mp he).1
  have hsorted : vs.objects.entries.Pairwise fun e e' => e.1 < e'.1 :=
    vs.objects.sorted.imp fun h => compare_lt_iff_lt.mp h
  obtain ⟨hconsistent, hpage⟩ := page_keyLoop (by
      split
      · exact hsorted
      · exact hsorted.filter _)
    (fun e he => (vs.keyed e (hentries e he)).2) ⟨rfl, rfl, rfl⟩ rfl hscan
  rw [remainingFrom_start] at hpage
  change scan.page = page maxKeys ((versioned vs).shownFrom pre delimiter cursor) at hpage
  refine ⟨hpage, ?_⟩
  have htruncated := congrArg Page.truncated hpage
  change scan.isTruncated = _ at htruncated
  set shown := (versioned vs).shownFrom pre delimiter cursor
  change (if scan.isTruncated = true then (if scan.isTruncated = true then scan.lastKey else
    none).map (fun key => (key, if scan.isTruncated = true then scan.lastVersionId else none))
      else none) = _
  by_cases hlt : maxKeys < (items shown).length
  · have hitems := congrArg Page.items hpage
    rw [page_of_lt hlt] at hitems
    change scan.resultVersions = (items shown).take maxKeys at hitems
    have htrue : scan.isTruncated = true := htruncated.trans (page_truncated_iff.mpr hlt)
    obtain ⟨a, ha⟩ := getElem?_limit hmax hlt
    have hlast : scan.resultVersions.getLast? = some a := by
      rw [hitems, getLast?_take, if_neg hmax.ne', ha]
      rfl
    simp only [htrue, if_true, hconsistent.lastKey_eq, hconsistent.lastVersionId_eq, hlast, ha,
      if_pos hlt, Option.map_some]
    rfl
  · have hfalse : ¬scan.isTruncated = true := fun h =>
      hlt (page_truncated_iff.mp (htruncated.symm.trans h))
    rw [if_neg hfalse, if_neg hlt]

theorem isVersionPage_of_eq_some {store : ObjectStore} {pre delimiter : String} {maxKeys : ℕ}
    (hmax : 0 < maxKeys) {cursor : Option (String × Option String)} {result : VersionListResult}
    (h : store.listObjectVersions pre delimiter (keyMarkerOf cursor) (versionIdMarkerOf cursor)
      maxKeys = some result) : store.IsVersionPage pre delimiter maxKeys cursor result := by
  cases store with
  | unversioned ks =>
      cases h
      exact isVersionPage_unversioned ks hmax cursor
  | versioned vs => exact isVersionPage_versioned vs hmax h

/-- No page of one object ends behind the empty key; with versions, each page ends behind the
first version with its id. -/
def EndsLeadOn (store : ObjectStore) (pre delimiter : String) (maxKeys : ℕ) : Prop :=
  match store with
  | .unversioned _ =>
    ¬(maxKeys = 1 ∧ ∃ obj ∈ store.currentObjects, ∃ obj' ∈ store.currentObjects,
      Listed pre delimiter obj.key ∧ Listed pre delimiter obj'.key ∧ obj.key = "" ∧ obj'.key ≠ "")
  | .versioned _ =>
    ∀ j a, (store.history pre delimiter)[(j + 1) * maxKeys - 1]? = some a →
      (j + 1) * maxKeys < (store.history pre delimiter).length →
      FirstOfItsId (store.history pre delimiter) ((j + 1) * maxKeys - 1) a

theorem leadsBack_shownFrom (store : ObjectStore) (pre delimiter : String) {maxKeys : ℕ}
    (hmax : 0 < maxKeys) :
    LeadsBack maxKeys (store.shownFrom pre delimiter) store.cursorBehind := by
  cases store with
  | unversioned ks =>
      exact @leadsBack_listing _ _ renderVersion (fun entry => entry.version.key) keyMarkerOf
        (fun key => (key, none)) _ _ pre delimiter (pairwise_currentObjects _)
        (fun _ => rfl) (fun _ => rfl) hmax
  | versioned vs =>
      exact leadsBack_versionsFrom pre delimiter (pairwise_keyedVersions _)
        (key_eq_of_mem_keyedVersions _) hmax

theorem resumes_shownFrom_iff (store : ObjectStore) (pre delimiter : String) {maxKeys : ℕ}
    (hmax : 0 < maxKeys) :
    Resumes maxKeys (store.shownFrom pre delimiter) store.cursorBehind
        (store.shownFrom pre delimiter none) ↔ store.EndsLeadOn pre delimiter maxKeys := by
  cases store with
  | unversioned ks =>
      exact @resumes_listing_iff _ _ renderVersion (fun entry => entry.version.key) keyMarkerOf
        (fun key => (key, none)) _ _ pre delimiter (pairwise_currentObjects _)
        (fun _ => rfl) (fun _ => rfl) rfl hmax
  | versioned vs =>
      unfold EndsLeadOn
      rw [history_eq_items]
      exact resumes_versionsFrom_iff pre delimiter (pairwise_keyedVersions _)
        (key_eq_of_mem_keyedVersions _) hmax

/-! ## When the listing panics -/

/-- The last character of the prefix has more than one byte. -/
def EndsWide (pre : String) : Prop := ∃ c, pre.toList.getLast? = some c ∧ 1 < c.utf8Size

theorem shortenedPrefix_eq_none_iff {pre : String} (hpre : pre ≠ "") :
    shortenedPrefix pre = none ↔ EndsWide pre := by
  have hne : pre.toList ≠ [] := fun h => hpre (String.toList_inj.mp h)
  obtain ⟨cs, c, hcs⟩ : ∃ cs c, pre.toList = cs ++ [c] :=
    ⟨_, _, (dropLast_append_getLast hne).symm⟩
  rw [shortenedPrefix, EndsWide, hcs, Text.sliceTo_dropLast_eq_none_iff, getLast?_concat]
  constructor
  · intro h
    exact ⟨c, rfl, h⟩
  · rintro ⟨_, heq, h⟩
    cases heq
    exact h

/-- A prefix is cut within a character while a key behind it is stored. -/
def CutsPrefix (store : ObjectStore) (pre : String) : Prop :=
  store.isVersioned = true ∧ EndsWide pre ∧ ∃ e ∈ store.keyedVersions, Beyond pre e.1

theorem listObjectVersions_ne_none {store : ObjectStore} {pre : String} (h : ¬store.CutsPrefix pre)
    (delimiter keyMarker versionIdMarker : String) (maxKeys : ℕ) :
    store.listObjectVersions pre delimiter keyMarker versionIdMarker maxKeys ≠ none := by
  cases store with
  | unversioned ks => exact Option.some_ne_none _
  | versioned vs =>
      intro hnone
      obtain ⟨hcut, e, he, hbeyond⟩ := exists_beyond_of_keyLoop (Option.map_eq_none_iff.mp hnone)
      refine h ⟨rfl, (shortenedPrefix_eq_none_iff hbeyond.ne_empty).mp hcut, showVersions e, ?_,
        hbeyond⟩
      refine mem_map_of_mem ?_
      split at he
      · exact he
      · exact (mem_filter.mp he).1

theorem filter_included_of_pairwise {β : Type} {before after : List (String × β)} {key : String}
    {value : β} (h : (before ++ (key, value) :: after).Pairwise fun x y => x.1 < y.1) :
    ((before ++ (key, value) :: after).filter fun e =>
      (Bound.included key).admitsAbove compare e.1) = (key, value) :: after := by
  obtain ⟨-, hafter, hbefore⟩ := pairwise_append.mp h
  have hlow : (before.filter fun e => (Bound.included key).admitsAbove compare e.1) = [] := by
    refine filter_eq_nil_iff.mpr fun e he => ?_
    have hgt : compare key e.1 = .gt := compare_gt_iff_gt.mpr (hbefore e he _ (.head _))
    change ¬(compare key e.1 != .gt) = true
    rw [hgt]
    exact Bool.false_ne_true
  have hhigh : (((key, value) :: after).filter fun e =>
      (Bound.included key).admitsAbove compare e.1) = (key, value) :: after := by
    refine filter_eq_self.mpr fun e he => ?_
    refine bne_iff_ne.mpr fun hgt => (compare_gt_iff_gt.mp hgt).not_ge ?_
    rcases mem_cons.mp he with rfl | he
    · exact le_refl _
    · exact ((pairwise_cons.mp hafter).1 e he).le
  rw [filter_append, hlow, hhigh, nil_append]

/-- Starting from the key beyond the prefix, the listing panics. -/
theorem exists_listObjectVersions_eq_none {store : ObjectStore} {pre : String}
    (h : store.CutsPrefix pre) (delimiter : String) (maxKeys : ℕ) :
    ∃ keyMarker, store.listObjectVersions pre delimiter keyMarker "" maxKeys = none := by
  obtain ⟨hversioned, hwide, e, he, hbeyond⟩ := h
  cases store with
  | unversioned ks => cases hversioned
  | versioned vs =>
      obtain ⟨⟨key, versions⟩, hmem, rfl⟩ := mem_map.mp he
      change Beyond pre key at hbeyond
      refine ⟨key, Option.map_eq_none_iff.mpr ?_⟩
      have hne : key ≠ "" := by
        rintro rfl
        exact not_lt_empty _ hbeyond.1
      obtain ⟨before, after, heq⟩ := append_of_mem hmem
      have hsorted : (before ++ (key, versions) :: after).Pairwise fun e e' => e.1 < e'.1 := by
        rw [← heq]
        exact vs.objects.sorted.imp fun h => compare_lt_iff_lt.mp h
      have hstart : (vs.objects.entries.filter fun e =>
          (Bound.included key).admitsAbove compare e.1) = (key, versions) :: after := by
        rw [heq]
        exact filter_included_of_pairwise hsorted
      rw [if_neg hne, hstart]
      exact keyLoop_of_beyond (lt_irrefl key) hbeyond
        ((shortenedPrefix_eq_none_iff hbeyond.ne_empty).mpr hwide)

end ObjectStore

/-! ## The pages of the call -/

structure VersionPage where
  versions : List Model.ObjectVersion
  deleteMarkers : List Model.DeleteMarkerEntry
  commonPrefixes : List String

def ListObjectVersionsOutput.versionPage (out : ListObjectVersionsOutput) : VersionPage where
  versions := out.versions
  deleteMarkers := out.deleteMarkers
  commonPrefixes := out.commonPrefixes

section Fetch

variable (state : S3ServiceState) (bucket : String) (keyPrefix delimiter : Option String)
  (maxKeys : Option ℤ)

def fetchVersions (keyMarker versionIdMarker : Option String) :
    Outcome S3Error ListObjectVersionsOutput :=
  handleListObjectVersions state
    { bucket, delimiter, encodingType := none, keyMarker, maxKeys, keyPrefix, versionIdMarker }

/-- A page with the pair of markers for the next one. -/
def nextVersionPage (cursor : Option (String × Option String)) :
    Option (VersionPage × Option (String × Option String)) :=
  match fetchVersions state bucket keyPrefix delimiter maxKeys (cursor.map Prod.fst)
      (cursor.bind Prod.snd) with
  | .ok out => some (out.versionPage, if out.isTruncated.getD false then
      out.nextKeyMarker.map fun key => (key, out.nextVersionIdMarker) else none)
  | _ => none

end Fetch

def VersionListResult.page (result : VersionListResult) : Page String VersionListEntry where
  items := result.versions
  groups := result.commonPrefixes
  truncated := result.isTruncated

def VersionListResult.versionPage (result : VersionListResult) : VersionPage where
  versions := result.versions.filterMap toModelVersion
  deleteMarkers := result.versions.filterMap toDeleteMarkerEntry
  commonPrefixes := result.commonPrefixes

namespace ObjectStore

def nextResult (store : ObjectStore) (pre delimiter : String) (maxKeys : ℕ)
    (cursor : Option (String × Option String)) :
    Option (VersionListResult × Option (String × Option String)) :=
  (store.listObjectVersions pre delimiter (keyMarkerOf cursor) (versionIdMarkerOf cursor)
    maxKeys).map fun result => (result, if result.isTruncated then
      result.nextKeyMarker.map fun key => (key, result.nextVersionIdMarker) else none)

theorem reads_nextResult (store : ObjectStore) (pre delimiter : String) {maxKeys : ℕ}
    (hmax : 0 < maxKeys) :
    Reads maxKeys (store.shownFrom pre delimiter) store.cursorBehind
      (store.nextResult pre delimiter maxKeys) page := by
  constructor
  · intro cursor p c h
    obtain ⟨result, hresult, heq⟩ := Option.map_eq_some_iff.mp h
    cases heq
    exact (isVersionPage_of_eq_some hmax hresult).1
  · intro cursor p c h
    obtain ⟨result, hresult, heq⟩ := Option.map_eq_some_iff.mp h
    cases heq
    exact (isVersionPage_of_eq_some hmax hresult).2

/-- Reading on yields the chunks of the history if no page end leads elsewhere. -/
theorem exists_results (store : ObjectStore) {pre : String} (delimiter : String) {maxKeys : ℕ}
    (hmax : 0 < maxKeys) (hcuts : ¬store.CutsPrefix pre)
    (hends : store.EndsLeadOn pre delimiter maxKeys) :
    ∃ results, follow (store.nextResult pre delimiter maxKeys)
        ((store.history pre delimiter).length + 1) none = some results ∧
      results.map page = chunks maxKeys
        ((store.history pre delimiter).length + 1) (store.shownFrom pre delimiter none) := by
  have hsome : ∀ cursor, store.nextResult pre delimiter maxKeys cursor ≠ none := by
    intro cursor hnone
    exact listObjectVersions_ne_none hcuts _ _ _ _ (Option.map_eq_none_iff.mp hnone)
  refine (reads_nextResult store pre delimiter hmax).follow_eq hmax (fun _ => hsome _) (hsome _)
    ((resumes_shownFrom_iff store pre delimiter hmax).mpr hends) ?_
  rw [items_shownFrom_none]
  exact Nat.lt_succ_self _

theorem mem_history {store : ObjectStore} {pre delimiter : String} {v : VersionListEntry} :
    v ∈ store.history pre delimiter ↔
      ∃ e ∈ store.keyedVersions, Listed pre delimiter e.1 ∧ v ∈ e.2 := by
  rw [history, mem_flatMap]
  simp only [mem_filter, decide_eq_true_eq, and_assoc]

/-- What is shown behind any pair of markers is part of the history. -/
theorem mem_history_of_mem_versionsFrom {store : ObjectStore} {pre delimiter : String}
    {cursor : Option (String × Option String)} {v : VersionListEntry}
    (hv : v ∈ items (versionsFrom pre delimiter store.keyedVersions cursor)) :
    v ∈ store.history pre delimiter := by
  obtain ⟨n, hn⟩ := mem_iff_getElem?.mp hv
  obtain ⟨before, es, i, after, hentries, hlisted, hi, -⟩ :=
    behind_versionsFrom store.pairwise_keyedVersions store.key_eq_of_mem_keyedVersions hn
  refine mem_history.mpr ⟨(v.version.key, es), ?_, hlisted, mem_of_getElem? hi⟩
  rw [hentries]
  exact mem_append_right _ (.head _)

/-- A key marker on its own starts with the versions of that key. -/
theorem exists_head_of_marker {store : ObjectStore} {pre delimiter : String}
    {v : VersionListEntry} (hv : v ∈ store.history pre delimiter) :
    ∃ w rest, items (versionsFrom pre delimiter store.keyedVersions
      (some (v.version.key, none))) = w :: rest ∧ w.version.key = v.version.key := by
  obtain ⟨⟨key, es⟩, he, hlisted, hmem⟩ := mem_history.mp hv
  have hkeys := store.key_eq_of_mem_keyedVersions _ he
  have hkey : v.version.key = key := hkeys v hmem
  obtain ⟨before, after, hentries⟩ := append_of_mem he
  have hsorted := store.pairwise_keyedVersions
  rw [hentries] at hsorted ⊢
  have hfrom : remainingFrom (keyMarkerOf (some (key, none)))
      (versionIdMarkerOf (some (key, none))) (before ++ (key, es) :: after) =
        (key, remaining key "" key es) :: after := remainingFrom_of_pairwise hsorted
  have hall : remaining key "" key es = es := if_neg fun h => h.2 rfl
  rw [hkey, versionsFrom, hfrom, hall, entriesOf, flatMap_cons, keyEntries_of_listed hlisted,
    items_append, items_map_item]
  cases es with
  | nil => cases hmem
  | cons w ws => exact ⟨w, _, rfl, hkeys w (.head _)⟩

theorem marker_alone_iff {store : ObjectStore} {pre delimiter marker : String} {maxKeys : ℕ}
    (hmax : 0 < maxKeys) (hmarker : marker ≠ "") (hkeeps : ¬store.CutsPrefix pre) :
    (∀ result, store.listObjectVersions pre delimiter marker "" maxKeys = some result →
        ∀ v ∈ result.versions, v.version.key ≠ marker) ↔
      (store.isVersioned = true → ∀ v ∈ store.history pre delimiter, v.version.key ≠ marker) := by
  have hitems : ∀ result, store.listObjectVersions pre delimiter marker "" maxKeys = some result →
      result.versions =
        (items (store.shownFrom pre delimiter (some (marker, none)))).take maxKeys := by
    intro result hresult
    have hpage : store.IsVersionPage pre delimiter maxKeys (some (marker, none)) result :=
      isVersionPage_of_eq_some hmax hresult
    have hversions := congrArg Page.items hpage.1
    by_cases hlt : maxKeys < (items (store.shownFrom pre delimiter (some (marker, none)))).length
    · rwa [page_of_lt hlt] at hversions
    · rw [page_of_le (Nat.le_of_not_lt hlt)] at hversions
      rw [take_of_length_le (Nat.le_of_not_lt hlt)]
      exact hversions
  obtain ⟨result, hresult⟩ := Option.ne_none_iff_exists'.mp
    (listObjectVersions_ne_none hkeeps delimiter marker "" maxKeys)
  constructor
  · intro hnone hversioned v hv hkey
    cases store with
    | unversioned ks => cases hversioned
    | versioned vs =>
        obtain ⟨w, rest, hw, hwkey⟩ := exists_head_of_marker hv
        rw [hkey] at hw hwkey
        refine hnone result hresult w ?_ hwkey
        rw [hitems result hresult]
        change w ∈ (items (versionsFrom pre delimiter _ (some (marker, none)))).take maxKeys
        rw [hw]
        obtain ⟨k, rfl⟩ : ∃ k, maxKeys = k + 1 := ⟨maxKeys - 1, by omega⟩
        exact .head _
  · intro hnone result hresult v hv hkey
    rw [hitems result hresult] at hv
    have hv := mem_of_mem_take hv
    cases store with
    | unversioned ks =>
        change v ∈ items (listing renderVersion pre delimiter marker _) at hv
        rw [items_listing] at hv
        obtain ⟨obj, hobj, rfl⟩ := mem_map.mp hv
        have hstart := (of_decide_eq_true (mem_filter.mp hobj).2).1
        change obj.key = marker at hkey
        rw [hkey] at hstart
        exact hstart.elim hmarker (lt_irrefl marker)
    | versioned vs => exact hnone rfl v (mem_history_of_mem_versionsFrom hv) hkey

end ObjectStore

theorem length_filterMap_add (entries : List VersionListEntry) :
    (entries.filterMap toModelVersion).length + (entries.filterMap toDeleteMarkerEntry).length =
      entries.length := by
  induction entries with
  | nil => rfl
  | cons e entries ih =>
      obtain ⟨v, latest⟩ := e
      cases v with
      | object | deleteMarker =>
          simp only [filterMap_cons, toModelVersion, toDeleteMarkerEntry, length_cons]
          omega

/-- Versions or delete markers under a key are shown exactly if an entry under it is. -/
theorem exists_shown_key_iff {entries : List VersionListEntry} {key : String} :
    ((∀ v ∈ entries.filterMap toModelVersion, v.key ≠ some key) ∧
        ∀ d ∈ entries.filterMap toDeleteMarkerEntry, d.key ≠ some key) ↔
      ∀ e ∈ entries, e.version.key ≠ key := by
  constructor
  · rintro ⟨hversions, hmarkers⟩ ⟨v, latest⟩ he hkey
    cases v with
    | object obj =>
        exact hversions _ (mem_filterMap.mpr ⟨_, he, rfl⟩) (congrArg some hkey)
    | deleteMarker dm =>
        exact hmarkers _ (mem_filterMap.mpr ⟨_, he, rfl⟩) (congrArg some hkey)
  · intro h
    constructor
    · intro v hv heq
      obtain ⟨⟨w, latest⟩, he, hw⟩ := mem_filterMap.mp hv
      cases w with
      | object obj =>
          cases hw
          exact h _ he (Option.some.inj heq)
      | deleteMarker dm => cases hw
    · intro d hd heq
      obtain ⟨⟨w, latest⟩, he, hw⟩ := mem_filterMap.mp hd
      cases w with
      | object obj => cases hw
      | deleteMarker dm =>
          cases hw
          exact h _ he (Option.some.inj heq)

/-- What the pages of a bucket should add up to. -/
structure CoversHistoryOnce (store : ObjectStore) (pre delimiter : String)
    (pages : List VersionPage) : Prop where
  versions : pages.flatMap VersionPage.versions =
    (store.history pre delimiter).filterMap toModelVersion
  deleteMarkers : pages.flatMap VersionPage.deleteMarkers =
    (store.history pre delimiter).filterMap toDeleteMarkerEntry
  nodup_prefixes : (pages.flatMap VersionPage.commonPrefixes).Nodup
  mem_prefixes : ∀ cp, cp ∈ pages.flatMap VersionPage.commonPrefixes ↔
    ∃ e ∈ store.keyedVersions, IsCommonPrefix pre delimiter e.1 cp

/-- The listing meets no key at which it panics, every page end leads on, no common prefix lies
across a page end, and the key of a marker given alone has nothing to show. -/
structure VersionPagesFit (store : ObjectStore) (pre delimiter : String) (maxKeys : ℕ)
    (marker : String) : Prop where
  keeps_prefix : ¬store.CutsPrefix pre
  ends_lead_on : store.EndsLeadOn pre delimiter maxKeys
  gapless : Gapless maxKeys (entriesOf pre delimiter store.keyedVersions)
  marker_alone : marker ≠ "" → store.isVersioned = true →
    ∀ e ∈ store.history pre delimiter, e.version.key ≠ marker

section Pages

variable {state : S3ServiceState} {name : String} {bucket : S3Bucket} {maxKeys : Option ℤ}

theorem flatMap_versions (results : List VersionListResult) :
    (results.map versionPage).flatMap VersionPage.versions =
      (results.flatMap versions).filterMap toModelVersion := by
  rw [flatMap_map, filterMap_flatMap]
  rfl

theorem flatMap_deleteMarkers (results : List VersionListResult) :
    (results.map versionPage).flatMap VersionPage.deleteMarkers =
      (results.flatMap versions).filterMap toDeleteMarkerEntry := by
  rw [flatMap_map, filterMap_flatMap]
  rfl

section

variable (keyPrefix delimiter : Option String) (hbucket : state.getBucket name = .ok bucket)
  (hmax : 1 ≤ maxKeys.getD defaultMaxKeys)

include hbucket hmax

theorem fetchVersions_eq {keyMarker versionIdMarker : Option String}
    (hmarkers : versionIdMarker.isSome = true → keyMarker.isSome = true) :
    fetchVersions state name keyPrefix delimiter maxKeys keyMarker versionIdMarker =
      match bucket.objects.listObjectVersions (keyPrefix.getD "") (delimiter.getD "")
          (keyMarker.getD "") (versionIdMarker.getD "") (maxKeys.getD defaultMaxKeys).toNat with
      | none => .panic
      | some result => .ok (versionListOutput
          { bucket := name, delimiter, encodingType := none, keyMarker, maxKeys, keyPrefix,
            versionIdMarker } (maxKeys.getD defaultMaxKeys) result) := by
  have hvalid : ¬(versionIdMarker.isSome && keyMarker.isNone) = true := by
    cases versionIdMarker with
    | none => exact Bool.false_ne_true
    | some id =>
        obtain ⟨key, rfl⟩ := Option.isSome_iff_exists.mp (hmarkers rfl)
        exact Bool.false_ne_true
  rw [fetchVersions, handleListObjectVersions]
  simp only [hbucket, validateMaxKeys_of_pos hmax]
  rw [if_neg hvalid]
  rfl

theorem nextVersionPage_eq :
    nextVersionPage state name keyPrefix delimiter maxKeys = fun cursor =>
      (bucket.objects.nextResult (keyPrefix.getD "") (delimiter.getD "")
        (maxKeys.getD defaultMaxKeys).toNat cursor).map
          (Prod.map versionPage id) := by
  funext cursor
  have hmarkers : (cursor.bind Prod.snd).isSome = true → (cursor.map Prod.fst).isSome = true := by
    cases cursor with
    | none => exact id
    | some c => exact fun _ => rfl
  rw [nextVersionPage, fetchVersions_eq keyPrefix delimiter hbucket hmax hmarkers,
    nextResult, keyMarkerOf, versionIdMarkerOf]
  cases bucket.objects.listObjectVersions (keyPrefix.getD "") (delimiter.getD "")
    ((cursor.map Prod.fst).getD "") ((cursor.bind Prod.snd).getD "")
    (maxKeys.getD defaultMaxKeys).toNat <;> rfl

theorem exists_versionPages {fuel : ℕ} {pages : List VersionPage} :
    follow (nextVersionPage state name keyPrefix delimiter maxKeys) fuel none = some pages ↔
      ∃ results, follow (bucket.objects.nextResult (keyPrefix.getD "") (delimiter.getD "")
          (maxKeys.getD defaultMaxKeys).toNat) fuel none = some results ∧
        results.map versionPage = pages := by
  rw [nextVersionPage_eq keyPrefix delimiter hbucket hmax, follow_map, Option.map_eq_some_iff]

/-- A listing never panics unless a prefix is cut. -/
theorem fetchVersions_ne_panic_iff :
    (∀ keyMarker versionIdMarker,
        fetchVersions state name keyPrefix delimiter maxKeys keyMarker versionIdMarker ≠ .panic) ↔
      ¬bucket.objects.CutsPrefix (keyPrefix.getD "") := by
  constructor
  · intro hnever hcuts
    obtain ⟨keyMarker, hnone⟩ := exists_listObjectVersions_eq_none hcuts
      (delimiter.getD "") (maxKeys.getD defaultMaxKeys).toNat
    refine hnever (some keyMarker) none ?_
    rw [fetchVersions_eq keyPrefix delimiter hbucket hmax fun h => rfl]
    simp only [Option.getD_some, Option.getD_none, hnone]
  · intro hkeeps keyMarker versionIdMarker
    by_cases hmarkers : versionIdMarker.isSome = true → keyMarker.isSome = true
    · rw [fetchVersions_eq keyPrefix delimiter hbucket hmax hmarkers]
      have hsome := listObjectVersions_ne_none hkeeps (delimiter.getD "")
        (keyMarker.getD "") (versionIdMarker.getD "") (maxKeys.getD defaultMaxKeys).toNat
      obtain ⟨result, hresult⟩ := Option.ne_none_iff_exists'.mp hsome
      rw [hresult]
      intro hpanic
      cases hpanic
    · obtain ⟨hid, hkey⟩ := Classical.not_imp.mp hmarkers
      have hinvalid : (versionIdMarker.isSome && keyMarker.isNone) = true := by
        rw [hid, Bool.true_and]
        simpa using hkey
      rw [fetchVersions, handleListObjectVersions]
      simp only [hinvalid, if_true]
      intro hpanic
      cases hpanic

theorem marker_excluded_iff {marker : String} (hmarker : marker ≠ "")
    (hkeeps : ¬bucket.objects.CutsPrefix (keyPrefix.getD "")) :
    (∀ out, fetchVersions state name keyPrefix delimiter maxKeys (some marker) none = .ok out →
        (∀ v ∈ out.versions, v.key ≠ some marker) ∧ ∀ d ∈ out.deleteMarkers, d.key ≠ some marker) ↔
      (bucket.objects.isVersioned = true →
        ∀ v ∈ bucket.objects.history (keyPrefix.getD "") (delimiter.getD ""),
          v.version.key ≠ marker) := by
  have hpos : 0 < (maxKeys.getD defaultMaxKeys).toNat := by omega
  rw [← marker_alone_iff hpos hmarker hkeeps,
    fetchVersions_eq keyPrefix delimiter hbucket hmax fun _ => rfl]
  constructor
  · intro h result hresult
    change bucket.objects.listObjectVersions _ _ ((some marker).getD "")
      ((none : Option String).getD "") _ = _ at hresult
    rw [hresult] at h
    exact exists_shown_key_iff.mp (h _ rfl)
  · intro h out hout
    split at hout
    · cases hout
    · next result hresult =>
        cases hout
        exact exists_shown_key_iff.mpr (h result hresult)

end

/-- The pages of a bucket cover its history once, without a panic and without the versions of a
key given as marker alone, exactly if they fit. -/
theorem versionPages_coverOnce_iff (keyPrefix delimiter : Option String)
    (hbucket : state.getBucket name = .ok bucket) (hmax : 1 ≤ maxKeys.getD defaultMaxKeys)
    (marker : String) :
    (∀ keyMarker versionIdMarker,
        fetchVersions state name keyPrefix delimiter maxKeys keyMarker versionIdMarker ≠ .panic) ∧
      (∃ fuel pages,
        follow (nextVersionPage state name keyPrefix delimiter maxKeys) fuel none = some pages ∧
        CoversHistoryOnce bucket.objects (keyPrefix.getD "") (delimiter.getD "") pages) ∧
      (marker ≠ "" → ∀ out,
        fetchVersions state name keyPrefix delimiter maxKeys (some marker) none = .ok out →
        (∀ v ∈ out.versions, v.key ≠ some marker) ∧
          ∀ d ∈ out.deleteMarkers, d.key ≠ some marker) ↔
      VersionPagesFit bucket.objects (keyPrefix.getD "") (delimiter.getD "")
        (maxKeys.getD defaultMaxKeys).toNat marker := by
  set max := (maxKeys.getD defaultMaxKeys).toNat with hmaxdef
  set pre := keyPrefix.getD ""
  set del := delimiter.getD ""
  have hpos : 0 < max := by omega
  have hreads := bucket.objects.reads_nextResult pre del hpos
  have hitems := bucket.objects.items_shownFrom_none pre del
  have hlength : (items (bucket.objects.shownFrom pre del none)).length <
      (bucket.objects.history pre del).length + 1 := by
    rw [hitems]
    exact Nat.lt_succ_self _
  have hcontiguous : Contiguous (bucket.objects.shownFrom pre del none) := by
    rw [shownFrom_none]
    exact contiguous_entriesOf bucket.objects.pairwise_keyedVersions
  rw [fetchVersions_ne_panic_iff keyPrefix delimiter hbucket hmax]
  constructor
  · rintro ⟨hkeeps, ⟨fuel, pages, hfollow, hcovers⟩, halone⟩
    obtain ⟨results, hresults, rfl⟩ :=
      (exists_versionPages keyPrefix delimiter hbucket hmax).mp hfollow
    have hcount : (results.flatMap versions).length =
        (bucket.objects.history pre del).length := by
      rw [← length_filterMap_add, ← length_filterMap_add (bucket.objects.history pre del),
        ← flatMap_versions, ← flatMap_deleteMarkers, hcovers.versions, hcovers.deleteMarkers]
    have hends : bucket.objects.EndsLeadOn pre del max := by
      refine (bucket.objects.resumes_shownFrom_iff pre del hpos).mp ?_
      refine hreads.resumes_of_length hpos (bucket.objects.leadsBack_shownFrom pre del hpos)
        hresults ?_
      rw [hitems, ← hcount]
      rfl
    obtain ⟨results', hresults', hchunks⟩ :=
      bucket.objects.exists_results del hpos hkeeps hends
    obtain rfl := follow_unique hresults hresults'
    refine ⟨hkeeps, hends, ?_, fun hmarker =>
      (marker_excluded_iff keyPrefix delimiter hbucket hmax hmarker hkeeps).mp (halone hmarker)⟩
    rw [← shownFrom_none]
    refine gapless_of_nodup_groups hpos hlength ?_
    rw [← hchunks, flatMap_map]
    have hnodup := hcovers.nodup_prefixes
    rwa [flatMap_map] at hnodup
  · rintro ⟨hkeeps, hends, hgapless, halone⟩
    obtain ⟨results, hresults, hchunks⟩ := bucket.objects.exists_results del hpos hkeeps hends
    refine ⟨hkeeps, ⟨_, _, (exists_versionPages keyPrefix delimiter hbucket hmax).mpr
      ⟨results, hresults, rfl⟩, ?_⟩, fun hmarker =>
        (marker_excluded_iff keyPrefix delimiter hbucket hmax hmarker hkeeps).mpr (halone hmarker)⟩
    have hall : results.flatMap versions = bucket.objects.history pre del := by
      have hchunked := items_chunks hpos hlength
      rw [← hchunks, flatMap_map, hitems] at hchunked
      exact hchunked
    rw [← shownFrom_none] at hgapless
    have hgroups : (results.map versionPage).flatMap VersionPage.commonPrefixes =
        names [] (bucket.objects.shownFrom pre del none) := by
      rw [← chunks_groups_of_gapless hpos hcontiguous hlength hgapless, ← hchunks,
        flatMap_map, flatMap_map]
      rfl
    refine ⟨?_, ?_, ?_, ?_⟩
    · rw [flatMap_versions, hall]
    · rw [flatMap_deleteMarkers, hall]
    · rw [hgroups]
      exact nodup_names nodup_nil _
    · intro cp
      rw [hgroups, mem_names, shownFrom_none, group_mem_entriesOf]
      simp only [not_mem_nil, false_or]

end Pages

/-- A bucket with versions, put one after the other under a key with an id. -/
def versionedBucketOf (versions : List (String × String)) : S3Bucket :=
  { S3Bucket.new "bucket" "us-east-1" .default 0 with
    versioning := .enabled
    objects := .versioned (versions.foldl (fun vs v =>
      vs.put { emptyObject v.1 with versionId := v.2 } "") .empty) }

def versionedStateOf (versions : List (String × String)) : S3ServiceState where
  buckets := AList.singleton "bucket" (versionedBucketOf versions)
  globalBucketOwner := AList.singleton "bucket" Owner.default.id

theorem versionPages_coverOnce_iff_twoPages :
    ∃ fuel pages, follow (nextVersionPage
        (versionedStateOf [("a", "1"), ("a", "2"), ("a", "3"), ("b/x", "4")])
        "bucket" none (some "/") (some 2)) fuel none = some pages ∧
      CoversHistoryOnce
        (versionedBucketOf [("a", "1"), ("a", "2"), ("a", "3"), ("b/x", "4")]).objects "" "/"
        pages := by
  set store := (versionedBucketOf [("a", "1"), ("a", "2"), ("a", "3"), ("b/x", "4")]).objects
  have hids : (store.history "" "/").map (fun v => v.version.versionId) = ["3", "2", "1"] := by
    decide +kernel
  have hlength : (store.history "" "/").length = 3 := by
    rw [← length_map fun v : VersionListEntry => v.version.versionId, hids]
    rfl
  refine ((versionPages_coverOnce_iff none (some "/") rfl (by decide) "c").mpr
    ⟨?_, ?_, ?_, ?_⟩).2.1
  · rintro ⟨-, ⟨c, hlast, -⟩, -⟩
    cases hlast
  · intro j a ha hlt
    change (j + 1) * 2 < (store.history "" "/").length at hlt
    change (store.history "" "/")[(j + 1) * 2 - 1]? = some a at ha
    obtain rfl : j = 0 := by omega
    have hid : ∀ {i : ℕ} {v : VersionListEntry}, (store.history "" "/")[i]? = some v →
        ["3", "2", "1"][i]? = some v.version.versionId := by
      intro i v hv
      rw [← hids, getElem?_map, hv]
      rfl
    have ha := hid ha
    refine ⟨fun h => ?_, fun i b hi hb _ h => ?_⟩
    · rw [h] at ha
      exact absurd ha (by decide)
    · have hb := hid hb
      change i < 1 at hi
      obtain rfl : i = 0 := by omega
      rw [h, ← ha] at hb
      exact absurd hb (by decide)
  · intro j hlt
    change (j + 1) * 2 < (items (entriesOf "" "/" store.keyedVersions)).length at hlt
    rw [← history_eq_items, hlength] at hlt
    obtain rfl : j = 0 := by omega
    exact isEmpty_iff.mp (by decide +kernel)
  · intro _ _
    decide +kernel

/-- The prefix ends within a character when its last byte is taken off. -/
theorem versionPages_panic :
    ¬((∀ keyMarker versionIdMarker, fetchVersions (versionedStateOf [("日", "1")]) "bucket"
          (some "é") none none keyMarker versionIdMarker ≠ .panic) ∧
      (∃ fuel pages, follow (nextVersionPage (versionedStateOf [("日", "1")]) "bucket" (some "é")
          none none) fuel none = some pages ∧
        CoversHistoryOnce (versionedBucketOf [("日", "1")]).objects "é" "" pages) ∧
      ("" ≠ "" → ∀ out, fetchVersions (versionedStateOf [("日", "1")]) "bucket" (some "é") none none
          (some "") none = .ok out →
        (∀ v ∈ out.versions, v.key ≠ some "") ∧ ∀ d ∈ out.deleteMarkers, d.key ≠ some "")) := by
  rintro ⟨hnever, -⟩
  refine hnever none none ?_
  rfl

end Rustack.S3
