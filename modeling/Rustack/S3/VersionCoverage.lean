import Rustack.S3.ListingCoverage
import Rustack.S3.VersionListing

/-!
# The pages of a version listing

What the loops over keys and versions show is a page of the entries behind the
pair of markers, as long as they do not panic.  From it follows where the pair a
page gives out leads, and exactly when reading on covers the history once.
-/

namespace Rustack.S3

open GroupedPages List

/-- The versions of a key as a listing shows them, from place `idx` on. -/
def versionEntries : ℕ → List ObjectVersion → List VersionListEntry
  | _, [] => []
  | idx, version :: versions =>
    { version, isLatest := idx == 0 } :: versionEntries (idx + 1) versions

/-- The versions older than the one a marker names. -/
def afterMarker (versionIdMarker : String) : List VersionListEntry → List VersionListEntry
  | [] => []
  | entry :: entries =>
    if entry.version.versionId = versionIdMarker then entries
    else afterMarker versionIdMarker entries

theorem map_version_versionEntries (idx : ℕ) (versions : List ObjectVersion) :
    (versionEntries idx versions).map VersionListEntry.version = versions := by
  induction versions generalizing idx with
  | nil => rfl
  | cons v versions ih => rw [versionEntries, map_cons, ih]

theorem version_mem_of_mem_versionEntries {idx : ℕ} {versions : List ObjectVersion}
    {entry : VersionListEntry} (h : entry ∈ versionEntries idx versions) :
    entry.version ∈ versions := by
  have hmem := mem_map_of_mem (f := VersionListEntry.version) h
  rwa [map_version_versionEntries] at hmem

/-- Behind the marker of a shown version come again the versions between the first one with
its id and itself, and then the older ones. -/
theorem afterMarker_of_getElem? {entries : List VersionListEntry} {n : ℕ} {a : VersionListEntry}
    (ha : entries[n]? = some a) :
    ∃ m, m ≤ n ∧ afterMarker a.version.versionId entries = entries.drop (m + 1) ∧
      (∃ b, entries[m]? = some b ∧ b.version.versionId = a.version.versionId) ∧
      ∀ i b, i < m → entries[i]? = some b → b.version.versionId ≠ a.version.versionId := by
  induction entries generalizing n with
  | nil => cases ha
  | cons e entries ih =>
      by_cases he : e.version.versionId = a.version.versionId
      · refine ⟨0, Nat.zero_le n, by rw [afterMarker, if_pos he]; rfl, ⟨e, rfl, he⟩, ?_⟩
        intro i b hi
        cases hi
      · cases n with
        | zero =>
            cases ha
            exact absurd rfl he
        | succ n =>
            obtain ⟨m, hmn, hdrop, hfirst, hbefore⟩ := ih (n := n) ha
            refine ⟨m + 1, Nat.succ_le_succ hmn, ?_, hfirst, ?_⟩
            · rw [afterMarker, if_neg he, hdrop]
              rfl
            · intro i b hi hb
              cases i with
              | zero =>
                  cases hb
                  exact he
              | succ i => exact hbefore i b (Nat.lt_of_succ_lt_succ hi) hb

/-! ## The loops and the pages -/

namespace VersionScan

def page (scan : VersionScan) : Page String VersionListEntry where
  items := scan.resultVersions
  groups := scan.commonPrefixes
  truncated := scan.isTruncated

/-- The count and the markers are those of the versions collected. -/
structure Consistent (scan : VersionScan) : Prop where
  count_eq : scan.count = scan.resultVersions.length
  lastKey_eq : scan.lastKey = scan.resultVersions.getLast?.map fun e => e.version.key
  lastVersionId_eq :
    scan.lastVersionId = scan.resultVersions.getLast?.map fun e => e.version.versionId

theorem Consistent.push {scan : VersionScan} (h : scan.Consistent) {key : String}
    (entry : VersionListEntry) (hkey : entry.version.key = key) :
    ({ scan with
        resultVersions := scan.resultVersions ++ [entry]
        lastKey := some key
        lastVersionId := some entry.version.versionId
        count := scan.count + 1 } : VersionScan).Consistent where
  count_eq := by rw [length_append, ← h.count_eq]; rfl
  lastKey_eq := by rw [getLast?_concat, Option.map_some, hkey]
  lastVersionId_eq := by rw [getLast?_concat, Option.map_some]

end VersionScan

section Loops

variable (maxKeys : ℕ) (versionIdMarker : String) {key : String}

theorem versionLoop_false {idx : ℕ} {scan : VersionScan} (hscan : scan.Consistent)
    {versions : List ObjectVersion} (hkey : ∀ v ∈ versions, v.key = key) :
    (versionLoop maxKeys versionIdMarker key false idx scan versions).Consistent ∧
      (versionLoop maxKeys versionIdMarker key false idx scan versions).page =
        fill maxKeys scan.page ((versionEntries idx versions).map .item) := by
  induction versions generalizing idx scan with
  | nil => exact ⟨hscan, rfl⟩
  | cons v versions ih =>
      have hlength : scan.page.items.length = scan.count := hscan.count_eq.symm
      simp only [versionLoop, versionEntries, map_cons, fill, hlength, Bool.false_eq_true,
        if_false]
      split
      · exact ⟨⟨hscan.count_eq, hscan.lastKey_eq, hscan.lastVersionId_eq⟩, rfl⟩
      · have hpush := hscan.push { version := v, isLatest := idx == 0 } (hkey v (.head _))
        exact ih hpush fun w hw => hkey w (.tail _ hw)

theorem versionLoop_true {idx : ℕ} {scan : VersionScan} (hscan : scan.Consistent)
    {versions : List ObjectVersion} (hkey : ∀ v ∈ versions, v.key = key) :
    (versionLoop maxKeys versionIdMarker key true idx scan versions).Consistent ∧
      (versionLoop maxKeys versionIdMarker key true idx scan versions).page =
        fill maxKeys scan.page
          ((afterMarker versionIdMarker (versionEntries idx versions)).map .item) := by
  induction versions generalizing idx scan with
  | nil => exact ⟨hscan, rfl⟩
  | cons v versions ih =>
      have htail : ∀ w ∈ versions, w.key = key := fun w hw => hkey w (.tail _ hw)
      simp only [versionLoop, versionEntries, afterMarker, if_true]
      by_cases hid : v.versionId = versionIdMarker
      · rw [if_pos hid, bne_eq_false_iff_eq.mpr hid]
        exact versionLoop_false maxKeys versionIdMarker hscan htail
      · rw [if_neg hid, bne_iff_ne.mpr hid]
        exact ih hscan htail

/-- The versions of a key that a pair of markers leaves to be shown. -/
def remaining (keyMarker versionIdMarker key : String) (entries : List VersionListEntry) :
    List VersionListEntry :=
  if key = keyMarker ∧ versionIdMarker ≠ "" then afterMarker versionIdMarker entries else entries

/-- The versions of the keys from a marker on. -/
def remainingFrom (keyMarker versionIdMarker : String)
    (entries : List (String × List VersionListEntry)) : List (String × List VersionListEntry) :=
  (entries.filter fun e => ¬e.1 < keyMarker).map fun e =>
    (e.1, remaining keyMarker versionIdMarker e.1 e.2)

def showVersions (e : String × List ObjectVersion) : String × List VersionListEntry :=
  (e.1, versionEntries 0 e.2)

theorem versionLoop_spec (keyMarker : String) {scan : VersionScan} (hscan : scan.Consistent)
    {versions : List ObjectVersion} (hkey : ∀ v ∈ versions, v.key = key) :
    (versionLoop maxKeys versionIdMarker key (key == keyMarker && versionIdMarker != "") 0 scan
        versions).Consistent ∧
      (versionLoop maxKeys versionIdMarker key (key == keyMarker && versionIdMarker != "") 0 scan
        versions).page = fill maxKeys scan.page
          ((remaining keyMarker versionIdMarker key (versionEntries 0 versions)).map .item) := by
  unfold remaining
  by_cases hskip : key = keyMarker ∧ versionIdMarker ≠ ""
  · have htrue : (key == keyMarker && versionIdMarker != "") = true := by simpa using hskip
    rw [if_pos hskip, htrue]
    exact versionLoop_true maxKeys versionIdMarker hscan hkey
  · have hfalse : (key == keyMarker && versionIdMarker != "") = false := by
      rw [← Bool.not_eq_true]
      simpa using hskip
    rw [if_neg hskip, hfalse]
    exact versionLoop_false maxKeys versionIdMarker hscan hkey

end Loops

/-- A key behind the prefix that does not start with it. -/
def Beyond (pre key : String) : Prop := pre < key ∧ Text.startsWith key pre = false

theorem Beyond.ne_empty {pre key : String} (h : Beyond pre key) : pre ≠ "" := by
  rintro rfl
  have hfalse := h.2
  rw [startsWith_of_empty] at hfalse
  cases hfalse

/-- Behind a key beyond the prefix no key starts with it. -/
theorem Beyond.of_lt {pre key key' : String} (h : Beyond pre key) (hlt : key < key') :
    Text.startsWith key' pre = false := by
  rw [← Bool.not_eq_true]
  intro hstarts
  have hbetween : pre.toList <+: key.toList := by
    refine Text.isPrefix_of_between (prefix_refl _) (Text.startsWith_iff.mp hstarts) ?_ ?_
    · rw [← String.lt_iff_toList_lt]
      exact h.1.not_gt
    · rw [← String.lt_iff_toList_lt]
      exact hlt.not_gt
  have hfalse := h.2
  rw [Text.startsWith_iff.mpr hbetween] at hfalse
  cases hfalse

theorem entriesOf_eq_nil {β : Type} {pre delimiter : String} {es : List (String × List β)}
    (h : ∀ e ∈ es, Text.startsWith e.1 pre = false) : entriesOf pre delimiter es = [] := by
  refine flatMap_eq_nil_iff.mpr fun e he => ?_
  rw [keyEntries, h e he]
  rfl

section KeyLoop

variable {pre delimiter keyMarker versionIdMarker : String} {maxKeys : ℕ}

theorem remainingFrom_cons (e : String × List VersionListEntry)
    (entries : List (String × List VersionListEntry)) :
    remainingFrom keyMarker versionIdMarker (e :: entries) =
      if e.1 < keyMarker then remainingFrom keyMarker versionIdMarker entries
      else (e.1, remaining keyMarker versionIdMarker e.1 e.2) ::
        remainingFrom keyMarker versionIdMarker entries := by
  unfold remainingFrom
  by_cases hlt : e.1 < keyMarker
  · rw [if_pos hlt, filter_cons_of_neg (by rwa [decide_eq_true_eq, not_not])]
  · rw [if_neg hlt, filter_cons_of_pos (by rwa [decide_eq_true_eq]), map_cons]

/-- Unless it panics, the loop over the keys fills the page with what the markers leave. -/
theorem page_keyLoop {entries : List (String × List ObjectVersion)}
    (hsorted : entries.Pairwise fun e e' => e.1 < e'.1)
    (hkeyed : ∀ e ∈ entries, ∀ v ∈ e.2, v.key = e.1) {scan scan' : VersionScan}
    (hscan : scan.Consistent) (hopen : scan.isTruncated = false)
    (h : keyLoop pre delimiter keyMarker versionIdMarker maxKeys scan entries = some scan') :
    scan'.Consistent ∧ scan'.page = fill maxKeys scan.page
      (entriesOf pre delimiter
        (remainingFrom keyMarker versionIdMarker (entries.map showVersions))) := by
  induction entries generalizing scan with
  | nil =>
      cases h
      exact ⟨hscan, rfl⟩
  | cons e entries ih =>
      obtain ⟨key, versions⟩ := e
      obtain ⟨hbehind, hsorted⟩ := pairwise_cons.mp hsorted
      obtain ⟨hkey, hkeyed⟩ := forall_mem_cons.mp hkeyed
      change ∀ v ∈ versions, v.key = key at hkey
      rw [keyLoop] at h
      rw [map_cons, remainingFrom_cons]
      change scan'.Consistent ∧ scan'.page = fill maxKeys scan.page (entriesOf pre delimiter
        (if key < keyMarker then _ else _))
      split at h
      · next hstart =>
          rw [if_pos hstart.2]
          exact ih hsorted hkeyed hscan hopen h
      · next hstart =>
          have hnot : ¬key < keyMarker := fun hlt => hstart ⟨by
            rintro rfl
            exact not_lt_empty _ hlt, hlt⟩
          rw [if_neg hnot, entriesOf, flatMap_cons, ← entriesOf]
          set shown := remaining keyMarker versionIdMarker key (versionEntries 0 versions)
            with hshown
          change scan'.Consistent ∧ scan'.page = fill maxKeys scan.page
            (keyEntries pre delimiter (key, shown) ++ _)
          split at h
          · next hpre =>
              have hhead : keyEntries pre delimiter (key, shown) = [] := by
                rw [keyEntries, hpre.2]
                rfl
              rw [hhead, nil_append]
              split at h
              · next hlt =>
                  split at h
                  · cases h
                  · split at h
                    · exact ih hsorted hkeyed hscan hopen h
                    · cases h
                      -- no key behind this one starts with the prefix
                      have hnil : entriesOf pre delimiter (remainingFrom keyMarker versionIdMarker
                          (entries.map showVersions)) = [] := by
                        refine entriesOf_eq_nil fun e he => ?_
                        obtain ⟨x, hx, rfl⟩ := mem_map.mp he
                        obtain ⟨y, hy, rfl⟩ := mem_map.mp (mem_filter.mp hx).1
                        exact Beyond.of_lt ⟨hlt, hpre.2⟩ (hbehind y hy)
                      rw [hnil]
                      exact ⟨hscan, rfl⟩
              · exact ih hsorted hkeyed hscan hopen h
          · next hpre =>
              have hstarts : Text.startsWith key pre = true := by
                by_contra hfalse
                rw [Bool.not_eq_true] at hfalse
                refine hpre ⟨?_, hfalse⟩
                rintro rfl
                rw [startsWith_of_empty] at hfalse
                cases hfalse
              split at h
              · next cp hcp =>
                  have hgroup : IsCommonPrefix pre delimiter (key, shown).1 cp :=
                    isCommonPrefix_iff.mpr ⟨hstarts, hcp⟩
                  rw [keyEntries_of_isCommonPrefix hgroup, singleton_append, fill]
                  dsimp only at h
                  have hcons : ({ scan with
                      commonPrefixes := addName scan.commonPrefixes cp } :
                        VersionScan).Consistent :=
                    ⟨hscan.count_eq, hscan.lastKey_eq, hscan.lastVersionId_eq⟩
                  exact ih hsorted hkeyed hcons hopen h
              · next hcp =>
                  have hlisted : Listed pre delimiter (key, shown).1 :=
                    listed_iff.mpr ⟨hstarts, hcp⟩
                  rw [keyEntries_of_listed hlisted]
                  obtain ⟨hcons, hpage⟩ :=
                    versionLoop_spec maxKeys versionIdMarker keyMarker hscan hkey
                  rw [fill_append hopen, ← hpage]
                  dsimp only at h
                  split at h
                  · next htrue =>
                      cases h
                      exact ⟨hcons, (if_pos htrue).symm⟩
                  · next hfalse =>
                      have hclosed : ¬(VersionScan.page _).truncated = true := hfalse
                      rw [if_neg hclosed]
                      exact ih hsorted hkeyed hcons (Bool.eq_false_iff.mpr hfalse) h

/-- The loop panics only at a key beyond a prefix that cannot be shortened. -/
theorem exists_beyond_of_keyLoop {entries : List (String × List ObjectVersion)} {scan : VersionScan}
    (h : keyLoop pre delimiter keyMarker versionIdMarker maxKeys scan entries = none) :
    shortenedPrefix pre = none ∧ ∃ e ∈ entries, Beyond pre e.1 := by
  induction entries generalizing scan with
  | nil => cases h
  | cons e entries ih =>
      obtain ⟨key, versions⟩ := e
      have hlater : ∀ {scan}, keyLoop pre delimiter keyMarker versionIdMarker maxKeys scan entries
          = none → shortenedPrefix pre = none ∧ ∃ e ∈ (key, versions) :: entries,
            Beyond pre e.1 := by
        intro scan h
        obtain ⟨hnone, e, he, hbeyond⟩ := ih h
        exact ⟨hnone, e, .tail _ he, hbeyond⟩
      rw [keyLoop] at h
      split at h
      · exact hlater h
      · split at h
        · next hpre =>
            split at h
            · next hlt =>
                split at h
                · next hnone => exact ⟨hnone, _, mem_cons_self, hlt, hpre.2⟩
                · split at h
                  · exact hlater h
                  · cases h
            · exact hlater h
        · split at h
          · exact hlater h
          · dsimp only at h
            split at h
            · cases h
            · exact hlater h

/-- A first key beyond a prefix that cannot be shortened panics. -/
theorem keyLoop_of_beyond {key : String} {versions : List ObjectVersion}
    {entries : List (String × List ObjectVersion)} {scan : VersionScan}
    (hmarker : ¬key < keyMarker) (hbeyond : Beyond pre key) (hnone : shortenedPrefix pre = none) :
    keyLoop pre delimiter keyMarker versionIdMarker maxKeys scan ((key, versions) :: entries) =
      none := by
  rw [keyLoop, if_neg fun h => hmarker h.2, if_pos ⟨hbeyond.ne_empty, hbeyond.2⟩,
    if_pos hbeyond.1, hnone]

end KeyLoop

/-! ## Where a pair of markers leads -/

section Markers

variable {entries : List (String × List VersionListEntry)} {key keyMarker versionIdMarker : String}

theorem remainingFrom_empty (entries : List (String × List VersionListEntry)) :
    remainingFrom "" "" entries = entries := by
  have hall : (entries.filter fun e => ¬e.1 < "") = entries :=
    filter_eq_self.mpr fun e _ => decide_eq_true (not_lt_empty e.1)
  rw [remainingFrom, hall]
  refine (map_congr_left fun e _ => ?_).trans (map_id entries)
  rw [remaining, if_neg fun h => h.2 rfl]
  rfl

/-- What follows a key from the marker on is shown in full. -/
theorem filter_remainingFrom (versionIdMarker : String)
    (entries : List (String × List VersionListEntry)) (hkey : ¬key < keyMarker) :
    ((remainingFrom keyMarker versionIdMarker entries).filter fun e => key < e.1) =
      entries.filter fun e => key < e.1 := by
  rw [remainingFrom, filter_map, filter_filter]
  have hlater : (entries.filter fun e => decide (key < e.1) && decide ¬e.1 < keyMarker) =
      entries.filter fun e => key < e.1 := by
    refine filter_congr fun e _ => ?_
    by_cases hlt : key < e.1
    · have hnot : ¬e.1 < keyMarker := fun h => hkey (hlt.trans h)
      simp only [hlt, hnot, not_false_eq_true, decide_true, Bool.and_self]
    · simp only [hlt, decide_false, Bool.false_and]
  refine (congrArg (map _) hlater).trans ?_
  refine (map_congr_left fun e he => ?_).trans (map_id _)
  have hlt : key < e.1 := of_decide_eq_true (mem_filter.mp he).2
  have hne : e.1 ≠ keyMarker := by
    rintro rfl
    exact hkey hlt
  rw [remaining, if_neg fun h => hne h.1]
  rfl

theorem remainingFrom_of_pairwise {before after : List (String × List VersionListEntry)}
    {es : List VersionListEntry}
    (h : (before ++ (key, es) :: after).Pairwise fun x y => x.1 < y.1) :
    remainingFrom key versionIdMarker (before ++ (key, es) :: after) =
      (key, remaining key versionIdMarker key es) :: after := by
  obtain ⟨-, hafter, hbefore⟩ := pairwise_append.mp h
  have hlow : remainingFrom key versionIdMarker before = [] := by
    refine map_eq_nil_iff.mpr (filter_eq_nil_iff.mpr fun e he => ?_)
    rw [decide_eq_true_eq, not_not]
    exact hbefore e he _ (.head _)
  have hhigh : remainingFrom key versionIdMarker after = after := by
    have hall : (after.filter fun e => ¬e.1 < key) = after :=
      filter_eq_self.mpr fun e he => by
        rw [decide_eq_true_eq]
        exact ((pairwise_cons.mp hafter).1 e he).not_gt
    rw [remainingFrom, hall]
    refine (map_congr_left fun e he => ?_).trans (map_id _)
    have hne : e.1 ≠ key := ((pairwise_cons.mp hafter).1 e he).ne'
    rw [remaining, if_neg fun h => hne h.1]
    rfl
  have happend : remainingFrom key versionIdMarker (before ++ (key, es) :: after) =
      remainingFrom key versionIdMarker before ++
        remainingFrom key versionIdMarker ((key, es) :: after) := by
    rw [remainingFrom, filter_append, map_append]
    rfl
  rw [happend, hlow, nil_append, remainingFrom_cons, if_neg (lt_irrefl key), hhigh]

theorem pairwise_remainingFrom (keyMarker versionIdMarker : String)
    (h : entries.Pairwise fun x y => x.1 < y.1) :
    (remainingFrom keyMarker versionIdMarker entries).Pairwise fun x y => x.1 < y.1 :=
  pairwise_map.mpr (h.filter _)

theorem exists_afterMarker_eq_drop (versionIdMarker : String) (es : List VersionListEntry) :
    ∃ d, afterMarker versionIdMarker es = es.drop d := by
  induction es with
  | nil => exact ⟨0, rfl⟩
  | cons e es ih =>
      by_cases he : e.version.versionId = versionIdMarker
      · exact ⟨1, by rw [afterMarker, if_pos he]; rfl⟩
      · obtain ⟨d, hd⟩ := ih
        exact ⟨d + 1, by rw [afterMarker, if_neg he, hd]; rfl⟩

theorem exists_remaining_eq_drop (keyMarker versionIdMarker key : String)
    (es : List VersionListEntry) : ∃ d, remaining keyMarker versionIdMarker key es = es.drop d := by
  unfold remaining
  split
  · exact exists_afterMarker_eq_drop versionIdMarker es
  · exact ⟨0, rfl⟩

/-- The marker of a shown version leads behind it if the version is the first with its id. -/
theorem exists_remaining_of_getElem? {es : List VersionListEntry} {n : ℕ} {a : VersionListEntry}
    (ha : es[n]? = some a) (key : String) :
    ∃ m ≤ n + 1, remaining key a.version.versionId key es = es.drop m ∧
      (m = n + 1 ↔ a.version.versionId ≠ "" ∧
        ∀ i b, i < n → es[i]? = some b → b.version.versionId ≠ a.version.versionId) := by
  unfold remaining
  by_cases hempty : a.version.versionId = ""
  · refine ⟨0, Nat.zero_le _, ?_, fun h => absurd h.symm (Nat.succ_ne_zero n), fun h => ?_⟩
    · rw [if_neg fun h => h.2 hempty]
      rfl
    · exact absurd hempty h.1
  · obtain ⟨m, hmn, hdrop, ⟨b, hb, hid⟩, hbefore⟩ := afterMarker_of_getElem? ha
    refine ⟨m + 1, Nat.succ_le_succ hmn, by rw [if_pos ⟨rfl, hempty⟩, hdrop], fun h => ?_,
      fun h => ?_⟩
    · obtain rfl := Nat.succ.inj h
      exact ⟨hempty, hbefore⟩
    · by_contra hne
      exact h.2 m b (by omega) hb hid

end Markers

section Resume

variable {entries : List (String × List VersionListEntry)} {maxKeys : ℕ}

def keyMarkerOf (cursor : Option (String × Option String)) : String := (cursor.map Prod.fst).getD ""

def versionIdMarkerOf (cursor : Option (String × Option String)) : String :=
  (cursor.bind Prod.snd).getD ""

/-- The pair that a page ending with a version gives out. -/
def versionCursor (entry : VersionListEntry) : String × Option String :=
  (entry.version.key, some entry.version.versionId)

/-- What the versions of the keys show from a pair of markers on. -/
def versionsFrom (pre delimiter : String) (entries : List (String × List VersionListEntry))
    (cursor : Option (String × Option String)) : List (Entry String VersionListEntry) :=
  entriesOf pre delimiter (remainingFrom (keyMarkerOf cursor) (versionIdMarkerOf cursor) entries)

theorem versionsFrom_none (pre delimiter : String)
    (entries : List (String × List VersionListEntry)) :
    versionsFrom pre delimiter entries none = entriesOf pre delimiter entries := by
  rw [versionsFrom]
  exact congrArg _ (remainingFrom_empty entries)

/-- The marker of a version leads to a place in the versions of its key. -/
theorem versionsFrom_versionCursor {pre delimiter : String}
    {before after : List (String × List VersionListEntry)} {es : List VersionListEntry}
    {a : VersionListEntry}
    (hsorted : (before ++ (a.version.key, es) :: after).Pairwise fun x y => x.1 < y.1)
    (hlisted : Listed pre delimiter a.version.key) :
    versionsFrom pre delimiter (before ++ (a.version.key, es) :: after) (some (versionCursor a)) =
      (remaining a.version.key a.version.versionId a.version.key es).map .item ++
        entriesOf pre delimiter after := by
  unfold versionsFrom
  have hfrom : remainingFrom (keyMarkerOf (some (versionCursor a)))
      (versionIdMarkerOf (some (versionCursor a))) (before ++ (a.version.key, es) :: after) =
        (a.version.key, remaining a.version.key a.version.versionId a.version.key es) :: after :=
    remainingFrom_of_pairwise hsorted
  rw [hfrom, entriesOf, flatMap_cons, keyEntries_of_listed hlisted, ← entriesOf]

/-- Behind a version come the older ones of its key and then the keys behind it. -/
theorem behind_versionsFrom {pre delimiter : String}
    (hsorted : entries.Pairwise fun x y => x.1 < y.1)
    (hkeyed : ∀ e ∈ entries, ∀ v ∈ e.2, v.version.key = e.1)
    {cursor : Option (String × Option String)} {n : ℕ} {a : VersionListEntry}
    (ha : (items (versionsFrom pre delimiter entries cursor))[n]? = some a) :
    ∃ before es i after, entries = before ++ (a.version.key, es) :: after ∧
      Listed pre delimiter a.version.key ∧ es[i]? = some a ∧
      behind (n + 1) (versionsFrom pre delimiter entries cursor) =
        (es.drop (i + 1)).map .item ++ entriesOf pre delimiter after := by
  obtain ⟨before', key, bs, i, after', hes, hlisted, hbs, -, hbehind⟩ := exists_behind_entriesOf ha
  have hmem : (key, bs) ∈ remainingFrom (keyMarkerOf cursor)
      (versionIdMarkerOf cursor) entries := by
    rw [hes]
    exact mem_append_right _ (.head _)
  obtain ⟨⟨key', es⟩, hentry, heq⟩ := mem_map.mp hmem
  cases heq
  obtain ⟨hentry, hmarker⟩ := mem_filter.mp hentry
  rw [decide_eq_true_eq] at hmarker
  change ¬key' < keyMarkerOf cursor at hmarker
  change Listed pre delimiter key' at hlisted
  obtain ⟨d, hd⟩ := exists_remaining_eq_drop (keyMarkerOf cursor) (versionIdMarkerOf cursor) key' es
  change (remaining (keyMarkerOf cursor) (versionIdMarkerOf cursor) key' es)[i]? = some a at hbs
  rw [hd, getElem?_drop] at hbs
  have hkey : a.version.key = key' := hkeyed _ hentry a (mem_of_getElem? hbs)
  subst hkey
  obtain ⟨before, after, rfl⟩ := append_of_mem hentry
  have hfilter := filter_remainingFrom (versionIdMarkerOf cursor)
    (before ++ (a.version.key, es) :: after) hmarker
  have hremaining := pairwise_remainingFrom (keyMarkerOf cursor) (versionIdMarkerOf cursor) hsorted
  rw [hes] at hfilter hremaining
  have hafter : after' = after := by
    rw [← filter_lt_of_pairwise hremaining, ← filter_lt_of_pairwise hsorted]
    exact hfilter
  refine ⟨before, es, d + i, after, rfl, hlisted, hbs, ?_⟩
  unfold versionsFrom
  rw [hbehind, hafter, hd, drop_drop, Nat.add_assoc]

/-- A pair of markers leads back by the versions it does not tell apart, or not at all. -/
theorem leadsBack_versionsFrom (pre delimiter : String)
    (hsorted : entries.Pairwise fun x y => x.1 < y.1)
    (hkeyed : ∀ e ∈ entries, ∀ v ∈ e.2, v.version.key = e.1) (hmax : 0 < maxKeys) :
    LeadsBack maxKeys (versionsFrom pre delimiter entries) versionCursor := by
  intro cursor a ha
  obtain ⟨before, es, i, after, rfl, hlisted, hi, hbehind⟩ :=
    behind_versionsFrom hsorted hkeyed ha
  obtain ⟨m, hm, hdrop, -⟩ := exists_remaining_of_getElem? hi a.version.key
  rw [Nat.sub_add_cancel hmax] at hbehind
  refine ⟨((es.drop m).take (i + 1 - m)).map .item, ?_, ?_⟩
  · rw [versionsFrom_versionCursor hsorted hlisted, hbehind, hdrop, ← append_assoc,
      ← map_append]
    have hsplit : (es.drop m).take (i + 1 - m) ++ es.drop (i + 1) = es.drop m := by
      have hrest : es.drop (i + 1) = (es.drop m).drop (i + 1 - m) := by
        rw [drop_drop, Nat.add_sub_cancel' hm]
      rw [hrest, take_append_drop]
    rw [hsplit]
  · rw [items_map_item, map_eq_nil_iff]
    exact Classical.em _

theorem items_entriesOf_split {pre delimiter key : String}
    {before after : List (String × List VersionListEntry)} {es : List VersionListEntry}
    (hlisted : Listed pre delimiter key) :
    items (entriesOf pre delimiter (before ++ (key, es) :: after)) =
      items (entriesOf pre delimiter before) ++ (es ++ items (entriesOf pre delimiter after)) := by
  have hhead : ((key, es) :: after).filter (fun e => Listed pre delimiter e.1) =
      (key, es) :: after.filter fun e => Listed pre delimiter e.1 :=
    filter_cons_of_pos (decide_eq_true hlisted)
  rw [items_entriesOf, filter_append, flatMap_append, hhead, flatMap_cons,
    ← items_entriesOf, ← items_entriesOf]

/-- What the version at the end of a page must be for its markers to lead on: the first one with
its id under its key, and the id is not empty. -/
def FirstOfItsId (history : List VersionListEntry) (n : ℕ) (a : VersionListEntry) : Prop :=
  a.version.versionId ≠ "" ∧ ∀ i b, i < n → history[i]? = some b →
    b.version.key = a.version.key → b.version.versionId ≠ a.version.versionId

theorem resumes_versionsFrom_iff (pre delimiter : String)
    (hsorted : entries.Pairwise fun x y => x.1 < y.1)
    (hkeyed : ∀ e ∈ entries, ∀ v ∈ e.2, v.version.key = e.1) (hmax : 0 < maxKeys) :
    Resumes maxKeys (versionsFrom pre delimiter entries) versionCursor
        (versionsFrom pre delimiter entries none) ↔
      ∀ j a, (items (entriesOf pre delimiter entries))[(j + 1) * maxKeys - 1]? = some a →
        (j + 1) * maxKeys < (items (entriesOf pre delimiter entries)).length →
        FirstOfItsId (items (entriesOf pre delimiter entries)) ((j + 1) * maxKeys - 1) a := by
  rw [versionsFrom_none]
  refine forall_congr' fun j => forall_congr' fun a => forall_congr' fun ha =>
    forall_congr' fun _ => ?_
  have hpos : 0 < (j + 1) * maxKeys := Nat.mul_pos (Nat.succ_pos j) hmax
  generalize hn : (j + 1) * maxKeys - 1 = n at ha ⊢
  have hn : (j + 1) * maxKeys = n + 1 := by omega
  rw [hn]
  obtain ⟨before, key, es, i, after, hentries, hlisted, hi, hplace, hbehind⟩ :=
    exists_behind_entriesOf ha
  have hkey : key = a.version.key := by
    refine (hkeyed (key, es) ?_ a (mem_of_getElem? hi)).symm
    rw [hentries]
    exact mem_append_right _ (.head _)
  subst hkey
  subst hentries
  obtain ⟨m, hm, hdrop, hfirst⟩ := exists_remaining_of_getElem? hi a.version.key
  have hlength := (List.getElem?_eq_some_iff.mp hi).1
  have hsame : versionsFrom pre delimiter (before ++ (a.version.key, es) :: after)
      (some (versionCursor a)) =
        behind (n + 1) (entriesOf pre delimiter (before ++ (a.version.key, es) :: after)) ↔
          m = i + 1 := by
    rw [hbehind, versionsFrom_versionCursor hsorted hlisted, hdrop, append_left_inj]
    constructor
    · intro heq
      have hcount := congrArg length heq
      simp only [length_map, length_drop] at hcount
      omega
    · rintro rfl
      rfl
  rw [hsame, hfirst]
  refine and_congr_right fun _ => ?_
  rw [items_entriesOf_split hlisted]
  set earlier := items (entriesOf pre delimiter before) with hearlier
  have hbefore : ∀ b ∈ earlier, b.version.key ≠ a.version.key := by
    intro b hb
    rw [hearlier, items_entriesOf] at hb
    obtain ⟨e, he, hbe⟩ := mem_flatMap.mp hb
    have hmem := (mem_filter.mp he).1
    rw [hkeyed e (mem_append_left _ hmem) b hbe]
    exact ((pairwise_append.mp hsorted).2.2 e hmem _ (.head _)).ne
  constructor
  · intro hnone k b hk hb hkey
    by_cases hlt : k < earlier.length
    · rw [getElem?_append_left hlt] at hb
      exact absurd hkey (hbefore b (mem_of_getElem? hb))
    · rw [getElem?_append_right (Nat.le_of_not_lt hlt),
        getElem?_append_left (by omega)] at hb
      exact hnone (k - earlier.length) b (by omega) hb
  · intro hnone k b hk hb
    refine hnone (earlier.length + k) b (by omega) ?_ ?_
    · rw [getElem?_append_right (Nat.le_add_right _ _), Nat.add_sub_cancel_left,
        getElem?_append_left (by omega)]
      exact hb
    · exact hkeyed _ (mem_append_right _ (.head _)) b (mem_of_getElem? hb)

end Resume

end Rustack.S3
