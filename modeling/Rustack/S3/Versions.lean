import Rustack.S3.Slots

/-!
# Every version has its own bytes

As long as no write goes to a bucket with suspended versioning, no tag or access
list of an object with versions changes, and no bucket with objects is deleted,
every version has one body, the one that its own write supplied, and no body is
left over.
-/

namespace Rustack.S3

open RustackS3 List Function Contents

variable {object : S3Object} {stored : StoredData} {w : Written} {v : ObjectVersion} {shelf : Shelf}
  {versioning : VersioningStatus} {name : String}

/-- Random ids differ from each other and from the null id. -/
structure FreshIds (env : S3Env) : Prop where
  injective : Function.Injective env.versionIds
  ne_null : ∀ n, env.versionIds n ≠ "null"

/-! ## Versions and bodies of one key -/

/-- Each version has an id of its own and a body as its write supplied it, and there are no
other bodies. -/
structure Slot.Faithful (slot : Slot) (supplied : String → Option Written) : Prop where
  distinct : (slot.versions.map ObjectVersion.versionId).Nodup
  body : ∀ object, .object object ∈ slot.versions → ∃ stored w,
    slot.body object.versionId = some stored ∧ supplied object.versionId = some w ∧
    stored.data = w.data ∧ object.size = w.data.length ∧ object.etag = w.etag
  only : ∀ id, slot.body id ≠ none → ∃ object, .object object ∈ slot.versions ∧
    object.versionId = id

namespace Slot.Faithful

variable {slot : Slot} {supplied : String → Option Written}

theorem empty (supplied : String → Option Written) : Slot.empty.Faithful supplied where
  distinct := nodup_nil
  body := fun _ hmem => absurd hmem not_mem_nil
  only := fun _ hbody => absurd rfl hbody

/-- What a write supplies, next to the object and the body it stores. -/
structure Supplies (object : S3Object) (stored : StoredData) (w : Written) : Prop where
  data : stored.data = w.data
  size : object.size = w.data.length
  etag : object.etag = w.etag

theorem add (h : slot.Faithful supplied) (hw : Supplies object stored w)
    (hfresh : ∀ v ∈ slot.versions, v.versionId ≠ object.versionId) :
    (slot.add object stored).Faithful
      (update supplied object.versionId (some w)) where
  distinct := by
    refine nodup_cons.mpr ⟨fun hmem => ?_, h.distinct⟩
    obtain ⟨v, hv, hid⟩ := mem_map.mp hmem
    exact hfresh v hv hid
  body := by
    intro object' hmem
    rcases mem_cons.mp hmem with heq | hmem
    · cases heq
      exact ⟨stored, w, update_self .., update_self .., hw.data, hw.size,
        hw.etag⟩
    · obtain ⟨stored', w', hbody, hsupplied, hrest⟩ := h.body object' hmem
      have hne : object'.versionId ≠ object.versionId := hfresh _ hmem
      exact ⟨stored', w', (update_of_ne hne _ _).trans hbody,
        (update_of_ne hne _ _).trans hsupplied, hrest⟩
  only := by
    intro id hbody
    by_cases hid : id = object.versionId
    · exact ⟨object, mem_cons_self, hid.symm⟩
    · obtain ⟨object', hmem, hid'⟩ := h.only id fun hnone =>
        hbody ((update_of_ne hid _ _).trans hnone)
      exact ⟨object', .tail _ hmem, hid'⟩

theorem replace (h : slot.Faithful supplied) (hw : Supplies object stored w)
    (hsame : ∀ v ∈ slot.versions, v.versionId = object.versionId) :
    (slot.replace object stored).Faithful
      (update supplied object.versionId (some w)) where
  distinct := nodup_singleton _
  body := by
    intro object' hmem
    cases mem_singleton.mp hmem
    exact ⟨stored, w, update_self .., update_self .., hw.data, hw.size, hw.etag⟩
  only := by
    intro id hbody
    refine ⟨object, mem_singleton_self _, ?_⟩
    by_contra hid
    obtain ⟨object', hmem, hid'⟩ := h.only id fun hnone =>
      hbody ((update_of_ne (Ne.symm hid) _ _).trans hnone)
    exact hid ((hsame _ hmem).symm.trans hid')

theorem mark (h : slot.Faithful supplied) {marker : S3DeleteMarker}
    (hfresh : ∀ v ∈ slot.versions, v.versionId ≠ marker.versionId) :
    (slot.mark marker).Faithful supplied where
  distinct := by
    refine nodup_cons.mpr ⟨fun hmem => ?_, h.distinct⟩
    obtain ⟨v, hv, hid⟩ := mem_map.mp hmem
    exact hfresh v hv hid
  body := by
    intro object hmem
    rcases mem_cons.mp hmem with heq | hmem
    · cases heq
    · exact h.body object hmem
  only := by
    intro id hbody
    obtain ⟨object, hmem, hid⟩ := h.only id hbody
    exact ⟨object, .tail _ hmem, hid⟩

/-- Only versions of other ids are left. -/
theorem ne_of_mem_eraseP {versions : List ObjectVersion} {id : String}
    (hdistinct : (versions.map ObjectVersion.versionId).Nodup)
    (hv : v ∈ versions.eraseP fun v => v.versionId = id) : v.versionId ≠ id := by
  induction versions with
  | nil => exact absurd hv not_mem_nil
  | cons first rest ih =>
      rw [map_cons, nodup_cons] at hdistinct
      by_cases hfirst : first.versionId = id
      · rw [eraseP_cons, decide_eq_true hfirst, cond_true] at hv
        intro hid
        refine hdistinct.1 ?_
        rw [hfirst, ← hid]
        exact mem_map_of_mem hv
      · rw [eraseP_cons, decide_eq_false hfirst, cond_false] at hv
        rcases mem_cons.mp hv with rfl | hv
        · exact hfirst
        · exact ih hdistinct.2 hv

theorem remove (h : slot.Faithful supplied) (id : String) :
    (slot.remove id).Faithful supplied where
  distinct := h.distinct.sublist (eraseP_sublist.map _)
  body := by
    intro object hmem
    obtain ⟨stored, w, hbody, hrest⟩ := h.body object (mem_of_mem_eraseP hmem)
    refine ⟨stored, w, ?_, hrest⟩
    have hne : object.versionId ≠ id := ne_of_mem_eraseP h.distinct hmem
    unfold Slot.remove
    dsimp only
    split
    · exact (update_of_ne hne _ _).trans hbody
    · exact hbody
  only := by
    intro id' hbody
    by_cases hid : id' = id
    · exfalso
      refine hbody ?_
      unfold Slot.remove
      dsimp only
      split
      · rw [hid]
        exact update_self ..
      · next hany =>
          by_contra hsome
          obtain ⟨object, hmem, hobject⟩ := h.only id' hsome
          exact hany (any_eq_true.mpr ⟨_, hmem, decide_eq_true (hobject.trans hid)⟩)
    · have hold : slot.body id' ≠ none := by
        intro hnone
        refine hbody ?_
        unfold Slot.remove
        dsimp only
        split
        · exact (update_of_ne hid _ _).trans hnone
        · exact hnone
      obtain ⟨object, hmem, hobject⟩ := h.only id' hold
      refine ⟨object, ?_, hobject⟩
      refine (mem_eraseP_of_neg fun htest => ?_).mpr hmem
      exact hid (hobject.symm.trans (of_decide_eq_true htest))

theorem clear (h : slot.Faithful supplied)
    (hnull : ∀ v ∈ slot.versions, v.versionId = "null") : slot.clear.Faithful supplied where
  distinct := nodup_nil
  body := fun _ hmem => absurd hmem not_mem_nil
  only := by
    intro id hbody
    exfalso
    by_cases hid : id = "null"
    · refine hbody ?_
      rw [hid]
      exact update_self "null" none slot.body
    · obtain ⟨object, hmem, hobject⟩ := h.only id fun hnone =>
        hbody ((update_of_ne hid _ _).trans hnone)
      exact hid (hobject.symm.trans (hnull _ hmem))

theorem getElem?_mapAt (slot : Slot) (idx i : ℕ) (f : ObjectMetadata → ObjectMetadata) :
    (slot.mapAt idx f).versions[i]? =
      slot.versions[i]?.map fun v => if idx = i then v.mapMetadata f else v := by
  change (slot.versions.modify idx _)[i]? = _
  rw [getElem?_modify]
  rfl

theorem mem_mapAt {f : ObjectMetadata → ObjectMetadata} {idx : ℕ}
    (hv : v ∈ (slot.mapAt idx f).versions) :
    ∃ old ∈ slot.versions, v = old ∨ v = old.mapMetadata f := by
  obtain ⟨i, hi⟩ := mem_iff_getElem?.mp hv
  rw [getElem?_mapAt] at hi
  obtain ⟨old, hold, heq⟩ := Option.map_eq_some_iff.mp hi
  refine ⟨old, mem_of_getElem? hold, ?_⟩
  split at heq
  · exact Or.inr heq.symm
  · exact Or.inl heq.symm

theorem mem_mapAt_of_mem (f : ObjectMetadata → ObjectMetadata) (idx : ℕ) (hv : v ∈ slot.versions) :
    v ∈ (slot.mapAt idx f).versions ∨ v.mapMetadata f ∈ (slot.mapAt idx f).versions := by
  obtain ⟨i, hi⟩ := mem_iff_getElem?.mp hv
  have hmap := getElem?_mapAt slot idx i f
  rw [hi, Option.map_some] at hmap
  split at hmap
  · exact Or.inr (mem_of_getElem? hmap)
  · exact Or.inl (mem_of_getElem? hmap)

theorem map_versionId_mapAt (slot : Slot) (idx : ℕ) (f : ObjectMetadata → ObjectMetadata) :
    (slot.mapAt idx f).versions.map ObjectVersion.versionId =
      slot.versions.map ObjectVersion.versionId := by
  refine ext_getElem? fun i => ?_
  rw [getElem?_map, getElem?_map, getElem?_mapAt, Option.map_map]
  refine congrArg (fun g => Option.map g slot.versions[i]?) (funext fun v => ?_)
  change ObjectVersion.versionId (if idx = i then _ else _) = _
  split
  · exact v.versionId_mapMetadata f
  · rfl

/-- A change of metadata keeps the ids and what counts of each object. -/
theorem mapAt (h : slot.Faithful supplied) (idx : ℕ) (f : ObjectMetadata → ObjectMetadata) :
    (slot.mapAt idx f).Faithful supplied where
  distinct := by
    rw [map_versionId_mapAt]
    exact h.distinct
  body := by
    intro object hmem
    obtain ⟨old, hold, heq | heq⟩ := mem_mapAt hmem
    · exact h.body object (heq ▸ hold)
    · cases old with
      | deleteMarker marker => cases heq
      | object obj =>
          cases heq
          exact h.body obj hold
  only := by
    intro id hbody
    obtain ⟨object, hmem, hid⟩ := h.only id hbody
    rcases mem_mapAt_of_mem f idx hmem with hmem | hmem
    · exact ⟨object, hmem, hid⟩
    · exact ⟨{ object with metadata := f object.metadata }, hmem, hid⟩

theorem dropBodies (h : slot.Faithful supplied)
    (hnone : ∀ object, .object object ∉ slot.versions) : slot.dropBodies.Faithful supplied where
  distinct := h.distinct
  body := fun object hmem => absurd hmem (hnone object)
  only := fun _ hbody => absurd rfl hbody

end Slot.Faithful

/-! ## Kinds of buckets -/

namespace Contents

variable {c : Contents} {env : S3Env} {now : DateTime} {bucket key : String}

/-- The versioning of a bucket, and whether its store has versions. -/
def kind (c : Contents) (bucket : String) : Option (VersioningStatus × Bool) :=
  (c.shelves bucket).map fun shelf => (shelf.versioning, shelf.objects.isVersioned)

theorem kind_of_shelf (hshelf : c.shelves bucket = some shelf) :
    c.kind bucket = some (shelf.versioning, shelf.objects.isVersioned) := by
  rw [kind, hshelf]
  rfl

theorem kind_mapShelf (name : String) (f : Shelf → Shelf) :
    (c.mapShelf name f).kind bucket = if bucket = name then
      ((c.shelves bucket).map f).map fun shelf => (shelf.versioning, shelf.objects.isVersioned)
    else c.kind bucket := by
  change Option.map _ (Function.update c.shelves name _ bucket) = _
  rw [update_apply]
  split
  · next heq => rw [heq]
  · rfl

theorem kind_mapStore {f : ObjectStore → ObjectStore} (name : String)
    (hf : ∀ store, (f store).isVersioned = store.isVersioned) :
    (c.mapStore name f).kind bucket = c.kind bucket := by
  refine (kind_mapShelf name _).trans ?_
  split
  · rw [Option.map_map]
    refine congrArg (fun g => Option.map g (c.shelves bucket)) (funext fun shelf => ?_)
    exact congrArg (Prod.mk shelf.versioning) (hf shelf.objects)
  · rfl

theorem kind_reinsert (name : String) (object : S3Object) :
    (c.reinsert env name object).kind bucket = c.kind bucket :=
  kind_mapStore (c := c) name fun store => store.isVersioned_put object _

theorem kind_write (name : String) (object : S3Object) (stored : StoredData) :
    (c.write env name object stored).kind bucket = c.kind bucket :=
  kind_reinsert (c := c.setBody (name, object.key, object.versionId) (some stored)) name object

theorem kind_removeVersion (name place versionId : String) :
    (c.removeVersion name place versionId).kind bucket = c.kind bucket := by
  have hstore : (c.mapStore name fun store => (store.deleteVersion place versionId).1).kind bucket =
      c.kind bucket := kind_mapStore name fun store => by
      cases store with
      | versioned vs => rfl
      | unversioned ks =>
          change ObjectStore.isVersioned (if _ then _ else _ : ObjectStore × _).1 = false
          split <;> rfl
  unfold removeVersion
  split
  · rfl
  · dsimp only
    split <;> exact hstore

theorem kind_removeLatest (name place : String) :
    (c.removeLatest env now name place).kind bucket = c.kind bucket := by
  have hstore : (c.mapStore name fun store =>
      (store.deleteVersioned place .default (env.versionIds c.drawn) now).1).kind bucket =
        c.kind bucket := kind_mapStore name fun store => by cases store <;> rfl
  unfold removeLatest
  split
  · rfl
  · dsimp only
    split <;> exact hstore

theorem kind_update (name place : String) (versionId : Option String)
    (f : ObjectMetadata → ObjectMetadata) :
    (c.update name place versionId f).kind bucket = c.kind bucket := by
  refine kind_mapStore name fun store => ?_
  cases store with
  | versioned vs => cases versionId <;> rfl
  | unversioned ks =>
      cases versionId with
      | none => rfl
      | some id =>
          change ObjectStore.isVersioned (if _ then _ else _) = false
          split <;> rfl

end Contents

/-! ## The invariant -/

/-- With care a slot is faithful, and in any case its ids are null or have been drawn. -/
structure SlotInv (care : Prop) (env : S3Env) (drawn : ℕ)
    (kind : Option (VersioningStatus × Bool)) (slot : Slot) (supplied : String → Option Written) :
    Prop where
  faithful : care → slot.Faithful supplied
  drawnIds : ∀ v ∈ slot.versions, v.versionId = "null" ∨ ∃ n < drawn, v.versionId = env.versionIds n
  nullIds : ∀ versioning, kind = some (versioning, false) →
    ∀ v ∈ slot.versions, v.versionId = "null"

structure Inv (care : Prop) (env : S3Env) (c : Contents)
    (supplied : String × String × String → Option Written) : Prop where
  slots : ∀ bucket key, SlotInv care env c.drawn (c.kind bucket) (c.slot bucket key) fun id =>
    supplied (bucket, key, id)
  kinds : ∀ bucket versioning versioned, c.kind bucket = some (versioning, versioned) →
    (versioned = true ↔ versioning ≠ .disabled)
  owners : ∀ bucket, c.owners bucket = none → c.kind bucket = none

namespace SlotInv

variable {care : Prop} {env : S3Env} {drawn drawn' : ℕ}
  {kind : Option (VersioningStatus × Bool)} {slot : Slot} {supplied : String → Option Written}

theorem drawnIds_mono {versions : List ObjectVersion}
    (h : ∀ v ∈ versions, v.versionId = "null" ∨ ∃ n < drawn, v.versionId = env.versionIds n)
    (hle : drawn ≤ drawn') :
    ∀ v ∈ versions, v.versionId = "null" ∨ ∃ n < drawn', v.versionId = env.versionIds n := by
  intro v hv
  rcases h v hv with hnull | ⟨n, hn, hid⟩
  · exact Or.inl hnull
  · exact Or.inr ⟨n, hn.trans_le hle, hid⟩

theorem mono (h : SlotInv care env drawn kind slot supplied) (hle : drawn ≤ drawn') :
    SlotInv care env drawn' kind slot supplied :=
  ⟨h.faithful, drawnIds_mono h.drawnIds hle, h.nullIds⟩

theorem empty : SlotInv care env drawn kind .empty supplied where
  faithful := fun _ => .empty supplied
  drawnIds := fun _ hv => absurd hv not_mem_nil
  nullIds := fun _ _ _ hv => absurd hv not_mem_nil

/-- An id that has not been drawn is the id of no version. -/
theorem ne_fresh (hfresh : FreshIds env) (h : SlotInv care env drawn kind slot supplied)
    (hle : drawn ≤ drawn') : ∀ v ∈ slot.versions, v.versionId ≠ env.versionIds drawn' := by
  intro v hv heq
  rcases h.drawnIds v hv with hnull | ⟨n, hn, hid⟩
  · exact hfresh.ne_null drawn' (heq.symm.trans hnull)
  · exact (hn.trans_le hle).ne (hfresh.injective (hid.symm.trans heq))

/-- The versions that remain or change only their metadata keep their ids. -/
theorem of_ids {slot' : Slot} {supplied' : String → Option Written}
    (h : SlotInv care env drawn kind slot supplied) (hfaithful : care → slot'.Faithful supplied')
    (hids : ∀ v ∈ slot'.versions, ∃ old ∈ slot.versions, v.versionId = old.versionId) :
    SlotInv care env drawn kind slot' supplied' where
  faithful := hfaithful
  drawnIds := by
    intro v hv
    obtain ⟨old, hold, hid⟩ := hids v hv
    rw [hid]
    exact h.drawnIds old hold
  nullIds := by
    intro versioning hkind v hv
    obtain ⟨old, hold, hid⟩ := hids v hv
    rw [hid]
    exact h.nullIds versioning hkind old hold

theorem remove (h : SlotInv care env drawn kind slot supplied) (id : String) :
    SlotInv care env drawn kind (slot.remove id) supplied :=
  h.of_ids (fun hcare => (h.faithful hcare).remove id) fun v hv => ⟨v, mem_of_mem_eraseP hv, rfl⟩

theorem mapAt (h : SlotInv care env drawn kind slot supplied) (idx : ℕ)
    (f : ObjectMetadata → ObjectMetadata) :
    SlotInv care env drawn kind (slot.mapAt idx f) supplied := by
  refine h.of_ids (fun hcare => (h.faithful hcare).mapAt idx f) fun v hv => ?_
  obtain ⟨old, hold, heq | heq⟩ := Slot.Faithful.mem_mapAt hv
  · exact ⟨old, hold, congrArg _ heq⟩
  · exact ⟨old, hold, heq ▸ old.versionId_mapMetadata f⟩

theorem clear (h : SlotInv care env drawn (some (versioning, false)) slot supplied) :
    SlotInv care env drawn (some (versioning, false)) slot.clear supplied :=
  h.of_ids (fun hcare => (h.faithful hcare).clear (h.nullIds versioning rfl))
    fun _ hv => absurd hv not_mem_nil

theorem dropBodies (h : SlotInv care env drawn kind slot supplied)
    (hnone : care → ∀ object, .object object ∉ slot.versions) :
    SlotInv care env drawn kind slot.dropBodies supplied :=
  h.of_ids (fun hcare => (h.faithful hcare).dropBodies (hnone hcare)) fun v hv => ⟨v, hv, rfl⟩

theorem add (hfresh : FreshIds env)
    (h : SlotInv care env drawn (some (versioning, true)) slot supplied)
    (hid : object.versionId = env.versionIds drawn) (hw : Slot.Faithful.Supplies object stored w) :
    SlotInv care env (drawn + 2) (some (versioning, true)) (slot.add object stored)
      (update supplied object.versionId (some w)) where
  faithful := fun hcare => (h.faithful hcare).add hw fun v hv => by
    rw [hid]
    exact h.ne_fresh hfresh le_rfl v hv
  drawnIds := by
    refine forall_mem_cons.mpr ⟨Or.inr ⟨drawn, by omega, hid⟩, ?_⟩
    exact drawnIds_mono h.drawnIds (Nat.le_add_right drawn 2)
  nullIds := by
    intro versioning' hkind
    cases hkind

theorem replace (h : SlotInv care env drawn (some (versioning, false)) slot supplied)
    (hid : object.versionId = "null") (hw : Slot.Faithful.Supplies object stored w) :
    SlotInv care env drawn (some (versioning, false)) (slot.replace object stored)
      (update supplied object.versionId (some w)) where
  faithful := fun hcare => (h.faithful hcare).replace hw fun v hv =>
    (h.nullIds versioning rfl v hv).trans hid.symm
  drawnIds := forall_mem_singleton.mpr (Or.inl hid)
  nullIds := fun _ _ => forall_mem_singleton.mpr hid

theorem mark (hfresh : FreshIds env)
    (h : SlotInv care env drawn (some (versioning, true)) slot supplied) {marker : S3DeleteMarker}
    (hid : marker.versionId = env.versionIds drawn) :
    SlotInv care env (drawn + 1) (some (versioning, true)) (slot.mark marker) supplied where
  faithful := fun hcare => (h.faithful hcare).mark fun v hv => by
    rw [hid]
    exact h.ne_fresh hfresh le_rfl v hv
  drawnIds := by
    refine forall_mem_cons.mpr ⟨Or.inr ⟨drawn, Nat.lt_succ_self drawn, hid⟩, ?_⟩
    exact drawnIds_mono h.drawnIds (Nat.le_succ drawn)
  nullIds := by
    intro versioning' hkind
    cases hkind

/-- Without care only the id of a version in front counts. -/
theorem front {body : String → Option StoredData} (hno : ¬care)
    (h : SlotInv care env drawn (some (versioning, true)) slot supplied) (hle : drawn ≤ drawn')
    (hid : v.versionId = "null" ∨ ∃ n < drawn', v.versionId = env.versionIds n) :
    SlotInv care env drawn' (some (versioning, true)) ⟨v :: slot.versions, body⟩ supplied where
  faithful := fun hcare => absurd hcare hno
  drawnIds := forall_mem_cons.mpr ⟨hid, drawnIds_mono h.drawnIds hle⟩
  nullIds := by
    intro versioning' hkind
    cases hkind

end SlotInv

namespace Inv

variable {care : Prop} {env : S3Env} {now : DateTime} {c c' : Contents}
  {supplied supplied' : String × String × String → Option Written}

theorem nullIds (h : Inv care env c supplied) (hshelf : c.shelves name = some shelf) :
    shelf.NullIds := by
  intro hversioned key v hv
  refine (h.slots name key).nullIds shelf.versioning ?_ v ?_
  · rw [kind_of_shelf hshelf, hversioned]
  · change v ∈ c.versionsOf name key
    rw [versionsOf_of_shelf hshelf]
    exact hv

/-- A change of one slot. -/
theorem of_slot (h : Inv care env c supplied) (name place : String)
    (hkind : ∀ bucket, c'.kind bucket = c.kind bucket) (howners : c'.owners = c.owners)
    (hdrawn : c.drawn ≤ c'.drawn)
    (hother : ∀ bucket key, ¬(bucket = name ∧ key = place) →
      c'.slot bucket key = c.slot bucket key ∧
      ∀ id, supplied' (bucket, key, id) = supplied (bucket, key, id))
    (hslot : SlotInv care env c'.drawn (c.kind name) (c'.slot name place)
      fun id => supplied' (name, place, id)) : Inv care env c' supplied' where
  slots := by
    intro bucket key
    rw [hkind]
    by_cases hplace : bucket = name ∧ key = place
    · rw [hplace.1, hplace.2]
      exact hslot
    · obtain ⟨hsame, hsupplied⟩ := hother bucket key hplace
      rw [hsame, funext hsupplied]
      exact (h.slots bucket key).mono hdrawn
  kinds := by
    intro bucket
    rw [hkind]
    exact h.kinds bucket
  owners := by
    intro bucket
    rw [hkind, howners]
    exact h.owners bucket

theorem rest_removeVersion (c : Contents) (name place versionId : String) :
    (c.removeVersion name place versionId).owners = c.owners ∧
      (c.removeVersion name place versionId).drawn = c.drawn := by
  unfold Contents.removeVersion
  split
  · exact ⟨rfl, rfl⟩
  · dsimp only
    split <;> exact ⟨rfl, rfl⟩

theorem removeVersion (h : Inv care env c supplied) (hshelf : c.shelves name = some shelf)
    (place versionId : String) : Inv care env (c.removeVersion name place versionId) supplied := by
  obtain ⟨howners, hdrawn⟩ := rest_removeVersion c name place versionId
  have hslot : ∀ bucket key, (c.removeVersion name place versionId).slot bucket key = _ :=
    fun bucket key => slot_removeVersion hshelf (h.nullIds hshelf) place versionId
  refine h.of_slot name place (fun _ => kind_removeVersion name place versionId) howners
    hdrawn.ge (fun bucket key hplace => ⟨(hslot bucket key).trans (if_neg hplace), fun _ => rfl⟩) ?_
  rw [hslot, if_pos ⟨rfl, rfl⟩, hdrawn]
  exact (h.slots name place).remove versionId

theorem rest_removeLatest (c : Contents) (hshelf : c.shelves name = some shelf) (place : String) :
    (c.removeLatest env now name place).owners = c.owners ∧
      (c.removeLatest env now name place).drawn = c.drawn + 1 := by
  unfold Contents.removeLatest
  rw [hshelf]
  dsimp only
  split <;> exact ⟨rfl, rfl⟩

theorem removeLatest (hfresh : FreshIds env) (h : Inv care env c supplied)
    (hshelf : c.shelves name = some shelf) (place : String) :
    Inv care env (c.removeLatest env now name place) supplied := by
  obtain ⟨howners, hdrawn⟩ := @rest_removeLatest shelf name env now c hshelf place
  have hkind := kind_of_shelf hshelf
  have hplaceInv := h.slots name place
  cases hversioned : shelf.objects.isVersioned with
  | true =>
      have hslot : ∀ bucket key, (c.removeLatest env now name place).slot bucket key = _ :=
        fun bucket key => slot_removeLatest_versioned hshelf hversioned place
      refine h.of_slot name place (fun _ => kind_removeLatest name place) howners
        (by rw [hdrawn]; exact Nat.le_succ _)
        (fun bucket key hplace => ⟨(hslot bucket key).trans (if_neg hplace), fun _ => rfl⟩) ?_
      rw [hkind, hversioned] at hplaceInv
      rw [hslot, if_pos ⟨rfl, rfl⟩, hdrawn, hkind, hversioned]
      exact hplaceInv.mark hfresh rfl
  | false =>
      have hslot : ∀ bucket key, (c.removeLatest env now name place).slot bucket key = _ :=
        fun bucket key => slot_removeLatest_unversioned hshelf hversioned place
      refine h.of_slot name place (fun _ => kind_removeLatest name place) howners
        (by rw [hdrawn]; exact Nat.le_succ _)
        (fun bucket key hplace => ⟨(hslot bucket key).trans (if_neg hplace), fun _ => rfl⟩) ?_
      rw [hkind, hversioned] at hplaceInv
      rw [hslot, if_pos ⟨rfl, rfl⟩, hdrawn, hkind, hversioned]
      exact hplaceInv.clear.mono (Nat.le_succ _)

theorem deletion (hfresh : FreshIds env) {bypass : Bool} (h : Inv care env c supplied)
    (hdelete : Deletion env now bypass name c c') : Inv care env c' supplied := by
  cases hdelete with
  | version key versionId shelf hshelf _ => exact h.removeVersion hshelf key versionId
  | latest key shelf hshelf => exact h.removeLatest hfresh hshelf key

theorem deletions (hfresh : FreshIds env) {bypass : Bool} (h : Inv care env c supplied)
    (hdeletes : Relation.ReflTransGen (Deletion env now bypass name) c c') :
    Inv care env c' supplied := by
  induction hdeletes with
  | refl => exact h
  | tail _ hdelete ih => exact ih.deletion hfresh hdelete

theorem update (h : Inv care env c supplied) (hshelf : c.shelves name = some shelf) (place : String)
    (versionId : Option String) (f : ObjectMetadata → ObjectMetadata) :
    Inv care env (c.update name place versionId f) supplied := by
  have hslot : ∀ bucket key, (c.update name place versionId f).slot bucket key = _ :=
    fun bucket key => slot_update hshelf (h.nullIds hshelf) place versionId f
  refine h.of_slot name place (fun _ => kind_update name place versionId f) rfl le_rfl
    (fun bucket key hplace => ⟨(hslot bucket key).trans (if_neg hplace), fun _ => rfl⟩) ?_
  rw [hslot, if_pos ⟨rfl, rfl⟩]
  exact (h.slots name place).mapAt _ f

theorem reinsert (h : Inv care env c supplied) {place : String} {versionId : Option String}
    (f : ObjectMetadata → ObjectMetadata) (hshelf : c.shelves name = some shelf)
    (hversioned : shelf.objects.isVersioned = false)
    (hobject : lookupSource shelf.objects place versionId = .ok object) :
    Inv care env (c.reinsert env name { object with metadata := f object.metadata }) supplied := by
  have hslot : ∀ bucket key, (c.reinsert env name
      { object with metadata := f object.metadata }).slot bucket key = _ :=
    fun bucket key => slot_reinsert_unversioned hshelf hversioned hobject
  refine h.of_slot name place (fun _ => kind_reinsert name _) rfl (Nat.le_add_right _ 2)
    (fun bucket key hplace => ⟨(hslot bucket key).trans (if_neg hplace), fun _ => rfl⟩) ?_
  rw [hslot, if_pos ⟨rfl, rfl⟩]
  exact ((h.slots name place).mapAt 0 f).mono (Nat.le_add_right _ 2)

/-- The new version is in front. -/
theorem versionsOf_write (hshelf : c.shelves name = some shelf)
    (hid : shelf.objects.isVersioned = true → object.versionId ≠ "null") :
    ((c.write env name object stored).versionsOf name object.key).head? =
      some (.object object) := by
  cases hversioned : shelf.objects.isVersioned with
  | true =>
      have hslot : (c.write env name object stored).slot name object.key = _ :=
        slot_write_versioned hshelf hversioned (hid hversioned)
      rw [if_pos ⟨rfl, rfl⟩] at hslot
      exact congrArg (fun slot => slot.versions.head?) hslot
  | false =>
      have hslot : (c.write env name object stored).slot name object.key = _ :=
        slot_write_unversioned hshelf hversioned
      rw [if_pos ⟨rfl, rfl⟩] at hslot
      exact congrArg (fun slot => slot.versions.head?) hslot

theorem update_at_place (name place versionId : String) (w : Option Written) :
    (fun id => Function.update supplied (name, place, versionId) w (name, place, id)) =
      Function.update (fun id => supplied (name, place, id)) versionId w := by
  funext id
  rw [update_apply, update_apply]
  exact if_congr (by simp) rfl rfl

theorem update_elsewhere {place bucket key : String} (versionId : String) (w : Option Written)
    (hplace : ¬(bucket = name ∧ key = place)) (id : String) :
    Function.update supplied (name, place, versionId) w (bucket, key, id) =
      supplied (bucket, key, id) :=
  Function.update_of_ne
    (fun h => hplace ⟨congrArg Prod.fst h, congrArg (fun t => t.2.1) h⟩) _ _

theorem newId_versioned (h : Inv care env c supplied) (hshelf : c.shelves name = some shelf)
    (hnotSuspended : shelf.versioning ≠ .suspended)
    (hversioned : shelf.objects.isVersioned = true) : shelf.newId env c.drawn = env.versionIds c.drawn := by
  have hkind := (h.kinds name _ _ (kind_of_shelf hshelf)).mp hversioned
  refine if_pos ?_
  cases hversioning : shelf.versioning with
  | disabled => exact absurd hversioning hkind
  | enabled => rfl
  | suspended => exact absurd hversioning hnotSuspended

theorem newId_unversioned (h : Inv care env c supplied) (hshelf : c.shelves name = some shelf)
    (hversioned : shelf.objects.isVersioned = false) : shelf.newId env c.drawn = "null" := by
  have hkind := h.kinds name _ _ (kind_of_shelf hshelf)
  refine if_neg fun henabled => ?_
  rw [hversioned, henabled] at hkind
  exact Bool.false_ne_true (hkind.mpr fun hdisabled => by cases hdisabled)

theorem write (hfresh : FreshIds env) (h : Inv care env c supplied)
    (hshelf : c.shelves name = some shelf) (hnotSuspended : shelf.versioning ≠ .suspended)
    (hid : object.versionId = shelf.newId env c.drawn)
    (hw : Slot.Faithful.Supplies object stored w) : Inv care env (c.write env name object stored)
      (Function.update supplied (name, object.key, object.versionId) (some w)) := by
  have hkind := kind_of_shelf hshelf
  have hplaceInv := h.slots name object.key
  cases hversioned : shelf.objects.isVersioned with
  | true =>
      have hdrawnId := hid.trans (h.newId_versioned hshelf hnotSuspended hversioned)
      have hne : object.versionId ≠ "null" := by
        rw [hdrawnId]
        exact hfresh.ne_null c.drawn
      have hslot : ∀ bucket key, (c.write env name object stored).slot bucket key = _ :=
        fun bucket key => slot_write_versioned hshelf hversioned hne
      refine h.of_slot name object.key (fun _ => kind_write name object stored) rfl
        (Nat.le_add_right _ 2) (fun bucket key hplace =>
          ⟨(hslot bucket key).trans (if_neg hplace), update_elsewhere _ _ hplace⟩) ?_
      rw [hkind, hversioned] at hplaceInv
      rw [hslot, if_pos ⟨rfl, rfl⟩, hkind, hversioned, update_at_place]
      exact hplaceInv.add hfresh hdrawnId hw
  | false =>
      have hnull := hid.trans (h.newId_unversioned hshelf hversioned)
      have hslot : ∀ bucket key, (c.write env name object stored).slot bucket key = _ :=
        fun bucket key => slot_write_unversioned hshelf hversioned
      refine h.of_slot name object.key (fun _ => kind_write name object stored) rfl
        (Nat.le_add_right _ 2) (fun bucket key hplace =>
          ⟨(hslot bucket key).trans (if_neg hplace), update_elsewhere _ _ hplace⟩) ?_
      rw [hkind, hversioned] at hplaceInv
      rw [hslot, if_pos ⟨rfl, rfl⟩, hkind, hversioned, update_at_place]
      exact (hplaceInv.replace hnull hw).mono (Nat.le_add_right _ 2)

/-- Without care neither the bodies count nor what was supplied. -/
theorem setBody (hno : ¬care) (h : Inv care env c supplied) (place : String × String × String)
    (body : Option StoredData) : Inv care env (c.setBody place body) supplied' where
  slots := fun bucket key => ⟨fun hcare => absurd hcare hno, (h.slots bucket key).drawnIds,
    (h.slots bucket key).nullIds⟩
  kinds := h.kinds
  owners := h.owners

/-- Without care an object may be put next to the versions of its key under a known id. -/
theorem put (hno : ¬care) (h : Inv care env c supplied) (hshelf : c.shelves name = some shelf)
    (hversioned : shelf.objects.isVersioned = true)
    (hid : object.versionId = "null" ∨ ∃ n < c.drawn, object.versionId = env.versionIds n) :
    Inv care env (c.reinsert env name object) supplied := by
  have hkind := kind_of_shelf hshelf
  have hslot : ∀ bucket key, (c.reinsert env name object).slot bucket key = _ :=
    fun bucket key => slot_reinsert hshelf
  have hplaceInv := h.slots name object.key
  refine h.of_slot name object.key (fun _ => kind_reinsert name object) rfl
    (Nat.le_add_right _ 2)
    (fun bucket key hplace => ⟨(hslot bucket key).trans (if_neg hplace), fun _ => rfl⟩) ?_
  rw [hkind, hversioned] at hplaceInv
  rw [hslot, if_pos ⟨rfl, rfl⟩, hkind, hversioned,
    versionsOf_put_versioned _ hversioned, ← versionsOf_of_shelf hshelf]
  refine hplaceInv.front hno (Nat.le_add_right _ 2) ?_
  change ObjectVersion.versionId (.object (if _ then _ else _)) = "null" ∨ _
  split
  · exact Or.inr ⟨c.drawn + 1, Nat.lt_succ_self _, rfl⟩
  · exact hid.imp_right fun ⟨n, hn, heq⟩ => ⟨n, Nat.lt_add_right 2 hn, heq⟩

/-! ### Changes of a bucket -/

theorem draw (h : Inv care env c supplied) (n : ℕ) : Inv care env (c.draw n) supplied :=
  ⟨fun bucket key => (h.slots bucket key).mono (Nat.le_add_right _ n), h.kinds, h.owners⟩

/-- A change of the kind of a bucket that keeps its slots. -/
theorem of_kind (h : Inv care env c supplied) (hslot : ∀ bucket key,
      c'.slot bucket key = c.slot bucket key) (hdrawn : c'.drawn = c.drawn)
    (hkinds : ∀ bucket versioning versioned, c'.kind bucket = some (versioning, versioned) →
      (versioned = true ↔ versioning ≠ .disabled))
    (hnull : ∀ bucket versioning, c'.kind bucket = some (versioning, false) →
      (∃ versioning, c.kind bucket = some (versioning, false)) ∨ c.kind bucket = none)
    (howners : ∀ bucket, c'.owners bucket = none → c'.kind bucket = none) :
    Inv care env c' supplied where
  slots := by
    intro bucket key
    have hold := h.slots bucket key
    rw [hslot, hdrawn]
    refine ⟨hold.faithful, hold.drawnIds, fun versioning hkind v hv => ?_⟩
    rcases hnull bucket versioning hkind with ⟨versioning', hold'⟩ | hnone
    · exact hold.nullIds versioning' hold' v hv
    · have hempty : c.versionsOf bucket key = [] :=
        versionsOf_of_none (Option.map_eq_none_iff.mp hnone)
      change v ∈ c.versionsOf bucket key at hv
      rw [hempty] at hv
      exact absurd hv not_mem_nil
  kinds := hkinds
  owners := howners

/-- A change of the versioning of a bucket. -/
theorem mapShelf (h : Inv care env c supplied) {f : Shelf → Shelf} (name : String)
    (hslot : ∀ bucket key, (c.mapShelf name f).slot bucket key = c.slot bucket key)
    (hkinds : ∀ shelf, (shelf.objects.isVersioned = true ↔ shelf.versioning ≠ .disabled) →
      ((f shelf).objects.isVersioned = true ↔ (f shelf).versioning ≠ .disabled))
    (hnull : ∀ shelf, (f shelf).objects.isVersioned = false →
      shelf.objects.isVersioned = false) : Inv care env (c.mapShelf name f) supplied := by
  have hkind : ∀ bucket, (c.mapShelf name f).kind bucket = _ :=
    fun bucket => kind_mapShelf name f
  refine h.of_kind hslot rfl (fun bucket versioning versioned hnew => ?_)
    (fun bucket versioning hnew => ?_) (fun bucket howner => ?_)
  · rw [hkind] at hnew
    split at hnew
    · rw [Option.map_map] at hnew
      obtain ⟨shelf, hshelf, heq⟩ := Option.map_eq_some_iff.mp hnew
      cases heq
      exact hkinds shelf (h.kinds bucket _ _ (kind_of_shelf hshelf))
    · exact h.kinds bucket versioning versioned hnew
  · rw [hkind] at hnew
    split at hnew
    · rw [Option.map_map] at hnew
      obtain ⟨shelf, hshelf, heq⟩ := Option.map_eq_some_iff.mp hnew
      refine Or.inl ⟨shelf.versioning, (kind_of_shelf hshelf).trans ?_⟩
      rw [hnull shelf (congrArg Prod.snd heq)]
    · exact Or.inl ⟨versioning, hnew⟩
  · rw [hkind, Option.map_eq_none_iff.mp (h.owners bucket howner)]
    split
    · rfl
    · exact h.owners bucket howner

theorem enable (h : Inv care env c supplied) (name : String) :
    Inv care env (c.mapShelf name Shelf.enable) supplied := by
  refine h.mapShelf name (fun _ _ => slot_enable name) (fun shelf hkind => ?_)
    (fun shelf hversioned => ?_)
  · unfold Shelf.enable
    split
    · refine iff_of_true (shelf.objects.isVersioned_transitionToVersioned) ?_
      intro h
      cases h
    · exact hkind
  · unfold Shelf.enable at hversioned
    split at hversioned
    · rw [shelf.objects.isVersioned_transitionToVersioned] at hversioned
      cases hversioned
    · exact hversioned

theorem suspend (h : Inv care env c supplied) (name : String) :
    Inv care env (c.mapShelf name Shelf.suspend) supplied := by
  refine h.mapShelf name (fun _ _ => slot_suspend name) (fun shelf hkind => ?_)
    (fun shelf hversioned => ?_)
  · unfold Shelf.suspend
    split
    · next henabled =>
        refine iff_of_true (hkind.mpr ?_) ?_
        · rw [henabled]
          intro h
          cases h
        · intro h
          cases h
    · exact hkind
  · unfold Shelf.suspend at hversioned
    split at hversioned <;> exact hversioned

theorem create (h : Inv care env c supplied) (howner : c.owners name = none)
    (hempty : ∀ key, shelf.objects.versionsOf key = [])
    (hkind : shelf.objects.isVersioned = true ↔ shelf.versioning ≠ .disabled) :
    Inv care env (c.create name shelf) supplied := by
  have hnone : c.shelves name = none := Option.map_eq_none_iff.mp (h.owners name howner)
  have hkinds : ∀ bucket, (c.create name shelf).kind bucket =
      if bucket = name then some (shelf.versioning, shelf.objects.isVersioned)
      else c.kind bucket := by
    intro bucket
    change Option.map _ (Function.update c.shelves name (some shelf) bucket) = _
    rw [update_apply]
    split <;> rfl
  refine h.of_kind (fun _ _ => slot_create name hnone hempty) rfl
    (fun bucket versioning versioned hnew => ?_) (fun bucket versioning hnew => ?_)
    (fun bucket hfree => ?_)
  · rw [hkinds] at hnew
    split at hnew
    · cases hnew
      exact hkind
    · exact h.kinds bucket versioning versioned hnew
  · rw [hkinds] at hnew
    split at hnew
    · next heq =>
        rw [heq]
        exact Or.inr (h.owners name howner)
    · exact Or.inl ⟨versioning, hnew⟩
  · change Function.update c.owners name (some Owner.default.id) bucket = none at hfree
    rw [update_apply] at hfree
    rw [hkinds]
    split
    · next heq =>
        rw [if_pos heq] at hfree
        cases hfree
    · next hne =>
        rw [if_neg hne] at hfree
        exact h.owners bucket hfree

theorem destroy (h : Inv care env c supplied) (name : String) :
    Inv care env (c.destroy name) supplied where
  slots := by
    intro bucket key
    rw [slot_destroy]
    split
    · exact .empty
    · next hne =>
        have hkind : (c.destroy name).kind bucket = c.kind bucket := by
          change Option.map _ (Function.update c.shelves name none bucket) = _
          rw [update_of_ne hne]
          rfl
        rw [hkind]
        exact h.slots bucket key
  kinds := by
    intro bucket versioning versioned hnew
    change Option.map _ (Function.update c.shelves name none bucket) = _ at hnew
    rw [update_apply] at hnew
    split at hnew
    · cases hnew
    · exact h.kinds bucket versioning versioned hnew
  owners := by
    intro bucket hfree
    change Function.update c.owners name none bucket = none at hfree
    change Option.map _ (Function.update c.shelves name none bucket) = _
    rw [update_apply] at hfree ⊢
    split
    · rfl
    · next hne =>
        rw [if_neg hne] at hfree
        exact h.owners bucket hfree

theorem dropBodies (h : Inv care env c supplied)
    (hnone : care → ∀ key object, .object object ∉ c.versionsOf name key) :
    Inv care env (c.dropBodies name) supplied where
  slots := by
    intro bucket key
    rw [slot_dropBodies]
    split
    · next heq => exact (h.slots bucket key).dropBodies fun hcare => heq ▸ hnone hcare key
    · exact h.slots bucket key
  kinds := h.kinds
  owners := h.owners

end Inv

end Rustack.S3
