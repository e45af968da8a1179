import Rustack.S3.Effects

/-!
# The versions and the bodies of one key

A key of a bucket has a list of versions and, by version id, bodies.  Every
change of the contents is a small operation on one such slot, or on all slots
of a bucket, and leaves the other slots alone.
-/

namespace Rustack.S3

open RustackS3 List ObjectStore

@[ext] structure Slot where
  versions : List ObjectVersion
  body : String → Option StoredData

namespace Slot

def empty : Slot := ⟨[], fun _ => none⟩

/-- A new version in front, with its body. -/
def add (slot : Slot) (object : S3Object) (body : StoredData) : Slot :=
  ⟨.object object :: slot.versions, Function.update slot.body object.versionId (some body)⟩

/-- The one object of a key, with its body. -/
def replace (slot : Slot) (object : S3Object) (body : StoredData) : Slot :=
  ⟨[.object object], Function.update slot.body object.versionId (some body)⟩

def mark (slot : Slot) (marker : S3DeleteMarker) : Slot :=
  { slot with versions := .deleteMarker marker :: slot.versions }

/-- Without the first version of an id, and its body. -/
def remove (slot : Slot) (versionId : String) : Slot where
  versions := slot.versions.eraseP fun v => v.versionId = versionId
  body := if slot.versions.any fun v => v.versionId = versionId then
      Function.update slot.body versionId none
    else slot.body

/-- Without any version, and without the body of the null version. -/
def clear (slot : Slot) : Slot := ⟨[], Function.update slot.body "null" none⟩

def mapAt (slot : Slot) (idx : ℕ) (f : ObjectMetadata → ObjectMetadata) : Slot :=
  { slot with versions := slot.versions.modify idx (·.mapMetadata f) }

def dropBodies (slot : Slot) : Slot := { slot with body := fun _ => none }

end Slot

/-- Without versions an object has the null id. -/
def Shelf.NullIds (shelf : Shelf) : Prop :=
  shelf.objects.isVersioned = false →
    ∀ key, ∀ v ∈ shelf.objects.versionsOf key, v.versionId = "null"

namespace Contents

variable (c : Contents)

def slot (bucket key : String) : Slot where
  versions := c.versionsOf bucket key
  body := fun versionId => c.bodies (bucket, key, versionId)

variable {c} {bucket key : String} {shelf : Shelf}

theorem versionsOf_of_shelf (hshelf : c.shelves bucket = some shelf) :
    c.versionsOf bucket key = shelf.objects.versionsOf key := by
  rw [versionsOf, hshelf]
  rfl

theorem versionsOf_of_none (hnone : c.shelves bucket = none) : c.versionsOf bucket key = [] := by
  rw [versionsOf, hnone]
  rfl

@[simp] theorem slot_draw (n : ℕ) : (c.draw n).slot bucket key = c.slot bucket key := rfl

theorem versionsOf_setShelf (name : String) (new : Option Shelf) :
    (c.setShelf name new).versionsOf bucket key =
      if bucket = name then ((new.map fun shelf => shelf.objects.versionsOf key).getD [])
      else c.versionsOf bucket key := by
  unfold versionsOf setShelf
  dsimp only
  rw [Function.update_apply]
  split <;> rfl

theorem slot_mapShelf {f : Shelf → Shelf} (name : String)
    (hf : ∀ shelf, (f shelf).objects.versionsOf key = shelf.objects.versionsOf key) :
    (c.mapShelf name f).slot bucket key = c.slot bucket key := by
  refine Slot.ext ?_ rfl
  refine (versionsOf_setShelf name _).trans ?_
  split
  · next heq =>
      rw [heq, Option.map_map]
      exact congrArg (fun g => (Option.map g (c.shelves name)).getD []) (funext hf)
  · rfl

theorem slot_enable (name : String) : (c.mapShelf name Shelf.enable).slot bucket key =
    c.slot bucket key := by
  refine slot_mapShelf name fun shelf => ?_
  unfold Shelf.enable
  split
  · exact shelf.objects.versionsOf_transitionToVersioned key
  · rfl

theorem slot_suspend (name : String) : (c.mapShelf name Shelf.suspend).slot bucket key =
    c.slot bucket key := by
  refine slot_mapShelf name fun shelf => ?_
  unfold Shelf.suspend
  split <;> rfl

theorem slot_create {new : Shelf} (name : String) (hnone : c.shelves name = none)
    (hnew : ∀ key, new.objects.versionsOf key = []) :
    (c.create name new).slot bucket key = c.slot bucket key := by
  refine Slot.ext ?_ rfl
  refine (versionsOf_setShelf name (some new)).trans ?_
  split
  · next heq =>
      change _ = c.versionsOf bucket key
      rw [heq, versionsOf_of_none hnone]
      exact hnew key
  · rfl

theorem slot_dropBodies (name : String) : (c.dropBodies name).slot bucket key =
    if bucket = name then (c.slot bucket key).dropBodies else c.slot bucket key := by
  by_cases h : bucket = name
  · rw [if_pos h]
    exact Slot.ext rfl (funext fun _ => if_pos h)
  · rw [if_neg h]
    exact Slot.ext rfl (funext fun _ => if_neg h)

theorem slot_destroy (name : String) : (c.destroy name).slot bucket key =
    if bucket = name then .empty else c.slot bucket key := by
  have hversions : ((c.dropBodies name).setShelf name none).versionsOf bucket key = _ :=
    versionsOf_setShelf name none
  by_cases h : bucket = name
  · rw [if_pos h] at hversions ⊢
    exact Slot.ext hversions (funext fun _ => if_pos h)
  · rw [if_neg h] at hversions ⊢
    exact Slot.ext hversions (funext fun _ => if_neg h)

/-! ## Changes of one slot -/

theorem versionsOf_mapStore {f : ObjectStore → ObjectStore} {name : String}
    (hshelf : c.shelves name = some shelf) :
    (c.mapStore name f).versionsOf bucket key =
      if bucket = name then (f shelf.objects).versionsOf key else c.versionsOf bucket key := by
  refine (versionsOf_setShelf name _).trans ?_
  rw [hshelf]
  rfl

/-- A change of the store at one key, and of one of its bodies. -/
theorem slot_mapStore_setBody {f : ObjectStore → ObjectStore} {name place versionId : String}
    {new : Option StoredData} (hshelf : c.shelves name = some shelf)
    (hf : ∀ key, key ≠ place → (f shelf.objects).versionsOf key = shelf.objects.versionsOf key) :
    ((c.mapStore name f).setBody (name, place, versionId) new).slot bucket key =
      if bucket = name ∧ key = place then
        ⟨(f shelf.objects).versionsOf key,
          Function.update (c.slot bucket key).body versionId new⟩
      else c.slot bucket key := by
  have hversions : (c.mapStore name f).versionsOf bucket key = _ := versionsOf_mapStore hshelf
  by_cases h : bucket = name ∧ key = place
  · rw [if_pos h]
    rw [if_pos h.1] at hversions
    refine Slot.ext hversions (funext fun id => ?_)
    change Function.update c.bodies (name, place, versionId) new (bucket, key, id) =
      Function.update (fun id => c.bodies (bucket, key, id)) versionId new id
    rw [Function.update_apply, Function.update_apply, h.1, h.2]
    exact if_congr (by simp) rfl rfl
  · rw [if_neg h]
    refine Slot.ext ?_ (funext fun id => ?_)
    · refine hversions.trans ?_
      split
      · next heq =>
          rw [hf key fun hkey => h ⟨heq, hkey⟩]
          exact (versionsOf_of_shelf (heq ▸ hshelf)).symm
      · rfl
    · change Function.update c.bodies (name, place, versionId) new (bucket, key, id) = _
      rw [Function.update_apply, if_neg]
      · rfl
      · intro heq
        exact h ⟨congrArg Prod.fst heq, congrArg (fun t => t.2.1) heq⟩

/-- A change of the store at one key. -/
theorem slot_mapStore {f : ObjectStore → ObjectStore} {name place : String}
    (hshelf : c.shelves name = some shelf)
    (hf : ∀ key, key ≠ place → (f shelf.objects).versionsOf key = shelf.objects.versionsOf key) :
    (c.mapStore name f).slot bucket key =
      if bucket = name ∧ key = place then
        ⟨(f shelf.objects).versionsOf key, (c.slot bucket key).body⟩
      else c.slot bucket key := by
  have hset : ((c.mapStore name f).setBody (name, place, "null")
      (c.bodies (name, place, "null"))).slot bucket key = _ := slot_mapStore_setBody hshelf hf
  have hsame : (c.mapStore name f).setBody (name, place, "null") (c.bodies (name, place, "null")) =
      c.mapStore name f :=
    Contents.ext rfl rfl (Function.update_eq_self (name, place, "null") c.bodies) rfl
  rw [hsame] at hset
  rw [hset]
  split
  · next h =>
      refine Slot.ext rfl ?_
      rw [h.1, h.2]
      exact Function.update_eq_self "null" (c.slot name place).body
  · rfl

theorem versionsOf_put_of_ne {store : ObjectStore} {object : S3Object} (generated : String)
    (hkey : key ≠ object.key) :
    (store.put object generated).versionsOf key = store.versionsOf key :=
  (store.versionsOf_put object generated key).trans (if_neg hkey)

theorem slot_reinsert {env : S3Env} {name : String} {object : S3Object}
    (hshelf : c.shelves name = some shelf) : (c.reinsert env name object).slot bucket key =
      if bucket = name ∧ key = object.key then
        ⟨(shelf.objects.put object (env.versionIds (c.drawn + 1))).versionsOf key,
          (c.slot bucket key).body⟩
      else c.slot bucket key :=
  slot_mapStore (f := fun store => store.put object _) hshelf
    fun _ hkey => versionsOf_put_of_ne _ hkey

theorem versionsOf_put_versioned {store : ObjectStore} {object : S3Object} (generated : String)
    (hversioned : store.isVersioned = true) : (store.put object generated).versionsOf object.key =
      .object (if object.versionId = "null" then { object with versionId := generated }
        else object) :: store.versionsOf object.key := by
  rw [versionsOf_put, if_pos rfl]
  cases store with
  | unversioned ks => exact absurd hversioned Bool.false_ne_true
  | versioned vs => rfl

theorem versionsOf_put_unversioned {store : ObjectStore} {object : S3Object} (generated : String)
    (hversioned : store.isVersioned = false) :
    (store.put object generated).versionsOf object.key = [.object object] := by
  rw [versionsOf_put, if_pos rfl]
  cases store with
  | unversioned ks => rfl
  | versioned vs => exact absurd hversioned.symm Bool.false_ne_true

theorem slot_write_versioned {env : S3Env} {name : String} {object : S3Object} {stored : StoredData}
    (hshelf : c.shelves name = some shelf) (hversioned : shelf.objects.isVersioned = true)
    (hid : object.versionId ≠ "null") :
    (c.write env name object stored).slot bucket key =
      if bucket = name ∧ key = object.key then (c.slot bucket key).add object stored
      else c.slot bucket key := by
  refine (slot_mapStore_setBody (f := fun store => store.put object _) hshelf
    fun key hkey => versionsOf_put_of_ne _ hkey).trans ?_
  split
  · next h =>
      refine Slot.ext ?_ rfl
      change (shelf.objects.put object _).versionsOf key = .object object :: c.versionsOf bucket key
      rw [versionsOf_of_shelf (h.1 ▸ hshelf), h.2,
        versionsOf_put_versioned _ hversioned, if_neg hid]
  · rfl

theorem slot_write_unversioned {env : S3Env} {name : String} {object : S3Object}
    {stored : StoredData} (hshelf : c.shelves name = some shelf)
    (hversioned : shelf.objects.isVersioned = false) :
    (c.write env name object stored).slot bucket key =
      if bucket = name ∧ key = object.key then (c.slot bucket key).replace object stored
      else c.slot bucket key := by
  refine (slot_mapStore_setBody (f := fun store => store.put object _) hshelf
    fun key hkey => versionsOf_put_of_ne _ hkey).trans ?_
  split
  · next h =>
      refine Slot.ext ?_ rfl
      change (shelf.objects.put object _).versionsOf key = [.object object]
      rw [h.2, versionsOf_put_unversioned _ hversioned]
  · rfl

/-- Without versioning, the object that is found is the one there is. -/
theorem versionsOf_of_lookupSource {store : ObjectStore} {object : S3Object}
    {versionId : Option String} (hversioned : store.isVersioned = false)
    (hobject : lookupSource store key versionId = .ok object) :
    store.versionsOf key = [.object object] := by
  cases store with
  | versioned vs => exact absurd hversioned.symm Bool.false_ne_true
  | unversioned ks =>
      have hget : ks.get key = some object := by
        unfold lookupSource at hobject
        split at hobject
        · next id =>
            split at hobject
            · cases hobject
            · next found hfound =>
                cases hobject
                change (if id = "null" then ks.get key else none) = some object at hfound
                split at hfound
                · exact hfound
                · cases hfound
        · split at hobject
          · cases hobject
          · next found hfound =>
              cases hobject
              exact hfound
      change (ks.get key).toList.map _ = _
      rw [hget]
      rfl

theorem slot_reinsert_unversioned {env : S3Env} {name place : String} {object : S3Object}
    {versionId : Option String} {f : ObjectMetadata → ObjectMetadata}
    (hshelf : c.shelves name = some shelf) (hversioned : shelf.objects.isVersioned = false)
    (hobject : lookupSource shelf.objects place versionId = .ok object) :
    (c.reinsert env name { object with metadata := f object.metadata }).slot bucket key =
      if bucket = name ∧ key = place then (c.slot bucket key).mapAt 0 f
      else c.slot bucket key := by
  have hversions := versionsOf_of_lookupSource hversioned hobject
  have hmem : ObjectVersion.object object ∈ shelf.objects.versionsOf place := by
    rw [hversions]
    exact mem_singleton_self _
  have hplace : object.key = place := key_of_mem_versionsOf hmem
  have hother : ∀ key, key ≠ place →
      (shelf.objects.put { object with metadata := f object.metadata }
        (env.versionIds (c.drawn + 1))).versionsOf key = shelf.objects.versionsOf key :=
    fun key hkey => versionsOf_put_of_ne _ fun h => hkey (h.trans hplace)
  refine (slot_mapStore (f := fun store => store.put _ _) hshelf hother).trans ?_
  split
  · next h =>
      refine Slot.ext ?_ rfl
      change (shelf.objects.put _ _).versionsOf key = (c.versionsOf bucket key).modify 0 _
      rw [versionsOf_of_shelf (h.1 ▸ hshelf), h.2, hversions, ← hplace]
      exact versionsOf_put_unversioned _ hversioned
  · rfl

/-- What a delete of a version does to the versions, and which version it reports. -/
theorem versionsOf_deleteVersion (hnull : shelf.NullIds) (place versionId : String) :
    (shelf.objects.deleteVersion place versionId).1.versionsOf key =
      if key = place then (shelf.objects.versionsOf key).eraseP fun v => v.versionId = versionId
      else shelf.objects.versionsOf key := by
  cases hobjects : shelf.objects with
  | versioned vs => exact vs.versionsOf_deleteVersion place versionId key
  | unversioned ks =>
      have hids : ∀ object, ks.get place = some object → object.versionId = "null" := by
        intro object hobject
        refine hnull (by rw [hobjects]; rfl) place (.object object) ?_
        rw [hobjects]
        exact mem_map_of_mem (Option.mem_toList.mpr hobject)
      change (if versionId = "null" then (unversioned (ks.delete place), _) else
        (unversioned ks, none)).1.versionsOf key = if key = place then
          ((ks.get key).toList.map ObjectVersion.object).eraseP _ else (ks.get key).toList.map _
      by_cases hversion : versionId = "null"
      · rw [if_pos hversion]
        change (KeyStore.get (ks.delete place) key).toList.map _ = _
        rw [KeyStore.get_delete]
        split
        · next heq =>
            rw [heq]
            cases hget : ks.get place with
            | none => rfl
            | some object =>
                refine (eraseP_cons_of_pos ?_).symm
                exact decide_eq_true ((hids object hget).trans hversion.symm)
        · rfl
      · rw [if_neg hversion]
        split
        · next heq =>
            rw [heq]
            refine (eraseP_of_forall_not fun v hv => ?_).symm
            obtain ⟨object, hobject, rfl⟩ := mem_map.mp hv
            intro hid
            have hnullId := hids object (Option.mem_toList.mp hobject)
            exact hversion ((of_decide_eq_true hid).symm.trans hnullId)
        · rfl

theorem deleteVersion_snd (hnull : shelf.NullIds) (place versionId : String) :
    (shelf.objects.deleteVersion place versionId).2 =
      (shelf.objects.versionsOf place).find? fun v => v.versionId = versionId := by
  cases hobjects : shelf.objects with
  | versioned vs => exact vs.deleteVersion_snd place versionId
  | unversioned ks =>
      have hids : ∀ object, ks.get place = some object → object.versionId = "null" := by
        intro object hobject
        refine hnull (by rw [hobjects]; rfl) place (.object object) ?_
        rw [hobjects]
        exact mem_map_of_mem (Option.mem_toList.mpr hobject)
      change (if versionId = "null" then (_, (ks.get place).map ObjectVersion.object) else
        (unversioned ks, none)).2 = ((ks.get place).toList.map _).find? _
      by_cases hversion : versionId = "null"
      · rw [if_pos hversion]
        cases hget : ks.get place with
        | none => rfl
        | some object =>
            refine (find?_cons_of_pos ?_).symm
            exact decide_eq_true ((hids object hget).trans hversion.symm)
      · rw [if_neg hversion]
        refine (find?_eq_none.mpr fun v hv hid => ?_).symm
        obtain ⟨object, hobject, rfl⟩ := mem_map.mp hv
        have hnullId := hids object (Option.mem_toList.mp hobject)
        exact hversion ((of_decide_eq_true hid).symm.trans hnullId)

theorem slot_removeVersion {name : String} (hshelf : c.shelves name = some shelf)
    (hnull : shelf.NullIds) (place versionId : String) :
    (c.removeVersion name place versionId).slot bucket key =
      if bucket = name ∧ key = place then (c.slot bucket key).remove versionId
      else c.slot bucket key := by
  have hother : ∀ key, key ≠ place →
      (shelf.objects.deleteVersion place versionId).1.versionsOf key =
        shelf.objects.versionsOf key :=
    fun key hkey => (versionsOf_deleteVersion hnull place versionId).trans (if_neg hkey)
  have hplace : (shelf.objects.deleteVersion place versionId).1.versionsOf place = _ :=
    versionsOf_deleteVersion hnull place versionId
  rw [if_pos rfl] at hplace
  have hremoved := deleteVersion_snd hnull place versionId
  unfold removeVersion
  rw [hshelf]
  dsimp only
  cases hfind : (shelf.objects.versionsOf place).find? fun v => v.versionId = versionId with
  | none =>
      rw [hremoved, hfind]
      dsimp only
      rw [slot_mapStore hshelf hother]
      split
      · next h =>
          rw [h.1, h.2, hplace]
          have hany : ((c.slot name place).versions.any fun v => v.versionId = versionId) =
              false := by
            change (c.versionsOf name place).any _ = false
            rw [versionsOf_of_shelf hshelf, any_eq_false]
            exact find?_eq_none.mp hfind
          refine Slot.ext ?_ (if_neg (by rw [hany]; exact Bool.false_ne_true)).symm
          exact congrArg (eraseP fun v => v.versionId = versionId)
            (versionsOf_of_shelf hshelf).symm
      · rfl
  | some version =>
      have htest := find?_some hfind
      have hid : version.versionId = versionId := of_decide_eq_true htest
      rw [hremoved, hfind]
      dsimp only
      rw [slot_mapStore_setBody hshelf hother, hid]
      split
      · next h =>
          rw [h.1, h.2, hplace]
          have hany : ((c.slot name place).versions.any fun v => v.versionId = versionId) =
              true := by
            change (c.versionsOf name place).any _ = true
            rw [versionsOf_of_shelf hshelf, any_eq_true]
            exact ⟨version, mem_of_find?_eq_some hfind, decide_eq_true hid⟩
          refine Slot.ext ?_ (if_pos hany).symm
          exact congrArg (eraseP fun v => v.versionId = versionId)
            (versionsOf_of_shelf hshelf).symm
      · rfl

theorem slot_removeLatest_versioned {env : S3Env} {now : DateTime} {name : String}
    (hshelf : c.shelves name = some shelf) (hversioned : shelf.objects.isVersioned = true)
    (place : String) : (c.removeLatest env now name place).slot bucket key =
      if bucket = name ∧ key = place then
        (c.slot bucket key).mark
          { key := place, versionId := env.versionIds c.drawn, lastModified := now,
            owner := .default }
      else c.slot bucket key := by
  unfold removeLatest
  rw [hshelf]
  dsimp only
  rw [if_pos hversioned, slot_draw]
  cases hobjects : shelf.objects with
  | unversioned ks =>
      rw [hobjects] at hversioned
      exact absurd hversioned Bool.false_ne_true
  | versioned vs =>
      have hdelete : ∀ key, (shelf.objects.deleteVersioned place .default (env.versionIds c.drawn)
          now).1.versionsOf key = if key = place then
            .deleteMarker { key := place, versionId := env.versionIds c.drawn,
                            lastModified := now, owner := .default } :: vs.versionsOf key
          else vs.versionsOf key := by
        rw [hobjects]
        exact vs.versionsOf_delete place .default (env.versionIds c.drawn) now
      have hold : ∀ key, shelf.objects.versionsOf key = vs.versionsOf key := by
        rw [hobjects]
        exact fun _ => rfl
      have hother : ∀ key, key ≠ place → (shelf.objects.deleteVersioned place .default
          (env.versionIds c.drawn) now).1.versionsOf key = shelf.objects.versionsOf key :=
        fun key hkey => ((hdelete key).trans (if_neg hkey)).trans (hold key).symm
      rw [slot_mapStore hshelf hother]
      split
      · next h =>
          refine Slot.ext ?_ rfl
          change (shelf.objects.deleteVersioned _ _ _ _).1.versionsOf key = _
          rw [hdelete, if_pos h.2, ← hold]
          exact congrArg (cons _) (versionsOf_of_shelf (h.1 ▸ hshelf)).symm
      · rfl

theorem slot_removeLatest_unversioned {env : S3Env} {now : DateTime} {name : String}
    (hshelf : c.shelves name = some shelf) (hversioned : shelf.objects.isVersioned = false)
    (place : String) : (c.removeLatest env now name place).slot bucket key =
      if bucket = name ∧ key = place then (c.slot bucket key).clear else c.slot bucket key := by
  unfold removeLatest
  rw [hshelf]
  dsimp only
  rw [if_neg (by rw [hversioned]; exact Bool.false_ne_true)]
  cases hobjects : shelf.objects with
  | versioned vs =>
      rw [hobjects] at hversioned
      exact absurd hversioned.symm Bool.false_ne_true
  | unversioned ks =>
      have hdelete : ∀ key, (shelf.objects.deleteVersioned place .default (env.versionIds c.drawn)
          now).1.versionsOf key = if key = place then [] else shelf.objects.versionsOf key := by
        intro key
        rw [hobjects]
        change ((ks.delete place).get key).toList.map _ = _
        rw [KeyStore.get_delete]
        split <;> rfl
      have hother : ∀ key, key ≠ place → (shelf.objects.deleteVersioned place .default
          (env.versionIds c.drawn) now).1.versionsOf key = shelf.objects.versionsOf key :=
        fun key hkey => (hdelete key).trans (if_neg hkey)
      refine (slot_mapStore_setBody
        (f := fun store => (store.deleteVersioned place _ _ now).1) hshelf hother).trans ?_
      split
      · next h =>
          rw [hdelete, if_pos h.2]
          rfl
      · rfl

/-- The place of the version a change is asked for. -/
def placeOf (versions : List ObjectVersion) (versionId : Option String) : ℕ :=
  match versionId with
  | some id => versions.findIdx fun v => v.versionId = id
  | none => 0

theorem modify_findIdx? (versions : List ObjectVersion) (id : String)
    (f : ObjectVersion → ObjectVersion) :
    (match versions.findIdx? fun v => v.versionId = id with
      | none => versions
      | some idx => versions.modify idx f) = versions.modify (placeOf versions (some id)) f := by
  cases hidx : versions.findIdx? fun v => v.versionId = id with
  | none =>
      rw [findIdx?_eq_none_iff_findIdx_eq] at hidx
      rw [placeOf, hidx]
      exact (modify_eq_self le_rfl).symm
  | some idx =>
      rw [findIdx?_eq_some_iff_findIdx_eq] at hidx
      rw [placeOf, hidx.2]

theorem versionsOf_updateMetadata (ks : KeyStore) (place : String)
    (f : ObjectMetadata → ObjectMetadata) :
    (unversioned (ks.updateMetadata place f)).versionsOf key =
      if key = place then ((unversioned ks).versionsOf key).modify 0 (·.mapMetadata f)
      else (unversioned ks).versionsOf key := by
  change ((ks.updateMetadata place f).get key).toList.map _ = if _ then
    ((ks.get key).toList.map ObjectVersion.object).modify 0 _ else (ks.get key).toList.map _
  rw [KeyStore.get_updateMetadata]
  split
  · cases ks.get key <;> rfl
  · rfl

/-- A change in place of the version asked for, or of the first. -/
theorem versionsOf_update (hnull : shelf.NullIds) (place : String) (versionId : Option String)
    (f : ObjectMetadata → ObjectMetadata) :
    ObjectStore.versionsOf (match versionId with
        | some id => shelf.objects.updateVersionMetadata place id f
        | none => shelf.objects.updateMetadata place f) key =
      if key = place then
        (shelf.objects.versionsOf key).modify (placeOf (shelf.objects.versionsOf key) versionId)
          (·.mapMetadata f)
      else shelf.objects.versionsOf key := by
  cases hobjects : shelf.objects with
  | versioned vs =>
      cases versionId with
      | none => exact vs.versionsOf_updateAt place 0 f key
      | some id =>
          refine (vs.versionsOf_updateVersionMetadata place id f key).trans ?_
          exact if_congr Iff.rfl (modify_findIdx? _ id _) rfl
  | unversioned ks =>
      cases versionId with
      | none => exact versionsOf_updateMetadata ks place f
      | some id =>
          have hids : ∀ v ∈ (ObjectStore.unversioned ks).versionsOf key, v.versionId = "null" := by
            rw [← hobjects]
            exact hnull (by rw [hobjects]; rfl) key
          change (if id = "null" then ObjectStore.unversioned (ks.updateMetadata place f) else
            ObjectStore.unversioned ks).versionsOf key = _
          by_cases hid : id = "null"
          · rw [if_pos hid, versionsOf_updateMetadata]
            refine if_congr Iff.rfl ?_ rfl
            cases hversions : (unversioned ks).versionsOf key with
            | nil => rfl
            | cons v vs =>
                have hv : v.versionId = id :=
                  (hids v (hversions ▸ mem_cons_self)).trans hid.symm
                rw [placeOf, findIdx_cons, decide_eq_true hv]
                rfl
          · rw [if_neg hid]
            have hnone : (unversioned ks).versionsOf key =
                ((unversioned ks).versionsOf key).modify
                  (placeOf ((unversioned ks).versionsOf key) (some id))
                  (·.mapMetadata f) := by
              rw [← modify_findIdx?]
              have hnotFound : ((unversioned ks).versionsOf key).findIdx?
                  (fun v => v.versionId = id) = none := by
                rw [findIdx?_eq_none_iff]
                exact fun v hv => decide_eq_false fun h => hid (h.symm.trans (hids v hv))
              rw [hnotFound]
            rw [← hnone, ite_self]

theorem slot_update {name : String} (hshelf : c.shelves name = some shelf)
    (hnull : shelf.NullIds) (place : String) (versionId : Option String)
    (f : ObjectMetadata → ObjectMetadata) :
    (c.update name place versionId f).slot bucket key =
      if bucket = name ∧ key = place then
        (c.slot bucket key).mapAt (placeOf (c.slot bucket key).versions versionId) f
      else c.slot bucket key := by
  refine (slot_mapStore hshelf fun key hkey =>
    (versionsOf_update hnull place versionId f).trans (if_neg hkey)).trans ?_
  split
  · next h =>
      refine Slot.ext ?_ rfl
      change _ = (c.versionsOf bucket key).modify (placeOf (c.versionsOf bucket key) versionId) _
      rw [versionsOf_of_shelf (h.1 ▸ hshelf)]
      exact (versionsOf_update hnull place versionId f).trans (if_pos h.2)
  · rfl

end Contents

end Rustack.S3
