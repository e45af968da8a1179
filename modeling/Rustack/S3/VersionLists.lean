import Rustack.S3.Keystore

/-!
# The versions of a key

What every operation of a store does to the list of versions of a key, the
newest first; an object without versions counts as a list of one.
-/

namespace Rustack.S3

open SortedMap

theorem compare_eq_iff {key key' : String} : compare key key' = .eq ↔ key = key' :=
  Std.LawfulEqCmp.compare_eq_iff_eq

namespace KeyStore

@[simp] theorem get_put (ks : KeyStore) (object : S3Object) (key : String) :
    (ks.put object).get key = if key = object.key then some object else ks.get key := by
  rw [get, put, get?_insert]
  simp only [compare_eq_iff, eq_comm (a := object.key)]
  rfl

@[simp] theorem get_delete (ks : KeyStore) (key key' : String) :
    (ks.delete key).get key' = if key' = key then none else ks.get key' := by
  rw [get, delete, get?_erase]
  simp only [compare_eq_iff, eq_comm (a := key)]
  rfl

theorem key_of_get {ks : KeyStore} {key : String} {object : S3Object}
    (h : ks.get key = some object) : object.key = key :=
  ks.keyed _ ((mem_entries_iff _).mpr h)

theorem get_updateMetadata (ks : KeyStore) (key key' : String)
    (f : ObjectMetadata → ObjectMetadata) : (ks.updateMetadata key f).get key' =
      if key' = key then (ks.get key').map fun obj => { obj with metadata := f obj.metadata }
      else ks.get key' := by
  unfold updateMetadata
  split
  · next hnone =>
      split
      · next heq => rw [heq, hnone]; rfl
      · rfl
  · next obj hobj =>
      have hkey : obj.key = key := key_of_get hobj
      rw [get_put]
      by_cases heq : key' = key
      · rw [if_pos (heq.trans hkey.symm), if_pos heq, heq, hobj]
        rfl
      · rw [if_neg fun h => heq (h.trans hkey), if_neg heq]

end KeyStore

namespace VersionedKeyStore

theorem versionsOf_insert {vs : VersionedKeyStore} {key : String} {versions : List ObjectVersion}
    (hkeyed) (key' : String) :
    (VersionedKeyStore.mk (vs.objects.insert key versions) hkeyed).versionsOf key' =
      if key' = key then versions else vs.versionsOf key' := by
  rw [versionsOf, get?_insert]
  simp only [compare_eq_iff]
  by_cases h : key = key'
  · rw [if_pos h, if_pos h.symm]
    rfl
  · rw [if_neg h, if_neg (Ne.symm h)]
    rfl

@[simp] theorem versionsOf_prepend (vs : VersionedKeyStore) (version : ObjectVersion)
    (key : String) : (vs.prepend version).versionsOf key =
      if key = version.key then version :: vs.versionsOf key else vs.versionsOf key := by
  rw [prepend, versionsOf_insert]
  split
  · next h => rw [h]
  · rfl

@[simp] theorem versionsOf_setVersions (vs : VersionedKeyStore) (key : String)
    (versions : List ObjectVersion) (hkey : ∀ v ∈ versions, v.key = key) (key' : String) :
    (vs.setVersions key versions hkey).versionsOf key' =
      if key' = key then versions else vs.versionsOf key' := by
  unfold setVersions
  split
  · next hnil =>
      rw [versionsOf, get?_erase]
      simp only [compare_eq_iff]
      by_cases h : key = key'
      · rw [if_pos h, if_pos h.symm, hnil]
        rfl
      · rw [if_neg h, if_neg (Ne.symm h)]
        rfl
  · exact versionsOf_insert _ key'

theorem versionsOf_put (vs : VersionedKeyStore) (object : S3Object) (generated key : String) :
    (vs.put object generated).versionsOf key =
      if key = object.key then
        .object (if object.versionId = "null" then { object with versionId := generated }
          else object) :: vs.versionsOf key
      else vs.versionsOf key := by
  have hkey : (ObjectVersion.object (if object.versionId = "null" then
      { object with versionId := generated } else object)).key = object.key := by
    split <;> rfl
  rw [put, versionsOf_prepend, hkey]

theorem versionsOf_delete (vs : VersionedKeyStore) (key : String) (owner : Owner)
    (generated : String) (now : DateTime) (key' : String) :
    (vs.delete key owner generated now).1.versionsOf key' =
      if key' = key then
        .deleteMarker { key, versionId := generated, lastModified := now, owner } ::
          vs.versionsOf key'
      else vs.versionsOf key' :=
  versionsOf_prepend vs _ key'

/-- The first version with the id goes. -/
theorem versionsOf_deleteVersion (vs : VersionedKeyStore) (key versionId key' : String) :
    (vs.deleteVersion key versionId).1.versionsOf key' =
      if key' = key then (vs.versionsOf key').eraseP fun v => v.versionId = versionId
      else vs.versionsOf key' := by
  have herase : (vs.versionsOf key).eraseP (fun v => v.versionId = versionId) = _ :=
    List.eraseP_eq_eraseIdx
  simp only [deleteVersion]
  cases hidx : (vs.versionsOf key).findIdx? fun v => v.versionId = versionId with
  | none =>
      rw [hidx] at herase
      change vs.versionsOf key' = _
      split
      · next heq => rw [heq, herase]
      · rfl
  | some idx =>
      rw [hidx] at herase
      have hset := versionsOf_setVersions vs key ((vs.versionsOf key).eraseIdx idx)
        (fun _ hv => vs.key_eq_of_mem_versionsOf (List.mem_of_mem_eraseIdx hv)) key'
      refine hset.trans ?_
      split
      · next heq => rw [heq, herase]
      · rfl

theorem deleteVersion_snd (vs : VersionedKeyStore) (key versionId : String) :
    (vs.deleteVersion key versionId).2 =
      (vs.versionsOf key).find? fun v => v.versionId = versionId := by
  rw [List.find?_eq_bind_findIdx?_getElem?]
  simp only [deleteVersion]
  cases (vs.versionsOf key).findIdx? fun v => v.versionId = versionId with
  | none => rfl
  | some idx => rfl

theorem versionsOf_updateAt (vs : VersionedKeyStore) (key : String) (idx : ℕ)
    (f : ObjectMetadata → ObjectMetadata) (key' : String) :
    (vs.updateAt key idx f).versionsOf key' =
      if key' = key then (vs.versionsOf key').modify idx (·.mapMetadata f)
      else vs.versionsOf key' := by
  rw [updateAt, versionsOf_setVersions]
  split
  · next heq => rw [heq]
  · rfl

theorem versionsOf_updateVersionMetadata (vs : VersionedKeyStore) (key versionId : String)
    (f : ObjectMetadata → ObjectMetadata) (key' : String) :
    (vs.updateVersionMetadata key versionId f).versionsOf key' =
      if key' = key then
        match (vs.versionsOf key').findIdx? fun v => v.versionId = versionId with
        | none => vs.versionsOf key'
        | some idx => (vs.versionsOf key').modify idx (·.mapMetadata f)
      else vs.versionsOf key' := by
  unfold updateVersionMetadata
  by_cases heq : key' = key
  · rw [if_pos heq, heq]
    cases (vs.versionsOf key).findIdx? fun v => v.versionId = versionId with
    | none => rfl
    | some idx => exact (versionsOf_updateAt vs key idx f key).trans (if_pos rfl)
  · rw [if_neg heq]
    cases (vs.versionsOf key).findIdx? fun v => v.versionId = versionId with
    | none => rfl
    | some idx => exact (versionsOf_updateAt vs key idx f key').trans (if_neg heq)

theorem isEmpty_iff {vs : VersionedKeyStore} :
    vs.isEmpty = true ↔ ∀ key, vs.versionsOf key = [] := by
  rw [isEmpty, List.isEmpty_iff]
  constructor
  · intro h key
    rw [versionsOf, get?, h]
    rfl
  · intro h
    refine List.eq_nil_iff_forall_not_mem.mpr fun e he => ?_
    have hkey := h e.1
    rw [versionsOf, get?_of_mem _ he] at hkey
    exact (vs.keyed e he).1 hkey

end VersionedKeyStore

/-! ## Either kind of store -/

namespace ObjectStore

/-- The versions of a key; without versioning, its object. -/
def versionsOf (store : ObjectStore) (key : String) : List ObjectVersion :=
  match store with
  | .unversioned ks => (ks.get key).toList.map .object
  | .versioned vs => vs.versionsOf key

theorem key_of_mem_versionsOf {store : ObjectStore} {key : String} {v : ObjectVersion}
    (hv : v ∈ store.versionsOf key) : v.key = key := by
  cases store with
  | unversioned ks =>
      obtain ⟨object, hobject, rfl⟩ := List.mem_map.mp hv
      exact KeyStore.key_of_get (Option.mem_toList.mp hobject)
  | versioned vs => exact vs.key_eq_of_mem_versionsOf hv

theorem versionsOf_transitionToVersioned (store : ObjectStore) (key : String) :
    store.transitionToVersioned.versionsOf key = store.versionsOf key := by
  cases store with
  | versioned vs => rfl
  | unversioned ks =>
      change ((get? (mk (ks.objects.entries.map fun e =>
        (e.1, [ObjectVersion.object e.2])) _) key).getD []) = ((ks.objects.get? key).toList.map _)
      rw [get?, get?, List.find?_map]
      change Option.getD (Option.map _ (Option.map _
        (List.find? (fun e => compare e.1 key == .eq) ks.objects.entries))) [] = _
      cases List.find? (fun e => compare e.1 key == .eq) ks.objects.entries with
      | none => rfl
      | some e => rfl

theorem isVersioned_transitionToVersioned (store : ObjectStore) :
    store.transitionToVersioned.isVersioned = true := by
  cases store <;> rfl

/-- Where there are versions a put adds one, with a generated id for a null one. -/
theorem versionsOf_put (store : ObjectStore) (object : S3Object) (generated key : String) :
    (store.put object generated).versionsOf key =
      if key = object.key then
        match store with
        | .unversioned _ => [.object object]
        | .versioned _ => .object (if object.versionId = "null" then
            { object with versionId := generated } else object) :: store.versionsOf key
      else store.versionsOf key := by
  cases store with
  | versioned vs => exact vs.versionsOf_put object generated key
  | unversioned ks =>
      change ((ks.put object).get key).toList.map _ = _
      rw [KeyStore.get_put]
      split <;> rfl

@[simp] theorem isVersioned_put (store : ObjectStore) (object : S3Object) (generated : String) :
    (store.put object generated).isVersioned = store.isVersioned := by
  cases store <;> rfl

end ObjectStore

end Rustack.S3
