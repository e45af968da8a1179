import Rustack.Lib.SortedMap
import Rustack.S3.Object

/-!
# Stores of objects by key

A bucket keeps its objects sorted by key.  Without versioning a key has one
object, with it a nonempty list of versions, the newest first.  Every object
knows the key it is stored under.  A version id that the code draws at random is
an argument here.
-/

namespace Rustack.S3

structure KeyStore where
  objects : SortedMap String S3Object compare
  keyed : ∀ e ∈ objects.entries, e.2.key = e.1

structure VersionedKeyStore where
  objects : SortedMap String (List ObjectVersion) compare
  keyed : ∀ e ∈ objects.entries, e.2 ≠ [] ∧ ∀ v ∈ e.2, v.key = e.1

inductive ObjectStore where
  | unversioned (store : KeyStore)
  | versioned (store : VersionedKeyStore)

namespace KeyStore

def empty : KeyStore := ⟨.empty, fun _ he => absurd he List.not_mem_nil⟩

def get (ks : KeyStore) (key : String) : Option S3Object := ks.objects.get? key

theorem keyed_insert (ks : KeyStore) (object : S3Object) :
    ∀ e ∈ (ks.objects.insert object.key object).entries, e.2.key = e.1 := by
  intro e he
  rcases SortedMap.mem_insertEntry he with ⟨hvalue, hkey⟩ | he
  · rcases hkey with hkey | hkey
    · rw [hvalue, hkey]
    · rw [hvalue, Std.LawfulEqCmp.eq_of_compare hkey]
  · exact ks.keyed e he

def put (ks : KeyStore) (object : S3Object) : KeyStore :=
  ⟨ks.objects.insert object.key object, ks.keyed_insert object⟩

def delete (ks : KeyStore) (key : String) : KeyStore :=
  ⟨ks.objects.erase key, fun e he => ks.keyed e (List.mem_filter.mp he).1⟩

def isEmpty (ks : KeyStore) : Bool := ks.objects.entries.isEmpty

end KeyStore

namespace VersionedKeyStore

def empty : VersionedKeyStore := ⟨.empty, fun _ he => absurd he List.not_mem_nil⟩

def versionsOf (vs : VersionedKeyStore) (key : String) : List ObjectVersion :=
  (vs.objects.get? key).getD []

theorem key_eq_of_mem_versionsOf (vs : VersionedKeyStore) {key : String} {v : ObjectVersion}
    (hv : v ∈ vs.versionsOf key) : v.key = key := by
  unfold versionsOf SortedMap.get? at hv
  cases hfind : vs.objects.entries.find? fun e => compare e.1 key == .eq with
  | none =>
      rw [hfind] at hv
      exact absurd hv List.not_mem_nil
  | some e =>
      rw [hfind] at hv
      have hkey : e.1 = key := by
        have htest := List.find?_some hfind
        exact Std.LawfulEqCmp.eq_of_compare (beq_iff_eq.mp htest)
      rw [← hkey]
      exact (vs.keyed e (List.mem_of_find?_eq_some hfind)).2 v hv

theorem keyed_insert (vs : VersionedKeyStore) {key : String} {versions : List ObjectVersion}
    (hne : versions ≠ []) (hkey : ∀ v ∈ versions, v.key = key) :
    ∀ e ∈ (vs.objects.insert key versions).entries, e.2 ≠ [] ∧ ∀ v ∈ e.2, v.key = e.1 := by
  intro e he
  rcases SortedMap.mem_insertEntry he with ⟨hvalue, heq⟩ | he
  · have hkeys : key = e.1 := by
      rcases heq with heq | heq
      · exact heq.symm
      · exact Std.LawfulEqCmp.eq_of_compare heq
    rw [hvalue, ← hkeys]
    exact ⟨hne, hkey⟩
  · exact vs.keyed e he

/-- Put a version in front of the ones of its key. -/
def prepend (vs : VersionedKeyStore) (version : ObjectVersion) : VersionedKeyStore :=
  ⟨vs.objects.insert version.key (version :: vs.versionsOf version.key),
    vs.keyed_insert (List.cons_ne_nil _ _) (List.forall_mem_cons.mpr
      ⟨rfl, fun _ hv => vs.key_eq_of_mem_versionsOf hv⟩)⟩

def put (vs : VersionedKeyStore) (object : S3Object) (generated : String) : VersionedKeyStore :=
  vs.prepend (.object
    (if object.versionId = "null" then { object with versionId := generated } else object))

def get (vs : VersionedKeyStore) (key : String) : Option S3Object :=
  (vs.versionsOf key).head?.bind ObjectVersion.asObject

def getVersion (vs : VersionedKeyStore) (key versionId : String) : Option S3Object :=
  ((vs.versionsOf key).find? fun v => v.versionId = versionId).bind ObjectVersion.asObject

/-- Put a delete marker on a key. -/
def delete (vs : VersionedKeyStore) (key : String) (owner : Owner) (generated : String)
    (now : DateTime) : VersionedKeyStore × (Option String × Bool) :=
  let hadObject := (vs.versionsOf key).any fun v => v.asObject.isSome
  let marker : S3DeleteMarker := { key, versionId := generated, lastModified := now, owner }
  (vs.prepend (.deleteMarker marker), (some generated, hadObject))

/-- Replace the versions of a key; a key without versions goes. -/
def setVersions (vs : VersionedKeyStore) (key : String) (versions : List ObjectVersion)
    (hkey : ∀ v ∈ versions, v.key = key) : VersionedKeyStore :=
  if h : versions = [] then
    ⟨vs.objects.erase key, fun e he => vs.keyed e (List.mem_filter.mp he).1⟩
  else ⟨vs.objects.insert key versions, vs.keyed_insert h hkey⟩

def deleteVersion (vs : VersionedKeyStore) (key versionId : String) :
    VersionedKeyStore × Option ObjectVersion :=
  let versions := vs.versionsOf key
  match versions.findIdx? fun v => v.versionId = versionId with
  | none => (vs, none)
  | some idx =>
    (vs.setVersions key (versions.eraseIdx idx) fun _ hv =>
      vs.key_eq_of_mem_versionsOf (List.mem_of_mem_eraseIdx hv), versions[idx]?)

def isEmpty (vs : VersionedKeyStore) : Bool := vs.objects.entries.isEmpty

end VersionedKeyStore

/-! ## Changes in place -/

/-- Change the metadata of an object; a delete marker has none. -/
def ObjectVersion.mapMetadata (f : ObjectMetadata → ObjectMetadata) : ObjectVersion → ObjectVersion
  | object obj => object { obj with metadata := f obj.metadata }
  | deleteMarker dm => deleteMarker dm

@[simp] theorem ObjectVersion.key_mapMetadata (f : ObjectMetadata → ObjectMetadata)
    (v : ObjectVersion) : (v.mapMetadata f).key = v.key := by
  cases v <;> rfl

@[simp] theorem ObjectVersion.versionId_mapMetadata (f : ObjectMetadata → ObjectMetadata)
    (v : ObjectVersion) : (v.mapMetadata f).versionId = v.versionId := by
  cases v <;> rfl

def KeyStore.updateMetadata (ks : KeyStore) (key : String) (f : ObjectMetadata → ObjectMetadata) :
    KeyStore :=
  match ks.get key with
  | none => ks
  | some obj => ks.put { obj with metadata := f obj.metadata }

namespace VersionedKeyStore

/-- Change the metadata of the version at a place in the list of its key. -/
def updateAt (vs : VersionedKeyStore) (key : String) (idx : ℕ)
    (f : ObjectMetadata → ObjectMetadata) : VersionedKeyStore :=
  vs.setVersions key ((vs.versionsOf key).modify idx (·.mapMetadata f)) fun v hv => by
    rw [List.mem_iff_getElem?] at hv
    obtain ⟨i, hi⟩ := hv
    rw [List.getElem?_modify] at hi
    obtain ⟨w, hw, rfl⟩ := Option.map_eq_some_iff.mp hi
    have hkey := vs.key_eq_of_mem_versionsOf (List.mem_of_getElem? hw)
    split <;> simpa using hkey

def updateMetadata (vs : VersionedKeyStore) (key : String) (f : ObjectMetadata → ObjectMetadata) :
    VersionedKeyStore :=
  vs.updateAt key 0 f

def updateVersionMetadata (vs : VersionedKeyStore) (key versionId : String)
    (f : ObjectMetadata → ObjectMetadata) : VersionedKeyStore :=
  match (vs.versionsOf key).findIdx? fun v => v.versionId = versionId with
  | none => vs
  | some idx => vs.updateAt key idx f

end VersionedKeyStore

/-! ## Either kind of store -/

namespace ObjectStore

def default : ObjectStore := .unversioned .empty

/-- The delete marker that is the current version, or the one asked for. -/
def deleteMarker (store : ObjectStore) (key : String) (versionId : Option String) :
    Option S3DeleteMarker :=
  match store with
  | .unversioned _ => none
  | .versioned vs =>
    let version : Option ObjectVersion := match versionId with
      | some id => (vs.versionsOf key).find? fun v => v.versionId = id
      | none => (vs.versionsOf key).head?
    match version with
    | some (.deleteMarker marker) => some marker
    | _ => none

def put (store : ObjectStore) (object : S3Object) (generated : String) : ObjectStore :=
  match store with
  | .unversioned ks => .unversioned (ks.put object)
  | .versioned vs => .versioned (vs.put object generated)

def get (store : ObjectStore) (key : String) : Option S3Object :=
  match store with
  | .unversioned ks => ks.get key
  | .versioned vs => vs.get key

def getVersion (store : ObjectStore) (key versionId : String) : Option S3Object :=
  match store with
  | .unversioned ks => if versionId = "null" then ks.get key else none
  | .versioned vs => vs.getVersion key versionId

def updateMetadata (store : ObjectStore) (key : String) (f : ObjectMetadata → ObjectMetadata) :
    ObjectStore :=
  match store with
  | .unversioned ks => .unversioned (ks.updateMetadata key f)
  | .versioned vs => .versioned (vs.updateMetadata key f)

def updateVersionMetadata (store : ObjectStore) (key versionId : String)
    (f : ObjectMetadata → ObjectMetadata) : ObjectStore :=
  match store with
  | .unversioned ks =>
    if versionId = "null" then .unversioned (ks.updateMetadata key f) else store
  | .versioned vs => .versioned (vs.updateVersionMetadata key versionId f)

def deleteVersioned (store : ObjectStore) (key : String) (owner : Owner) (generated : String)
    (now : DateTime) : ObjectStore × (Option String × Bool) :=
  match store with
  | .unversioned ks => (.unversioned (ks.delete key), (none, (ks.get key).isSome))
  | .versioned vs => ((vs.delete key owner generated now).map .versioned id)

def deleteVersion (store : ObjectStore) (key versionId : String) :
    ObjectStore × Option ObjectVersion :=
  match store with
  | .unversioned ks =>
    if versionId = "null" then (.unversioned (ks.delete key), (ks.get key).map .object)
    else (store, none)
  | .versioned vs => ((vs.deleteVersion key versionId).map .versioned id)

def isEmpty (store : ObjectStore) : Bool :=
  match store with
  | .unversioned ks => ks.isEmpty
  | .versioned vs => vs.isEmpty

def isVersioned (store : ObjectStore) : Bool :=
  match store with
  | .unversioned _ => false
  | .versioned _ => true

def transitionToVersioned (store : ObjectStore) : ObjectStore :=
  match store with
  | .unversioned ks => .versioned
    { objects := {
        entries := ks.objects.entries.map fun e => (e.1, [.object e.2])
        sorted := List.pairwise_map.mpr ks.objects.sorted }
      keyed := fun e he => by
        obtain ⟨x, hx, rfl⟩ := List.mem_map.mp he
        refine ⟨List.cons_ne_nil _ _, fun v hv => ?_⟩
        rw [List.mem_singleton.mp hv]
        exact ks.keyed x hx }
  | .versioned _ => store

end ObjectStore

end Rustack.S3
