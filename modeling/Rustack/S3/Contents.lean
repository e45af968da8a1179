import Rustack.S3.DeleteBucket
import Rustack.S3.VersionLists

/-!
# What a call does to versions and bodies

The versions and the bodies are two maps that the calls change in few ways.
Every call is one of these changes, or none: this is proved once here and used
for every invariant of versions and bodies.
-/

namespace Rustack.S3

/-- What counts of a bucket here. -/
structure Shelf where
  versioning : VersioningStatus
  objects : ObjectStore

namespace Shelf

def enable (shelf : Shelf) : Shelf :=
  if shelf.versioning ≠ .enabled then ⟨.enabled, shelf.objects.transitionToVersioned⟩ else shelf

def suspend (shelf : Shelf) : Shelf :=
  if shelf.versioning = .enabled then ⟨.suspended, shelf.objects⟩ else shelf

/-- The id under which a new body goes. -/
def newId (env : S3Env) (drawn : ℕ) (shelf : Shelf) : String :=
  if shelf.versioning = .enabled then env.versionIds drawn else "null"

end Shelf

def S3Bucket.shelf (bucket : S3Bucket) : Shelf := ⟨bucket.versioning, bucket.objects⟩

theorem S3Bucket.shelf_enableVersioning (bucket : S3Bucket) :
    bucket.enableVersioning.shelf = bucket.shelf.enable := by
  unfold enableVersioning Shelf.enable
  split
  · exact (if_pos (by assumption)).symm
  · exact (if_neg (by assumption)).symm

theorem S3Bucket.shelf_suspendVersioning (bucket : S3Bucket) :
    bucket.suspendVersioning.shelf = bucket.shelf.suspend := by
  unfold suspendVersioning Shelf.suspend
  split
  · exact (if_pos (by assumption)).symm
  · exact (if_neg (by assumption)).symm

/-- The versions, the bodies, the owners of bucket names and the ids drawn. -/
@[ext] structure Contents where
  shelves : String → Option Shelf
  owners : String → Option String
  bodies : String × String × String → Option StoredData
  drawn : ℕ

namespace Contents

variable (c : Contents)

def versionsOf (bucket key : String) : List ObjectVersion :=
  ((c.shelves bucket).map fun shelf => shelf.objects.versionsOf key).getD []

def setShelf (name : String) (shelf : Option Shelf) : Contents :=
  { c with shelves := Function.update c.shelves name shelf }

def mapShelf (name : String) (f : Shelf → Shelf) : Contents :=
  c.setShelf name ((c.shelves name).map f)

def mapStore (name : String) (f : ObjectStore → ObjectStore) : Contents :=
  c.mapShelf name fun shelf => { shelf with objects := f shelf.objects }

def setBody (place : String × String × String) (body : Option StoredData) : Contents :=
  { c with bodies := Function.update c.bodies place body }

def draw (n : ℕ) : Contents := { c with drawn := c.drawn + n }

/-- A bucket that did not exist. -/
def create (name : String) (shelf : Shelf) : Contents :=
  { c.setShelf name (some shelf) with
    owners := Function.update c.owners name (some Owner.default.id) }

def dropBodies (name : String) : Contents :=
  { c with bodies := fun place => if place.1 = name then none else c.bodies place }

/-- A bucket that goes, with its bodies. -/
def destroy (name : String) : Contents :=
  { (c.dropBodies name).setShelf name none with owners := Function.update c.owners name none }

/-- An object given to the store, without a body. -/
def reinsert (env : S3Env) (bucket : String) (object : S3Object) : Contents :=
  (c.mapStore bucket fun store => store.put object (env.versionIds (c.drawn + 1))).draw 2

/-- An object given to the store, with a body under the id it came with. -/
def write (env : S3Env) (bucket : String) (object : S3Object) (body : StoredData) : Contents :=
  (c.setBody (bucket, object.key, object.versionId) (some body)).reinsert env bucket object

def removeVersion (bucket key versionId : String) : Contents :=
  match c.shelves bucket with
  | none => c
  | some shelf =>
    let store := c.mapStore bucket fun store => (store.deleteVersion key versionId).1
    match (shelf.objects.deleteVersion key versionId).2 with
    | none => store
    | some version => store.setBody (bucket, key, version.versionId) none

def removeLatest (env : S3Env) (now : DateTime) (bucket key : String) : Contents :=
  match c.shelves bucket with
  | none => c
  | some shelf =>
    let store := (c.mapStore bucket fun store =>
      (store.deleteVersioned key .default (env.versionIds c.drawn) now).1).draw 1
    if shelf.objects.isVersioned then store else store.setBody (bucket, key, "null") none

def update (bucket key : String) (versionId : Option String)
    (f : ObjectMetadata → ObjectMetadata) : Contents :=
  c.mapStore bucket fun store => match versionId with
    | some id => store.updateVersionMetadata key id f
    | none => store.updateMetadata key f

end Contents

namespace RustackS3

def contents (s : RustackS3) : Contents where
  shelves := fun name => (s.state.buckets.lookup name).map S3Bucket.shelf
  owners := fun name => s.state.globalBucketOwner.lookup name
  bodies := fun place => s.storage.objects.lookup place
  drawn := s.drawn

variable {s : RustackS3}

theorem contents_modifyBucket {f : S3Bucket → S3Bucket} {g : Shelf → Shelf}
    (h : ∀ bucket, (f bucket).shelf = g bucket.shelf) (s : RustackS3) (name : String) :
    (s.modifyBucket name f).contents = s.contents.mapShelf name g := by
  refine Contents.ext (funext fun name' => ?_) ?_ rfl rfl
  · change Option.map S3Bucket.shelf ((s.state.modifyBucket name f).buckets.lookup name') =
      Function.update s.contents.shelves name ((s.contents.shelves name).map g) name'
    rw [S3ServiceState.lookup_modifyBucket, Function.update_apply]
    split
    · next heq =>
        rw [heq]
        change _ = Option.map g (Option.map S3Bucket.shelf _)
        rw [Option.map_map, Option.map_map]
        exact congrArg (Option.map · _) (funext h)
    · rfl
  · funext name'
    change (s.state.modifyBucket name f).globalBucketOwner.lookup name' = _
    unfold S3ServiceState.modifyBucket
    split <;> rfl

theorem Contents.mapShelf_id (c : Contents) (name : String) : c.mapShelf name id = c := by
  refine Contents.ext ?_ rfl rfl rfl
  change Function.update c.shelves name ((c.shelves name).map id) = c.shelves
  rw [Option.map_id, id, Function.update_eq_self]

/-- Changes of a bucket that leave its versioning and its objects alone. -/
theorem contents_modifyBucket_of_same {f : S3Bucket → S3Bucket}
    (h : ∀ bucket, (f bucket).shelf = bucket.shelf) (s : RustackS3) (name : String) :
    (s.modifyBucket name f).contents = s.contents :=
  (contents_modifyBucket h s name).trans (Contents.mapShelf_id _ name)

end RustackS3

end Rustack.S3
