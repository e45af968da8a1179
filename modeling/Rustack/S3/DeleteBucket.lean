import Rustack.S3.Run

/-!
# Deleting a bucket

Deleting a bucket that may go leaves nothing under its name.  Deleting one that
may not go still drops its bodies, its parts and its indexed rules, so a refusal
changes nothing only where there is nothing to drop.
-/

namespace Rustack.S3

namespace RustackS3

/-- Nothing is stored outside the bucket under its name. -/
structure NothingStored (s : RustackS3) (name : String) : Prop where
  bodies : ∀ key versionId, s.storage.objects.lookup (name, key, versionId) = none
  parts : ∀ uploadId partNumber, s.storage.parts.lookup (name, uploadId, partNumber) = none
  rules : s.corsIndex.lookup name = none

/-- What remains of a deleted bucket, and what a new one of the name starts with. -/
structure Removed (env : S3Env) (s : RustackS3) (name : String) : Prop where
  nothingStored : s.NothingStored name
  noBucket : s.state.buckets.lookup name = none
  recreated : ∀ now input out, input.bucket = name →
    (handleCreateBucket env now s input).2 = .ok out →
    (handleCreateBucket env now s input).1.NothingStored name ∧
    ∃ bucket, (handleCreateBucket env now s input).1.state.buckets.lookup name = some bucket ∧
      bucket.isEmpty = true ∧ bucket.corsRules = none

/-- A refusal changes nothing and a success leaves nothing. -/
def DeleteBucketContract (env : S3Env) (s : RustackS3) (name : String) : Prop :=
  (∀ e, (s.handleDeleteBucket name).2 = .error e → (s.handleDeleteBucket name).1 = s) ∧
    ((s.handleDeleteBucket name).2 = .ok () → (s.handleDeleteBucket name).1.Removed env name)

/-! ## What the call does -/

/-- The service without the rules and the data of a bucket. -/
def dropData (s : RustackS3) (name : String) : RustackS3 :=
  { s with
    corsIndex := s.corsIndex.erase name
    storage := s.storage.deleteBucketData name }

theorem dropData_nothingStored (s : RustackS3) (name : String) :
    (s.dropData name).NothingStored name := by
  constructor
  · intro key versionId
    refine (AList.lookup_retain _ _ _).trans (if_neg ?_)
    rw [bne_self_eq_false]
    exact Bool.false_ne_true
  · intro uploadId partNumber
    refine (AList.lookup_retain _ _ _).trans (if_neg ?_)
    rw [bne_self_eq_false]
    exact Bool.false_ne_true
  · exact AList.lookup_erase name s.corsIndex

theorem dropData_eq_self_iff {s : RustackS3} {name : String} :
    s.dropData name = s ↔ s.NothingStored name := by
  constructor
  · intro h
    rw [← h]
    exact s.dropData_nothingStored name
  · rintro ⟨hbodies, hparts, hrules⟩
    have herase : s.corsIndex.erase name = s.corsIndex := AList.erase_eq_self_iff.mpr hrules
    have hobjects : s.storage.objects.retain (fun k => k.1 != name) = s.storage.objects := by
      refine AList.retain_eq_self_iff.mpr fun k hk => ?_
      rw [← bne_eq_false_iff_eq.mp hk] at hbodies
      exact hbodies k.2.1 k.2.2
    have hkept : s.storage.parts.retain (fun k => k.1 != name) = s.storage.parts := by
      refine AList.retain_eq_self_iff.mpr fun k hk => ?_
      rw [← bne_eq_false_iff_eq.mp hk] at hparts
      exact hparts k.2.1 k.2.2
    unfold dropData InMemoryStorage.deleteBucketData
    rw [herase, hobjects, hkept]

/-- The bucket may go. -/
def MayGo (s : RustackS3) (name : String) : Prop :=
  ∃ bucket, s.state.buckets.lookup name = some bucket ∧ bucket.isEmpty = true

theorem handleDeleteBucket_of_mayGo {s : RustackS3} {name : String} (h : s.MayGo name) :
    s.handleDeleteBucket name =
      ({ s.dropData name with
          state := { buckets := s.state.buckets.erase name
                     globalBucketOwner := s.state.globalBucketOwner.erase name } }, .ok ()) := by
  obtain ⟨bucket, hlookup, hempty⟩ := h
  have hdelete : s.state.deleteBucket name = .ok
      { buckets := s.state.buckets.erase name
        globalBucketOwner := s.state.globalBucketOwner.erase name } := by
    rw [S3ServiceState.deleteBucket, hlookup]
    exact if_pos hempty
  simp only [handleDeleteBucket, hdelete]
  rfl

theorem handleDeleteBucket_of_not_mayGo {s : RustackS3} {name : String} (h : ¬ s.MayGo name) :
    ∃ e, s.handleDeleteBucket name = (s.dropData name, .error e) := by
  have hdelete : ∃ e, s.state.deleteBucket name = .error e := by
    unfold S3ServiceState.deleteBucket
    split
    · exact ⟨_, rfl⟩
    · next bucket hlookup =>
        refine ⟨_, if_neg fun hempty => ?_⟩
        exact h ⟨bucket, hlookup, hempty⟩
  obtain ⟨e, hdelete⟩ := hdelete
  refine ⟨e.intoS3Error, ?_⟩
  simp only [handleDeleteBucket, hdelete]
  rfl

/-! ## A bucket created under the name -/

/-- The bucket a request creates. -/
def createdBucket (env : S3Env) (now : DateTime) (input : CreateBucketInput) : S3Bucket :=
  let bucket := S3Bucket.new input.bucket (input.locationConstraint.getD env.defaultRegion)
    .default now
  if input.objectLockEnabledForBucket.getD false then enableObjectLock bucket else bucket

theorem isEmpty_createdBucket (env : S3Env) (now : DateTime) (input : CreateBucketInput) :
    (createdBucket env now input).isEmpty = true := by
  unfold createdBucket
  split <;> rfl

theorem corsRules_createdBucket (env : S3Env) (now : DateTime) (input : CreateBucketInput) :
    (createdBucket env now input).corsRules = none := by
  unfold createdBucket
  split <;> rfl

/-- A bucket is created under a name that no one owns, and nothing else happens. -/
theorem handleCreateBucket_cases (env : S3Env) (now : DateTime) (s : RustackS3)
    (input : CreateBucketInput) :
    (∃ e, handleCreateBucket env now s input = (s, .error e)) ∨
      ∃ out, s.state.globalBucketOwner.lookup input.bucket = none ∧
        handleCreateBucket env now s input = ({ s with
          state := {
            buckets := s.state.buckets.insert input.bucket (createdBucket env now input)
            globalBucketOwner :=
              s.state.globalBucketOwner.insert input.bucket Owner.default.id } }, .ok out) := by
  rcases s.commit_cases _ with herror | ⟨s', out, hresult, hcommit⟩
  · exact Or.inl herror
  · rw [Except.bind_eq_ok] at hresult
    obtain ⟨_, _, hresult⟩ := hresult
    obtain ⟨state, hstate, hresult⟩ := Except.bind_eq_ok.mp hresult
    rw [asS3Error_eq_ok] at hstate
    unfold S3ServiceState.createBucket at hstate
    split at hstate
    · split at hstate <;> cases hstate
    · next hnone =>
        refine Or.inr ⟨out, hnone, hcommit.trans ?_⟩
        cases hstate
        cases hresult
        unfold createdBucket
        split
        · rw [modifyBucket, S3ServiceState.modifyBucket_of_lookup (AList.lookup_insert _)]
          simp only [AList.insert_insert]
        · rfl

/-- A bucket created where nothing is stored starts empty. -/
theorem NothingStored.createBucket {env : S3Env} {now : DateTime} {s : RustackS3}
    {input : CreateBucketInput} {out : CreateBucketOutput} (h : s.NothingStored input.bucket)
    (hok : (handleCreateBucket env now s input).2 = .ok out) :
    (handleCreateBucket env now s input).1.NothingStored input.bucket ∧
      ∃ bucket, (handleCreateBucket env now s input).1.state.buckets.lookup input.bucket =
        some bucket ∧ bucket.isEmpty = true ∧ bucket.corsRules = none := by
  rcases handleCreateBucket_cases env now s input with ⟨e, herror⟩ | ⟨out', -, hcreated⟩
  · rw [herror] at hok
    cases hok
  · rw [hcreated]
    refine ⟨⟨h.bodies, h.parts, h.rules⟩, createdBucket env now input, ?_, ?_, ?_⟩
    · exact AList.lookup_insert s.state.buckets
    · exact isEmpty_createdBucket env now input
    · exact corsRules_createdBucket env now input

/-! ## Refusals and successes -/

theorem removed_of_mayGo {env : S3Env} {s : RustackS3} {name : String} (h : s.MayGo name) :
    (s.handleDeleteBucket name).1.Removed env name := by
  rw [handleDeleteBucket_of_mayGo h]
  have hnothing := s.dropData_nothingStored name
  constructor
  · exact ⟨hnothing.bodies, hnothing.parts, hnothing.rules⟩
  · exact AList.lookup_erase name s.state.buckets
  · rintro now input out rfl hok
    exact NothingStored.createBucket ⟨hnothing.bodies, hnothing.parts, hnothing.rules⟩ hok

/-- A refusal leaves the state as it was exactly if nothing was stored under the name. -/
theorem deleteBucketContract_iff (env : S3Env) (s : RustackS3) (name : String) :
    DeleteBucketContract env s name ↔ s.MayGo name ∨ s.NothingStored name := by
  by_cases h : s.MayGo name
  · refine iff_of_true ⟨fun e herror => ?_, fun _ => removed_of_mayGo h⟩ (Or.inl h)
    rw [handleDeleteBucket_of_mayGo h] at herror
    cases herror
  · rw [or_iff_right h, ← dropData_eq_self_iff]
    obtain ⟨e, hdelete⟩ := handleDeleteBucket_of_not_mayGo h
    unfold DeleteBucketContract
    rw [hdelete]
    constructor
    · intro hcontract
      exact hcontract.1 e rfl
    · intro hsame
      refine ⟨fun _ _ => hsame, fun hok => ?_⟩
      cases hok

/-- An environment with digests that tell little, for runs on fixed inputs. -/
def plainEnv : S3Env where
  digests := { md5 := fun data => [UInt8.ofNat data.length], checksum := fun _ _ => "" }
  percentDecode := some
  httpDate := fun _ => ""
  versionIds := fun n => "v" ++ String.ofList (List.replicate n 'x')
  uploadIds := fun n => "u" ++ String.ofList (List.replicate n 'x')
  defaultRegion := "us-east-1"

def plainPut (bucket key : String) (data : Bytes) : S3Op :=
  .putObject
    { bucket, key, body := some data, contentMd5 := none, expires := none, checksums := .none,
      headers := .none } none

def plainCreate (bucket : String) : S3Op :=
  .createBucket { bucket, locationConstraint := none, objectLockEnabledForBucket := none }

/-- A service with one bucket and one object. -/
def onePhoto : RustackS3 :=
  ((RustackS3.new 100).step plainEnv 0 (plainCreate "photos")).step plainEnv 0
    (plainPut "photos" "cat" [1, 2, 3])

/-- Deleting the bucket of the one object fails, and the body is gone. -/
theorem deleteBucket_destroys_bodies : ¬ ∀ env maxMemorySize s name,
    Reachable env maxMemorySize s → DeleteBucketContract env s name := by
  intro h
  have hreachable : Reachable plainEnv 100 onePhoto := .step 0 _ (.step 0 _ .new)
  have hstays : ¬ onePhoto.MayGo "photos" := by
    rintro ⟨bucket, hbucket, hempty⟩
    have hkept : (onePhoto.state.buckets.lookup "photos").map S3Bucket.isEmpty = some false := by
      decide +kernel
    rw [hbucket, Option.map_some, hempty] at hkept
    cases hkept
  obtain ⟨e, hdelete⟩ := handleDeleteBucket_of_not_mayGo hstays
  have hsame := (h plainEnv 100 onePhoto "photos" hreachable).1 e (by rw [hdelete])
  rw [hdelete] at hsame
  have hbody : (onePhoto.storage.objects.lookup ("photos", "cat", "null")).isSome = true := by
    decide +kernel
  rw [(dropData_eq_self_iff.mp hsame).bodies "cat" "null"] at hbody
  cases hbody

end RustackS3

end Rustack.S3
