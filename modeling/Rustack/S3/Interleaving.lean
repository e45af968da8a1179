import Rustack.DynamoDB.Number
import Rustack.S3.VersionBodies

/-!
# Reads and writes of one object in steps

A put publishes the body and then the object; a get reads the object and then
the body.  No lock is held from the one step to the other, so the steps of
other calls may come in between.  Without versioning all puts of a key write to
the same two places.
-/

namespace Rustack.S3

open DynamoDB (isAsciiDigit digitValue digitsValue splitAtFirst)
open List hiding get

/-! ## Ranges -/

/-- `str::parse` of an unsigned integer of 64 bits. -/
def parseU64 (cs : List Char) : Option ℕ :=
  let digits := match cs with
    | '+' :: rest => rest
    | _ => cs
  if digits.isEmpty || !digits.all isAsciiDigit then none
  else
    let value := digitsValue (digits.map digitValue)
    if value < 2 ^ 64 then some value else none

def parseU64OrRange (cs : List Char) : Except S3ServiceError ℕ :=
  match parseU64 cs with
  | some n => .ok n
  | none => .error .invalidRange

/-- The first and the last byte that a range header asks for. -/
def parseRangeHeader (range : String) (contentLength : ℕ) : Except S3ServiceError (ℕ × ℕ) :=
  match range.toList.dropPrefix? "bytes=".toList with
  | none => .error .invalidRange
  | some range =>
    if contentLength = 0 then .error .invalidRange
    else
      match range with
      | '-' :: suffix => do
        let n ← parseU64OrRange suffix
        if n = 0 ∨ contentLength < n then .error .invalidRange
        else return (contentLength - n, contentLength - 1)
      | _ =>
        if range.getLast? = some '-' then do
          let start ← parseU64OrRange range.dropLast
          if contentLength ≤ start then .error .invalidRange
          else return (start, contentLength - 1)
        else
          match splitAtFirst (· == '-') range with
          | (_, none) => .error .invalidRange
          | (first, some last) => do
            let start ← parseU64OrRange first
            let finish ← parseU64OrRange last
            if finish < start ∨ contentLength ≤ start then .error .invalidRange
            else return (start, min finish (contentLength - 1))

theorem parseRangeHeader_bounds {range : String} {contentLength start finish : ℕ}
    (h : parseRangeHeader range contentLength = .ok (start, finish)) :
    start ≤ finish ∧ finish < contentLength := by
  unfold parseRangeHeader at h
  split at h
  · cases h
  split at h
  · cases h
  next hpos =>
  split at h
  · obtain ⟨n, -, h⟩ := Except.bind_eq_ok.mp h
    split at h
    · cases h
    · cases h
      omega
  split at h
  · obtain ⟨first, -, h⟩ := Except.bind_eq_ok.mp h
    split at h
    · cases h
    · cases h
      omega
  split at h
  · cases h
  · obtain ⟨first, -, h⟩ := Except.bind_eq_ok.mp h
    obtain ⟨last, -, h⟩ := Except.bind_eq_ok.mp h
    split at h
    · cases h
    · cases h
      omega

/-- The bytes from one to another, both included. -/
def slice (data : Bytes) (start finish : ℕ) : Bytes := (data.drop start).take (finish + 1 - start)

/-- A range of the data, or all of it. -/
def selectRange (data : Bytes) (range : Option (ℕ × ℕ)) : Bytes :=
  match range with
  | none => data
  | some (first, last) => slice data first last

namespace InMemoryStorage

/-- Read an object, or a range of it. -/
def readObjectRange (storage : InMemoryStorage) (bucket key versionId : String)
    (range : Option (ℕ × ℕ)) : Except S3ServiceError Bytes := do
  let data ← storage.readObject bucket key versionId
  match range with
  | none => return data
  | some (start, finish) =>
    if data.length ≤ start ∨ data.length ≤ finish ∨ finish < start then .error .invalidRange
    else return slice data start finish

end InMemoryStorage

namespace RustackS3

/-! ## The steps of a put -/

/-- A put that has published its body. -/
structure OpenPut where
  input : PutObjectInput
  upload : Option StagedUpload
  plan : PutPlan
  written : WriteResult

namespace OpenPut

/-- The bytes that the put carries. -/
def data (put : OpenPut) : Bytes := requestData put.input.body put.upload

/-- The object that the put makes of what it has written. -/
def object (env : S3Env) (now : DateTime) (put : OpenPut) : S3Object where
  key := put.input.key
  versionId := put.plan.versionId
  etag := put.written.etag
  size := put.written.size
  lastModified := now
  storageClass := put.input.headers.storageClassText
  metadata := buildMetadata env put.input
  owner := .default
  checksum := some put.plan.checksum
  partsCount := none
  partEtags := []

end OpenPut

def publishBody (env : S3Env) (s : RustackS3) (input : PutObjectInput)
    (upload : Option StagedUpload) : Except S3Error (RustackS3 × OpenPut) := do
  let plan ← s.preparePut env input upload
  let (storage, written) :=
    s.writeBody env input.bucket input.key plan.versionId input.body upload
  return ({ s with storage }, { input, upload, plan, written })

def publishObject (env : S3Env) (now : DateTime) (s : RustackS3) (put : OpenPut) : RustackS3 :=
  s.storeObject env put.input.bucket (put.object env now)

/-- A put that nothing comes in between is its two steps. -/
theorem putObjectBody_eq_steps (env : S3Env) (now : DateTime) (s : RustackS3)
    (input : PutObjectInput) (upload : Option StagedUpload) :
    s.putObjectBody env now input upload = s.commit do
      let (s', put) ← s.publishBody env input upload
      return (s'.publishObject env now put,
        { eTag := some put.written.etag
          versionId := realVersionId put.plan.versionId
          checksums := checksumToFields put.plan.checksum }) := by
  unfold putObjectBody publishBody
  cases s.preparePut env input upload with
  | error e => rfl
  | ok plan => rfl

/-! ## The steps of a get -/

structure GetRequest where
  bucket : String
  key : String
  versionId : Option String
  range : Option String
  streaming : Bool

/-- A get that has read the object. -/
structure OpenGet where
  request : GetRequest
  object : S3Object
  range : Option (ℕ × ℕ)

structure GetAnswer where
  request : GetRequest
  etag : String
  size : ℕ
  contentLength : ℕ
  body : Bytes

def requestedRange (range : Option String) (size : ℕ) :
    Except S3ServiceError (Option (ℕ × ℕ)) :=
  match range with
  | none => .ok none
  | some text => (parseRangeHeader text size).map some

def readMetadata (env : S3Env) (s : RustackS3) (request : GetRequest) :
    Except S3Error OpenGet := do
  let bucket ← s.getBucket request.bucket
  let object ← lookupObject env bucket.objects request.key request.versionId
  let range ← asS3Error (requestedRange request.range object.size)
  return { request, object, range }

/-- Where a streamed body starts, and how long it is. -/
def OpenGet.window (get : OpenGet) : ℕ × ℕ :=
  match get.range with
  | none => (0, get.object.size)
  | some (start, finish) => (start, finish - start + 1)

def OpenGet.answer (get : OpenGet) (contentLength : ℕ) (body : Bytes) : GetAnswer where
  request := get.request
  etag := get.object.etag
  size := get.object.size
  contentLength := contentLength
  body := body

def readBody (s : RustackS3) (get : OpenGet) : Except S3Error GetAnswer :=
  let staged := if get.request.streaming then
    s.storage.stagedObject get.request.bucket get.request.key get.object.versionId else none
  match staged with
  | some upload =>
    let (offset, length) := get.window
    if upload.size < offset + length then .error (.internalError "invalid stored object range")
    else return get.answer length ((upload.data.drop offset).take length)
  | none => do
    let data ← asS3Error (s.storage.readObjectRange get.request.bucket get.request.key
      get.object.versionId get.range)
    return get.answer data.length data

/-- A get of a whole object that nothing comes in between is its two steps. -/
theorem getObjectBody_eq_steps (env : S3Env) (s : RustackS3) (input : GetObjectInput) :
    (s.getObjectBody env input false).map (fun out => (out.1.eTag, out.1.body)) =
      (do
        let get ← s.readMetadata env ⟨input.bucket, input.key, input.versionId, none, false⟩
        let answer ← s.readBody get
        return (some answer.etag, some answer.body)) := by
  unfold getObjectBody readMetadata
  cases s.getBucket input.bucket with
  | error e => rfl
  | ok bucket =>
      cases hobject : lookupObject env bucket.objects input.key input.versionId with
      | error e => simp [hobject, bind, Except.bind, Except.map]
      | ok object =>
          cases hread : s.storage.readObject input.bucket input.key object.versionId with
          | error e =>
              simp [hobject, hread, bind, Except.bind, Except.map, requestedRange, readBody,
                InMemoryStorage.readObjectRange, asS3Error, Except.mapError, pure, Except.pure]
          | ok data =>
              simp [hobject, hread, bind, Except.bind, Except.map, requestedRange, readBody,
                InMemoryStorage.readObjectRange, asS3Error, Except.mapError, pure, Except.pure,
                OpenGet.answer]

end RustackS3

open RustackS3

/-! ## Calls in flight -/

/-- The service, the calls on one key that are between their steps, and what came of the others.
A put in flight is marked while no other call has touched the body it published. -/
structure Calls where
  service : RustackS3
  puts : List (OpenPut × Bool)
  gets : List OpenGet
  published : List OpenPut
  answers : List GetAnswer

inductive Step where
  | publishBody (input : PutObjectInput) (upload : Option StagedUpload)
  | publishObject (i : ℕ) (now : DateTime)
  | readMetadata (request : GetRequest)
  | readBody (i : ℕ)
  | deleteObject (input : DeleteObjectInput) (now : DateTime)

namespace Calls

def start (service : RustackS3) : Calls := ⟨service, [], [], [], []⟩

def unmarked (puts : List (OpenPut × Bool)) : List (OpenPut × Bool) :=
  puts.map fun p => (p.1, false)

/-- A step of some call on the key. -/
def step (env : S3Env) (bucket key : String) (s : Calls) (e : Step) : Calls :=
  match e with
  | .publishBody input upload =>
    match s.service.publishBody env { input with bucket, key } upload with
    | .error _ => s
    | .ok (service, put) =>
      { s with
        service
        puts := unmarked s.puts ++ [(put, true)]
        published := s.published ++ [put] }
  | .publishObject i now =>
    match s.puts[i]? with
    | none => s
    | some (put, _) =>
      { s with service := s.service.publishObject env now put, puts := s.puts.eraseIdx i }
  | .readMetadata request =>
    match s.service.readMetadata env { request with bucket, key } with
    | .error _ => s
    | .ok get => { s with gets := s.gets ++ [get] }
  | .readBody i =>
    match s.gets[i]? with
    | none => s
    | some get =>
      let gets := s.gets.eraseIdx i
      match s.service.readBody get with
      | .error _ => { s with gets }
      | .ok answer => { s with gets, answers := s.answers ++ [answer] }
  | .deleteObject input now =>
    { s with
      service := (s.service.handleDeleteObject env now { input with bucket, key }).1
      puts := unmarked s.puts }

def run (env : S3Env) (bucket key : String) (s : Calls) (es : List Step) : Calls :=
  es.foldl (step env bucket key) s

/-- No calls are between their steps. -/
def Finished (s : Calls) : Prop := s.puts = [] ∧ s.gets = []

end Calls

/-! ## What readers and writers are promised -/

/-- The answer is the body of one put, or the range of it that was asked for, under the entity
tag and the size of that put. -/
def RustackS3.GetAnswer.Genuine (env : S3Env) (published : List OpenPut) (a : GetAnswer) : Prop :=
  ∃ put ∈ published,
    a.etag = (writeResult env.digests put.data).etag ∧
    a.size = put.data.length ∧
    a.contentLength = a.body.length ∧
    ∃ range, requestedRange a.request.range put.data.length = .ok range ∧
      a.body = selectRange put.data range

/-- The object and the body that are stored come from one put, or there is neither. -/
def Settled (env : S3Env) (published : List OpenPut) (slot : Slot) : Prop :=
  (slot.versions = [] ∧ slot.body "null" = none) ∨
    ∃ put ∈ published, ∃ now stored,
      slot.versions = [.object (put.object env now)] ∧
      slot.body "null" = some stored ∧ stored.data = put.data

/-- A bucket that has never had versions. -/
def Contents.Plain (c : Contents) (bucket : String) : Prop :=
  ∃ shelf, c.shelves bucket = some shelf ∧ shelf.versioning ≠ .enabled ∧
    shelf.objects.isVersioned = false ∧ shelf.NullIds

/-- The key is not in use, in a bucket that has never had versions. -/
structure Unused (s : RustackS3) (bucket key : String) : Prop where
  plain : s.contents.Plain bucket
  slot : s.contents.slot bucket key = .empty

/-- What a run of calls promises: genuine answers, and a settled object when all have finished. -/
def Calls.Promise (env : S3Env) (bucket key : String) (s : Calls) : Prop :=
  (∀ a ∈ s.answers, a.Genuine env s.published) ∧
    (s.Finished → Settled env s.published (s.service.contents.slot bucket key))

/-! ## Buckets without versions -/

namespace Contents

variable {c c' : Contents} {env : S3Env} {now : DateTime} {bucket key : String}

theorem Plain.setBody (h : c.Plain bucket) (place : String × String × String)
    (body : Option StoredData) : (c.setBody place body).Plain bucket := h

theorem Plain.reinsert (h : c.Plain bucket) {object : S3Object}
    (hid : object.versionId = "null") : (c.reinsert env bucket object).Plain bucket := by
  obtain ⟨shelf, hshelf, henabled, hversioned, hnull⟩ := h
  refine ⟨{ shelf with objects := shelf.objects.put object (env.versionIds (c.drawn + 1)) }, ?_,
    henabled, ?_, ?_⟩
  · change Function.update c.shelves bucket _ bucket = _
    rw [Function.update_self, hshelf]
    rfl
  · rw [ObjectStore.isVersioned_put]
    exact hversioned
  · intro _ key v hv
    dsimp only at hv
    rw [ObjectStore.versionsOf_put] at hv
    split at hv
    · cases hobjects : shelf.objects with
      | unversioned ks =>
          rw [hobjects] at hv
          obtain rfl := mem_singleton.mp hv
          exact hid
      | versioned vs =>
          rw [hobjects] at hversioned
          exact absurd hversioned.symm Bool.false_ne_true
    · exact hnull hversioned key v hv

/-- The one version of a key is the object that is put. -/
theorem Plain.slot_reinsert (h : c.Plain bucket) (object : S3Object) :
    (c.reinsert env bucket object).slot bucket object.key =
      ⟨[.object object], (c.slot bucket object.key).body⟩ := by
  obtain ⟨shelf, hshelf, -, hversioned, -⟩ := h
  have hslot := @slot_mapStore c bucket object.key shelf
    (fun store => store.put object (env.versionIds (c.drawn + 1))) bucket object.key hshelf
    fun key hkey => versionsOf_put_of_ne _ hkey
  refine Eq.trans hslot ?_
  rw [if_pos ⟨rfl, rfl⟩, versionsOf_put_unversioned _ hversioned]

theorem Plain.versionId_eq (h : c.Plain bucket) {v : ObjectVersion}
    (hv : v ∈ (c.slot bucket key).versions) : v.versionId = "null" := by
  obtain ⟨shelf, hshelf, -, hversioned, hnull⟩ := h
  refine hnull hversioned key v ?_
  change v ∈ c.versionsOf bucket key at hv
  rwa [versionsOf_of_shelf hshelf] at hv

theorem Plain.versions_cases (h : c.Plain bucket) (key : String) :
    (c.slot bucket key).versions = [] ∨
      ∃ object, (c.slot bucket key).versions = [.object object] := by
  obtain ⟨shelf, hshelf, -, hversioned, -⟩ := h
  change c.versionsOf bucket key = [] ∨ ∃ object, c.versionsOf bucket key = [.object object]
  rw [versionsOf_of_shelf hshelf]
  cases hobjects : shelf.objects with
  | unversioned ks =>
      change (ks.get key).toList.map _ = [] ∨ ∃ object, (ks.get key).toList.map _ = _
      cases ks.get key with
      | none => exact .inl rfl
      | some object => exact .inr ⟨object, rfl⟩
  | versioned vs =>
      rw [hobjects] at hversioned
      exact absurd hversioned.symm Bool.false_ne_true

theorem plain_of_kind (hkind : c'.kind bucket = c.kind bucket) (h : c.Plain bucket)
    (hnull : ∀ key, ∀ v ∈ (c'.slot bucket key).versions, v.versionId = "null") :
    c'.Plain bucket := by
  obtain ⟨shelf, hshelf, henabled, hversioned, -⟩ := h
  rw [kind_of_shelf hshelf] at hkind
  obtain ⟨shelf', hshelf', heq⟩ := Option.map_eq_some_iff.mp hkind
  obtain ⟨hversioning, hobjects⟩ := Prod.mk.inj heq
  refine ⟨shelf', hshelf', ?_, ?_, ?_⟩
  · rw [hversioning]
    exact henabled
  · rw [hobjects]
    exact hversioned
  · intro _ key v hv
    refine hnull key v ?_
    change v ∈ c'.versionsOf bucket key
    rwa [versionsOf_of_shelf hshelf']

theorem slot_remove_cases {slot : Slot} (hids : ∀ v ∈ slot.versions, v.versionId = "null")
    (hone : slot.versions = [] ∨ ∃ object, slot.versions = [.object object])
    (versionId : String) :
    slot.remove versionId = slot ∨
      ((slot.remove versionId).versions = [] ∧ (slot.remove versionId).body "null" = none) := by
  obtain ⟨versions, body⟩ := slot
  rcases hone with rfl | ⟨object, rfl⟩
  · exact .inl rfl
  · have hid : object.versionId = "null" := hids _ (mem_singleton_self _)
    by_cases hremove : versionId = "null"
    · right
      have hfound : ∀ v : ObjectVersion, v = .object object →
          decide (v.versionId = versionId) = true := by
        rintro v rfl
        exact decide_eq_true (hid.trans hremove.symm)
      constructor
      · unfold Slot.remove
        simp only [eraseP_cons, hfound _ rfl, cond_true]
      · change (if _ then Function.update body versionId none else body) "null" = none
        rw [if_pos, hremove, Function.update_self]
        rw [any_cons, hfound _ rfl, Bool.true_or]
    · left
      have hother : decide ((ObjectVersion.object object).versionId = versionId) = false :=
        decide_eq_false fun heq => hremove (heq.symm.trans hid)
      unfold Slot.remove
      rw [eraseP_cons_of_neg (by rw [hother]; exact Bool.false_ne_true), eraseP_nil,
        if_neg]
      rw [any_cons, hother, any_nil]
      exact Bool.false_ne_true

/-- What a delete may do to a slot of its bucket: nothing, or empty it. -/
theorem Plain.slot_deletion {bypass : Bool} (h : c.Plain bucket) (key : String)
    (hdelete : Deletion env now bypass bucket c c') :
    c'.slot bucket key = c.slot bucket key ∨
      ((c'.slot bucket key).versions = [] ∧ (c'.slot bucket key).body "null" = none) := by
  have hids : ∀ v ∈ (c.slot bucket key).versions, v.versionId = "null" := fun v hv =>
    h.versionId_eq hv
  have hone := h.versions_cases key
  obtain ⟨plain, hplain, -, hversioned, hnull⟩ := h
  cases hdelete with
  | version place versionId shelf hshelf hlock =>
      rw [slot_removeVersion hplain hnull]
      split
      · exact slot_remove_cases hids hone versionId
      · exact .inl rfl
  | latest place shelf hshelf =>
      rw [slot_removeLatest_unversioned hplain hversioned]
      split
      · refine .inr ⟨rfl, ?_⟩
        change Function.update (c.slot bucket key).body "null" none "null" = none
        exact Function.update_self _ _ _
      · exact .inl rfl

theorem Plain.deletion {bypass : Bool} (h : c.Plain bucket)
    (hdelete : Deletion env now bypass bucket c c') : c'.Plain bucket := by
  refine plain_of_kind ?_ h fun key v hv => ?_
  · cases hdelete with
    | version place versionId => exact kind_removeVersion _ _ _
    | latest place => exact kind_removeLatest _ _
  · rcases h.slot_deletion key hdelete with hsame | ⟨hempty, -⟩
    · rw [hsame] at hv
      exact h.versionId_eq hv
    · rw [hempty] at hv
      exact absurd hv not_mem_nil

end Contents

/-! ## What each step does -/

section Steps

open Effect

variable {env : S3Env} {s s' : RustackS3} {put : OpenPut} {get : OpenGet} {a : GetAnswer}

theorem publishBody_spec {input : PutObjectInput} {upload : Option StagedUpload}
    (hplain : s.contents.Plain input.bucket)
    (h : s.publishBody env input upload = .ok (s', put)) :
    put.input = input ∧ put.plan.versionId = "null" ∧
      put.written = writeResult env.digests put.data ∧
      ∃ stored, stored.data = put.data ∧
        s'.contents = s.contents.setBody (input.bucket, input.key, "null") (some stored) := by
  obtain ⟨plan, hplan, h⟩ := Except.bind_eq_ok.mp h
  cases h
  obtain ⟨bucket, hbucket, hid⟩ := preparePut_eq_ok hplan
  obtain ⟨shelf, hshelf, henabled, -, -⟩ := hplain
  have hid : plan.versionId = "null" := by
    rw [hid, newVersionId_eq]
    rw [shelves_of_lookup hbucket] at hshelf
    cases hshelf
    exact if_neg henabled
  obtain ⟨⟨stored, hstored, hdata⟩, hwritten⟩ := @writeBody_spec env s input.bucket input.key
    plan.versionId input.body upload
  refine ⟨rfl, hid, hwritten, stored, hdata, Contents.ext rfl rfl ?_ rfl⟩
  change (fun place => AList.lookup place (s.writeBody env input.bucket input.key plan.versionId
    input.body upload).1.objects) = _
  rw [hstored, hid]
  exact AList.lookup_insert_eq_update _ _ _

theorem lookupObject_plain {objects : ObjectStore} {key : String} {versionId : Option String}
    {object : S3Object} (hversioned : objects.isVersioned = false)
    (h : lookupObject env objects key versionId = .ok object) :
    objects.versionsOf key = [.object object] := by
  cases objects with
  | versioned vs => exact absurd hversioned.symm Bool.false_ne_true
  | unversioned ks =>
      have hget : ks.get key = some object := by
        unfold lookupObject at h
        dsimp only at h
        split at h
        · next found hfound =>
            cases h
            cases versionId with
            | none => exact hfound
            | some id =>
                change (if id = "null" then ks.get key else none) = _ at hfound
                split at hfound
                · exact hfound
                · cases hfound
        · split at h
          · cases h
          · split at h <;> cases h
      change (ks.get key).toList.map _ = _
      rw [hget]
      rfl

theorem readMetadata_spec {request : GetRequest} (hplain : s.contents.Plain request.bucket)
    (h : s.readMetadata env request = .ok get) :
    get.request = request ∧
      (s.contents.slot request.bucket request.key).versions = [.object get.object] ∧
      requestedRange request.range get.object.size = .ok get.range := by
  obtain ⟨bucket, hbucket, h⟩ := Except.bind_eq_ok.mp h
  obtain ⟨object, hobject, h⟩ := Except.bind_eq_ok.mp h
  obtain ⟨range, hrange, h⟩ := Except.bind_eq_ok.mp h
  cases h
  rw [getBucket_eq_ok] at hbucket
  obtain ⟨shelf, hshelf, -, hversioned, -⟩ := hplain
  have hbucket := shelves_of_lookup hbucket
  rw [hbucket] at hshelf
  cases hshelf
  refine ⟨rfl, ?_, ?_⟩
  · change s.contents.versionsOf request.bucket request.key = _
    rw [Contents.versionsOf_of_shelf hbucket]
    exact lookupObject_plain hversioned hobject
  · cases hparsed : requestedRange request.range object.size with
    | error e =>
        rw [hparsed] at hrange
        cases hrange
    | ok parsed =>
        rw [hparsed] at hrange
        cases hrange
        rfl

theorem readObjectRange_spec {storage : InMemoryStorage} {bucket key versionId : String}
    {range : Option (ℕ × ℕ)} {data : Bytes}
    (h : storage.readObjectRange bucket key versionId range = .ok data) :
    ∃ stored, storage.objects.lookup (bucket, key, versionId) = some stored ∧
      data = selectRange stored.data range := by
  obtain ⟨all, hall, h⟩ := Except.bind_eq_ok.mp h
  unfold InMemoryStorage.readObject at hall
  split at hall
  · cases hall
  · next stored hstored =>
      have hdata : stored.data = all := by
        cases stored with
        | staged upload =>
            unfold StoredData.readAll at hall
            dsimp only at hall
            split at hall
            · cases hall
            · exact Except.ok.inj hall
        | inMemory | onDisk => exact Except.ok.inj hall
      refine ⟨stored, hstored, ?_⟩
      rw [hdata]
      cases range with
      | none => exact (Except.ok.inj h).symm
      | some range =>
          dsimp only at h
          split at h
          · cases h
          · exact (Except.ok.inj h).symm

theorem requestedRange_bounds {range : Option String} {size first last : ℕ}
    (h : requestedRange range size = .ok (some (first, last))) : first ≤ last ∧ last < size := by
  cases range with
  | none => cases h
  | some text =>
      unfold requestedRange at h
      dsimp only at h
      cases hparsed : parseRangeHeader text size with
      | error e =>
          rw [hparsed] at h
          cases h
      | ok bounds =>
          rw [hparsed] at h
          cases h
          exact parseRangeHeader_bounds hparsed

theorem stagedObject_eq_some {storage : InMemoryStorage} {bucket key versionId : String}
    {upload : StagedUpload} (h : storage.stagedObject bucket key versionId = some upload) :
    storage.objects.lookup (bucket, key, versionId) = some (.staged upload) := by
  unfold InMemoryStorage.stagedObject at h
  split at h
  · next hlookup =>
      cases h
      exact hlookup
  · cases h

/-- A body is read that there is, and if it has the size of the object it is the one asked for. -/
theorem readBody_spec (h : s.readBody get = .ok a) :
    ∃ stored contentLength body, a = get.answer contentLength body ∧
      s.contents.bodies (get.request.bucket, get.request.key, get.object.versionId) =
        some stored ∧
      (get.object.size = stored.data.length →
        requestedRange get.request.range get.object.size = .ok get.range →
        contentLength = body.length ∧ body = selectRange stored.data get.range) := by
  unfold RustackS3.readBody at h
  dsimp only at h
  split at h
  · next upload hstaged =>
      split at hstaged
      · split at h
        · cases h
        · cases h
          refine ⟨.staged upload, _, _, rfl, stagedObject_eq_some hstaged, fun hsize hrange => ?_⟩
          have hdata : StoredData.data (.staged upload) = upload.data := rfl
          rw [hdata] at hsize ⊢
          unfold OpenGet.window
          cases hwindow : get.range with
          | none =>
              dsimp only
              rw [drop_zero, hsize, take_length]
              exact ⟨rfl, rfl⟩
          | some range =>
              obtain ⟨first, last⟩ := range
              rw [hwindow] at hrange
              have hbounds := requestedRange_bounds hrange
              unfold selectRange slice
              dsimp only
              rw [length_take, length_drop]
              refine ⟨by omega, ?_⟩
              rw [show last - first + 1 = last + 1 - first by omega]
      · cases hstaged
  · obtain ⟨data, hdata, h⟩ := Except.bind_eq_ok.mp h
    cases h
    cases hread : s.storage.readObjectRange get.request.bucket get.request.key
        get.object.versionId get.range with
    | error e =>
        rw [hread] at hdata
        cases hdata
    | ok all =>
        rw [hread] at hdata
        cases hdata
        obtain ⟨stored, hstored, hall⟩ := readObjectRange_spec hread
        exact ⟨stored, _, _, rfl, hstored, fun _ _ => ⟨rfl, hall⟩⟩

end Steps

/-! ## Runs whose calls do not cross -/

namespace Calls

/-- Where a step may be made so that no call gets between the steps of another: a put publishes
its body while no get is under way, a get finds an object while no put is, and the last put
under way still has its own body in place. -/
def Uncrossed (bucket key : String) (s : Calls) (e : Step) : Prop :=
  match e with
  | .publishBody _ _ => s.gets = []
  | .publishObject i _ => ∀ put, s.puts[i]? = some (put, false) → s.puts.length ≠ 1
  | .readMetadata _ => s.puts = [] ∨ s.service.contents.versionsOf bucket key = []
  | .readBody _ => True
  | .deleteObject _ _ => True

def Orderly (env : S3Env) (bucket key : String) : Calls → List Step → Prop
  | _, [] => True
  | s, e :: es => s.Uncrossed bucket key e ∧ Orderly env bucket key (s.step env bucket key e) es

end Calls

/-- What is known of a put once it has published its body. -/
structure RustackS3.OpenPut.Regular (env : S3Env) (bucket key : String) (put : OpenPut) :
    Prop where
  bucket : put.input.bucket = bucket
  key : put.input.key = key
  versionId : put.plan.versionId = "null"
  written : put.written = writeResult env.digests put.data

/-- A get has read the object of a put, and will not find the body of another. -/
structure RustackS3.OpenGet.Follows (env : S3Env) (bucket key : String) (slot : Slot)
    (get : OpenGet) (put : OpenPut) : Prop where
  bucket : get.request.bucket = bucket
  key : get.request.key = key
  range : requestedRange get.request.range get.object.size = .ok get.range
  object : ∃ now, get.object = put.object env now
  body : ∀ stored, slot.body "null" = some stored → stored.data = put.data

namespace Calls

structure Inv (env : S3Env) (bucket key : String) (s : Calls) : Prop where
  plain : s.service.contents.Plain bucket
  regular : ∀ put ∈ s.published, put.Regular env bucket key
  known : ∀ p ∈ s.puts, p.1 ∈ s.published
  marked : ∀ p ∈ s.puts, p.2 = true → ∃ stored,
    (s.service.contents.slot bucket key).body "null" = some stored ∧ stored.data = p.1.data
  settled : s.puts = [] → Settled env s.published (s.service.contents.slot bucket key)
  reading : ∀ get ∈ s.gets, s.puts = [] ∧ ∃ put ∈ s.published,
    get.Follows env bucket key (s.service.contents.slot bucket key) put
  genuine : ∀ a ∈ s.answers, a.Genuine env s.published

variable {env : S3Env} {bucket key : String} {s : Calls}

theorem mem_unmarked {puts : List (OpenPut × Bool)} {p : OpenPut × Bool}
    (h : p ∈ unmarked puts) : p.2 = false ∧ ∃ mark, (p.1, mark) ∈ puts := by
  obtain ⟨q, hq, rfl⟩ := mem_map.mp h
  exact ⟨rfl, q.2, hq⟩

theorem genuine_append {published more : List OpenPut} {a : GetAnswer}
    (h : a.Genuine env published) : a.Genuine env (published ++ more) := by
  obtain ⟨put, hput, hrest⟩ := h
  exact ⟨put, mem_append_left _ hput, hrest⟩

theorem Inv.publishBody (h : s.Inv env bucket key) (input : PutObjectInput)
    (upload : Option StagedUpload) (hgets : s.gets = []) :
    (s.step env bucket key (.publishBody input upload)).Inv env bucket key := by
  unfold step
  dsimp only
  split
  · exact h
  · next service put hpublish =>
      obtain ⟨hinput, hid, hwritten, stored, hdata, hcontents⟩ :=
        @publishBody_spec env s.service service put { input with bucket, key } upload h.plain
          hpublish
      have hbody : (service.contents.slot bucket key).body "null" = some stored := by
        rw [hcontents]
        exact Function.update_self _ _ _
      refine
        { plain := by
            rw [hcontents]
            exact h.plain.setBody _ _
          regular := ?_
          known := ?_
          marked := ?_
          settled := ?_
          reading := ?_
          genuine := fun a ha => genuine_append (h.genuine a ha) }
      · intro w hw
        rcases mem_append.mp hw with hw | hw
        · exact h.regular w hw
        · obtain rfl := mem_singleton.mp hw
          exact ⟨by rw [hinput], by rw [hinput], hid, hwritten⟩
      · intro p hp
        rcases mem_append.mp hp with hp | hp
        · obtain ⟨-, mark, hmem⟩ := mem_unmarked hp
          exact mem_append_left _ (h.known (p.1, mark) hmem)
        · obtain rfl := mem_singleton.mp hp
          exact mem_append_right _ (mem_singleton_self _)
      · intro p hp hmark
        rcases mem_append.mp hp with hp | hp
        · rw [(mem_unmarked hp).1] at hmark
          exact absurd hmark Bool.false_ne_true
        · obtain rfl := mem_singleton.mp hp
          exact ⟨stored, hbody, hdata⟩
      · intro hnil
        exact absurd hnil (append_ne_nil_of_right_ne_nil _ (cons_ne_nil _ _))
      · intro get hget
        dsimp only at hget
        rw [hgets] at hget
        exact absurd hget not_mem_nil

theorem Inv.publishObject (h : s.Inv env bucket key) (i : ℕ) (now : DateTime)
    (hlast : ∀ put, s.puts[i]? = some (put, false) → s.puts.length ≠ 1) :
    (s.step env bucket key (.publishObject i now)).Inv env bucket key := by
  unfold step
  dsimp only
  split
  · exact h
  · next put mark hput =>
      have hmem := mem_of_getElem? hput
      have hregular := h.regular put (h.known _ hmem)
      have hgets : s.gets = [] := by
        refine eq_nil_iff_forall_not_mem.mpr fun get hget => ?_
        rw [(h.reading get hget).1] at hmem
        exact absurd hmem not_mem_nil
      have hcontents : (s.service.publishObject env now put).contents =
          s.service.contents.reinsert env bucket (put.object env now) := by
        rw [← hregular.bucket]
        exact Effect.contents_storeObject _ _ _
      have hslot : (s.service.publishObject env now put).contents.slot bucket key =
          ⟨[.object (put.object env now)], (s.service.contents.slot bucket key).body⟩ := by
        have hkey : (put.object env now).key = key := hregular.key
        rw [hcontents, ← hkey]
        exact h.plain.slot_reinsert _
      have hsub : ∀ p ∈ s.puts.eraseIdx i, p ∈ s.puts := fun p hp =>
        (eraseIdx_sublist s.puts i).subset hp
      refine
        { plain := by
            rw [hcontents]
            exact h.plain.reinsert hregular.versionId
          regular := h.regular
          known := fun p hp => h.known p (hsub p hp)
          marked := ?_
          settled := ?_
          reading := ?_
          genuine := h.genuine }
      · intro p hp hmark
        rw [hslot]
        exact h.marked p (hsub p hp) hmark
      · intro hnil
        -- the last put under way has its own body in place
        have hlt := (List.getElem?_eq_some_iff.mp hput).1
        have hone : s.puts.length = 1 := by
          have hlength := List.length_eraseIdx_of_lt hlt
          have hzero := congrArg List.length hnil
          dsimp only at hzero
          rw [hlength, length_nil] at hzero
          omega
        have hmark : mark = true := by
          cases mark with
          | true => rfl
          | false => exact absurd hone (hlast put hput)
        obtain ⟨stored, hstored, hdata⟩ := h.marked _ hmem hmark
        right
        refine ⟨put, h.known _ hmem, now, stored, ?_, ?_, hdata⟩
        · rw [hslot]
        · rw [hslot]
          exact hstored
      · intro get hget
        dsimp only at hget
        rw [hgets] at hget
        exact absurd hget not_mem_nil

theorem Inv.readMetadata (h : s.Inv env bucket key) (request : GetRequest)
    (hquiet : s.puts = [] ∨ s.service.contents.versionsOf bucket key = []) :
    (s.step env bucket key (.readMetadata request)).Inv env bucket key := by
  unfold step
  dsimp only
  split
  · exact h
  · next get hread =>
      obtain ⟨hrequest, hversions, hrange⟩ :=
        @readMetadata_spec env s.service get { request with bucket, key } h.plain hread
      have hputs : s.puts = [] := by
        rcases hquiet with hputs | hnone
        · exact hputs
        · exact absurd (hversions.symm.trans hnone) (cons_ne_nil _ _)
      refine { h with reading := ?_ }
      intro g hg
      rcases mem_append.mp hg with hg | hg
      · exact h.reading g hg
      · obtain rfl := mem_singleton.mp hg
        refine ⟨hputs, ?_⟩
        rcases h.settled hputs with ⟨hnone, -⟩ | ⟨put, hput, now, stored, hobject, hbody, hdata⟩
        · exact absurd (hversions.symm.trans hnone) (cons_ne_nil _ _)
        · have hsame := (cons.inj (hversions.symm.trans hobject)).1
          refine ⟨put, hput,
            { bucket := by rw [hrequest]
              key := by rw [hrequest]
              range := by
                rw [hrequest]
                exact hrange
              object := ⟨now, ObjectVersion.object.inj hsame⟩
              body := ?_ }⟩
          intro stored' hstored'
          dsimp only at hstored'
          rw [hbody] at hstored'
          rw [← Option.some.inj hstored']
          exact hdata

theorem genuine_of_follows {get : OpenGet} {put : OpenPut} {a : GetAnswer}
    (hput : put ∈ s.published) (hregular : put.Regular env bucket key)
    (hfollows : get.Follows env bucket key (s.service.contents.slot bucket key) put)
    (hread : s.service.readBody get = .ok a) : a.Genuine env s.published := by
  obtain ⟨stored, contentLength, body, rfl, hstored, hbody⟩ := readBody_spec hread
  obtain ⟨now, hobject⟩ := hfollows.object
  have hid : get.object.versionId = "null" := by
    rw [hobject]
    exact hregular.versionId
  rw [hfollows.bucket, hfollows.key, hid] at hstored
  have hdata := hfollows.body stored hstored
  have hsize : get.object.size = put.data.length := by
    rw [hobject]
    change put.written.size = _
    rw [hregular.written]
    rfl
  rw [hdata] at hbody
  obtain ⟨hlength, hselect⟩ := hbody hsize hfollows.range
  refine ⟨put, hput, ?_, hsize, hlength, get.range, ?_, hselect⟩
  · change get.object.etag = _
    rw [hobject]
    change put.written.etag = _
    rw [hregular.written]
  · rw [← hsize]
    exact hfollows.range

theorem Inv.readBody (h : s.Inv env bucket key) (i : ℕ) :
    (s.step env bucket key (.readBody i)).Inv env bucket key := by
  unfold step
  dsimp only
  have hsub : ∀ get ∈ s.gets.eraseIdx i, get ∈ s.gets := fun get hget =>
    (eraseIdx_sublist s.gets i).subset hget
  split
  · exact h
  · next get hget =>
      split
      · exact { h with reading := fun g hg => h.reading g (hsub g hg) }
      · next a hread =>
          refine { h with
            reading := fun g hg => h.reading g (hsub g hg)
            genuine := ?_ }
          intro b hb
          rcases mem_append.mp hb with hb | hb
          · exact h.genuine b hb
          · obtain rfl := mem_singleton.mp hb
            obtain ⟨-, put, hput, hfollows⟩ := h.reading get (mem_of_getElem? hget)
            exact genuine_of_follows hput (h.regular put hput) hfollows hread

theorem Inv.deleteObject (h : s.Inv env bucket key) (input : DeleteObjectInput)
    (now : DateTime) : (s.step env bucket key (.deleteObject input now)).Inv env bucket key := by
  unfold step
  dsimp only
  -- the slot of the key stays as it is or is emptied
  have hplain_slot : ∀ c, c = s.service.contents ∨
      Deletion env now (input.bypassGovernanceRetention.getD false) bucket s.service.contents c →
      c.Plain bucket ∧ (c.slot bucket key = s.service.contents.slot bucket key ∨
        ((c.slot bucket key).versions = [] ∧ (c.slot bucket key).body "null" = none)) := by
    rintro c (rfl | hdelete)
    · exact ⟨h.plain, .inl rfl⟩
    · exact ⟨h.plain.deletion hdelete, h.plain.slot_deletion key hdelete⟩
  obtain ⟨hplain, hslot⟩ := hplain_slot _ (@Effect.handleDeleteObject_deletion env now s.service
    { input with bucket, key })
  refine
    { plain := hplain
      regular := h.regular
      known := ?_
      marked := ?_
      settled := ?_
      reading := ?_
      genuine := h.genuine }
  · intro p hp
    obtain ⟨-, mark, hmem⟩ := mem_unmarked hp
    exact h.known (p.1, mark) hmem
  · intro p hp hmark
    rw [(mem_unmarked hp).1] at hmark
    exact absurd hmark Bool.false_ne_true
  · intro hnil
    dsimp only
    rcases hslot with hsame | hempty
    · rw [hsame]
      exact h.settled (map_eq_nil_iff.mp hnil)
    · exact .inl hempty
  · intro get hget
    obtain ⟨hputs, put, hput, hfollows⟩ := h.reading get hget
    refine ⟨by rw [hputs]; rfl, put, hput, { hfollows with body := ?_ }⟩
    intro stored hstored
    rcases hslot with hsame | ⟨-, hnone⟩
    · dsimp only at hstored
      rw [hsame] at hstored
      exact hfollows.body stored hstored
    · dsimp only at hstored
      rw [hnone] at hstored
      cases hstored

theorem Inv.step (h : s.Inv env bucket key) {e : Step} (he : s.Uncrossed bucket key e) :
    (s.step env bucket key e).Inv env bucket key := by
  cases e with
  | publishBody input upload => exact h.publishBody input upload he
  | publishObject i now => exact h.publishObject i now he
  | readMetadata request => exact h.readMetadata request he
  | readBody i => exact h.readBody i
  | deleteObject input now => exact h.deleteObject input now

theorem Inv.start {service : RustackS3} (hunused : Unused service bucket key) :
    (Calls.start service).Inv env bucket key where
  plain := hunused.plain
  regular := fun _ hput => absurd hput not_mem_nil
  known := fun _ hp => absurd hp not_mem_nil
  marked := fun _ hp => absurd hp not_mem_nil
  settled := by
    intro _
    left
    change (service.contents.slot bucket key).versions = [] ∧ _
    rw [show (Calls.start service).service = service from rfl, hunused.slot]
    exact ⟨rfl, rfl⟩
  reading := fun _ hget => absurd hget not_mem_nil
  genuine := fun _ ha => absurd ha not_mem_nil

theorem Inv.run (h : s.Inv env bucket key) {es : List Step}
    (hes : s.Orderly env bucket key es) : (s.run env bucket key es).Inv env bucket key := by
  induction es generalizing s with
  | nil => exact h
  | cons e es ih => exact ih (h.step hes.1) hes.2

/-- Calls that do not cross answer with the body of one put, and leave an object with its body. -/
theorem run_promise {service : RustackS3} (es : List Step) (hunused : Unused service bucket key)
    (hes : (Calls.start service).Orderly env bucket key es) :
    ((Calls.start service).run env bucket key es).Promise env bucket key := by
  have hinv := (Inv.start hunused).run hes
  exact ⟨hinv.genuine, fun hfinished => hinv.settled hfinished.1⟩

end Calls

/-- A service with one bucket and nothing in it. -/
def emptyPhotos : RustackS3 := (RustackS3.new 100).step plainEnv 0 (plainCreate "photos")

theorem emptyPhotos_unused (key : String) : Unused emptyPhotos "photos" key where
  plain := by
    refine ⟨⟨.disabled, .default⟩, rfl, by decide, rfl, fun _ key v hv => ?_⟩
    exact absurd hv not_mem_nil
  slot := rfl

/-- A put that carries some bytes and nothing else. -/
def plainBody (data : Bytes) : Step :=
  .publishBody
    { bucket := "", key := "", body := some data, contentMd5 := none, expires := none
      checksums := .none, headers := .none } none

def plainGet (range : Option String) : Step :=
  .readMetadata { bucket := "", key := "", versionId := none, range, streaming := false }

/-- The calls on a key of an empty bucket after some steps. -/
def plainCalls (es : List Step) : Calls := (Calls.start emptyPhotos).run plainEnv "photos" "cat" es

/-- One put after the other, and a get of a range. -/
theorem run_promise_twoPuts : (plainCalls
    [plainBody [1], .publishObject 0 0, plainBody [2, 2], .publishObject 0 0,
      plainGet (some "bytes=0-0"), .readBody 0]).Promise plainEnv "photos" "cat" := by
  have hmarked : ∀ es, ((plainCalls es).puts[0]?.map Prod.snd) = some true →
      ∀ put, (plainCalls es).puts[0]? = some (put, false) → (plainCalls es).puts.length ≠ 1 := by
    intro es hmark put hput
    rw [hput] at hmark
    cases hmark
  refine Calls.run_promise _ (emptyPhotos_unused "cat") ⟨rfl, ?_, rfl, ?_, ?_, trivial, trivial⟩
  · exact hmarked [plainBody [1]] (by decide +kernel)
  · exact hmarked [plainBody [1], .publishObject 0 0, plainBody [2, 2]] (by decide +kernel)
  · have hquiet : (plainCalls [plainBody [1], .publishObject 0 0, plainBody [2, 2],
        .publishObject 0 0]).puts.length = 0 := by
      decide +kernel
    exact .inl (length_eq_zero_iff.mp hquiet)

/-- Two puts that cross leave the object of the one over the body of the other. -/
theorem crossed_puts : ¬ ∀ env service bucket key es, Unused service bucket key →
    ((Calls.start service).run env bucket key es).Promise env bucket key := by
  intro h
  obtain ⟨hgenuine, -⟩ := h plainEnv emptyPhotos "photos" "cat"
    [plainBody [1], plainBody [2, 2], .publishObject 1 0, .publishObject 0 0, plainGet none,
      .readBody 0] (emptyPhotos_unused "cat")
  generalize hrun : (Calls.start emptyPhotos).run plainEnv "photos" "cat" _ = s at hgenuine
  have hanswers : s.answers.map (fun a => (a.etag, a.request.range, a.body)) =
      [("\"01\"", none, [2, 2])] := by
    rw [← hrun]
    decide +kernel
  obtain ⟨a, ha, heq⟩ := mem_map.mp (hanswers ▸ mem_singleton_self _ :
    ("\"01\"", none, [2, 2]) ∈ s.answers.map fun a => (a.etag, a.request.range, a.body))
  simp only [Prod.mk.injEq] at heq
  obtain ⟨put, hput, hetag, -, -, range, hrange, hbody⟩ := hgenuine a ha
  rw [heq.2.1] at hrange
  cases hrange
  have hdata : put.data = [2, 2] := hbody.symm.trans heq.2.2
  rw [heq.1, hdata] at hetag
  exact absurd hetag (by decide +kernel)

end Rustack.S3
