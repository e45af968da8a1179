import Mathlib.Data.List.AList
import Mathlib.Data.String.Basic
import Rustack.Kinesis.Readers
import Rustack.Lib.Paging

/-!
# The provider

The provider finds a stream by its name, and within it the shard of an iterator.  Its listings
come in pages: shards by the position of an id, and streams, tags and consumers in the order of
their names.
-/

namespace Rustack.Kinesis

open List Paging

structure ConsumerState where
  name : String
  arn : String
  creationTimestamp : ℤ
deriving DecidableEq

/-- A stream with its tags and its consumers. -/
structure StreamEntry where
  state : StreamState
  tags : AList fun _ : String => String
  consumers : AList fun _ : String => ConsumerState

structure RustackKinesis where
  streams : AList fun _ : String => StreamEntry
  defaultAccountId : String

def i32ToUsize (v : ℤ) : ℕ := (max v 0).toNat

/-- Names in order. -/
def sorted (names : List String) : List String := names.mergeSort fun a b => decide (a ≤ b)

/-- The position of the first name behind this one. -/
def startAfter (names : List String) : Option String → ℕ
  | none => 0
  | some name => names.findIdx fun n => decide (name < n)

/-- The position behind the shard with this id, or the first if there is none. -/
def startAfterShard (shards : List ShardInfo) : Option String → ℕ
  | none => 0
  | some shardId =>
    match shards.findIdx? fun shard => decide (shard.shardId = shardId) with
    | some pos => pos + 1
    | none => 0

inductive ShardFilter where
  | afterShardId (shardId : Option String)
  | atLatest
  | atTrimHorizon
  | fromTrimHorizon
  | atTimestamp
  | fromTimestamp
deriving DecidableEq

/-- The shards that a filter leaves. -/
def ShardFilter.apply (shards : List ShardInfo) : ShardFilter → List ShardInfo
  | .afterShardId (some shardId) =>
    match shards.findIdx? fun shard => decide (shard.shardId = shardId) with
    | some pos => shards.drop (pos + 1)
    | none => shards
  | .atLatest => shards.filter fun shard => shard.endingSequenceNumber.isNone
  | _ => shards

namespace RustackKinesis

open StreamState

def validateStreamName (name : String) : Except KinesisError Unit :=
  if name.utf8ByteSize = 0 ∨ 128 < name.utf8ByteSize then
    .error (invalid "Stream name must be between 1 and 128 characters")
  else .ok ()

def getStream (p : RustackKinesis) (name : String) : Except KinesisError StreamEntry :=
  match p.streams.lookup name with
  | some stream => .ok stream
  | none =>
    .error (notFound ("Stream " ++ name ++ " under account " ++ p.defaultAccountId ++
      " not found."))

/-! ## Iterators -/

/-- The stream, the shard and the position that a call with an iterator reads. -/
def readTarget (display : TokenError → String) (p : RustackKinesis) (shardIterator : String) :
    Except KinesisError (String × ShardHandle × ℕ) :=
  match ShardIteratorToken.decode shardIterator with
  | .error e => .error (invalid ("Invalid shard iterator: " ++ display e))
  | .ok token => do
    let stream ← p.getStream token.streamName
    match findShardHandleAny stream.state.activeShards stream.state.closedShardHandles
        token.shardId with
    | some handle => .ok (token.streamName, handle, token.position)
    | none =>
      .error (notFound ("Shard " ++ token.shardId ++ " not found in stream " ++ token.streamName))

theorem streamName_of_decode {encoded : String} {token : ShardIteratorToken}
    (h : ShardIteratorToken.decode encoded = .ok token) : ':' ∉ token.streamName.toList := by
  unfold ShardIteratorToken.decode at h
  split at h
  · cases h
  next bytes hbytes =>
  split at h
  · cases h
  next text htext =>
  unfold ShardIteratorToken.ofParts at h
  split at h
  · next streamName shardId position nonce hparts =>
      split at h
      · cases h
      next position hposition =>
      cases h
      rw [String.toList_ofList]
      exact Text.notMem_head_splitN (by rw [hparts]; rfl)
  · cases h

/-- A token is read back, and reads the shard that it was issued for. -/
def Issued (token : ShardIteratorToken) : Prop :=
  ShardIteratorToken.decode token.encode = .ok token ∧
    ∀ display p stream handle, getStream p token.streamName = .ok stream →
      findShardHandleAny stream.state.activeShards stream.state.closedShardHandles token.shardId =
        some handle →
      p.readTarget display token.encode = .ok (token.streamName, handle, token.position)

/-- Tokens are good exactly where the name of the stream has no colon. -/
theorem issued_iff {token : ShardIteratorToken} {n : ℕ} (hshard : token.shardId = formatShardId n)
    (hposition : token.position < USIZE) : Issued token ↔ ':' ∉ token.streamName.toList := by
  constructor
  · intro h
    exact streamName_of_decode h.1
  · intro hname
    have hcolon : ':' ∉ token.shardId.toList := by
      rw [hshard]
      exact World.colon_not_mem_formatShardId n
    have hdecode := ShardIteratorToken.decode_encode hname hcolon hposition
    refine ⟨hdecode, fun display p stream handle hstream hhandle => ?_⟩
    unfold readTarget
    rw [hdecode]
    dsimp only
    rw [hstream]
    change (match findShardHandleAny _ _ _ with
      | some handle => Except.ok (token.streamName, handle, token.position)
      | none => _) = _
    rw [hhandle]

/-- The token of a stream, at its first shard. -/
def firstToken (streamName : String) : ShardIteratorToken where
  streamName := streamName
  shardId := formatShardId 0
  position := 7
  nonce := "a:b"

theorem issued_orders : Issued (firstToken "orders") ↔ ':' ∉ "orders".toList :=
  issued_iff (show (firstToken "orders").shardId = formatShardId 0 from rfl) (by decide)

/-- A stream may have a colon in its name, and its iterators are not read back. -/
theorem not_issued_colon : ¬ ∀ streamName shardId position nonce n,
    validateStreamName streamName = .ok () → shardId = formatShardId n → position < USIZE →
      Issued ⟨streamName, shardId, position, nonce⟩ := by
  intro h
  have hissued := h "a:b" (formatShardId 0) 7 "nonce" 0 (by decide) rfl (by decide)
  exact streamName_of_decode hissued.1 (by decide)

/-! ## Listings -/

def describeStream (p : RustackKinesis) (name : String) (limit : Option ℤ)
    (exclusiveStartShardId : Option String) : Except KinesisError (List ShardInfo × Bool) := do
  let stream ← p.getStream name
  let allShards := stream.state.shards
  return Paging.slice allShards (i32ToUsize (limit.getD 100))
    (startAfterShard allShards exclusiveStartShardId)

def listStreams (p : RustackKinesis) (limit : Option ℤ) (exclusiveStartStreamName : Option String) :
    List String × Bool :=
  let names := sorted p.streams.keys
  Paging.slice names (i32ToUsize (limit.getD 100)) (startAfter names exclusiveStartStreamName)

def listTagsForStream (p : RustackKinesis) (name : String) (limit : Option ℤ)
    (exclusiveStartTagKey : Option String) :
    Except KinesisError (List (String × Option String) × Bool) := do
  let stream ← p.getStream name
  let tagKeys := sorted stream.tags.keys
  let (page, hasMore) := Paging.slice tagKeys (i32ToUsize (limit.getD 50))
    (startAfter tagKeys exclusiveStartTagKey)
  return (page.map fun k => (k, stream.tags.lookup k), hasMore)

/-- A token names the last shard of the page before, and counts before an id to start behind. -/
def listShards (p : RustackKinesis) (name : String) (maxResults : Option ℤ)
    (shardFilter : Option ShardFilter) (exclusiveStartShardId nextToken : Option String) :
    Except KinesisError (List ShardInfo × Option String) := do
  let stream ← p.getStream name
  let allShards := match shardFilter with
    | some filter => filter.apply stream.state.shards
    | none => stream.state.shards
  return Paging.nextByLast allShards (i32ToUsize (maxResults.getD 100)) ShardInfo.shardId
    (startAfterShard allShards) (nextToken.or exclusiveStartShardId)

/-- A token names the first consumer of the next page. -/
def listStreamConsumers (p : RustackKinesis) (name : String) (maxResults : Option ℤ)
    (nextToken : Option String) : Except KinesisError (List ConsumerState × Option String) := do
  let stream ← p.getStream name
  let consumerNames := sorted stream.consumers.keys
  let (page, next) := Paging.nextByFirst consumerNames (i32ToUsize (maxResults.getD 100)) id
    (startAfter consumerNames) nextToken
  return (page.filterMap fun n => stream.consumers.lookup n, next)

/-! ## Following a listing -/

/-- No page fails, and the pages of a listing, put together by a caller who follows it from the
start, are some list of elements. -/
def Covers {α : Type} (pages : Option String → Except KinesisError (List α × Option String))
    (all : List α) : Prop :=
  (∀ cursor, (pages cursor).isOk = true) ∧ ∃ fuel items,
    Paging.follow (fun _ cursor => (pages cursor).toOption.getD ([], none)) fuel 0 none =
      some items ∧ items.Perm all

/-- Where more is to come, the caller goes on behind the last element. -/
def byMore {α : Type} (key : α → String) : List α × Bool → List α × Option String
  | (items, more) => (items, if more then items.getLast?.map key else none)

/-- The five listings of a stream give all that there is once. -/
structure ListsAll (p : RustackKinesis) (name : String) (stream : StreamEntry) (limit : ℤ) :
    Prop where
  shards : Covers (fun cursor => (p.describeStream name (some limit) cursor).map
    (byMore ShardInfo.shardId)) stream.state.shards
  filtered : ∀ shardFilter, Covers (p.listShards name (some limit) shardFilter none)
    (match shardFilter with
      | some filter => filter.apply stream.state.shards
      | none => stream.state.shards)
  streams : Covers (fun cursor => .ok (byMore id (p.listStreams (some limit) cursor)))
    p.streams.keys
  tags : Covers (fun cursor => (p.listTagsForStream name (some limit) cursor).map (byMore Prod.fst))
    (stream.tags.keys.map fun k => (k, stream.tags.lookup k))
  consumers : Covers (p.listStreamConsumers name (some limit))
    (stream.consumers.keys.filterMap stream.consumers.lookup)

/-! ## Where a page begins -/

theorem pairwise_sorted {names : List String} (h : names.Nodup) :
    (sorted names).Pairwise (· < ·) := by
  have hle : (sorted names).Pairwise fun a b => decide (a ≤ b) = true := by
    refine pairwise_mergeSort (fun a b c hab hbc => ?_) (fun a b => ?_) _
    · simp only [decide_eq_true_eq] at hab hbc ⊢
      exact hab.trans hbc
    · simpa using le_total a b
  have hne : (sorted names).Nodup := (mergeSort_perm _ _).nodup_iff.mpr h
  refine (hle.and hne).imp fun {a b} hab => ?_
  exact lt_of_le_of_ne (of_decide_eq_true hab.1) hab.2

theorem startAfter_behind {names : List String} (h : names.Pairwise (· < ·)) :
    Paging.Behind names id (startAfter names) := by
  intro i name hname
  obtain ⟨hi, rfl⟩ := List.getElem?_eq_some_iff.mp hname
  change names.findIdx (fun n => decide (names[i] < n)) = i + 1
  have hlt : ∀ j (hj : j < names.length), decide (names[i] < names[j]) = true ↔ i < j := by
    intro j hj
    rw [decide_eq_true_eq]
    constructor
    · intro hless
      by_contra hle
      rcases Nat.lt_or_eq_of_le (Nat.le_of_not_lt hle) with hji | rfl
      · exact lt_asymm hless (pairwise_iff_getElem.mp h j i hj hi hji)
      · exact lt_irrefl _ hless
    · intro hij
      exact pairwise_iff_getElem.mp h i j hi hj hij
  by_cases hnext : i + 1 < names.length
  · refine (findIdx_eq hnext).mpr ⟨(hlt _ hnext).mpr (Nat.lt_succ_self i), fun j hj => ?_⟩
    rw [Bool.eq_false_iff, ne_eq, hlt]
    omega
  · rw [findIdx_eq_length_of_false fun name' hmem => ?_]
    · omega
    · obtain ⟨j, hj, rfl⟩ := getElem_of_mem hmem
      rw [Bool.eq_false_iff, ne_eq, hlt]
      omega

theorem startAfterShard_behind {shards : List ShardInfo} (h : (shards.map (·.shardId)).Nodup) :
    Paging.Behind shards ShardInfo.shardId (startAfterShard shards) := by
  intro i shard hshard
  obtain ⟨hi, rfl⟩ := List.getElem?_eq_some_iff.mp hshard
  have hfind : shards.findIdx? (fun other => decide (other.shardId = shards[i].shardId)) =
      some i := by
    refine List.findIdx?_eq_some_iff_getElem.mpr ⟨hi, decide_eq_true rfl, fun j hj => ?_⟩
    rw [decide_eq_true_eq]
    exact pairwise_iff_getElem.mp (pairwise_map.mp h) j i (hj.trans hi) hi hj
  unfold startAfterShard
  dsimp only
  rw [hfind]

theorem nodup_filter {shards : List ShardInfo} (h : (shards.map (·.shardId)).Nodup)
    (filter : ShardFilter) : ((filter.apply shards).map (·.shardId)).Nodup := by
  have hsub : (filter.apply shards).Sublist shards := by
    unfold ShardFilter.apply
    split
    · split
      · exact drop_sublist _ _
      · exact List.Sublist.refl _
    · exact filter_sublist
    · exact List.Sublist.refl _
  exact h.sublist (hsub.map _)

/-! ## Listings that cover everything -/

variable {p : RustackKinesis} {name : String} {stream : StreamEntry} {limit : ℤ}

theorem limit_pos (h : 0 < limit) : 0 < i32ToUsize limit := by
  unfold i32ToUsize
  omega

theorem covers_byLast {α : Type} {xs : List α} {key : α → String} {startOf : Option String → ℕ}
    {n : ℕ} (pages : Option String → Except KinesisError (List α × Option String))
    (hbehind : Paging.Behind xs key startOf) (hstart : startOf none = 0) (hn : 0 < n)
    (hpages : ∀ cursor, pages cursor = .ok (nextByLast xs n key startOf cursor)) :
    Covers pages xs := by
  refine ⟨fun cursor => by rw [hpages]; rfl, xs.length + 1, xs, ?_, List.Perm.refl xs⟩
  have hsame : (fun (_ : ℕ) cursor => (pages cursor).toOption.getD ([], none)) =
      fun _ => nextByLast xs n key startOf :=
    funext fun _ => funext fun cursor => by rw [hpages]; rfl
  rw [hsame]
  exact follow_byLast hbehind hstart hn (Nat.lt_succ_self _)

theorem covers_streams (hlimit : 0 < limit) :
    Covers (fun cursor => .ok (byMore id (p.listStreams (some limit) cursor))) p.streams.keys := by
  have hsorted := pairwise_sorted p.streams.keys_nodup
  obtain ⟨hok, fuel, items, hitems, hperm⟩ := covers_byLast
    (fun cursor => .ok (byMore id (p.listStreams (some limit) cursor)))
    (startAfter_behind hsorted) rfl (limit_pos hlimit) fun _ => rfl
  exact ⟨hok, fuel, items, hitems, hperm.trans (mergeSort_perm _ _)⟩

theorem covers_tags (hstream : p.getStream name = .ok stream) (hlimit : 0 < limit) :
    Covers (fun cursor => (p.listTagsForStream name (some limit) cursor).map (byMore Prod.fst))
      (stream.tags.keys.map fun k => (k, stream.tags.lookup k)) := by
  have hsorted := pairwise_sorted stream.tags.keys_nodup
  have hbehind : Paging.Behind ((sorted stream.tags.keys).map fun k => (k, stream.tags.lookup k))
      Prod.fst (startAfter (sorted stream.tags.keys)) := by
    intro i tag htag
    rw [getElem?_map, Option.map_eq_some_iff] at htag
    obtain ⟨k, hk, rfl⟩ := htag
    exact startAfter_behind hsorted i k hk
  obtain ⟨hok, fuel, items, hitems, hperm⟩ := covers_byLast
    (fun cursor => (p.listTagsForStream name (some limit) cursor).map (byMore Prod.fst))
    hbehind rfl (limit_pos hlimit) fun cursor => by
    unfold listTagsForStream
    rw [hstream]
    unfold nextByLast slice
    rw [length_map, ← map_drop, ← map_take]
    rfl
  exact ⟨hok, fuel, items, hitems, hperm.trans ((mergeSort_perm _ _).map _)⟩

/-- All consumers are listed exactly where they fit in one page. -/
theorem covers_consumers_iff (hstream : p.getStream name = .ok stream) :
    Covers (p.listStreamConsumers name (some limit))
        (stream.consumers.keys.filterMap stream.consumers.lookup) ↔
      stream.consumers.keys.length ≤ i32ToUsize limit := by
  have hsorted := pairwise_sorted stream.consumers.keys_nodup
  have hbehind := startAfter_behind hsorted
  have hperm : (sorted stream.consumers.keys).Perm stream.consumers.keys := mergeSort_perm _ _
  have hlookup : ∀ names : List String, (∀ n ∈ names, n ∈ stream.consumers.keys) →
      (names.filterMap stream.consumers.lookup).length = names.length := by
    intro names
    induction names with
    | nil => exact fun _ => rfl
    | cons n names ih =>
        intro hmem
        obtain ⟨state, hstate⟩ := Option.isSome_iff_exists.mp
          (AList.lookup_isSome.mpr (AList.mem_keys.mp (hmem n (.head _))))
        rw [filterMap_cons_some (f := fun n => stream.consumers.lookup n) hstate,
          length_cons, length_cons, ih fun m hm => hmem m (.tail _ hm)]
  have hpages : (fun (_ : ℕ) cursor =>
      (p.listStreamConsumers name (some limit) cursor).toOption.getD ([], none)) =
      fun i cursor =>
        (((fun _ => nextByFirst (sorted stream.consumers.keys) (i32ToUsize limit) id
          (startAfter (sorted stream.consumers.keys))) i cursor).1.filterMap
            stream.consumers.lookup,
          ((fun _ => nextByFirst (sorted stream.consumers.keys) (i32ToUsize limit) id
            (startAfter (sorted stream.consumers.keys))) i cursor).2) :=
    funext fun _ => funext fun cursor => by
      unfold listStreamConsumers
      rw [hstream]
      rfl
  unfold Covers
  simp only [hpages, follow_filterMap]
  constructor
  · rintro ⟨-, fuel, items, hitems, hall⟩
    obtain ⟨names, hnames, rfl⟩ := Option.map_eq_some_iff.mp hitems
    by_contra hlong
    have hlength := hall.length_eq
    rw [hlookup _ fun _ h => h] at hlength
    have hless := follow_byFirst_length_le hbehind hnames
      (by change 0 + _ < _; rw [hperm.length_eq]; omega)
    have hle := length_filterMap_le stream.consumers.lookup names
    rw [hperm.length_eq] at hless
    omega
  · intro hshort
    refine ⟨fun cursor => ?_, 1, _, ?_, hperm.filterMap _⟩
    · unfold listStreamConsumers
      rw [hstream]
      rfl
    rw [follow_byFirst rfl (by rw [hperm.length_eq]; exact hshort) Nat.one_pos]
    rfl

/-- A stream without shards stays without them. -/
theorem run_of_no_shards {s : StreamState} (h : s.activeShards = []) (calls : List Call) :
    s.run calls = s := by
  induction calls with
  | nil => rfl
  | cons c calls ih =>
      have hnone : ∀ {shardId : String} {place : ℕ × ShardHandle},
          s.handleAt shardId ≠ .ok place := by
        intro shardId place hplace
        have hget := (handleAt_ok hplace).2.1
        rw [h] at hget
        cases hget
      have hcall : (s.call c).2 = s := by
        rcases call_cases s c with ⟨error, -, hcall⟩ | ⟨reshard, s', _, _, hbegin, -, -⟩
        · rw [hcall]
        · cases c with
          | splitShard shard key ending millis =>
              obtain ⟨_, _, hplace, -⟩ := beginSplit_ok hbegin
              exact absurd hplace hnone
          | mergeShards shard adjacent ending₁ ending₂ millis =>
              obtain ⟨_, _, _, _, hplace, -⟩ := beginMerge_ok hbegin
              exact absurd hplace hnone
      exact (congrArg (fun s => StreamState.run s calls) hcall).trans ih

theorem nodup_shards {n : ℕ} {created : StreamState} {retentionPeriod creationMillis : Millis}
    (hlt : n < 2 ^ 32) (hcreate : create name n retentionPeriod creationMillis = some created)
    (calls : List Call) (hfew : (created.run calls).shards.length ≤ 2 ^ 32) :
    ((created.run calls).shards.map (·.shardId)).Nodup := by
  rcases Nat.eq_zero_or_pos n with rfl | hpos
  · cases hcreate
    rw [run_of_no_shards rfl]
    exact nodup_nil
  · obtain ⟨s, hs, hcreated⟩ := create_created hpos hlt name retentionPeriod creationMillis
    obtain rfl := Option.some.inj (hs.symm.trans hcreate)
    exact (run_kept hcreated.kept calls).numbered.nodup hfew

/-- The listings of a stream that has been created and resharded any number of times give all
exactly where all consumers fit in one page. -/
theorem listsAll_iff {n : ℕ} {created : StreamState} {retentionPeriod creationMillis : Millis}
    {streamName : String} {calls : List Call} (hlt : n < 2 ^ 32)
    (hcreate : create streamName n retentionPeriod creationMillis = some created)
    (hstate : stream.state = created.run calls) (hfew : stream.state.shards.length ≤ 2 ^ 32)
    (hstream : p.getStream name = .ok stream) (hlimit : 0 < limit) :
    ListsAll p name stream limit ↔ stream.consumers.keys.length ≤ i32ToUsize limit := by
  rw [← covers_consumers_iff hstream]
  refine ⟨ListsAll.consumers, fun hconsumers => ?_⟩
  have hnodup : (stream.state.shards.map (·.shardId)).Nodup := by
    rw [hstate] at hfew ⊢
    exact nodup_shards hlt hcreate calls hfew
  refine ⟨?_, fun shardFilter => ?_, covers_streams hlimit, covers_tags hstream hlimit, hconsumers⟩
  · refine covers_byLast _ (startAfterShard_behind hnodup) rfl (limit_pos hlimit) fun cursor => ?_
    unfold describeStream
    rw [hstream]
    rfl
  · cases shardFilter with
    | none =>
        refine covers_byLast _ (startAfterShard_behind hnodup) rfl (limit_pos hlimit)
          fun cursor => ?_
        unfold listShards
        rw [hstream, Option.or_none]
        rfl
    | some filter =>
        refine covers_byLast _ (startAfterShard_behind (nodup_filter hnodup filter)) rfl
          (limit_pos hlimit) fun cursor => ?_
        unfold listShards
        rw [hstream, Option.or_none]
        rfl

/-- A stream with consumers of these names. -/
def withConsumers (s : StreamState) (names : List String) : StreamEntry where
  state := s
  tags := ∅
  consumers := names.foldr (fun n consumers => consumers.insert n ⟨n, n, 0⟩) ∅

/-- A provider with one stream. -/
def withStream (stream : StreamEntry) : RustackKinesis where
  streams := (∅ : AList fun _ : String => StreamEntry).insert "orders" stream
  defaultAccountId := "000000000000"

theorem getStream_withStream (stream : StreamEntry) :
    (withStream stream).getStream "orders" = .ok stream := by
  have hlookup : (withStream stream).streams.lookup "orders" = some stream :=
    AList.lookup_insert ∅
  unfold getStream
  rw [hlookup]

theorem listsAll_three_consumers : ∃ s, create "orders" 2 86400000 0 = some s ∧
    ∀ limit : ℤ, 0 < limit → (ListsAll (withStream (withConsumers s ["b", "c", "a"])) "orders"
      (withConsumers s ["b", "c", "a"]) limit ↔ 3 ≤ i32ToUsize limit) := by
  obtain ⟨s, hs, hcreated⟩ := create_created (by decide : 0 < 2) (by decide) "orders" 86400000 0
  have hshards : s.shards.length = 2 := by
    rw [← hcreated.kept.numbered.counted, hcreated.actors, length_map, length_range]
  refine ⟨s, hs, fun limit hlimit => listsAll_iff (by decide) hs (show _ = s.run [] from rfl) ?_
    (getStream_withStream _) hlimit⟩
  change s.shards.length ≤ 2 ^ 32
  rw [hshards]
  decide

/-- Of two consumers, one to a page, the second is never listed. -/
theorem consumer_never_listed : ¬ ∀ s (p : RustackKinesis) name stream (limit : ℤ),
    create "orders" 2 86400000 0 = some s → stream.state = s → p.getStream name = .ok stream →
      0 < limit → ListsAll p name stream limit := by
  intro h
  obtain ⟨s, hs, -⟩ := create_created (by decide : 0 < 2) (by decide) "orders" 86400000 0
  have hlists := h s _ "orders" (withConsumers s ["a", "b"]) 1 hs rfl (getStream_withStream _)
    (by decide)
  have hfits := (covers_consumers_iff (getStream_withStream _)).mp hlists.consumers
  have htwo : (withConsumers s ["a", "b"]).consumers.keys.length = 2 := rfl
  rw [htwo] at hfits
  exact absurd hfits (by decide)

end RustackKinesis

end Rustack.Kinesis
