import Mathlib.Data.List.Nodup
import Mathlib.Data.List.Perm.Basic
import Mathlib.Data.List.Range
import Mathlib.Order.SuccPred.Basic
import Rustack.Kinesis.Stream
import Rustack.Lib.Outcome

/-!
# Splits and merges

A reshard takes its parents out of the open shards and puts in children whose ranges cover the
same keys, so the open shards tile the keys in every state.  Every shard has a number, the one
of its actor, and its id shows it.
-/

namespace Rustack.Kinesis

open List HashKeyRange
open ShardHandle (spawn)

/-- The keys of a list of handles. -/
def intervals (handles : List ShardHandle) : List (HashKey × HashKey) :=
  handles.map fun handle => handle.info.range.interval

theorem covBy_of_succ {a b : HashKey} (h : a.val + 1 = b.val) : a ⋖ b := by
  refine ⟨Fin.lt_def.mpr (by omega), fun c hac hcb => ?_⟩
  have hac := Fin.lt_def.mp hac
  have hcb := Fin.lt_def.mp hcb
  omega

theorem checkedAdd_eq_some {a b : HashKey} {n : ℕ} :
    a.checkedAdd n = some b ↔ a.val + n = b.val := by
  unfold HashKey.checkedAdd u128
  constructor
  · intro h
    split at h
    · cases h
      rfl
    · cases h
  · intro h
    have hlt : a.val + n < KEY_SPACE := h ▸ b.isLt
    rw [dif_pos hlt]
    exact congrArg some (Fin.ext h)

/-- A key that is not the first has one before it. -/
theorem checkedSub_one {a b : HashKey} (h : a < b) (default : HashKey) :
    ((b.checkedSub 1).getD default).val + 1 = b.val := by
  have hpos : 1 ≤ b.val := Nat.succ_le_of_lt (Nat.zero_lt_of_lt (Fin.lt_def.mp h))
  have hlt : b.val - 1 < KEY_SPACE := Nat.lt_of_le_of_lt (Nat.sub_le _ _) b.isLt
  unfold HashKey.checkedSub
  rw [if_pos hpos, u128_of_lt hlt]
  exact Nat.sub_add_cancel hpos

namespace StreamState

variable {s s' : StreamState} {shardId : String} {i : ℕ} {handle : ShardHandle}

/-! ## Calls -/

/-- A call, with what the parents answer and the time the clock shows. -/
inductive Call where
  | splitShard (shardToSplit newStartingHashKey : String) (ending : Option String)
      (creationMillis : Millis)
  | mergeShards (shardToMerge adjacentShardToMerge : String) (ending₁ ending₂ : Option String)
      (creationMillis : Millis)
deriving DecidableEq

/-- The checks of a call. -/
def begin' (s : StreamState) : Call → Except KinesisError (Reshard × StreamState)
  | .splitShard shard key _ _ => s.beginSplit shard key
  | .mergeShards shard adjacent _ _ _ => s.beginMerge shard adjacent

def call (s : StreamState) : Call → Except KinesisError Unit × StreamState
  | .splitShard shard key ending millis => s.splitShard shard key [ending] millis
  | .mergeShards shard adjacent ending₁ ending₂ millis =>
    s.mergeShards shard adjacent [ending₁, ending₂] millis

/-! ## What a call does -/

theorem handleAt_ok (h : s.handleAt shardId = .ok (i, handle)) :
    s.indexOf shardId = .ok i ∧ s.activeShards[i]? = some handle ∧
      handle.info.shardId = shardId := by
  obtain ⟨j, hj, h⟩ := Except.bind_eq_ok.mp h
  unfold indexOf at hj
  split at hj
  · cases hj
  · next index hindex =>
      cases hj
      split at h
      · cases h
      · next found hfound =>
          obtain ⟨rfl, rfl⟩ := Prod.mk.inj (Except.ok.inj h)
          obtain ⟨hlt, hid, -⟩ := List.findIdx?_eq_some_iff_getElem.mp hindex
          obtain ⟨_, rfl⟩ := List.getElem?_eq_some_iff.mp hfound
          refine ⟨?_, hfound, of_decide_eq_true hid⟩
          unfold indexOf
          rw [hindex]

/-- What the checks of a split let through. -/
theorem beginSplit_ok {reshard : Reshard} {shardToSplit newStartingHashKey : String}
    (h : s.beginSplit shardToSplit newStartingHashKey = .ok (reshard, s')) :
    ∃ i parent, s.handleAt shardToSplit = .ok (i, parent) ∧
      ∃ childEnd newHash : HashKey, childEnd.val + 1 = newHash.val ∧
        parent.info.range.start < newHash ∧ newHash ≤ parent.info.range.end ∧
        reshard =
          { parents := [parent]
            children := [⟨parent.info.range.start, childEnd⟩, ⟨newHash, parent.info.range.end⟩]
            parentShardId := parent.info.shardId
            adjacentParentShardId := none } ∧
        s' = { s with activeShards := s.activeShards.eraseIdx i } := by
  unfold beginSplit at h
  split at h
  · cases h
  · next newHash hhash =>
      obtain ⟨⟨i, parent⟩, hparent, h⟩ := Except.bind_eq_ok.mp h
      refine ⟨i, parent, hparent, ?_⟩
      dsimp only at h
      split at h
      · cases h
      · next hinside =>
          cases h
          obtain ⟨hstart, hend⟩ := not_or.mp hinside
          have hstart := lt_of_not_ge hstart
          exact ⟨_, newHash, checkedSub_one hstart _, hstart, le_of_not_gt hend, rfl, rfl⟩

/-- What the checks of a merge let through.  The handles are removed in the order of their
indices. -/
theorem beginMerge_ok {reshard : Reshard} {shardToMerge adjacentShardToMerge : String}
    (h : s.beginMerge shardToMerge adjacentShardToMerge = .ok (reshard, s')) :
    ∃ i₁ handle₁ i₂ handle₂, s.handleAt shardToMerge = .ok (i₁, handle₁) ∧
      s.handleAt adjacentShardToMerge = .ok (i₂, handle₂) ∧
      (handle₁.info.range.end.val + 1 = handle₂.info.range.start.val ∨
        handle₂.info.range.end.val + 1 = handle₁.info.range.start.val) ∧
      ∃ first second,
        (i₂ < i₁ ∧ first = handle₁ ∧ second = handle₂ ∧
            s'.activeShards = (s.activeShards.eraseIdx i₁).eraseIdx i₂ ∨
          ¬i₂ < i₁ ∧ first = handle₂ ∧ second = handle₁ ∧
            s'.activeShards = (s.activeShards.eraseIdx i₂).eraseIdx i₁) ∧
        s' = { s with activeShards := s'.activeShards } ∧
        reshard.parents = [first, second] ∧
        reshard.children =
          [⟨min handle₁.info.range.start handle₂.info.range.start,
            max handle₁.info.range.end handle₂.info.range.end⟩] ∧
        (handle₁.info.range.start < handle₂.info.range.start →
          reshard.parentShardId = first.info.shardId ∧
            reshard.adjacentParentShardId = some second.info.shardId) ∧
        (¬handle₁.info.range.start < handle₂.info.range.start →
          reshard.parentShardId = second.info.shardId ∧
            reshard.adjacentParentShardId = some first.info.shardId) := by
  obtain ⟨⟨i₁, handle₁⟩, h₁, h⟩ := Except.bind_eq_ok.mp h
  obtain ⟨⟨i₂, handle₂⟩, h₂, h⟩ := Except.bind_eq_ok.mp h
  refine ⟨i₁, handle₁, i₂, handle₂, h₁, h₂, ?_⟩
  dsimp only at h
  split at h
  · cases h
  · next hadjacent =>
      cases h
      rw [not_and_or, not_not, not_not, checkedAdd_eq_some, checkedAdd_eq_some] at hadjacent
      refine ⟨hadjacent, ?_⟩
      by_cases horder : i₂ < i₁
      · refine ⟨handle₁, handle₂, .inl ⟨horder, rfl, rfl, ?_⟩, rfl, ?_, rfl, ?_⟩
        · simp only [if_pos horder]
        · simp only [if_pos horder]
        · simp only [if_pos horder]
          constructor <;> intro hlower <;> simp only [hlower, if_true, if_false, and_self]
      · refine ⟨handle₂, handle₁, .inr ⟨horder, rfl, rfl, ?_⟩, rfl, ?_, rfl, ?_⟩
        · simp only [if_neg horder]
        · simp only [if_neg horder]
        · simp only [if_neg horder]
          constructor <;> intro hlower <;> simp only [hlower, if_true, if_false, and_self]

/-! ## Parents and children -/

/-- The parents leave the open shards, and the children cover the keys of the parents. -/
structure Replaces (s : StreamState) (reshard : Reshard) (s' : StreamState) : Prop where
  frame : s' = { s with activeShards := s'.activeShards }
  perm : s.activeShards.Perm (reshard.parents ++ s'.activeShards)
  tiles : Tiles (intervals s'.activeShards ++ reshard.children.map HashKeyRange.interval)
  within : ∀ range ∈ reshard.children, ∀ key, range.contains key = true →
    ∃ parent ∈ reshard.parents, parent.info.range.contains key = true
  named : ∀ id, some reshard.parentShardId = some id ∨ reshard.adjacentParentShardId = some id →
    ∃ parent ∈ reshard.parents, parent.info.shardId = id

theorem perm_eraseIdx {handles : List ShardHandle} (h : handles[i]? = some handle) :
    handles.Perm (handle :: handles.eraseIdx i) := by
  obtain ⟨hlt, rfl⟩ := List.getElem?_eq_some_iff.mp h
  exact (List.getElem_cons_eraseIdx_perm hlt).symm

theorem perm_eraseIdx_eraseIdx {handles : List ShardHandle} {j : ℕ} {first second : ShardHandle}
    (hi : handles[i]? = some first) (hj : handles[j]? = some second) (hlt : j < i) :
    handles.Perm (first :: second :: (handles.eraseIdx i).eraseIdx j) := by
  refine (perm_eraseIdx hi).trans (List.Perm.cons first (perm_eraseIdx ?_))
  rw [getElem?_eraseIdx_of_lt hlt]
  exact hj

theorem beginSplit_replaces {reshard : Reshard} {shardToSplit newStartingHashKey : String}
    (htiles : Tiles (intervals s.activeShards))
    (h : s.beginSplit shardToSplit newStartingHashKey = .ok (reshard, s')) :
    Replaces s reshard s' := by
  obtain ⟨i, parent, hparent, childEnd, newHash, hsucc, hstart, hend, rfl, rfl⟩ := beginSplit_ok h
  have hperm := perm_eraseIdx (handleAt_ok hparent).2.1
  have hcover := covBy_of_succ hsucc
  have hle : parent.info.range.start ≤ childEnd := hcover.le_of_lt hstart
  refine ⟨rfl, hperm, ?_, ?_, ?_⟩
  · have hcut := (htiles.perm (hperm.map _)).cut hcover hle hend
    exact hcut.perm (@List.perm_append_comm _ [_, _] _)
  · intro range hrange key hkey
    refine ⟨parent, mem_singleton_self _, contains_iff.mpr ?_⟩
    rcases mem_pair.mp hrange with rfl | rfl
    · obtain ⟨hlow, hhigh⟩ := contains_iff.mp hkey
      exact ⟨hlow, hhigh.trans (hcover.le.trans hend)⟩
    · obtain ⟨hlow, hhigh⟩ := contains_iff.mp hkey
      exact ⟨hstart.le.trans hlow, hhigh⟩
  · rintro id (hid | hid)
    · exact ⟨parent, mem_singleton_self _, Option.some.inj hid⟩
    · cases hid

/-- Two neighbours, the one with the lower keys first, and the range that they become. -/
theorem join_neighbours {lower upper : ShardHandle} {rest : List ShardHandle}
    (htiles : Tiles (intervals (lower :: upper :: rest)))
    (hsucc : lower.info.range.end.val + 1 = upper.info.range.start.val) :
    Tiles (intervals rest ++ [(lower.info.range.start, upper.info.range.end)]) ∧
      (∀ key, (⟨lower.info.range.start, upper.info.range.end⟩ : HashKeyRange).contains key = true →
        lower.info.range.contains key = true ∨ upper.info.range.contains key = true) := by
  have hcover := covBy_of_succ hsucc
  refine ⟨(htiles.join hcover).perm (@List.perm_append_comm _ [_] _), fun key hkey => ?_⟩
  obtain ⟨hlow, hhigh⟩ := contains_iff.mp hkey
  rw [contains_iff, contains_iff]
  rcases le_or_gt key lower.info.range.end with hle | hlt
  · exact .inl ⟨hlow, hle⟩
  · exact .inr ⟨hcover.ge_of_gt hlt, hhigh⟩

/-- What a merge of two neighbours does.  The ids of the parents follow the order of the
handles, their ranges that of the request. -/
structure Joins (s : StreamState) (i₁ i₂ : ℕ) (lower upper : ShardHandle) (reshard : Reshard)
    (s' : StreamState) : Prop where
  frame : s' = { s with activeShards := s'.activeShards }
  perm : s.activeShards.Perm (reshard.parents ++ s'.activeShards)
  parents : reshard.parents.Perm [lower, upper]
  succ : lower.info.range.end.val + 1 = upper.info.range.start.val
  children : reshard.children = [⟨lower.info.range.start, upper.info.range.end⟩]
  later : i₂ < i₁ → reshard.parentShardId = lower.info.shardId ∧
    reshard.adjacentParentShardId = some upper.info.shardId
  earlier : i₁ < i₂ → reshard.parentShardId = upper.info.shardId ∧
    reshard.adjacentParentShardId = some lower.info.shardId

theorem le_end (htiles : Tiles (intervals s.activeShards)) (h : s.activeShards[i]? = some handle) :
    handle.info.range.start ≤ handle.info.range.end :=
  htiles.nonempty _ (mem_map_of_mem (mem_of_getElem? h))

theorem beginMerge_joins {reshard : Reshard} {shardToMerge adjacentShardToMerge : String}
    (htiles : Tiles (intervals s.activeShards))
    (h : s.beginMerge shardToMerge adjacentShardToMerge = .ok (reshard, s')) :
    ∃ i₁ handle₁ i₂ handle₂, s.handleAt shardToMerge = .ok (i₁, handle₁) ∧
      s.handleAt adjacentShardToMerge = .ok (i₂, handle₂) ∧ i₁ ≠ i₂ ∧
      ∃ lower upper, (lower = handle₁ ∧ upper = handle₂ ∨ lower = handle₂ ∧ upper = handle₁) ∧
        Joins s i₁ i₂ lower upper reshard s' := by
  obtain ⟨i₁, handle₁, i₂, handle₂, h₁, h₂, hsucc, first, second, horder, hframe, hparents,
    hchildren, hlower, hupper⟩ := beginMerge_ok h
  obtain ⟨-, hget₁, -⟩ := handleAt_ok h₁
  obtain ⟨-, hget₂, -⟩ := handleAt_ok h₂
  have hle₁ := Fin.le_def.mp (le_end htiles hget₁)
  have hle₂ := Fin.le_def.mp (le_end htiles hget₂)
  have hne : i₁ ≠ i₂ := by
    rintro rfl
    obtain rfl := Option.some.inj (hget₁.symm.trans hget₂)
    rcases hsucc with hsucc | hsucc <;> omega
  refine ⟨i₁, handle₁, i₂, handle₂, h₁, h₂, hne, ?_⟩
  have hperm : s.activeShards.Perm (reshard.parents ++ s'.activeShards) := by
    rw [hparents]
    rcases horder with ⟨hlt, rfl, rfl, hrest⟩ | ⟨hnot, rfl, rfl, hrest⟩
    · rw [hrest]
      exact perm_eraseIdx_eraseIdx hget₁ hget₂ hlt
    · rw [hrest]
      exact perm_eraseIdx_eraseIdx hget₂ hget₁ (Nat.lt_of_le_of_ne (Nat.le_of_not_lt hnot) hne)
  rcases hsucc with hsucc | hsucc
  · have hlt : handle₁.info.range.start < handle₂.info.range.start := Fin.lt_def.mpr (by omega)
    have hend : handle₁.info.range.end ≤ handle₂.info.range.end := Fin.le_def.mpr (by omega)
    rw [min_eq_left hlt.le, max_eq_right hend] at hchildren
    refine ⟨handle₁, handle₂, .inl ⟨rfl, rfl⟩, hframe, hperm, ?_, hsucc, hchildren, ?_, ?_⟩
    · rcases horder with ⟨-, rfl, rfl, -⟩ | ⟨-, rfl, rfl, -⟩
      · rw [hparents]
      · rw [hparents]
        exact List.Perm.swap _ _ _
    · intro hlater
      rcases horder with ⟨-, rfl, rfl, -⟩ | ⟨hnot, -⟩
      · exact hlower hlt
      · exact absurd hlater hnot
    · intro hearlier
      rcases horder with ⟨hlater, -⟩ | ⟨-, rfl, rfl, -⟩
      · exact absurd hlater hearlier.asymm
      · exact hlower hlt
  · have hlt : handle₂.info.range.start < handle₁.info.range.start := Fin.lt_def.mpr (by omega)
    have hend : handle₂.info.range.end ≤ handle₁.info.range.end := Fin.le_def.mpr (by omega)
    rw [min_eq_right hlt.le, max_eq_left hend] at hchildren
    refine ⟨handle₂, handle₁, .inr ⟨rfl, rfl⟩, hframe, hperm, ?_, hsucc, hchildren, ?_, ?_⟩
    · rcases horder with ⟨-, rfl, rfl, -⟩ | ⟨-, rfl, rfl, -⟩
      · rw [hparents]
        exact List.Perm.swap _ _ _
      · rw [hparents]
    · intro hlater
      rcases horder with ⟨-, rfl, rfl, -⟩ | ⟨hnot, -⟩
      · exact hupper hlt.asymm
      · exact absurd hlater hnot
    · intro hearlier
      rcases horder with ⟨hlater, -⟩ | ⟨-, rfl, rfl, -⟩
      · exact absurd hlater hearlier.asymm
      · exact hupper hlt.asymm

theorem Joins.replaces {i₁ i₂ : ℕ} {lower upper : ShardHandle} {reshard : Reshard}
    (htiles : Tiles (intervals s.activeShards)) (hne : i₁ ≠ i₂)
    (h : Joins s i₁ i₂ lower upper reshard s') : Replaces s reshard s' := by
  have hperm : s.activeShards.Perm (lower :: upper :: s'.activeShards) :=
    h.perm.trans (h.parents.append_right s'.activeShards)
  obtain ⟨hjoined, hwithin⟩ := join_neighbours (htiles.perm (hperm.map _)) h.succ
  have hlower : lower ∈ reshard.parents := h.parents.mem_iff.mpr (.head _)
  have hupper : upper ∈ reshard.parents :=
    h.parents.mem_iff.mpr (.tail _ (mem_singleton_self _))
  refine ⟨h.frame, h.perm, ?_, fun range hrange key hkey => ?_, fun id hid => ?_⟩
  · rw [h.children]
    exact hjoined
  · rw [h.children] at hrange
    obtain rfl := mem_singleton.mp hrange
    rcases hwithin key hkey with hlow | hhigh
    · exact ⟨lower, hlower, hlow⟩
    · exact ⟨upper, hupper, hhigh⟩
  · rcases Nat.lt_or_gt_of_ne hne with hearlier | hlater
    · rw [(h.earlier hearlier).1, (h.earlier hearlier).2] at hid
      rcases hid with hid | hid
      · exact ⟨upper, hupper, Option.some.inj hid⟩
      · exact ⟨lower, hlower, Option.some.inj hid⟩
    · rw [(h.later hlater).1, (h.later hlater).2] at hid
      rcases hid with hid | hid
      · exact ⟨lower, hlower, Option.some.inj hid⟩
      · exact ⟨upper, hupper, Option.some.inj hid⟩

theorem beginMerge_replaces {reshard : Reshard} {shardToMerge adjacentShardToMerge : String}
    (htiles : Tiles (intervals s.activeShards))
    (h : s.beginMerge shardToMerge adjacentShardToMerge = .ok (reshard, s')) :
    Replaces s reshard s' := by
  obtain ⟨_, _, _, _, -, -, hne, _, _, -, hjoins⟩ := beginMerge_joins htiles h
  exact hjoins.replaces htiles hne

theorem begin'_replaces {c : Call} {reshard : Reshard}
    (htiles : Tiles (intervals s.activeShards)) (h : s.begin' c = .ok (reshard, s')) :
    Replaces s reshard s' := by
  cases c with
  | splitShard shard key ending millis => exact beginSplit_replaces htiles h
  | mergeShards shard adjacent ending₁ ending₂ millis => exact beginMerge_replaces htiles h

/-! ## Numbers of shards -/

def handles (s : StreamState) : List ShardHandle := s.activeShards ++ s.closedShardHandles

def Ended (shards : List ShardInfo) (i : ℕ) : Prop :=
  ∃ info, shards[i]? = some info ∧ info.endingSequenceNumber.isSome = true

/-- Shards are numbered as their actors are, and an id shows 32 bits of the number. -/
structure Numbered (s : StreamState) : Prop where
  counted : s.actors.length = s.shards.length
  ids : s.shards.map (·.shardId) =
    (List.range s.shards.length).map fun i => formatShardId (i % 2 ^ 32)
  perm : (s.handles.map (·.actor)).Perm (List.range s.shards.length)
  named : ∀ handle ∈ s.handles, handle.info.shardId = formatShardId (handle.actor % 2 ^ 32)
  ended : s.shards.length ≤ 2 ^ 32 → ∀ handle ∈ s.closedShardHandles, Ended s.shards handle.actor

theorem formatShardId_injective : Function.Injective formatShardId := fun _ _ h =>
  Decimal.padded_injective 12 (String.append_right_inj "shardId-" |>.mp h)

theorem Ended.append {shards : List ShardInfo} (h : Ended shards i) (infos : List ShardInfo) :
    Ended (shards ++ infos) i := by
  obtain ⟨info, hinfo, hsome⟩ := h
  exact ⟨info, List.getElem?_append_left (List.getElem?_eq_some_iff.mp hinfo).1 ▸ hinfo, hsome⟩

/-- The shard of a number is found under its id. -/
theorem Numbered.findIdx? (h : Numbered s) (hfew : s.shards.length ≤ 2 ^ 32)
    (hi : i < s.shards.length) :
    s.shards.findIdx? (fun info => info.shardId = formatShardId (i % 2 ^ 32)) = some i := by
  have hget : ∀ j (hj : j < s.shards.length),
      s.shards[j].shardId = formatShardId (j % 2 ^ 32) := by
    intro j hj
    have hmap := congrArg (·[j]?) h.ids
    simpa [getElem?_eq_getElem, hj] using hmap
  refine findIdx?_eq_some_iff_getElem.mpr ⟨hi, decide_eq_true (hget i hi), ?_⟩
  intro j hj hsame
  have hid := formatShardId_injective ((hget j (hj.trans hi)).symm.trans (of_decide_eq_true hsame))
  rw [Nat.mod_eq_of_lt ((hj.trans hi).trans_le hfew), Nat.mod_eq_of_lt (hi.trans_le hfew)] at hid
  exact hj.ne hid

theorem Numbered.append (h : Numbered s) {handle : ShardHandle} (actor : ShardActor) (next : ℕ)
    (hactor : handle.actor = s.shards.length)
    (hid : handle.info.shardId = formatShardId (s.shards.length % 2 ^ 32)) :
    Numbered { s with
      nextShardIndex := next
      shards := s.shards ++ [handle.info]
      activeShards := s.activeShards ++ [handle]
      actors := s.actors ++ [actor] } where
  counted := by simp [h.counted]
  ids := by
    simp only [map_append, h.ids, length_append, length_singleton,
      range_succ, map_cons, map_nil, hid]
  perm := by
    have hperm : ((s.activeShards ++ [handle]) ++ s.closedShardHandles).Perm
        (s.handles ++ [handle]) := by
      unfold handles
      rw [append_assoc, append_assoc]
      exact List.Perm.append_left _ perm_append_comm
    refine (hperm.map (·.actor)).trans ?_
    simp only [map_append, length_append, length_singleton, range_succ,
      map_cons, map_nil, hactor]
    exact h.perm.append_right _
  named := by
    intro other hother
    rcases mem_append.mp hother with hopen | hclosed
    · rcases mem_append.mp hopen with hold | hnew
      · exact h.named other (mem_append_left _ hold)
      · rw [mem_singleton.mp hnew, hid, hactor]
    · exact h.named other (mem_append_right _ hclosed)
  ended := by
    intro hfew other hother
    refine (h.ended (Nat.le_trans ?_ hfew) other hother).append _
    simp

/-! ## Closing the parents -/

/-- Marking sets endings, and only those. -/
structure Marks (shards shards' : List ShardInfo) : Prop where
  ids : shards'.map (·.shardId) = shards.map (·.shardId)
  keeps : ∀ i, Ended shards i → Ended shards' i

theorem Marks.refl (shards : List ShardInfo) : Marks shards shards := ⟨rfl, fun _ h => h⟩

theorem Marks.trans {a b c : List ShardInfo} (h : Marks a b) (h' : Marks b c) : Marks a c :=
  ⟨h'.ids.trans h.ids, fun i hi => h'.keeps i (h.keeps i hi)⟩

theorem Marks.length {a b : List ShardInfo} (h : Marks a b) : b.length = a.length := by
  simpa using congrArg List.length h.ids

theorem findIdx?_shardId (shards : List ShardInfo) (shardId : String) :
    shards.findIdx? (fun info => info.shardId = shardId) =
      (shards.map (·.shardId)).findIdx? fun id => id = shardId := by
  rw [findIdx?_map]
  rfl

theorem markShardClosed_spec (s : StreamState) (shardId : String) (ending : Option String) :
    ∃ shards, s.markShardClosed shardId ending = { s with shards } ∧ Marks s.shards shards ∧
      ∀ i, (s.shards.findIdx? fun info => info.shardId = shardId) = some i → Ended shards i := by
  unfold markShardClosed
  split
  · next hnone =>
      refine ⟨s.shards, rfl, Marks.refl _, fun i hi => ?_⟩
      cases hnone.symm.trans hi
  · next i hsome =>
      refine ⟨_, rfl, ⟨?_, ?_⟩, ?_⟩
      · apply ext_getElem?
        intro j
        rw [getElem?_map, getElem?_map, getElem?_modify]
        split <;> cases s.shards[j]? <;> rfl
      · rintro j ⟨info, hinfo, hended⟩
        unfold Ended
        rw [getElem?_modify, hinfo]
        split
        · exact ⟨_, rfl, rfl⟩
        · exact ⟨info, rfl, hended⟩
      · intro j hj
        obtain rfl := Option.some.inj (hsome.symm.trans hj)
        obtain ⟨hlt, -⟩ := findIdx?_eq_some_iff_getElem.mp hsome
        simp [Ended, getElem?_eq_getElem hlt]

theorem foldl_markShardClosed (parents : List (ShardHandle × Option String)) (s : StreamState) :
    ∃ shards, parents.foldl (fun s (parent : ShardHandle × Option String) =>
        s.markShardClosed parent.1.info.shardId parent.2) s = { s with shards } ∧
      Marks s.shards shards ∧ ∀ parent ∈ parents, ∀ i,
        (s.shards.findIdx? fun info => info.shardId = parent.1.info.shardId) = some i →
          Ended shards i := by
  induction parents generalizing s with
  | nil => exact ⟨s.shards, rfl, Marks.refl _, fun _ h => absurd h not_mem_nil⟩
  | cons parent parents ih =>
      obtain ⟨first, hfirst, hmarks, hended⟩ :=
        markShardClosed_spec s parent.1.info.shardId parent.2
      obtain ⟨shards, hshards, hmarks', hended'⟩ := ih { s with shards := first }
      refine ⟨shards, ?_, hmarks.trans hmarks', ?_⟩
      · rw [foldl_cons, hfirst]
        exact hshards
      · intro other hother i hi
        rcases mem_cons.mp hother with rfl | hother
        · exact hmarks'.keeps i (hended i hi)
        · refine hended' other hother i ?_
          rw [findIdx?_shardId] at hi ⊢
          rw [hmarks.ids]
          exact hi

/-- The state in which the parents are closed and the children do not exist yet. -/
def closing (s : StreamState) (reshard : Reshard) (endings : List (Option String)) : StreamState :=
  let s := (reshard.parents.zip endings).foldl
    (fun s (parent : ShardHandle × Option String) =>
      s.markShardClosed parent.1.info.shardId parent.2) s
  { s with closedShardHandles := s.closedShardHandles ++ reshard.parents }

theorem finishReshard_eq (s : StreamState) (reshard : Reshard) (endings : List (Option String))
    (millis : Millis) : s.finishReshard reshard endings millis =
      reshard.children.foldl (fun s range => s.spawnChildShard range millis
        (some reshard.parentShardId) reshard.adjacentParentShardId) (s.closing reshard endings) :=
  rfl

theorem closing_spec {reshard : Reshard} {endings : List (Option String)} (h : Numbered s)
    (hperm : s.activeShards.Perm (reshard.parents ++ s'.activeShards))
    (hframe : s' = { s with activeShards := s'.activeShards })
    (hlength : endings.length = reshard.parents.length) :
    ∃ shards, s'.closing reshard endings = { s' with
        shards
        closedShardHandles := s.closedShardHandles ++ reshard.parents } ∧
      Marks s.shards shards ∧ Numbered (s'.closing reshard endings) := by
  obtain ⟨shards, hshards, hmarks, hended⟩ :=
    foldl_markShardClosed (reshard.parents.zip endings) s'
  have hfields : s'.shards = s.shards ∧ s'.closedShardHandles = s.closedShardHandles ∧
      s'.actors = s.actors := by
    rw [hframe]
    exact ⟨rfl, rfl, rfl⟩
  obtain ⟨hsame, hclosed, hactors⟩ := hfields
  have hclosing : s'.closing reshard endings = { s' with
      shards
      closedShardHandles := s.closedShardHandles ++ reshard.parents } := by
    unfold closing
    rw [hshards, ← hclosed]
  have hhandles : s.handles.Perm (s'.closing reshard endings).handles := by
    rw [hclosing]
    unfold handles
    dsimp only
    calc s.activeShards ++ s.closedShardHandles
        |>.Perm (reshard.parents ++ s'.activeShards ++ s.closedShardHandles) :=
          hperm.append_right _
      _ |>.Perm (s'.activeShards ++ reshard.parents ++ s.closedShardHandles) :=
          perm_append_comm.append_right _
      _ |>.Perm (s'.activeShards ++ (s.closedShardHandles ++ reshard.parents)) := by
          rw [append_assoc]
          exact perm_append_comm.append_left _
  rw [hsame] at hmarks hended
  refine ⟨shards, hclosing, hmarks, ?_, ?_, ?_, ?_, ?_⟩
  · rw [hclosing]
    exact (congrArg length hactors).trans (h.counted.trans hmarks.length.symm)
  · rw [hclosing]
    exact hmarks.ids.trans (h.ids.trans (by rw [hmarks.length]))
  · refine (hhandles.map (·.actor)).symm.trans ?_
    rw [hclosing]
    exact hmarks.length ▸ h.perm
  · intro handle hhandle
    exact h.named handle (hhandles.mem_iff.mpr hhandle)
  · rw [hclosing]
    intro hfew handle hhandle
    have hfew : s.shards.length ≤ 2 ^ 32 := hmarks.length ▸ hfew
    rcases mem_append.mp hhandle with hold | hparent
    · exact hmarks.keeps _ (h.ended hfew handle hold)
    · -- the id of the parent finds the entry of its number
      obtain ⟨k, hk, hget⟩ := getElem_of_mem hparent
      have hmem : handle ∈ s.handles :=
        mem_append_left _ (hperm.mem_iff.mpr (mem_append_left _ hparent))
      have hlt : handle.actor < s.shards.length :=
        mem_range.mp (h.perm.mem_iff.mp (mem_map_of_mem hmem))
      have hk' : k < endings.length := hlength ▸ hk
      have hzip : (handle, endings[k]) ∈ reshard.parents.zip endings := by
        refine mem_iff_getElem.mpr ⟨k, by simp [hlength, hk], ?_⟩
        rw [getElem_zip, hget]
      refine hended _ hzip _ ?_
      rw [h.named handle hmem]
      exact h.findIdx? hfew hlt

/-! ## Spawning the children -/

/-- The actor of the shard with a number, before it has served a request. -/
def freshActor (retentionPeriod millis : Millis) (n : ℕ) : ShardActor :=
  ⟨formatShardId (n % 2 ^ 32), .new retentionPeriod, .new (n % 2 ^ 16) millis, false⟩

def freshActors (s : StreamState) (millis : Millis) (count : ℕ) : List ShardActor :=
  (List.range count).map fun k => freshActor s.retentionPeriod millis (s.shards.length + k)

/-- What a stream is after some children have been spawned. -/
structure Spawns (millis : Millis) (s : StreamState) (children : List ShardHandle)
    (s' : StreamState) : Prop where
  name : s'.name = s.name
  retentionPeriod : s'.retentionPeriod = s.retentionPeriod
  opened : s'.activeShards = s.activeShards ++ children
  closed : s'.closedShardHandles = s.closedShardHandles
  shards : s'.shards = s.shards ++ children.map (·.info)
  actors : s'.actors = s.actors ++ s.freshActors millis children.length
  numbers : ∀ child ∈ children, s.shards.length ≤ child.actor
  numbered : Numbered s → Numbered s'

theorem Spawns.refl (millis : Millis) (s : StreamState) : Spawns millis s [] s :=
  ⟨rfl, rfl, (append_nil _).symm, rfl, (append_nil _).symm, (append_nil _).symm,
    fun _ h => absurd h not_mem_nil, id⟩

theorem Spawns.trans {millis : Millis} {a b c : StreamState} {first second : List ShardHandle}
    (h : Spawns millis a first b) (h' : Spawns millis b second c) :
    Spawns millis a (first ++ second) c where
  name := h'.name.trans h.name
  retentionPeriod := h'.retentionPeriod.trans h.retentionPeriod
  opened := by rw [h'.opened, h.opened, append_assoc]
  closed := h'.closed.trans h.closed
  shards := by rw [h'.shards, h.shards, map_append, append_assoc]
  actors := by
    rw [h'.actors, h.actors, append_assoc]
    unfold freshActors
    rw [h.retentionPeriod, h.shards, length_append, length_append, length_map,
      range_add, map_append, map_map]
    simp only [Function.comp_def, Nat.add_assoc]
  numbers := by
    intro child hchild
    rcases mem_append.mp hchild with hfirst | hsecond
    · exact h.numbers child hfirst
    · refine Nat.le_trans ?_ (h'.numbers child hsecond)
      rw [h.shards, length_append]
      exact Nat.le_add_right _ _
  numbered := fun hs => h'.numbered (h.numbered hs)

theorem spawns_single (shardId : String) (index : ℕ) (range : HashKeyRange) (millis : Millis)
    (parent adjacent : Option String) (next : ℕ) (hactors : s.actors.length = s.shards.length)
    (hid : shardId = formatShardId (s.shards.length % 2 ^ 32))
    (hindex : index = s.shards.length % 2 ^ 16) :
    Spawns millis s
      [(spawn s.actors.length shardId index range s.retentionPeriod millis parent
        adjacent).1]
      { s with
        nextShardIndex := next
        shards := s.shards ++ [(spawn s.actors.length shardId index range
          s.retentionPeriod millis parent adjacent).1.info]
        activeShards := s.activeShards ++ [(spawn s.actors.length shardId index range
          s.retentionPeriod millis parent adjacent).1]
        actors := s.actors ++ [(spawn s.actors.length shardId index range
          s.retentionPeriod millis parent adjacent).2] } where
  name := rfl
  retentionPeriod := rfl
  opened := rfl
  closed := rfl
  shards := rfl
  actors := by
    subst hid hindex
    rfl
  numbers := by
    intro child hchild
    obtain rfl := mem_singleton.mp hchild
    exact hactors.ge
  numbered := fun h => h.append _ next hactors hid

theorem foldl_spawnChildShard (ranges : List HashKeyRange) (s : StreamState) (millis : Millis)
    (parent adjacent : Option String)
    (hactors : s.actors.length = s.shards.length)
    (hnext : s.nextShardIndex = s.shards.length % 2 ^ 32) :
    ∃ children, Spawns millis s children
        (ranges.foldl (fun s range => s.spawnChildShard range millis parent adjacent) s) ∧
      children.map (·.info.range) = ranges ∧
      (∀ child ∈ children, child.info.parentShardId = parent ∧
        child.info.adjacentParentShardId = adjacent) ∧
      (ranges.foldl (fun s range => s.spawnChildShard range millis parent adjacent)
        s).nextShardIndex = (s.shards.length + ranges.length) % 2 ^ 32 := by
  induction ranges generalizing s with
  | nil => exact ⟨[], Spawns.refl millis s, rfl, fun _ h => absurd h not_mem_nil, hnext⟩
  | cons range ranges ih =>
      let child := (spawn s.actors.length (formatShardId s.nextShardIndex)
        (s.nextShardIndex % 2 ^ 16) range s.retentionPeriod millis parent adjacent).1
      have hspawn : Spawns millis s [child] (s.spawnChildShard range millis parent adjacent) :=
        spawns_single (formatShardId s.nextShardIndex) (s.nextShardIndex % 2 ^ 16) range millis
          parent adjacent ((s.nextShardIndex + 1) % 2 ^ 32) hactors (congrArg formatShardId hnext)
          (by rw [hnext, Nat.mod_mod_of_dvd _ (by decide)])
      have hlength : (s.spawnChildShard range millis parent adjacent).shards.length =
          s.shards.length + 1 := by
        rw [hspawn.shards, length_append]
        rfl
      obtain ⟨children, hspawns, hranges, hparents, hlast⟩ :=
        ih (s.spawnChildShard range millis parent adjacent)
          (by rw [hlength, ← hactors]; exact length_append)
          (by rw [hlength, ← Nat.mod_add_mod, ← hnext]; rfl)
      refine ⟨child :: children, hspawn.trans hspawns, ?_, ?_, ?_⟩
      · rw [map_cons, hranges, spawn_range]
      · intro other hother
        rcases mem_cons.mp hother with rfl | hother
        · exact ⟨rfl, rfl⟩
        · exact hparents other hother
      · rw [foldl_cons, hlast, hlength, length_cons, Nat.add_assoc,
          Nat.add_comm 1 ranges.length]

/-! ## Runs of calls -/

/-- What holds in every state. -/
structure Kept (s : StreamState) : Prop where
  tiles : Tiles (intervals s.activeShards)
  numbered : Numbered s
  next : s.nextShardIndex = s.shards.length % 2 ^ 32

/-- What a call that goes through does to the shards. -/
structure Resharded (s : StreamState) (parents children : List ShardHandle) (s' : StreamState) :
    Prop where
  opened : ∃ rest, s.activeShards.Perm (parents ++ rest) ∧ s'.activeShards = rest ++ children
  closed : s'.closedShardHandles = s.closedShardHandles ++ parents
  ids : s'.shards.map (·.shardId) = s.shards.map (·.shardId) ++ children.map (·.info.shardId)
  ended : ∀ i, Ended s.shards i → Ended s'.shards i
  within : ∀ child ∈ children, ∀ key, child.info.range.contains key = true →
    ∃ parent ∈ parents, parent.info.range.contains key = true

/-- The children of a reshard, spawned once its parents are closed. -/
theorem finishReshard_spawns {reshard : Reshard} {endings : List (Option String)} (h : Kept s)
    (hreplaces : Replaces s reshard s') (hlength : endings.length = reshard.parents.length)
    (millis : Millis) :
    ∃ shards children, s'.closing reshard endings = { s' with
        shards
        closedShardHandles := s.closedShardHandles ++ reshard.parents } ∧
      Marks s.shards shards ∧ Numbered (s'.closing reshard endings) ∧
      Spawns millis (s'.closing reshard endings) children
        (s'.finishReshard reshard endings millis) ∧
      children.map (·.info.range) = reshard.children ∧
      (∀ child ∈ children, child.info.parentShardId = some reshard.parentShardId ∧
        child.info.adjacentParentShardId = reshard.adjacentParentShardId) ∧
      (s'.finishReshard reshard endings millis).nextShardIndex =
        (shards.length + reshard.children.length) % 2 ^ 32 := by
  obtain ⟨shards, hclosing, hmarks, hnumbered⟩ :=
    closing_spec h.numbered hreplaces.perm hreplaces.frame hlength
  have hshards : (s'.closing reshard endings).shards = shards := by rw [hclosing]
  have hnext : (s'.closing reshard endings).nextShardIndex =
      (s'.closing reshard endings).shards.length % 2 ^ 32 := by
    rw [hshards, hclosing, hreplaces.frame, hmarks.length]
    exact h.next
  obtain ⟨children, hspawns, hranges, hparents, hlast⟩ :=
    foldl_spawnChildShard reshard.children (s'.closing reshard endings) millis
      (some reshard.parentShardId) reshard.adjacentParentShardId hnumbered.counted hnext
  rw [← finishReshard_eq] at hspawns hlast
  rw [hshards] at hlast
  exact ⟨shards, children, hclosing, hmarks, hnumbered, hspawns, hranges, hparents, hlast⟩

theorem finishReshard_spec {reshard : Reshard} {endings : List (Option String)} (h : Kept s)
    (hreplaces : Replaces s reshard s') (hlength : endings.length = reshard.parents.length)
    (millis : Millis) :
    Kept (s'.finishReshard reshard endings millis) ∧
      ∃ children, Resharded s reshard.parents children
          (s'.finishReshard reshard endings millis) ∧
        children.map (·.info.range) = reshard.children ∧
        ∀ child ∈ children, child.info.parentShardId = some reshard.parentShardId ∧
          child.info.adjacentParentShardId = reshard.adjacentParentShardId := by
  obtain ⟨shards, children, hclosing, hmarks, hnumbered, hspawns, hranges, hparents, hlast⟩ :=
    finishReshard_spawns h hreplaces hlength millis
  have hshards : (s'.closing reshard endings).shards = shards := by rw [hclosing]
  have hopened : (s'.closing reshard endings).activeShards = s'.activeShards := by rw [hclosing]
  refine ⟨⟨?_, hspawns.numbered hnumbered, ?_⟩, children, ⟨?_, ?_, ?_, ?_, ?_⟩, hranges, hparents⟩
  · have htiles : intervals (s'.activeShards ++ children) =
        intervals s'.activeShards ++ reshard.children.map interval := by
      rw [← hranges, map_map]
      exact map_append
    rw [hspawns.opened, hopened, htiles]
    exact hreplaces.tiles
  · refine hlast.trans (congrArg (· % 2 ^ 32) ?_)
    rw [hspawns.shards, hshards, length_append, length_map, ← hranges, length_map]
  · exact ⟨s'.activeShards, hreplaces.perm, hspawns.opened.trans (by rw [hopened])⟩
  · exact hspawns.closed.trans (by rw [hclosing])
  · rw [hspawns.shards, hshards, map_append, hmarks.ids, map_map]
    rfl
  · intro i hi
    rw [hspawns.shards, hshards]
    exact (hmarks.keeps i hi).append _
  · intro child hchild key hkey
    refine hreplaces.within child.info.range ?_ key hkey
    rw [← hranges]
    exact mem_map_of_mem hchild

theorem call_cases (s : StreamState) (c : Call) :
    (∃ error, s.begin' c = .error error ∧ s.call c = (.error error, s)) ∨
      ∃ reshard s' endings millis, s.begin' c = .ok (reshard, s') ∧
        endings.length = reshard.parents.length ∧
        s.call c = (.ok (), s'.finishReshard reshard endings millis) := by
  cases c with
  | splitShard shard key ending millis =>
      cases h : s.beginSplit shard key with
      | error error => exact .inl ⟨error, h, by simp only [call, splitShard, h]⟩
      | ok begun =>
          obtain ⟨_, _, -, _, _, -, -, -, hreshard, -⟩ := beginSplit_ok h
          refine .inr ⟨begun.1, begun.2, [ending], millis, h, ?_,
            by simp only [call, splitShard, h]⟩
          rw [hreshard]
          rfl
  | mergeShards shard adjacent ending₁ ending₂ millis =>
      cases h : s.beginMerge shard adjacent with
      | error error => exact .inl ⟨error, h, by simp only [call, mergeShards, h]⟩
      | ok begun =>
          obtain ⟨_, _, _, _, -, -, -, _, _, -, -, hparents, -⟩ := beginMerge_ok h
          refine .inr ⟨begun.1, begun.2, [ending₁, ending₂], millis, h, ?_,
            by simp only [call, mergeShards, h]⟩
          rw [hparents]
          rfl

/-- A call keeps the invariant, whether it goes through or not. -/
theorem call_kept (h : Kept s) (c : Call) : Kept (s.call c).2 := by
  rcases call_cases s c with
    ⟨error, -, hcall⟩ | ⟨reshard, s', endings, millis, hbegin, hlength, hcall⟩
  · rw [hcall]
    exact h
  · rw [hcall]
    exact (finishReshard_spec h (begin'_replaces h.tiles hbegin) hlength millis).1

/-! ## What readers and writers see -/

/-- The open shard that takes a key. -/
structure Routed (handles : List ShardHandle) (key : HashKey) (i : ℕ) : Prop where
  found : (handles.findIdx? fun handle => handle.info.range.contains key) = some i
  only : ∀ j handle, handles[j]? = some handle → handle.info.range.contains key = true → j = i

/-- The open shards share the keys out, ids are not used twice, and closed shards are found. -/
structure Partitioned (s : StreamState) : Prop where
  tiles : Tiles (intervals s.activeShards)
  routed : ∀ md5 partitionKey, ∃ i,
    routeToShard md5 s.activeShards partitionKey none = .ok i ∧
      Routed s.activeShards (md5 partitionKey) i
  explicit : ∀ md5 partitionKey text key, HashKey.fromDecimalStr text = .ok key → ∃ i,
    routeToShard md5 s.activeShards partitionKey (some text) = .ok i ∧
      Routed s.activeShards key i
  distinct : s.shards.length ≤ 2 ^ 32 → (s.shards.map (·.shardId)).Nodup
  closed : s.shards.length ≤ 2 ^ 32 → ∀ handle ∈ s.closedShardHandles,
    Ended s.shards handle.actor ∧
      (∀ other ∈ s.activeShards, other.info.shardId ≠ handle.info.shardId) ∧
      findShardHandleAny s.activeShards s.closedShardHandles handle.info.shardId = some handle ∧
      ∃ actor, s.actors[handle.actor]? = some actor

theorem exists_routed (h : Tiles (intervals s.activeShards)) (key : HashKey) :
    ∃ i, Routed s.activeShards key i := by
  obtain ⟨r, hr, hkey⟩ := h.cover key
  obtain ⟨handle, hhandle, rfl⟩ := mem_map.mp hr
  have hsome : (s.activeShards.findIdx? fun handle => handle.info.range.contains key).isSome :=
    findIdx?_isSome.trans (any_eq_true.mpr
      ⟨handle, hhandle, contains_iff.mpr hkey⟩)
  obtain ⟨i, hi⟩ := Option.isSome_iff_exists.mp hsome
  refine ⟨i, hi, fun j other hother hcontains => ?_⟩
  obtain ⟨hlt, hfirst, -⟩ := findIdx?_eq_some_iff_getElem.mp hi
  have hget : ∀ {k : ℕ} {handle : ShardHandle}, s.activeShards[k]? = some handle →
      (intervals s.activeShards)[k]? = some handle.info.range.interval := fun hk => by
    unfold intervals
    rw [getElem?_map, hk]
    rfl
  exact h.eq_of_mem (hget hother) (hget (getElem?_eq_getElem hlt))
    (contains_iff.mp hcontains) (contains_iff.mp hfirst)

theorem routeToShard_none {handles : List ShardHandle} {md5 : String → HashKey}
    {partitionKey : String} (h : Routed handles (md5 partitionKey) i) :
    routeToShard md5 handles partitionKey none = .ok i := by
  have hne : handles.isEmpty = false := by
    cases handles with
    | nil => cases h.found
    | cons => rfl
  unfold routeToShard
  simp [hne, h.found]
  rfl

theorem routeToShard_some {handles : List ShardHandle} {md5 : String → HashKey}
    {partitionKey text : String} {key : HashKey} (hkey : HashKey.fromDecimalStr text = .ok key)
    (h : Routed handles key i) : routeToShard md5 handles partitionKey (some text) = .ok i := by
  have hne : handles.isEmpty = false := by
    cases handles with
    | nil => cases h.found
    | cons => rfl
  unfold routeToShard
  simp [hne, hkey, h.found]
  rfl

/-- While the numbers fit in 32 bits, a handle is known by its id. -/
theorem Numbered.eq_of_shardId (h : Numbered s) (hfew : s.shards.length ≤ 2 ^ 32)
    {a b : ShardHandle} (ha : a ∈ s.handles) (hb : b ∈ s.handles)
    (hid : a.info.shardId = b.info.shardId) : a = b := by
  have hlt : ∀ {c : ShardHandle}, c ∈ s.handles → c.actor < 2 ^ 32 := fun hc =>
    (mem_range.mp (h.perm.mem_iff.mp (mem_map_of_mem hc))).trans_le hfew
  have hactor : a.actor = b.actor := by
    rw [h.named a ha, h.named b hb] at hid
    have hmod := formatShardId_injective hid
    rwa [Nat.mod_eq_of_lt (hlt ha), Nat.mod_eq_of_lt (hlt hb)] at hmod
  exact inj_on_of_nodup_map (h.perm.nodup_iff.mpr nodup_range) ha hb hactor

theorem Numbered.nodup (h : Numbered s) (hfew : s.shards.length ≤ 2 ^ 32) :
    (s.shards.map (·.shardId)).Nodup := by
  rw [h.ids]
  refine List.Nodup.map_on (fun i hi j hj hij => ?_) nodup_range
  have hmod := formatShardId_injective hij
  rwa [Nat.mod_eq_of_lt ((mem_range.mp hi).trans_le hfew),
    Nat.mod_eq_of_lt ((mem_range.mp hj).trans_le hfew)] at hmod

theorem Numbered.find? (h : Numbered s) (hfew : s.shards.length ≤ 2 ^ 32)
    (hhandle : handle ∈ s.handles) :
    findShardHandleAny s.activeShards s.closedShardHandles handle.info.shardId = some handle := by
  unfold findShardHandleAny
  cases hfind : (s.activeShards ++ s.closedShardHandles).find?
    fun other => other.info.shardId = handle.info.shardId with
  | none => exact absurd (decide_eq_true rfl) (find?_eq_none.mp hfind handle hhandle)
  | some other =>
      have hid := find?_some hfind
      rw [decide_eq_true_eq] at hid
      rw [h.eq_of_shardId hfew (mem_of_find?_eq_some hfind) hhandle hid]

theorem Kept.partitioned (h : Kept s) : Partitioned s where
  tiles := h.tiles
  routed := fun md5 partitionKey => by
    obtain ⟨i, hi⟩ := exists_routed h.tiles (md5 partitionKey)
    exact ⟨i, routeToShard_none hi, hi⟩
  explicit := fun md5 partitionKey text key hkey => by
    obtain ⟨i, hi⟩ := exists_routed h.tiles key
    exact ⟨i, routeToShard_some hkey hi, hi⟩
  distinct := h.numbered.nodup
  closed := fun hfew handle hhandle => by
    have hmem : handle ∈ s.handles := mem_append_right _ hhandle
    have hlt : handle.actor < s.actors.length := by
      rw [h.numbered.counted]
      exact mem_range.mp (h.numbered.perm.mem_iff.mp (mem_map_of_mem hmem))
    refine ⟨h.numbered.ended hfew handle hhandle, fun other hother hid => ?_,
      h.numbered.find? hfew hmem, _, getElem?_eq_getElem hlt⟩
    -- a handle is not open and closed at once
    obtain rfl := h.numbered.eq_of_shardId hfew (mem_append_left _ hother) hmem hid
    have hnodup : s.handles.Nodup :=
      List.Nodup.of_map _ (h.numbered.perm.nodup_iff.mpr nodup_range)
    exact (nodup_append.mp hnodup).2.2 other hother other hhandle rfl

/-! ## What a call may change -/

/-- The children name their parents, and the child of a merge names the lower one first. -/
def Named (parents children : List ShardHandle) : Call → Prop
  | .splitShard shardToSplit _ _ _ =>
    ∃ parent, parents = [parent] ∧ parent.info.shardId = shardToSplit ∧
      ∀ child ∈ children, child.info.parentShardId = some parent.info.shardId ∧
        child.info.adjacentParentShardId = none
  | .mergeShards shardToMerge adjacentShardToMerge _ _ _ =>
    ∃ lower upper, parents.Perm [lower, upper] ∧
      [lower.info.shardId, upper.info.shardId].Perm [shardToMerge, adjacentShardToMerge] ∧
      lower.info.range.start < upper.info.range.start ∧
      ∀ child ∈ children, child.info.parentShardId = some lower.info.shardId ∧
        child.info.adjacentParentShardId = some upper.info.shardId

structure Lawful (s : StreamState) (c : Call) : Prop where
  refused : ∀ error, (s.call c).1 = .error error → (s.call c).2 = s
  done : (s.call c).1 = .ok () → ∃ parents children,
    Resharded s parents children (s.call c).2 ∧ Named parents children c

/-- A merge whose first shard stands before its neighbour among the open shards. -/
def Reversed (s : StreamState) : Call → Prop
  | .splitShard _ _ _ _ => False
  | .mergeShards shardToMerge adjacentShardToMerge _ _ _ =>
    ∃ i₁ handle₁ i₂ handle₂, s.handleAt shardToMerge = .ok (i₁, handle₁) ∧
      s.handleAt adjacentShardToMerge = .ok (i₂, handle₂) ∧ i₁ < i₂ ∧
      (handle₁.info.range.end.val + 1 = handle₂.info.range.start.val ∨
        handle₂.info.range.end.val + 1 = handle₁.info.range.start.val)

/-- The parents and the children of a call can be told from the states around it. -/
theorem Resharded.eq {parents parents' children children' : List ShardHandle}
    (h : Resharded s parents children s') (h' : Resharded s parents' children' s') :
    parents = parents' ∧ children = children' := by
  have hparents : parents = parents' := append_cancel_left (h.closed.symm.trans h'.closed)
  refine ⟨hparents, ?_⟩
  subst hparents
  obtain ⟨rest, hperm, hopened⟩ := h.opened
  obtain ⟨rest', hperm', hopened'⟩ := h'.opened
  have hlength : rest.length = rest'.length :=
    ((perm_append_left_iff _).mp (hperm.symm.trans hperm')).length_eq
  exact (append_inj (hopened.symm.trans hopened') hlength).2

theorem Joins.named {i₁ i₂ : ℕ} {handle₁ handle₂ lower upper : ShardHandle} {reshard : Reshard}
    {shardToMerge adjacentShardToMerge : String} {ending₁ ending₂ : Option String}
    {millis : Millis} {children : List ShardHandle}
    (hle : lower.info.range.start ≤ lower.info.range.end)
    (h : Joins s i₁ i₂ lower upper reshard s') (hlater : i₂ < i₁)
    (hid₁ : handle₁.info.shardId = shardToMerge)
    (hid₂ : handle₂.info.shardId = adjacentShardToMerge)
    (hwhich : lower = handle₁ ∧ upper = handle₂ ∨ lower = handle₂ ∧ upper = handle₁)
    (hparents : ∀ child ∈ children, child.info.parentShardId = some reshard.parentShardId ∧
      child.info.adjacentParentShardId = reshard.adjacentParentShardId) :
    Named reshard.parents children
      (.mergeShards shardToMerge adjacentShardToMerge ending₁ ending₂ millis) := by
  have hlt : lower.info.range.start < upper.info.range.start := by
    have hsucc := h.succ
    have hle := Fin.le_def.mp hle
    exact Fin.lt_def.mpr (by omega)
  refine ⟨lower, upper, h.parents, ?_, hlt, fun child hchild => ?_⟩
  · rw [← hid₁, ← hid₂]
    rcases hwhich with ⟨rfl, rfl⟩ | ⟨rfl, rfl⟩
    · exact List.Perm.refl _
    · exact List.Perm.swap _ _ _
  · obtain ⟨hparent, hadjacent⟩ := hparents child hchild
    obtain ⟨hlower, hupper⟩ := h.later hlater
    rw [hparent, hadjacent, hlower, hupper]
    exact ⟨rfl, rfl⟩

/-- Where the first shard of a merge stands before its neighbour, the ids are swapped. -/
theorem Joins.not_named {i₁ i₂ : ℕ} {lower upper : ShardHandle} {reshard : Reshard}
    {shardToMerge adjacentShardToMerge : String} {ending₁ ending₂ : Option String}
    {millis : Millis} {children : List ShardHandle}
    (hle : lower.info.range.start ≤ lower.info.range.end)
    (h : Joins s i₁ i₂ lower upper reshard s') (hearlier : i₁ < i₂)
    (hne : lower.info.shardId ≠ upper.info.shardId) (hchildren : children ≠ [])
    (hparents : ∀ child ∈ children, child.info.parentShardId = some reshard.parentShardId ∧
      child.info.adjacentParentShardId = reshard.adjacentParentShardId) :
    ¬Named reshard.parents children
      (.mergeShards shardToMerge adjacentShardToMerge ending₁ ending₂ millis) := by
  rintro ⟨lower', upper', hperm, -, hlt', hnames⟩
  have hlt : lower.info.range.start < upper.info.range.start := by
    have hsucc := h.succ
    have hle := Fin.le_def.mp hle
    exact Fin.lt_def.mpr (by omega)
  obtain ⟨child, hchild⟩ := exists_mem_of_ne_nil children hchildren
  have hparent := (hparents child hchild).1.symm.trans (hnames child hchild).1
  rw [(h.earlier hearlier).1] at hparent
  have hpair := h.parents.symm.trans hperm
  have hlower : lower ∈ [lower', upper'] := hpair.mem_iff.mp (.head _)
  have hupper : upper ∈ [lower', upper'] :=
    hpair.mem_iff.mp (.tail _ (mem_singleton_self _))
  rcases mem_pair.mp hlower with rfl | rfl
  · exact hne (Option.some.inj hparent).symm
  · rcases mem_pair.mp hupper with rfl | rfl
    · exact absurd hlt' hlt.asymm
    · exact absurd hlt (lt_irrefl _)

/-- A call does what it should unless it is a merge that gives its shards in the wrong order. -/
theorem lawful_iff (h : Kept s) (c : Call) : Lawful s c ↔ ¬Reversed s c := by
  rcases call_cases s c with ⟨error, hbegin, hcall⟩ |
    ⟨reshard, s', endings, millis, hbegin, hlength, hcall⟩
  · -- a merge that is refused is not reversed either
    refine ⟨fun _ hreversed => ?_, fun _ => ⟨fun _ _ => by rw [hcall], fun hok => ?_⟩⟩
    · cases c with
      | splitShard => exact hreversed
      | mergeShards shard adjacent ending₁ ending₂ millis =>
          obtain ⟨i₁, handle₁, i₂, handle₂, h₁, h₂, -, hadjacent⟩ := hreversed
          change s.beginMerge shard adjacent = .error error at hbegin
          unfold beginMerge at hbegin
          rw [h₁, h₂] at hbegin
          rw [← checkedAdd_eq_some, ← checkedAdd_eq_some] at hadjacent
          simp only [bind, Except.bind] at hbegin
          rw [if_neg (not_and_or.mpr (hadjacent.imp not_not_intro not_not_intro))] at hbegin
          cases hbegin
    · rw [hcall] at hok
      cases hok
  · obtain ⟨-, children, hresharded, hranges, hparents⟩ :=
      finishReshard_spec h (begin'_replaces h.tiles hbegin) hlength millis
    have hlawful : Lawful s c ↔ Named reshard.parents children c := by
      constructor
      · intro hlawful
        obtain ⟨_, _, hresharded', hnamed⟩ := hlawful.done (by rw [hcall])
        rw [hcall] at hresharded'
        obtain ⟨rfl, rfl⟩ := hresharded'.eq hresharded
        exact hnamed
      · intro hnamed
        refine ⟨fun error herror => ?_, fun _ => ⟨_, children, ?_, hnamed⟩⟩
        · rw [hcall] at herror
          cases herror
        · rw [hcall]
          exact hresharded
    rw [hlawful]
    cases c with
    | splitShard shard key ending millis =>
        obtain ⟨i, parent, hparent, _, _, -, -, -, hreshard, -⟩ := beginSplit_ok hbegin
        refine ⟨fun _ hreversed => hreversed, fun _ => ?_⟩
        refine ⟨parent, by rw [hreshard], (handleAt_ok hparent).2.2, fun child hchild => ?_⟩
        have hnames := hparents child hchild
        rw [hreshard] at hnames
        exact hnames
    | mergeShards shard adjacent ending₁ ending₂ millis =>
        obtain ⟨i₁, handle₁, i₂, handle₂, h₁, h₂, hne, lower, upper, hwhich, hjoins⟩ :=
          beginMerge_joins h.tiles hbegin
        obtain ⟨hindex₁, hget₁, hid₁⟩ := handleAt_ok h₁
        obtain ⟨hindex₂, hget₂, hid₂⟩ := handleAt_ok h₂
        have hlower : lower.info.range.start ≤ lower.info.range.end := by
          rcases hwhich with ⟨rfl, -⟩ | ⟨rfl, -⟩
          · exact le_end h.tiles hget₁
          · exact le_end h.tiles hget₂
        have hids : handle₁.info.shardId ≠ handle₂.info.shardId := by
          rw [hid₁, hid₂]
          rintro rfl
          exact hne (Except.ok.inj (hindex₁.symm.trans hindex₂))
        constructor
        · rintro hnamed ⟨j₁, other₁, j₂, other₂, h₁', h₂', hlt, -⟩
          obtain ⟨rfl, rfl⟩ := Prod.mk.inj (Except.ok.inj (h₁.symm.trans h₁'))
          obtain ⟨rfl, rfl⟩ := Prod.mk.inj (Except.ok.inj (h₂.symm.trans h₂'))
          have hdistinct : lower.info.shardId ≠ upper.info.shardId := by
            rcases hwhich with ⟨rfl, rfl⟩ | ⟨rfl, rfl⟩
            · exact hids
            · exact hids.symm
          have hsome : children ≠ [] := by
            rintro rfl
            rw [hjoins.children] at hranges
            cases hranges
          exact hjoins.not_named hlower hlt hdistinct hsome hparents hnamed
        · intro hforward
          have hlater : i₂ < i₁ := by
            refine Nat.lt_of_le_of_ne (Nat.le_of_not_lt fun hlt => hforward ?_) hne.symm
            refine ⟨i₁, handle₁, i₂, handle₂, h₁, h₂, hlt, ?_⟩
            rcases hwhich with ⟨rfl, rfl⟩ | ⟨rfl, rfl⟩
            · exact .inl hjoins.succ
            · exact .inr hjoins.succ
          exact hjoins.named hlower hlater hid₁ hid₂ hwhich hparents

/-! ## New streams -/

theorem foldl_spawnFirst (ranges : List HashKeyRange) (s : StreamState) (millis : Millis)
    (hactors : s.actors.length = s.shards.length)
    (hfew : s.shards.length + ranges.length ≤ 2 ^ 32) :
    ∃ children, Spawns millis s children ((ranges.zipIdx s.shards.length).foldl
        (fun s (range : HashKeyRange × ℕ) => s.spawnFirst range.2 range.1 millis) s) ∧
      children.map (·.info.range) = ranges ∧
      (∀ child ∈ children, child.info.parentShardId = none ∧
        child.info.adjacentParentShardId = none) ∧
      ((ranges.zipIdx s.shards.length).foldl
        (fun s (range : HashKeyRange × ℕ) => s.spawnFirst range.2 range.1 millis)
        s).nextShardIndex = s.nextShardIndex := by
  induction ranges generalizing s with
  | nil => exact ⟨[], Spawns.refl millis s, rfl, fun _ h => absurd h not_mem_nil, rfl⟩
  | cons range ranges ih =>
      rw [length_cons] at hfew
      have hindex : s.shards.length % 2 ^ 32 = s.shards.length := Nat.mod_eq_of_lt (by omega)
      let child := (spawn s.actors.length (formatShardId s.shards.length)
        (s.shards.length % 2 ^ 16) range s.retentionPeriod millis none none).1
      have hspawn : Spawns millis s [child] (s.spawnFirst s.shards.length range millis) :=
        spawns_single (formatShardId s.shards.length) (s.shards.length % 2 ^ 16) range millis none
          none s.nextShardIndex hactors (congrArg formatShardId hindex.symm) rfl
      have hlength : (s.spawnFirst s.shards.length range millis).shards.length =
          s.shards.length + 1 := by
        rw [hspawn.shards, length_append]
        rfl
      obtain ⟨children, hspawns, hranges, hparents, hnext⟩ :=
        ih (s.spawnFirst s.shards.length range millis)
          (by rw [hlength, ← hactors]; exact length_append) (by omega)
      rw [hlength] at hspawns hnext
      refine ⟨child :: children, hspawn.trans hspawns, ?_, ?_, hnext⟩
      · rw [map_cons, hranges, spawn_range]
      · intro other hother
        rcases mem_cons.mp hother with rfl | hother
        · exact ⟨rfl, rfl⟩
        · exact hparents other hother

/-- A stream whose shards have not changed since it was created. -/
structure Created (name : String) (n : ℕ) (retentionPeriod millis : Millis) (s : StreamState) :
    Prop where
  kept : Kept s
  name_eq : s.name = name
  retention_eq : s.retentionPeriod = retentionPeriod
  actors : s.actors = (List.range n).map (freshActor retentionPeriod millis)
  parents : ∀ handle ∈ s.handles, handle.info.parentShardId = none ∧
    handle.info.adjacentParentShardId = none

/-- A new stream is there, and its shards tile the keys. -/
theorem create_created {n : ℕ} (hpos : 0 < n) (hlt : n < 2 ^ 32) (name : String)
    (retentionPeriod creationMillis : Millis) :
    ∃ s, create name n retentionPeriod creationMillis = some s ∧
      Created name n retentionPeriod creationMillis s := by
  obtain ⟨ranges, hranges, hlength, htiles⟩ := divideEvenly_tiles hpos hlt
  let empty : StreamState :=
    { name
      retentionPeriod
      shards := []
      activeShards := []
      closedShardHandles := []
      nextShardIndex := n
      actors := [] }
  have hempty : Numbered empty :=
    ⟨rfl, rfl, List.Perm.refl _, fun _ h => absurd h not_mem_nil,
      fun _ _ h => absurd h not_mem_nil⟩
  obtain ⟨children, hspawns, hchildren, hparents, hnext⟩ :=
    foldl_spawnFirst ranges empty creationMillis rfl
      (by rw [hlength]; exact (Nat.zero_add n).trans_le hlt.le)
  have hcount : children.length = n := by
    rw [← hlength, ← hchildren, length_map]
  refine ⟨_, by unfold create; rw [hranges]; rfl, ⟨?_, hspawns.numbered hempty, ?_⟩,
    hspawns.name, hspawns.retentionPeriod, ?_, ?_⟩
  · have hopened := hspawns.opened
    rw [← hchildren, map_map] at htiles
    exact hopened ▸ htiles
  · refine hnext.trans ?_
    rw [show _ = _ from hspawns.shards, length_append, length_map, hcount]
    exact ((congrArg (· % 2 ^ 32) (Nat.zero_add n)).trans (Nat.mod_eq_of_lt hlt)).symm
  · refine hspawns.actors.trans ?_
    rw [hcount]
    unfold freshActors
    simp only [empty, nil_append, length_nil, Nat.zero_add]
  · intro handle hhandle
    rcases mem_append.mp hhandle with hopen | hclosed
    · have hsome : handle ∈ empty.activeShards ++ children := hspawns.opened ▸ hopen
      exact hparents handle hsome
    · have hnone : handle ∈ empty.closedShardHandles := hspawns.closed ▸ hclosed
      exact absurd hnone not_mem_nil

/-! ## Whole runs -/

/-- Every state of a run is partitioned, and every call does what it should. -/
def Upheld (s : StreamState) : List Call → Prop
  | [] => Partitioned s
  | c :: calls => Partitioned s ∧ Lawful s c ∧ Upheld (s.call c).2 calls

/-- No merge of a run is reversed. -/
def Forward (s : StreamState) : List Call → Prop
  | [] => True
  | c :: calls => ¬Reversed s c ∧ Forward (s.call c).2 calls

theorem Kept.upheld_iff (h : Kept s) (calls : List Call) : Upheld s calls ↔ Forward s calls := by
  induction calls generalizing s with
  | nil => exact iff_of_true h.partitioned trivial
  | cons c calls ih =>
      unfold Upheld Forward
      rw [lawful_iff h c, ih (call_kept h c)]
      exact and_iff_right h.partitioned

def run (s : StreamState) (calls : List Call) : StreamState :=
  calls.foldl (fun s c => (s.call c).2) s

theorem run_kept (h : Kept s) (calls : List Call) : Kept (s.run calls) := by
  induction calls generalizing s with
  | nil => exact h
  | cons c calls ih => exact ih (call_kept h c)

/-- The shards of a stream share the keys out in every state, and all calls of a run do what
they should exactly where no merge is reversed. -/
theorem create_upheld_iff {n : ℕ} (hpos : 0 < n) (hlt : n < 2 ^ 32) (name : String)
    (retentionPeriod creationMillis : Millis) :
    ∃ s, create name n retentionPeriod creationMillis = some s ∧
      ∀ calls, Partitioned (s.run calls) ∧ (Upheld s calls ↔ Forward s calls) := by
  obtain ⟨s, hcreate, hcreated⟩ := create_created hpos hlt name retentionPeriod creationMillis
  have hkept := hcreated.kept
  exact ⟨s, hcreate, fun calls => ⟨(run_kept hkept calls).partitioned, hkept.upheld_iff calls⟩⟩

theorem create_upheld_iff_two : ∃ s, create "stream" 2 86400000 0 = some s ∧
    ∀ calls, Partitioned (s.run calls) ∧ (Upheld s calls ↔ Forward s calls) :=
  create_upheld_iff (by decide) (by decide) "stream" 86400000 0

def bounds (place : ℕ × ShardHandle) : ℕ × ℕ × ℕ :=
  (place.1, place.2.info.range.start.val, place.2.info.range.end.val)

theorem handleAt_of_bounds {bound : ℕ × ℕ × ℕ}
    (h : (s.handleAt shardId).toOption.map bounds = some bound) :
    ∃ handle, s.handleAt shardId = .ok (bound.1, handle) ∧
      handle.info.range.start.val = bound.2.1 ∧ handle.info.range.end.val = bound.2.2 := by
  cases hplace : s.handleAt shardId with
  | error error =>
      rw [hplace] at h
      cases h
  | ok place =>
      rw [hplace] at h
      cases h
      exact ⟨place.2, rfl, rfl, rfl⟩

/-- The merge of the first two shards names the upper one as the parent. -/
theorem merge_first_two_swapped : ∃ s child, create "stream" 2 86400000 0 = some s ∧
    (s.call (.mergeShards (formatShardId 0) (formatShardId 1) none none 0)).2.activeShards =
      [child] ∧
    child.info.parentShardId = some (formatShardId 1) ∧
    child.info.adjacentParentShardId = some (formatShardId 0) ∧
    ¬Lawful s (.mergeShards (formatShardId 0) (formatShardId 1) none none 0) := by
  obtain ⟨s, hcreate, hcreated⟩ :=
    create_created (n := 2) (by decide) (by decide) "stream" 86400000 0
  have hkept := hcreated.kept
  have hfirst : (create "stream" 2 86400000 0).map (fun s =>
      (s.handleAt (formatShardId 0)).toOption.map bounds) = some (some (0, 0, 2 ^ 127 - 1)) := by
    decide +kernel
  have hsecond : (create "stream" 2 86400000 0).map (fun s =>
      (s.handleAt (formatShardId 1)).toOption.map bounds) =
        some (some (1, 2 ^ 127, 2 ^ 128 - 1)) := by
    decide +kernel
  have hnames : (create "stream" 2 86400000 0).map (fun s =>
      (s.call (.mergeShards (formatShardId 0) (formatShardId 1) none none 0)).2.activeShards.map
        fun child => (child.info.parentShardId, child.info.adjacentParentShardId)) =
      some [(some (formatShardId 1), some (formatShardId 0))] := by
    decide +kernel
  rw [hcreate, Option.map_some] at hfirst hsecond hnames
  obtain ⟨lower, hlower, -, hend⟩ := handleAt_of_bounds (Option.some.inj hfirst)
  obtain ⟨upper, hupper, hstart, -⟩ := handleAt_of_bounds (Option.some.inj hsecond)
  obtain ⟨child, hchild, hparents⟩ := map_eq_singleton_iff.mp (Option.some.inj hnames)
  obtain ⟨hparent, hadjacent⟩ := Prod.mk.inj hparents
  refine ⟨s, child, hcreate, hchild, hparent, hadjacent, fun hlawful => ?_⟩
  refine (lawful_iff hkept _).mp hlawful ⟨0, lower, 1, upper, hlower, hupper, Nat.one_pos, .inl ?_⟩
  rw [hend, hstart]
  decide

end StreamState

end Rustack.Kinesis
