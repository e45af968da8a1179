import Rustack.Kinesis.Readers

/-!
# Retention

A shard keeps the retention period that the stream had when the shard was created.  Its cleanup
removes records by that period, whatever the stream shows when the cleanup runs.
-/

namespace Rustack.Kinesis.World

open List

variable {md5 : String → HashKey} {w w' : World}

/-- The retention period of the stream as it is shown, in whole hours. -/
def shownPeriod (s : StreamState) : Millis := s.currentHours.toNat * 3600000

/-- The records in the log of a shard. -/
def logOf (w : World) (n : ℕ) : List StoredRecord :=
  ((w.stream.actors[n]?).map (·.recordLog.records)).getD []

/-- The records that a step removes from the front of a log. -/
def removed (w w' : World) (n : ℕ) : List StoredRecord :=
  (w.logOf n).take (w'.trimmed n - w.trimmed n)

/-- A step removes only records that are older than the period of the stream. -/
def InTime (w w' : World) : Prop :=
  ∀ n, ∀ record ∈ removed w w' n, record.arrival + shownPeriod w.stream < w.clock

/-- A cleanup finds no record that is older than the period of its shard, but not older than the
period of the stream. -/
def Covered (w : World) : Event → Prop
  | .cleanup i => ∀ actor : ShardActor, w.stream.actors[i]? = some actor →
    ∀ record ∈ actor.recordLog.records,
      record.arrival + actor.recordLog.retentionPeriod < w.clock →
        record.arrival + shownPeriod w.stream < w.clock
  | _ => True

def RunInTime (md5 : String → HashKey) (w : World) : List Event → Prop
  | [] => True
  | e :: events => ∀ w', step md5 w e = some w' → InTime w w' ∧ RunInTime md5 w' events

theorem trimmed_of_actors (h : w'.stream.actors = w.stream.actors) (n : ℕ) :
    w'.trimmed n = w.trimmed n := by
  unfold trimmed
  rw [h]

theorem trimmed_serve {i ticket : ℕ} {actor : ShardActor} {command : ShardCommand}
    (hactor : w.stream.actors[i]? = some actor) (n : ℕ) :
    (w.serve i ticket actor command).trimmed n = w.trimmed n := by
  unfold trimmed serve setActor setProgress
  dsimp only
  by_cases hn : n = i
  · subst hn
    rw [List.getElem?_set_self (List.getElem?_eq_some_iff.mp hactor).1, hactor]
    exact trimOffset_handleCommand actor command w.clock
  · rw [getElem?_set_ne (Ne.symm hn)]

theorem trimmed_finish (h : Core w) (hfinish : w.finish = some w') (n : ℕ) :
    w'.trimmed n = w.trimmed n := by
  obtain ⟨reshard, endings, hclosing, hlength, rfl⟩ := finish_cases hfinish
  obtain ⟨s, hs⟩ := h.whole
  obtain ⟨children, hf⟩ := hs.finishes hclosing hlength
  unfold trimmed
  dsimp only
  rw [hf.actors]
  rcases Nat.lt_or_ge n w.stream.actors.length with hlt | hge
  · rw [getElem?_append_left hlt]
  · rw [getElem?_append_right hge, getElem?_eq_none hge, getElem?_map]
    cases (range children.length)[n - w.stream.actors.length]? <;> rfl

/-- The actors after a begun reshard are those before it. -/
theorem actors_begin
    {begun : Except KinesisError (StreamState.Reshard × StreamState)}
    (hbegun : ∀ reshard stream, begun = .ok (reshard, stream) →
      StreamState.Replaces w.stream reshard stream) :
    (w.begin' begun).stream.actors = w.stream.actors := by
  rcases begin_cases w begun with hsame | ⟨reshard, stream, hok, hbegin⟩
  · rw [hsame]
  · rw [hbegin]
    dsimp only
    rw [(hbegun reshard stream hok).frame]

theorem trimmed_step (h : Core w) {e : Event} (hother : ∀ i, e ≠ .cleanup i)
    (hstep : step md5 w e = some w') (n : ℕ) : w'.trimmed n = w.trimmed n := by
  cases e with
  | wait time =>
      unfold step at hstep
      dsimp only at hstep
      split at hstep
      · cases hstep
        rfl
      · cases hstep
  | put data partitionKey explicitHashKey =>
      obtain ⟨-, hput⟩ := unlocked_some hstep
      cases hput
      rcases put_cases md5 w data partitionKey explicitHashKey with hsame | ⟨handle, -, hissue⟩
      · rw [hsame]
      · rw [hissue]
        rfl
  | getShardIterator shardId request =>
      obtain ⟨-, hnext⟩ := unlocked_some hstep
      cases hnext
      rcases getShardIterator_cases w shardId request with hsame | ⟨handle, -, hissue⟩
      · rw [hsame]
      · rw [hissue]
        rfl
  | getRecords i limit =>
      obtain ⟨-, hread⟩ := unlocked_some hstep
      obtain ⟨reader, token, -, -, rfl⟩ := getRecords_cases hread
      refine trimmed_of_actors ?_ n
      unfold readWith
      split <;> rfl
  | take i nonce =>
      obtain ⟨_, _, _, -, -, -, rfl⟩ := take_cases hstep
      rfl
  | send ticket =>
      obtain ⟨_, _, -, rfl⟩ := send_cases hstep
      rfl
  | handle i =>
      obtain ⟨ticket, r, actor, -, -, -, hactor, rfl⟩ := handle_cases hstep
      exact trimmed_serve hactor n
  | cleanup i => exact absurd rfl (hother i)
  | split shard key =>
      obtain ⟨hnone, hnext⟩ := unlocked_some hstep
      cases hnext
      exact trimmed_of_actors (actors_begin fun reshard stream hok =>
        StreamState.beginSplit_replaces (h.idle hnone).tiles hok) n
  | merge shard adjacent =>
      obtain ⟨hnone, hnext⟩ := unlocked_some hstep
      cases hnext
      exact trimmed_of_actors (actors_begin fun reshard stream hok =>
        StreamState.beginMerge_replaces (h.idle hnone).tiles hok) n
  | close =>
      obtain ⟨_, _, _, -, rfl⟩ := close_cases hstep
      rfl
  | closed =>
      obtain ⟨_, _, -, -, rfl⟩ := closed_cases hstep
      rfl
  | finish => exact trimmed_finish h hstep n
  | increase hours =>
      obtain ⟨-, hnext⟩ := unlocked_some hstep
      cases hnext
      obtain ⟨period, hperiod⟩ := increase_cases w.stream hours
      rw [hperiod]
      rfl
  | decrease hours =>
      obtain ⟨-, hnext⟩ := unlocked_some hstep
      cases hnext
      obtain ⟨period, hperiod⟩ := decrease_cases w.stream hours
      rw [hperiod]
      rfl

theorem inTime_of_trimmed (h : ∀ n, w'.trimmed n = w.trimmed n) : InTime w w' := by
  intro n record hrecord
  unfold removed at hrecord
  rw [h n, Nat.sub_self, take_zero] at hrecord
  cases hrecord

/-! ## What a cleanup removes -/

/-- In the order of arrival, the records before an expired one are expired as well. -/
theorem mem_takeWhile_expired {log : ShardRecordLog} {now : Millis} {records : List StoredRecord}
    (hsorted : records.Pairwise fun x y => x.arrival ≤ y.arrival) {record : StoredRecord} :
    record ∈ records.takeWhile (log.expired now) ↔
      record ∈ records ∧ record.arrival + log.retentionPeriod < now := by
  induction records with
  | nil => simp
  | cons first records ih =>
      obtain ⟨hfirst, hsorted⟩ := pairwise_cons.mp hsorted
      by_cases hexpired : log.expired now first = true
      · rw [takeWhile_cons_of_pos hexpired, mem_cons, mem_cons, ih hsorted,
          or_and_right]
        refine or_congr_left ⟨fun heq => ⟨heq, ?_⟩, And.left⟩
        rw [heq]
        exact of_decide_eq_true hexpired
      · rw [takeWhile_cons_of_neg hexpired]
        refine iff_of_false not_mem_nil ?_
        rintro ⟨hmem, hold⟩
        refine hexpired (decide_eq_true (Nat.lt_of_le_of_lt (Nat.add_le_add_right ?_ _) hold))
        rcases mem_cons.mp hmem with rfl | hmem
        · exact Nat.le_refl _
        · exact hfirst record hmem

theorem removed_cleanup {i : ℕ} {actor : ShardActor} (hactor : w.stream.actors[i]? = some actor)
    (n : ℕ) : removed w (w.setActor i (actor.trim w.clock)) n =
      if n = i then actor.recordLog.records.takeWhile (actor.recordLog.expired w.clock)
      else [] := by
  unfold removed trimmed logOf setActor
  dsimp only
  split
  · next hn =>
      subst hn
      rw [List.getElem?_set_self (List.getElem?_eq_some_iff.mp hactor).1, hactor]
      change List.take (actor.recordLog.trimOffset + _ - actor.recordLog.trimOffset) _ = _
      rw [Nat.add_sub_cancel_left]
      exact (List.prefix_iff_eq_take.mp (List.takeWhile_prefix _)).symm
  · next hn =>
      rw [getElem?_set_ne (Ne.symm hn), Nat.sub_self, take_zero]

theorem Core.sorted (h : Core w) {n : ℕ} {actor : ShardActor}
    (hactor : w.stream.actors[n]? = some actor) :
    actor.recordLog.records.Pairwise fun x y => x.arrival ≤ y.arrival := by
  obtain ⟨birth, -, -, hlogged⟩ := h.logs.logged
  rw [(hlogged n actor hactor).records]
  have hsorted : ((w.history.getD n []).map (·.2)).Pairwise fun x y => x.arrival ≤ y.arrival :=
    pairwise_map.mpr (hlogged n actor hactor).arrivals
  exact hsorted.sublist (drop_sublist _ _)

theorem inTime_iff (h : Core w) {e : Event} (hstep : step md5 w e = some w') :
    InTime w w' ↔ Covered w e := by
  by_cases hcleanup : ∃ i, e = .cleanup i
  · obtain ⟨i, rfl⟩ := hcleanup
    obtain ⟨actor, hactor, rfl⟩ := cleanup_cases hstep
    constructor
    · intro htime other hother record hrecord hold
      obtain rfl := Option.some.inj (hactor.symm.trans hother)
      refine htime i record ?_
      rw [removed_cleanup hactor, if_pos rfl]
      exact (mem_takeWhile_expired (h.sorted hactor)).mpr ⟨hrecord, hold⟩
    · intro hcovered n record hrecord
      rw [removed_cleanup hactor] at hrecord
      split at hrecord
      · obtain ⟨hmem, hold⟩ := (mem_takeWhile_expired (h.sorted hactor)).mp hrecord
        exact hcovered actor hactor record hmem hold
      · cases hrecord
  · have hother : ∀ i, e ≠ .cleanup i := fun i heq => hcleanup ⟨i, heq⟩
    refine iff_of_true (inTime_of_trimmed (trimmed_step h hother hstep)) ?_
    cases e with
    | cleanup i => exact absurd rfl (hother i)
    | _ => trivial

/-- In a run that stays in time, the last step is in time. -/
theorem RunInTime.last {events : List Event} {e : Event} {s : World}
    (h : RunInTime md5 s (events ++ [e])) (hrun : run md5 s events = some w)
    (hstep : step md5 w e = some w') : InTime w w' := by
  induction events generalizing s with
  | nil =>
      cases hrun
      exact (h w' hstep).1
  | cons first events ih =>
      obtain ⟨next, hfirst, hrest⟩ := Option.bind_eq_some_iff.mp hrun
      exact ih (h next hfirst).2 hrest

end Rustack.Kinesis.World
