import Rustack.Kinesis.World

/-!
# Logs and what they have stored

The log of an actor is what its shard has ever stored, without the records that were trimmed.
Reads and iterators are stated over all records that the shard has ever stored.
-/

namespace Rustack.Kinesis

open List

/-- The sequence number with which a shard begins. -/
def firstNumber (n : ℕ) (birth : Millis) : SequenceNumber :=
  (SequenceNumberGenerator.new (n % 2 ^ 16) birth).numberPrefix

/-- The log of the shard with a number, beside the entries of all records it has stored. -/
structure Logged (entries : List (ℕ × StoredRecord)) (n : ℕ) (birth clock : Millis)
    (actor : ShardActor) : Prop where
  shardId : actor.shardId = formatShardId (n % 2 ^ 32)
  records : actor.recordLog.records = (entries.map (·.2)).drop actor.recordLog.trimOffset
  trimmed : actor.recordLog.trimOffset ≤ entries.length
  seqGen : actor.seqGen = ⟨firstNumber n birth, entries.length % 2 ^ 64⟩
  numbers : ∀ i entry, entries[i]? = some entry →
    entry.2.sequenceNumber = firstNumber n birth + i % 2 ^ 64
  arrivals : entries.Pairwise fun x y => x.2.arrival ≤ y.2.arrival
  before : ∀ entry ∈ entries, entry.2.arrival ≤ clock

variable {entries : List (ℕ × StoredRecord)} {n : ℕ} {birth clock : Millis} {actor : ShardActor}

/-! ## Steps of an actor -/

theorem Logged.later {clock' : Millis} (h : Logged entries n birth clock actor)
    (hle : clock ≤ clock') : Logged entries n birth clock' actor :=
  { h with before := fun entry hentry => (h.before entry hentry).trans hle }

theorem Logged.fresh (retentionPeriod birth clock : Millis) (n : ℕ) :
    Logged [] n birth clock (StreamState.freshActor retentionPeriod birth n) where
  shardId := rfl
  records := rfl
  trimmed := Nat.le_refl 0
  seqGen := rfl
  numbers := fun _ _ h => by cases h
  arrivals := List.Pairwise.nil
  before := fun _ h => absurd h not_mem_nil

theorem Logged.trim (h : Logged entries n birth clock actor) (now : Millis) :
    Logged entries n birth clock (actor.trim now) where
  shardId := h.shardId
  records := by
    refine (congrArg (drop _) h.records).trans ?_
    rw [drop_drop]
    rfl
  trimmed := by
    have hle : (actor.recordLog.records.takeWhile (actor.recordLog.expired now)).length ≤
        actor.recordLog.records.length := ( takeWhile_prefix _).length_le
    have htrimmed := h.trimmed
    rw [h.records, length_drop, length_map] at hle
    change actor.recordLog.trimOffset + _ ≤ _
    rw [h.records]
    omega
  seqGen := h.seqGen
  numbers := h.numbers
  arrivals := h.arrivals
  before := h.before

/-- A command leaves the log as it is, or it puts one record at its end. -/
theorem handleCommand_log (actor : ShardActor) (command : ShardCommand) (now : Millis) :
    (actor.handleCommand command now).2.shardId = actor.shardId ∧
      ((actor.handleCommand command now).2.recordLog = actor.recordLog ∧
          (actor.handleCommand command now).2.seqGen = actor.seqGen ∨
        ∃ record, (actor.handleCommand command now).2.recordLog = actor.recordLog.append record ∧
          (actor.handleCommand command now).2.seqGen = actor.seqGen.next.2 ∧
          record.sequenceNumber = actor.seqGen.next.1 ∧ record.arrival = now) := by
  cases command with
  | putRecord data partitionKey explicitHashKey =>
      unfold ShardActor.handleCommand
      dsimp only
      split
      · exact ⟨rfl, .inl ⟨rfl, rfl⟩⟩
      · exact ⟨rfl, .inr ⟨_, rfl, rfl, rfl, rfl⟩⟩
  | getRecords | getShardIterator | close | shutdown => exact ⟨rfl, .inl ⟨rfl, rfl⟩⟩

theorem added_of_eq {actor' : ShardActor} (h : actor'.recordLog = actor.recordLog) :
    World.added actor actor' = [] := by
  unfold World.added
  rw [h, drop_length]

theorem added_append {actor' : ShardActor} {record : StoredRecord}
    (h : actor'.recordLog = actor.recordLog.append record) :
    World.added actor actor' = [record] := by
  unfold World.added
  rw [h]
  exact drop_left

/-- A served command keeps the log in step with the entries. -/
theorem Logged.serve (h : Logged entries n birth clock actor) (ticket : ℕ)
    (command : ShardCommand) :
    Logged (entries ++ (World.added actor (actor.handleCommand command clock).2).map
      fun record => (ticket, record)) n birth clock (actor.handleCommand command clock).2 := by
  obtain ⟨hid, ⟨hlog, hgen⟩ | ⟨record, hlog, hgen, hnumber, harrival⟩⟩ :=
    handleCommand_log actor command clock
  · rw [added_of_eq hlog, map_nil, append_nil]
    exact
      { shardId := hid.trans h.shardId
        records := by rw [hlog]; exact h.records
        trimmed := by rw [hlog]; exact h.trimmed
        seqGen := hgen.trans h.seqGen
        numbers := h.numbers
        arrivals := h.arrivals
        before := h.before }
  · rw [added_append hlog, map_singleton]
    have htrim : (actor.handleCommand command clock).2.recordLog.trimOffset =
        actor.recordLog.trimOffset := by
      rw [hlog]
      rfl
    exact
      { shardId := hid.trans h.shardId
        records := by
          rw [htrim, hlog, map_append, drop_append_of_le_length
            (by rw [length_map]; exact h.trimmed), ← h.records]
          rfl
        trimmed := by
          rw [htrim, length_append]
          exact h.trimmed.trans (Nat.le_add_right _ _)
        seqGen := by
          rw [hgen, h.seqGen, length_append, length_singleton, ← Nat.mod_add_mod]
          rfl
        numbers := by
          intro i entry hentry
          rcases Nat.lt_or_ge i entries.length with hlt | hge
          · rw [getElem?_append_left hlt] at hentry
            exact h.numbers i entry hentry
          · rw [List.getElem?_append_right hge] at hentry
            obtain ⟨hone, rfl⟩ := List.getElem?_eq_some_iff.mp hentry
            have hzero : i - entries.length = 0 := Nat.lt_one_iff.mp hone
            obtain rfl : i = entries.length :=
              Nat.le_antisymm (Nat.le_of_sub_eq_zero hzero) hge
            rw [getElem_singleton, hnumber, h.seqGen]
            rfl
        arrivals := by
          refine pairwise_append.mpr ⟨h.arrivals, pairwise_singleton _ _, ?_⟩
          intro entry hentry last hlast
          rw [mem_singleton.mp hlast]
          exact (h.before entry hentry).trans harrival.ge
        before := by
          intro entry hentry
          rcases mem_append.mp hentry with hold | hnew
          · exact h.before entry hold
          · rw [mem_singleton.mp hnew]
            exact harrival.le }

/-- A put that is acknowledged has put its record at the end of the log. -/
theorem put_acknowledged {data : List UInt8} {partitionKey : String}
    {explicitHashKey : Option String} {now : Millis} {number shardId : String}
    (h : (actor.handleCommand (.putRecord data partitionKey explicitHashKey) now).1 =
      .put (.ok (number, shardId))) :
    ∃ record, World.added actor
        (actor.handleCommand (.putRecord data partitionKey explicitHashKey) now).2 = [record] ∧
      record.data = data ∧ record.partitionKey = partitionKey ∧
      record.explicitHashKey = explicitHashKey ∧
      number = record.sequenceNumber.toPaddedString ∧ shardId = actor.shardId := by
  unfold ShardActor.handleCommand at h ⊢
  dsimp only at h ⊢
  split at h
  · cases h
  · next hopen =>
      rw [if_neg hopen]
      obtain ⟨rfl, rfl⟩ := Prod.mk.inj (Except.ok.inj (ShardReply.put.inj h))
      exact ⟨_, added_append rfl, rfl, rfl, rfl, rfl, rfl⟩

/-! ## Reads -/

/-- A read returns the records from its position on that have not been trimmed, up to the limit
or to the end of the log. -/
theorem Logged.getRecords (h : Logged entries n birth clock actor) {position : ℕ}
    (hposition : position ≤ entries.length) (limit : ℕ) :
    ∃ first next, actor.recordLog.getRecords position limit =
        (((entries.map (·.2)).take next).drop first, next) ∧
      position ≤ first ∧ first ≤ next ∧ next ≤ entries.length ∧
      (∀ i, position ≤ i → i < first → i < actor.recordLog.trimOffset) ∧
      (next = first + limit ∨ next = entries.length) := by
  have htrimmed := h.trimmed
  have hlength : actor.recordLog.records.length =
      entries.length - actor.recordLog.trimOffset := by
    rw [h.records, length_drop, length_map]
  unfold ShardRecordLog.getRecords
  dsimp only
  split
  · next hend =>
      refine ⟨entries.length, entries.length, ?_, hposition, Nat.le_refl _, Nat.le_refl _,
        fun i hi hlt => by omega, .inr rfl⟩
      rw [hlength, Nat.add_sub_cancel' htrimmed, drop_eq_nil_of_le]
      exact length_take_le _ _
  · next hinside =>
      refine ⟨actor.recordLog.trimOffset + (position - actor.recordLog.trimOffset),
        actor.recordLog.trimOffset + min (position - actor.recordLog.trimOffset + limit)
          actor.recordLog.records.length, ?_, by omega, by omega, by omega,
        fun i hi hlt => by omega, by omega⟩
      rw [h.records, take_drop, drop_drop]

/-! ## Iterators -/

/-- The records at which an iterator may begin. -/
def meets : IteratorRequest → Except Decimal.ParseIntError (StoredRecord → Bool)
  | .trimHorizon => .ok fun _ => true
  | .latest => .ok fun _ => false
  | .atSequenceNumber text =>
    (SequenceNumber.fromStr text).map fun number record => number ≤ record.sequenceNumber
  | .afterSequenceNumber text =>
    (SequenceNumber.fromStr text).map fun number record => number < record.sequenceNumber
  | .atTimestamp time => .ok fun record => time ≤ record.arrival

theorem position_ok {log : ShardRecordLog} {request : IteratorRequest} {position : ℕ}
    (h : ShardActor.position log request = .ok position) :
    ∃ test, meets request = .ok test ∧ position = log.positionWhere test := by
  cases request with
  | trimHorizon =>
      cases h
      refine ⟨_, rfl, ?_⟩
      unfold ShardRecordLog.positionWhere ShardRecordLog.trimHorizonPosition
      cases log.records <;> rfl
  | latest =>
      cases h
      refine ⟨_, rfl, ?_⟩
      unfold ShardRecordLog.positionWhere ShardRecordLog.latestPosition
      rw [findIdx_eq_length_of_false fun _ _ => rfl]
  | atSequenceNumber | afterSequenceNumber =>
      unfold ShardActor.position at h
      unfold meets
      dsimp only at h ⊢
      split at h
      · next number hnumber =>
          cases h
          exact ⟨_, congrArg (Except.map _) hnumber, rfl⟩
      · cases h
  | atTimestamp time =>
      cases h
      exact ⟨_, rfl, rfl⟩

theorem position_error {log : ShardRecordLog} {request : IteratorRequest} {error : String}
    (h : ShardActor.position log request = .error error) : ∃ e, meets request = .error e := by
  cases request with
  | trimHorizon => cases h
  | latest => cases h
  | atSequenceNumber | afterSequenceNumber =>
      unfold ShardActor.position at h
      unfold meets
      dsimp only at h ⊢
      split at h
      · cases h
      · next e he => exact ⟨e, congrArg (Except.map _) he⟩
  | atTimestamp time => cases h

/-- A record that comes after one at which an iterator may begin is one as well. -/
theorem Logged.meets_mono (h : Logged entries n birth clock actor)
    (hnumbers : entries.length ≤ 2 ^ 64) {request : IteratorRequest} {test : StoredRecord → Bool}
    (htest : meets request = .ok test) {i j : ℕ} {entry entry' : ℕ × StoredRecord} (hle : i ≤ j)
    (hi : entries[i]? = some entry) (hj : entries[j]? = some entry') (hpass : test entry.2 = true) :
    test entry'.2 = true := by
  have hnumber : entry.2.sequenceNumber ≤ entry'.2.sequenceNumber := by
    have hlt := (List.getElem?_eq_some_iff.mp hj).1.trans_le hnumbers
    rw [h.numbers i entry hi, h.numbers j entry' hj, Nat.mod_eq_of_lt (hle.trans_lt hlt),
      Nat.mod_eq_of_lt hlt]
    exact Nat.add_le_add_left hle _
  have harrival : entry.2.arrival ≤ entry'.2.arrival := by
    obtain ⟨hlt, rfl⟩ := List.getElem?_eq_some_iff.mp hi
    obtain ⟨hlt', rfl⟩ := List.getElem?_eq_some_iff.mp hj
    rcases Nat.lt_or_eq_of_le hle with hlt | rfl
    · exact pairwise_iff_getElem.mp h.arrivals i j _ _ hlt
    · exact Nat.le_refl _
  cases request with
  | trimHorizon =>
      cases htest
      rfl
  | latest =>
      cases htest
      cases hpass
  | atSequenceNumber text =>
      unfold meets at htest
      dsimp only at htest
      cases hnumbertext : SequenceNumber.fromStr text with
      | error =>
          rw [hnumbertext] at htest
          cases htest
      | ok number =>
          rw [hnumbertext] at htest
          cases htest
          exact decide_eq_true ((of_decide_eq_true hpass).trans hnumber)
  | afterSequenceNumber text =>
      unfold meets at htest
      dsimp only at htest
      cases hnumbertext : SequenceNumber.fromStr text with
      | error =>
          rw [hnumbertext] at htest
          cases htest
      | ok number =>
          rw [hnumbertext] at htest
          cases htest
          exact decide_eq_true ((of_decide_eq_true hpass).trans_le hnumber)
  | atTimestamp time =>
      cases htest
      exact decide_eq_true ((of_decide_eq_true hpass).trans harrival)

theorem Logged.increasing (h : Logged entries n birth clock actor)
    (hnumbers : entries.length ≤ 2 ^ 64) :
    entries.Pairwise fun x y => x.2.sequenceNumber < y.2.sequenceNumber := by
  refine pairwise_iff_getElem.mpr fun i j hi hj hlt => ?_
  rw [h.numbers i _ (getElem?_eq_getElem hi), h.numbers j _ (getElem?_eq_getElem hj),
    Nat.mod_eq_of_lt (hi.trans_le hnumbers), Nat.mod_eq_of_lt (hj.trans_le hnumbers)]
  exact Nat.add_lt_add_left hlt _

/-- The numbers of a shard with a lower number are lower, where the clock has 48 bits. -/
theorem firstNumber_lt {a b birth birth' : ℕ} (hlt : a < b) (hb : b < 2 ^ 16)
    (hle : birth ≤ birth') (hclock : birth' < 2 ^ 48) (i j : ℕ) :
    firstNumber a birth + i % 2 ^ 64 < firstNumber b birth' + j % 2 ^ 64 := by
  have hmod : i % 2 ^ 64 < 2 ^ 64 := Nat.mod_lt _ (by decide)
  unfold firstNumber SequenceNumberGenerator.new
  dsimp only
  have ha : a % 2 ^ 16 = a := Nat.mod_eq_of_lt (hlt.trans hb)
  have hb' : b % 2 ^ 16 = b := Nat.mod_eq_of_lt hb
  have hbirth : birth * 2 ^ 16 % 2 ^ 64 = birth * 2 ^ 16 := Nat.mod_eq_of_lt (by omega)
  have hbirth' : birth' * 2 ^ 16 % 2 ^ 64 = birth' * 2 ^ 16 := Nat.mod_eq_of_lt (by omega)
  rw [ha, hb', hbirth, hbirth']
  have hshifted : (birth * 2 ^ 16 + a) * 2 ^ 64 + i % 2 ^ 64 <
      (birth' * 2 ^ 16 + b) * 2 ^ 64 + j % 2 ^ 64 := by omega
  exact hshifted

/-- The position of an iterator is that of the first record in the log that it may begin with, or
the end of the log. -/
theorem Logged.positionWhere (h : Logged entries n birth clock actor)
    (test : StoredRecord → Bool) :
    actor.recordLog.positionWhere test ≤ entries.length ∧
      (∀ i entry, i < actor.recordLog.positionWhere test → entries[i]? = some entry →
        test entry.2 = true → i < actor.recordLog.trimOffset) ∧
      (actor.recordLog.positionWhere test = entries.length ∨
        ∃ entry, entries[actor.recordLog.positionWhere test]? = some entry ∧
          test entry.2 = true) := by
  have htrimmed := h.trimmed
  have hget : ∀ k, actor.recordLog.records[k]? =
      (entries[actor.recordLog.trimOffset + k]?).map (·.2) := fun k => by
    rw [h.records, getElem?_drop, getElem?_map]
  have hlength : actor.recordLog.records.length =
      entries.length - actor.recordLog.trimOffset := by
    rw [h.records, length_drop, length_map]
  unfold ShardRecordLog.positionWhere
  refine ⟨?_, ?_, ?_⟩
  · have hle : actor.recordLog.records.findIdx test ≤ actor.recordLog.records.length :=
      findIdx_le_length
    omega
  · intro i entry hi hentry htest
    rcases Nat.lt_or_ge i actor.recordLog.trimOffset with hlt | hge
    · exact hlt
    · -- a record before the first one that passes does not pass
      obtain ⟨k, rfl⟩ := Nat.exists_eq_add_of_le hge
      have hk := hget k
      rw [hentry] at hk
      obtain ⟨hlt, hrecord⟩ := List.getElem?_eq_some_iff.mp hk
      have hnot : test actor.recordLog.records[k] = false :=
        List.not_of_lt_findIdx (Nat.lt_of_add_lt_add_left hi)
      rw [hrecord] at hnot
      exact absurd htest (ne_true_of_eq_false hnot)
  · rcases Nat.lt_or_ge (actor.recordLog.records.findIdx test)
      actor.recordLog.records.length with hlt | hge
    · refine .inr ?_
      have htest := findIdx_getElem (w := hlt)
      have hsome := hget (actor.recordLog.records.findIdx test)
      rw [getElem?_eq_getElem hlt] at hsome
      obtain ⟨entry, hentry, hrecord⟩ := Option.map_eq_some_iff.mp hsome.symm
      exact ⟨entry, hentry, hrecord ▸ htest⟩
    · refine .inl ?_
      have hle : actor.recordLog.records.findIdx test ≤ actor.recordLog.records.length :=
      findIdx_le_length
      omega

end Rustack.Kinesis
