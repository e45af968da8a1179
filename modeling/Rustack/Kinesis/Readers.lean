import Rustack.Kinesis.Steps

/-!
# Readers

A reader that follows its iterators is given every record of its shard from its first position
on, once and in order, but for those that were trimmed before it came to them.
-/

namespace Rustack.Kinesis.World

open List StreamState

variable {md5 : String → HashKey} {w w' : World} {s : StreamState}

/-! ## Puts -/

/-- The shard that a record is routed to takes its key. -/
theorem routePut_ok (h : StreamState.Kept w.stream) {data : List UInt8} {partitionKey : String}
    {explicitHashKey : Option String} {handle : ShardHandle}
    (hroute : routePut md5 w data partitionKey explicitHashKey = .ok handle) :
    ∃ key, keyOf md5 partitionKey explicitHashKey = .ok key ∧
      handle ∈ w.stream.activeShards ∧ handle.info.range.contains key = true := by
  obtain ⟨-, -, hroute⟩ := Except.bind_eq_ok.mp hroute
  obtain ⟨-, -, hroute⟩ := Except.bind_eq_ok.mp hroute
  obtain ⟨i, hi, hroute⟩ := Except.bind_eq_ok.mp hroute
  have hget : w.stream.activeShards[i]? = some handle := by
    split at hroute
    · cases hroute
    · next found hfound =>
        cases hroute
        exact hfound
  have hkey : ∃ key, keyOf md5 partitionKey explicitHashKey = .ok key ∧
      StreamState.Routed w.stream.activeShards key i := by
    cases explicitHashKey with
    | none =>
        obtain ⟨j, hj⟩ := exists_routed h.tiles (md5 partitionKey)
        obtain rfl := Except.ok.inj ((routeToShard_none hj).symm.trans hi)
        exact ⟨_, rfl, hj⟩
    | some text =>
        cases htext : HashKey.fromDecimalStr text with
        | ok key =>
            obtain ⟨j, hj⟩ := exists_routed h.tiles key
            obtain rfl := Except.ok.inj ((routeToShard_some htext hj).symm.trans hi)
            exact ⟨key, htext, hj⟩
        | error error =>
            unfold routeToShard at hi
            simp only [htext] at hi
            split at hi <;> cases hi
  obtain ⟨key, hkey, hrouted⟩ := hkey
  obtain ⟨hlt, hcontains, -⟩ := findIdx?_eq_some_iff_getElem.mp hrouted.found
  obtain ⟨_, hhandle⟩ := List.getElem?_eq_some_iff.mp hget
  rw [hhandle] at hcontains
  exact ⟨key, hkey, List.mem_of_getElem? hget, hcontains⟩

theorem put_cases (md5 : String → HashKey) (w : World) (data : List UInt8) (partitionKey : String)
    (explicitHashKey : Option String) :
    w.put md5 data partitionKey explicitHashKey = w ∨
      ∃ handle, routePut md5 w data partitionKey explicitHashKey = .ok handle ∧
        w.put md5 data partitionKey explicitHashKey =
          w.issue handle.actor (.putRecord data partitionKey explicitHashKey) := by
  unfold put
  split
  · exact .inl rfl
  · next handle hroute => exact .inr ⟨handle, hroute, rfl⟩

theorem Kept.put (h : Kept md5 w) (hnone : w.closing = none) (data : List UInt8)
    (partitionKey : String) (explicitHashKey : Option String) :
    Kept md5 (w.put md5 data partitionKey explicitHashKey) := by
  rcases put_cases md5 w data partitionKey explicitHashKey with hsame | ⟨handle, hroute, hissue⟩
  · rw [hsame]
    exact h
  · rw [hissue]
    refine h.issue ⟨fun data' partitionKey' explicitHashKey' hcommand => ?_,
      fun position limit hcommand => ?_⟩
    · cases hcommand
      obtain ⟨key, hkey, hhandle, hcontains⟩ := routePut_ok (h.toCore.idle hnone) hroute
      refine ⟨key, handle, hkey, ?_, rfl, hcontains⟩
      rw [handles_idle hnone]
      exact mem_append_left _ hhandle
    · cases hcommand

/-! ## Iterators -/

theorem findShard_some {shardId : String} {handle : ShardHandle}
    (h : w.findShard shardId = some handle) :
    handle ∈ w.stream.handles ∧ handle.info.shardId = shardId := by
  refine ⟨mem_of_find?_eq_some h, ?_⟩
  have hid := find?_some h
  rw [decide_eq_true_eq] at hid
  exact hid

theorem getShardIterator_cases (w : World) (shardId : String) (request : IteratorRequest) :
    w.getShardIterator shardId request = w ∨ ∃ handle, w.findShard shardId = some handle ∧
      w.getShardIterator shardId request =
        { w.issue handle.actor (.getShardIterator request) with
          readers := w.readers ++
            [⟨shardId, w.requests.length, [], .waiting w.requests.length⟩] } := by
  unfold getShardIterator
  split
  · exact .inl rfl
  · next handle hfind => exact .inr ⟨handle, hfind, rfl⟩

theorem issue_last (w : World) (actor : ℕ) (command : ShardCommand) :
    (w.issue actor command).requests[w.requests.length]? = some ⟨actor, command, .routed⟩ := by
  unfold issue
  rw [getElem?_append_right (Nat.le_refl _), Nat.sub_self]
  rfl

theorem Kept.getShardIterator (h : Kept md5 w) (hnone : w.closing = none) (shardId : String)
    (request : IteratorRequest) : Kept md5 (w.getShardIterator shardId request) := by
  rcases getShardIterator_cases w shardId request with hsame | ⟨handle, hfind, hissue⟩
  · rw [hsame]
    exact h
  · rw [hissue]
    have hkept : Kept md5 (w.issue handle.actor (.getShardIterator request)) :=
      h.issue ⟨fun _ _ _ hcommand => (by cases hcommand), fun _ _ hcommand => (by cases hcommand)⟩
    refine hkept.withReaders fun reader hreader => ?_
    rcases mem_append.mp hreader with hold | hnew
    · exact hkept.readers reader hold
    · obtain rfl := mem_singleton.mp hnew
      obtain ⟨hhandle, hid⟩ := findShard_some hfind
      refine ⟨handle.actor, _, ⟨handle, ?_, hid, rfl⟩, issue_last w _ _, rfl, ⟨request, rfl⟩,
        .inl ⟨rfl, .inl rfl⟩⟩
      exact (issue_grows w _ _).handles handle (handles_idle hnone ▸ hhandle)

/-! ## Reads -/

theorem colon_not_mem_formatShardId (n : ℕ) : ':' ∉ (formatShardId n).toList := by
  unfold formatShardId
  rw [String.toList_append]
  intro h
  rcases mem_append.mp h with hname | hnumber
  · exact absurd hname (by decide)
  · exact ShardIteratorToken.colon_not_mem_padded 12 n hnumber

theorem Core.named (h : Core w) {handle : ShardHandle} (hhandle : handle ∈ w.handles) :
    handle.info.shardId = formatShardId (handle.actor % 2 ^ 32) := by
  obtain ⟨s, hs⟩ := h.whole
  exact hs.kept.numbered.named handle (hs.handles.mem_iff.mpr hhandle)

/-- An iterator is read back, and its shard is found. -/
theorem locate_token (h : Core w) (hb : Bounded w) (hnone : w.closing = none)
    {handle : ShardHandle} (hhandle : handle ∈ w.handles) {position : ℕ}
    (hposition : position ≤ (w.entries handle.actor).length) (nonce : String) :
    w.locate (ShardIteratorToken.encode ⟨w.stream.name, handle.info.shardId, position, nonce⟩) =
      some (handle, position) := by
  have hcolon : ':' ∉ handle.info.shardId.toList := by
    rw [h.named hhandle]
    exact colon_not_mem_formatShardId _
  have hdecode : ShardIteratorToken.decode (ShardIteratorToken.encode
      ⟨w.stream.name, handle.info.shardId, position, nonce⟩) =
      .ok ⟨w.stream.name, handle.info.shardId, position, nonce⟩ :=
    ShardIteratorToken.decode_encode hb.name hcolon
      (hposition.trans_lt (hb.entries handle.actor))
  have hfew : w.stream.shards.length ≤ 2 ^ 32 := (hb.shards.trans (by decide)).le
  have hfind : w.findShard handle.info.shardId = some handle :=
    (h.idle hnone).numbered.find? hfew (handles_idle hnone ▸ hhandle)
  unfold locate
  rw [hdecode]
  dsimp only
  rw [if_pos rfl, hfind]
  rfl

theorem getRecords_cases {i limit : ℕ} (h : w.getRecords i limit = some w') :
    ∃ reader token, w.readers[i]? = some reader ∧ reader.phase = .holding token ∧
      w' = w.readWith i reader token limit := by
  unfold getRecords at h
  split at h
  · cases h
  · next reader hreader =>
      split at h
      · next token hphase => exact ⟨reader, token, hreader, hphase, (Option.some.inj h).symm⟩
      · cases h

theorem readWith_grows (w : World) (i : ℕ) (reader : Reader) (token : String) (limit : ℕ) :
    Grows w (w.readWith i reader token limit) := by
  unfold readWith
  split
  · exact withReaders_grows w _
  · exact (issue_grows w _ _).trans (withReaders_grows _ _)

theorem Core.readWith (h : Core w) (i : ℕ) (reader : Reader) (token : String) (limit : ℕ) :
    Core (w.readWith i reader token limit) := by
  unfold World.readWith
  split
  · exact h.withReaders _
  · exact (h.issue _ _).withReaders _

theorem Kept.getRecords (h : Kept md5 w) (hb : Bounded w) (hnone : w.closing = none) {i limit : ℕ}
    (hread : w.getRecords i limit = some w') : Kept md5 w' := by
  obtain ⟨reader, token, hreader, hphase, rfl⟩ := getRecords_cases hread
  obtain ⟨n, opened, hattends⟩ := h.readers reader (mem_of_getElem? hreader)
  obtain ⟨handle, hhandle, hid, rfl⟩ := hattends.handle
  rcases hattends.progress with ⟨-, hwaiting | ⟨hrefused, -⟩⟩ |
    ⟨start, position, places, hstart, hgiven, hstands⟩
  · cases hphase.symm.trans hwaiting
  · cases hphase.symm.trans hrefused
  · rcases hstands with ⟨nonce, hholding⟩ | ⟨_, _, _, hwaiting, -⟩
    · obtain rfl := Phase.holding.inj (hphase.symm.trans hholding)
      have hlocate := locate_token h.toCore hb hnone hhandle hgiven.position_le nonce
      rw [hid] at hlocate
      unfold readWith
      rw [hlocate]
      dsimp only
      have hkept : Kept md5 (w.issue handle.actor (.getRecords position limit)) :=
        h.issue ⟨fun _ _ _ hcommand => (by cases hcommand), fun _ _ hcommand => by
          cases hcommand
          exact hgiven.position_le⟩
      have hgrows := issue_grows w handle.actor (.getRecords position limit)
      obtain ⟨opened', hopened', hfollows⟩ := hgrows.requests _ _ hattends.asked
      refine hkept.setReader i ⟨handle.actor, opened', ⟨handle, hgrows.handles handle hhandle, hid,
        rfl⟩, hopened', hfollows.actor.trans hattends.actor, ?_, .inr ⟨start, position, places,
        hfollows.answered _ hstart, hgiven.grow hgrows, .inr ⟨_, _, limit, rfl,
        issue_last w _ _, rfl, rfl⟩⟩⟩
      obtain ⟨request, hcommand⟩ := hattends.command
      exact ⟨request, hfollows.command.trans hcommand⟩
    · cases hphase.symm.trans hwaiting

/-! ## Answers -/

theorem map_some_drop_take {α : Type} (xs : List α) {first next : ℕ} (hle : first ≤ next)
    (hnext : next ≤ xs.length) :
    ((xs.take next).drop first).map some =
      (range' first (next - first)).map fun i => xs[i]? := by
  apply ext_getElem
  · rw [length_map, length_drop, length_take, Nat.min_eq_left hnext,
      length_map, length_range']
  · intro k hk hk'
    rw [length_map, length_range'] at hk'
    have hlt : first + k < xs.length := by omega
    simp [getElem?_eq_getElem hlt]

/-- The records of a read go on where the reader stood. -/
theorem Given.read {n start position first next : ℕ} {places : List ℕ}
    {received : List StoredRecord} (h : Given w n start position places received)
    (hfirst : position ≤ first) (hnext : first ≤ next) (hle : next ≤ (w.entries n).length)
    (hskipped : ∀ i, position ≤ i → i < first → i < w.trimmed n) :
    Given w n start next (places ++ range' first (next - first))
      (received ++ (((w.entries n).map (·.2)).take next).drop first) where
  start_le := h.start_le.trans (hfirst.trans hnext)
  position_le := hle
  increasing := by
    refine pairwise_append.mpr ⟨h.increasing, pairwise_lt_range' .., ?_⟩
    intro i hi j hj
    have hinside := (h.inside i hi).2
    have hrange := mem_range'_1.mp hj
    omega
  inside := by
    intro i hi
    have hstart := h.start_le
    rcases mem_append.mp hi with hold | hnew
    · have hinside := h.inside i hold
      omega
    · have hrange := mem_range'_1.mp hnew
      omega
  records := by
    rw [map_append, map_append, h.records,
      map_some_drop_take _ hnext (by rw [length_map]; exact hle)]
    simp only [getElem?_map]
  missing := by
    intro i hi hlt hnot
    obtain ⟨hold, hnew⟩ := not_or.mp (mt mem_append.mpr hnot)
    rcases Nat.lt_or_ge i position with hbefore | hafter
    · exact h.missing i hi hbefore hold
    · refine hskipped i hafter (Nat.lt_of_not_le fun hge => hnew ?_)
      exact mem_range'_1.mpr ⟨hge, by omega⟩

theorem answerOf_some {ticket : ℕ} {reply : ShardReply} (h : w.answerOf ticket = some reply) :
    ∃ r : Request, w.requests[ticket]? = some r ∧ r.progress = .answered reply := by
  unfold answerOf at h
  split at h
  · next actor command answer hr =>
      cases h
      exact ⟨_, hr, rfl⟩
  · cases h

theorem take_cases {i : ℕ} {nonce : String} (h : w.take i nonce = some w') :
    ∃ reader ticket reply, w.readers[i]? = some reader ∧ reader.phase = .waiting ticket ∧
      w.answerOf ticket = some reply ∧ w' = w.setReader i (w.taken reader nonce reply) := by
  unfold take at h
  split at h
  · cases h
  · next reader hreader =>
      split at h
      · next ticket hphase =>
          obtain ⟨reply, hreply, hw'⟩ := Option.map_eq_some_iff.mp h
          exact ⟨reader, ticket, reply, hreader, hphase, hreply, hw'.symm⟩
      · cases h

/-- A reader stays with its shard when it takes an answer. -/
theorem Attends.taken {reader : Reader} {n ticket : ℕ} {opened : Request} {reply : ShardReply}
    (hattends : Attends w reader n opened) (h : Kept md5 w)
    (hphase : reader.phase = .waiting ticket)
    (hreply : w.answerOf ticket = some reply) (nonce : String) :
    Attends w (w.taken reader nonce reply) n opened := by
  obtain ⟨r, hr, hanswered⟩ := answerOf_some hreply
  obtain ⟨hmatches, hanswers⟩ := h.answers ticket r reply hr hanswered
  rcases hattends.progress with ⟨hnone, hwaiting | ⟨hrefused, -⟩⟩ |
    ⟨start, position, places, hstart, hgiven, hstands⟩
  · -- the first iterator
    obtain rfl := Phase.waiting.inj (hphase.symm.trans hwaiting)
    obtain rfl := Option.some.inj (hr.symm.trans hattends.asked)
    obtain ⟨request, hcommand⟩ := hattends.command
    obtain ⟨result, rfl⟩ := hmatches.iterator request hcommand
    cases result with
    | error error =>
        exact { hattends with progress := .inl ⟨hnone, .inr ⟨rfl, error, hanswered⟩⟩ }
    | ok start =>
        obtain ⟨test, -, hle, -, -⟩ := hanswers request hcommand
        rw [hattends.actor] at hle
        refine { hattends with
          progress := .inr ⟨start, start, [], hanswered, ?_, .inl ⟨nonce, rfl⟩⟩ }
        exact ⟨Nat.le_refl _, hle, List.Pairwise.nil, fun _ hi => absurd hi not_mem_nil,
          congrArg (map some) hnone,
          fun i hi hlt => absurd hlt (Nat.not_lt_of_ge hi)⟩
  · cases hphase.symm.trans hrefused
  · rcases hstands with ⟨_, hholding⟩ | ⟨ticket', r', limit, hwaiting, hr', hactor, hcommand⟩
    · cases hphase.symm.trans hholding
    · obtain rfl := Phase.waiting.inj (hphase.symm.trans hwaiting)
      obtain rfl := Option.some.inj (hr.symm.trans hr')
      obtain ⟨records, next, behind, rfl⟩ := hmatches.read position limit hcommand
      obtain ⟨first, rfl, hfirst, hnext, hle, hskipped, -⟩ := hanswers position limit hcommand
      rw [hactor] at hle hskipped ⊢
      exact { hattends with
        progress := .inr ⟨start, next, _, hstart, hgiven.read hfirst hnext hle hskipped,
          .inl ⟨nonce, rfl⟩⟩ }

theorem Kept.take (h : Kept md5 w) {i : ℕ} {nonce : String} (htake : w.take i nonce = some w') :
    Kept md5 w' := by
  obtain ⟨reader, ticket, reply, hreader, hphase, hreply, rfl⟩ := take_cases htake
  obtain ⟨n, opened, hattends⟩ := h.readers reader (mem_of_getElem? hreader)
  exact h.setReader i ⟨n, opened, hattends.taken h hphase hreply nonce⟩

/-! ## Parents are closed -/

theorem close_cases (h : w.close = some w') :
    ∃ (reshard : StreamState.Reshard) (endings : List (Option String)) (parent : ShardHandle),
      w.closing = some ⟨reshard, endings, none⟩ ∧
      w' = { w.issue parent.actor (.close none) with
        closing := some ⟨reshard, endings, some w.requests.length⟩ } := by
  unfold close at h
  split at h
  · next reshard endings hclosing =>
      obtain ⟨parent, -, hw'⟩ := Option.map_eq_some_iff.mp h
      exact ⟨reshard, endings, parent, hclosing, hw'.symm⟩
  · cases h

theorem closed_cases (h : w.closed = some w') :
    ∃ c c', w.closing = some c ∧ c'.reshard = c.reshard ∧ w' = { w with closing := some c' } := by
  unfold closed at h
  split at h
  · next reshard endings ticket hclosing =>
      split at h
      · next ending _ =>
          exact ⟨_, ⟨reshard, endings ++ [ending], none⟩, hclosing, rfl, (Option.some.inj h).symm⟩
      · cases h
  · cases h

/-! ## All steps -/

theorem unlocked_some {next : Option World} (h : w.unlocked next = some w') :
    w.closing = none ∧ next = some w' := by
  unfold unlocked at h
  split at h
  · next hnone => exact ⟨hnone, h⟩
  · cases h

theorem begin_cases (w : World)
    (begun : Except KinesisError (StreamState.Reshard × StreamState)) :
    w.begin' begun = w ∨ ∃ reshard stream, begun = .ok (reshard, stream) ∧
      w.begin' begun = { w with stream, closing := some ⟨reshard, [], none⟩ } := by
  cases begun with
  | error error => exact .inl rfl
  | ok pair => exact .inr ⟨pair.1, pair.2, rfl, rfl⟩

theorem increase_cases (stream : StreamState) (hours : ℤ) :
    ∃ period, (stream.increaseStreamRetentionPeriod hours).2 =
      { stream with retentionPeriod := period } := by
  unfold increaseStreamRetentionPeriod
  split
  · exact ⟨stream.retentionPeriod, rfl⟩
  · split
    · exact ⟨stream.retentionPeriod, rfl⟩
    · exact ⟨_, rfl⟩

theorem decrease_cases (stream : StreamState) (hours : ℤ) :
    ∃ period, (stream.decreaseStreamRetentionPeriod hours).2 =
      { stream with retentionPeriod := period } := by
  unfold decreaseStreamRetentionPeriod
  split
  · exact ⟨stream.retentionPeriod, rfl⟩
  · split
    · exact ⟨stream.retentionPeriod, rfl⟩
    · exact ⟨_, rfl⟩

theorem Core.begin' (md5 : String → HashKey) (h : Core w) (hnone : w.closing = none)
    {begun : Except KinesisError (StreamState.Reshard × StreamState)}
    (hbegun : ∀ reshard stream, begun = .ok (reshard, stream) →
      StreamState.Replaces w.stream reshard stream) :
    Grows w (w.begin' begun) ∧ Core (w.begin' begun) ∧
      (Kept md5 w → Kept md5 (w.begin' begun)) := by
  rcases begin_cases w begun with hsame | ⟨reshard, stream, hok, hbegin⟩
  · rw [hsame]
    exact ⟨Grows.refl w, h, id⟩
  · rw [hbegin]
    have hreplaces := hbegun reshard stream hok
    exact ⟨(h.begin hnone hreplaces).1, (h.begin hnone hreplaces).2,
      fun hkept => hkept.begin hnone hreplaces⟩

/-- Every step keeps the invariant. -/
theorem Core.next (h : Core w) {e : Event} (hstep : step md5 w e = some w') :
    Grows w w' ∧ Core w' ∧ (Bounded w → Kept md5 w → Kept md5 w') := by
  cases e with
  | wait time =>
      unfold step at hstep
      dsimp only at hstep
      split at hstep
      · next hle =>
          cases hstep
          exact ⟨wait_grows hle, h.wait hle, fun _ hkept => hkept.wait hle⟩
      · cases hstep
  | put data partitionKey explicitHashKey =>
      obtain ⟨hnone, hput⟩ := unlocked_some hstep
      cases hput
      refine ⟨?_, ?_, fun _ hkept => hkept.put hnone data partitionKey explicitHashKey⟩
      · rcases put_cases md5 w data partitionKey explicitHashKey with
          hsame | ⟨handle, -, hissue⟩
        · rw [hsame]
          exact Grows.refl w
        · rw [hissue]
          exact issue_grows w _ _
      · rcases put_cases md5 w data partitionKey explicitHashKey with
          hsame | ⟨handle, -, hissue⟩
        · rw [hsame]
          exact h
        · rw [hissue]
          exact h.issue _ _
  | getShardIterator shardId request =>
      obtain ⟨hnone, hnext⟩ := unlocked_some hstep
      cases hnext
      refine ⟨?_, ?_, fun _ hkept => hkept.getShardIterator hnone shardId request⟩
      · rcases getShardIterator_cases w shardId request with hsame | ⟨handle, -, hissue⟩
        · rw [hsame]
          exact Grows.refl w
        · rw [hissue]
          exact (issue_grows w _ _).trans (withReaders_grows _ _)
      · rcases getShardIterator_cases w shardId request with hsame | ⟨handle, -, hissue⟩
        · rw [hsame]
          exact h
        · rw [hissue]
          exact (h.issue _ _).withReaders _
  | getRecords i limit =>
      obtain ⟨hnone, hread⟩ := unlocked_some hstep
      refine ⟨?_, ?_, fun hb hkept => hkept.getRecords hb hnone hread⟩
      · obtain ⟨reader, token, -, -, rfl⟩ := getRecords_cases hread
        exact readWith_grows w i reader token _
      · obtain ⟨reader, token, -, -, rfl⟩ := getRecords_cases hread
        exact h.readWith i reader token _
  | take i nonce =>
      refine ⟨?_, ?_, fun _ hkept => hkept.take hstep⟩
      · obtain ⟨_, _, _, -, -, -, rfl⟩ := take_cases hstep
        exact withReaders_grows w _
      · obtain ⟨_, _, _, -, -, -, rfl⟩ := take_cases hstep
        exact h.withReaders _
  | send ticket => exact ⟨send_grows hstep, h.send hstep, fun _ hkept => hkept.send hstep⟩
  | handle i => exact ⟨(h.handle hstep).1, (h.handle hstep).2, fun _ hkept => hkept.handle hstep⟩
  | cleanup i =>
      exact ⟨cleanup_grows hstep, h.cleanup hstep, fun _ hkept => hkept.cleanup hstep⟩
  | split shard key =>
      obtain ⟨hnone, hnext⟩ := unlocked_some hstep
      cases hnext
      obtain ⟨hgrows, hcore, hkept⟩ := h.begin' md5 hnone fun reshard stream hok =>
        beginSplit_replaces (h.idle hnone).tiles hok
      exact ⟨hgrows, hcore, fun _ => hkept⟩
  | merge shard adjacent =>
      obtain ⟨hnone, hnext⟩ := unlocked_some hstep
      cases hnext
      obtain ⟨hgrows, hcore, hkept⟩ := h.begin' md5 hnone fun reshard stream hok =>
        beginMerge_replaces (h.idle hnone).tiles hok
      exact ⟨hgrows, hcore, fun _ => hkept⟩
  | close =>
      obtain ⟨reshard, endings, parent, hclosing, rfl⟩ := close_cases hstep
      have hissued : (w.issue parent.actor (.close none)).closing =
          some ⟨reshard, endings, none⟩ := hclosing
      refine ⟨(issue_grows w _ _).trans (withClosing_grows hissued rfl),
        (h.issue _ _).withClosing hissued rfl, fun _ hkept => ?_⟩
      exact (hkept.issue ⟨fun _ _ _ hcommand => (by cases hcommand),
        fun _ _ hcommand => (by cases hcommand)⟩).withClosing hissued rfl
  | closed =>
      obtain ⟨c, c', hclosing, hsame, rfl⟩ := closed_cases hstep
      exact ⟨withClosing_grows hclosing hsame, h.withClosing hclosing hsame,
        fun _ hkept => hkept.withClosing hclosing hsame⟩
  | finish => exact ⟨(h.finish hstep).1, (h.finish hstep).2, fun _ hkept => hkept.finish hstep⟩
  | increase hours =>
      obtain ⟨hnone, hnext⟩ := unlocked_some hstep
      cases hnext
      obtain ⟨period, hperiod⟩ := increase_cases w.stream hours
      rw [hperiod]
      exact ⟨(h.retain hnone period).1, (h.retain hnone period).2,
        fun _ hkept => hkept.retain hnone period⟩
  | decrease hours =>
      obtain ⟨hnone, hnext⟩ := unlocked_some hstep
      cases hnext
      obtain ⟨period, hperiod⟩ := decrease_cases w.stream hours
      rw [hperiod]
      exact ⟨(h.retain hnone period).1, (h.retain hnone period).2,
        fun _ hkept => hkept.retain hnone period⟩

/-- What every run keeps.  Things only grow, so the sizes were bounded all along. -/
theorem run_kept {events : List Event} (h : Core w) (hrun : run md5 w events = some w') :
    Grows w w' ∧ Core w' ∧ (Bounded w' → Kept md5 w → Kept md5 w') := by
  induction events generalizing w with
  | nil =>
      cases hrun
      exact ⟨Grows.refl _, h, fun _ hkept => hkept⟩
  | cons e events ih =>
      obtain ⟨w₁, hstep, hrun⟩ := Option.bind_eq_some_iff.mp hrun
      obtain ⟨hgrows, hcore, hkept⟩ := h.next hstep
      obtain ⟨hgrows', hcore', hkept'⟩ := ih hcore hrun
      exact ⟨hgrows.trans hgrows', hcore', fun hb hold =>
        hkept' hb (hkept (hb.of_grows (hgrows.trans hgrows')) hold)⟩

/-! ## New streams -/

theorem start_kept {name : String} {n : ℕ} {retentionPeriod millis : Millis}
    (h : StreamState.Created name n retentionPeriod millis s) :
    Kept md5 (start s millis) := by
  have hentries : ∀ k, (start s millis).entries k = [] := by
    intro k
    unfold entries start
    rw [getD_eq_getElem?_getD, getElem?_map]
    cases s.actors[k]? <;> rfl
  refine ⟨⟨⟨s, h.kept, ?_, rfl, rfl, fun _ => rfl, fun c hc => (by cases hc)⟩, ?_, ?_, ?_⟩,
    fun ticket r hr => (by cases hr), fun ticket r reply hr => (by cases hr),
    fun reader hreader => absurd hreader not_mem_nil⟩
  · rw [handles_idle rfl]
    exact List.Perm.refl _
  · intro child hchild id hid
    rw [handles_idle rfl] at hchild
    rw [(h.parents child hchild).1, (h.parents child hchild).2] at hid
    rcases hid with hid | hid <;> cases hid
  · refine ⟨length_map _, fun _ => millis, monotone_const, fun _ => Nat.le_refl _, ?_⟩
    intro k actor hactor
    change Logged ((start s millis).entries k) k millis millis actor
    rw [hentries]
    change s.actors[k]? = some actor at hactor
    rw [h.actors, getElem?_map] at hactor
    obtain ⟨j, hj, rfl⟩ := Option.map_eq_some_iff.mp hactor
    obtain ⟨_, rfl⟩ := List.getElem?_eq_some_iff.mp hj
    rw [List.getElem_range]
    exact Logged.fresh _ _ _ _
  · refine ⟨nodup_nil, fun _ ht => absurd ht not_mem_nil,
      fun _ ht => absurd ht not_mem_nil, fun ticket r reply hr => (by cases hr),
      fun k entry hentry => ?_, fun k => ?_⟩
    · rw [hentries] at hentry
      cases hentry
    · rw [hentries]
      exact nodup_nil

/-! ## What is delivered -/

/-- An acknowledged record is stored once, in a shard that takes its key. -/
structure Stored (md5 : String → HashKey) (w : World) (ticket : ℕ) (data : List UInt8)
    (partitionKey : String) (explicitHashKey : Option String) (number : String)
    (handle : ShardHandle) (i : ℕ) (record : StoredRecord) : Prop where
  known : handle ∈ w.handles
  key : ∃ key, keyOf md5 partitionKey explicitHashKey = .ok key ∧
    handle.info.range.contains key = true
  entry : (w.entries handle.actor)[i]? = some (ticket, record)
  data : record.data = data
  partitionKey : record.partitionKey = partitionKey
  explicitHashKey : record.explicitHashKey = explicitHashKey
  number : number = record.sequenceNumber.toPaddedString
  once : ∀ n j other, (w.entries n)[j]? = some (ticket, other) → n = handle.actor ∧ j = i

/-- A read returns the next records, up to its limit or to the end of the log. -/
def Reads (w : World) (ticket n position limit : ℕ) (records : List StoredRecord) (next : ℕ) :
    Prop :=
  ∃ first, records = (((w.entries n).map (·.2)).take next).drop first ∧ position ≤ first ∧
    first ≤ next ∧ (∀ i, position ≤ i → i < first → i < w.trimmed n) ∧
    (next = first + limit ∨ w.EndsAt ticket n next)

/-- An iterator begins with the first record in the log that meets the request, or else at the
end of the log. -/
structure Begins (w : World) (ticket n : ℕ) (test : StoredRecord → Bool) (start : ℕ) : Prop where
  before : ∀ i entry, i < start → (w.entries n)[i]? = some entry → test entry.2 = true →
    i < w.trimmed n
  from' : w.EndsAt ticket n start ∨
    ∀ i entry, start ≤ i → (w.entries n)[i]? = some entry → test entry.2 = true

/-- What a reader with an iterator has been given, and that its next read finds the shard. -/
structure Reading (w : World) (reader : Reader) (handle : ShardHandle) (request : IteratorRequest)
    (start position : ℕ) (places : List ℕ) : Prop where
  begins : ∃ test, meets request = .ok test ∧ Begins w reader.opened handle.actor test start
  given : Given w handle.actor start position places reader.received
  stands : Stands w reader handle.actor position
  found : ∀ token, reader.phase = .holding token → w.closing = none →
    w.locate token = some (handle, position)

/-- A reader of a shard: it waits, or its request was not a number, or it reads. -/
def Attended (w : World) (reader : Reader) (handle : ShardHandle) (request : IteratorRequest) :
    Prop :=
  (reader.received = [] ∧ reader.phase = .waiting reader.opened) ∨
    (reader.received = [] ∧ reader.phase = .refused ∧ ∃ error, meets request = .error error) ∨
    ∃ start position places, Reading w reader handle request start position places

structure Delivered (md5 : String → HashKey) (w : World) : Prop where
  stored : ∀ (ticket : ℕ) (r : Request) data partitionKey explicitHashKey number shardId,
    w.requests[ticket]? = some r → r.command = .putRecord data partitionKey explicitHashKey →
    r.progress = .answered (.put (.ok (number, shardId))) →
    ∃ handle i record, handle.info.shardId = shardId ∧
      Stored md5 w ticket data partitionKey explicitHashKey number handle i record
  logs : ∀ (n : ℕ) (actor : ShardActor), w.stream.actors[n]? = some actor →
    actor.recordLog.records = ((w.entries n).map (·.2)).drop (w.trimmed n)
  increasing : ∀ n, (w.entries n).Pairwise fun x y => x.2.sequenceNumber < y.2.sequenceNumber
  children : ∀ child ∈ w.handles, ∀ parent ∈ w.handles,
    child.info.parentShardId = some parent.info.shardId ∨
      child.info.adjacentParentShardId = some parent.info.shardId →
    ∀ x ∈ w.entries parent.actor, ∀ y ∈ w.entries child.actor,
      x.2.sequenceNumber < y.2.sequenceNumber
  reads : ∀ (ticket : ℕ) (r : Request) position limit records next behind,
    w.requests[ticket]? = some r → r.command = .getRecords position limit →
    r.progress = .answered (.records records next behind) →
    Reads w ticket r.actor position limit records next
  readers : ∀ reader ∈ w.readers, ∃ handle ∈ w.handles, ∃ request,
    handle.info.shardId = reader.shardId ∧ Attended w reader handle request

theorem Core.actor_lt (h : Core w) {handle : ShardHandle} (hhandle : handle ∈ w.handles) :
    handle.actor < w.stream.shards.length := by
  obtain ⟨s, hs⟩ := h.whole
  rw [← hs.shards]
  exact mem_range.mp (hs.kept.numbered.perm.mem_iff.mp
    (mem_map_of_mem (hs.handles.mem_iff.mpr hhandle)))

theorem Core.handle_eq (h : Core w) (hb : Bounded w) {a b : ShardHandle} (ha : a ∈ w.handles)
    (hb' : b ∈ w.handles) (hid : a.info.shardId = b.info.shardId) : a = b := by
  obtain ⟨s, hs⟩ := h.whole
  refine hs.kept.numbered.eq_of_shardId ?_ (hs.handles.mem_iff.mpr ha) (hs.handles.mem_iff.mpr hb')
    hid
  rw [hs.shards]
  exact (hb.shards.trans (by decide)).le

theorem Core.logged (h : Core w) {handle : ShardHandle} (hhandle : handle ∈ w.handles) :
    ∃ actor, w.stream.actors[handle.actor]? = some actor := by
  obtain ⟨s, hs⟩ := h.whole
  have hlt := h.actor_lt hhandle
  rw [← hs.shards, ← hs.kept.numbered.counted, hs.actors] at hlt
  exact ⟨_, getElem?_eq_getElem hlt⟩

theorem trimmed_eq {n : ℕ} {actor : ShardActor} (h : w.stream.actors[n]? = some actor) :
    w.trimmed n = actor.recordLog.trimOffset := by
  unfold trimmed
  rw [h]
  rfl

theorem Kept.stored (h : Kept md5 w) {ticket : ℕ} {r : Request} {data : List UInt8}
    {partitionKey : String} {explicitHashKey : Option String} {number shardId : String}
    (hr : w.requests[ticket]? = some r)
    (hcommand : r.command = .putRecord data partitionKey explicitHashKey)
    (hreply : r.progress = .answered (.put (.ok (number, shardId)))) :
    ∃ handle i record, handle.info.shardId = shardId ∧
      Stored md5 w ticket data partitionKey explicitHashKey number handle i record := by
  obtain ⟨i, record, hentry, hdata, hkey, hexplicit, hnumber, hid⟩ :=
    (h.answers ticket r _ hr hreply).2 data partitionKey explicitHashKey hcommand
  obtain ⟨key, handle, hkeyOf, hhandle, hactor, hcontains⟩ :=
    (h.posed ticket r hr).put data partitionKey explicitHashKey hcommand
  refine ⟨handle, i, record, ?_, hhandle, ⟨key, hkeyOf, hcontains⟩, hactor ▸ hentry, hdata, hkey,
    hexplicit, hnumber, fun n j other hother => ?_⟩
  · rw [hid, h.toCore.named hhandle, hactor]
  · obtain ⟨-, r', hr', hn⟩ := h.tickets.entries n _ (mem_of_getElem? hother)
    obtain rfl := Option.some.inj (hr.symm.trans hr')
    refine ⟨hn.symm.trans hactor.symm, ?_⟩
    rw [← hn] at hother
    have hmap : ∀ {k : ℕ} {x : StoredRecord}, (w.entries r.actor)[k]? = some (ticket, x) →
        ((w.entries r.actor).map (·.1))[k]? = some ticket := fun hk => by
      rw [getElem?_map, hk]
      rfl
    have hlt := (List.getElem?_eq_some_iff.mp (hmap hother)).1
    exact (getElem?_inj hlt (h.tickets.distinct r.actor)).mp
      ((hmap hother).trans (hmap hentry).symm)

theorem Kept.attended (h : Kept md5 w) (hb : Bounded w) {reader : Reader}
    (hreader : reader ∈ w.readers) :
    ∃ handle ∈ w.handles, ∃ request, handle.info.shardId = reader.shardId ∧
      Attended w reader handle request := by
  obtain ⟨n, opened, hattends⟩ := h.readers reader hreader
  obtain ⟨handle, hhandle, hid, rfl⟩ := hattends.handle
  obtain ⟨request, hcommand⟩ := hattends.command
  refine ⟨handle, hhandle, request, hid, ?_⟩
  rcases hattends.progress with ⟨hnone, hwaiting | ⟨hrefused, error, herror⟩⟩ |
    ⟨start, position, places, hstart, hgiven, hstands⟩
  · exact .inl ⟨hnone, hwaiting⟩
  · exact .inr (.inl ⟨hnone, hrefused, (h.answers _ _ _ hattends.asked herror).2 request hcommand⟩)
  · refine .inr (.inr ⟨start, position, places, ?_, hgiven, hstands, fun token htoken hnone => ?_⟩)
    · obtain ⟨test, htest, -, hbefore, hfrom⟩ :=
        (h.answers _ _ _ hattends.asked hstart).2 request hcommand
      rw [hattends.actor] at hbefore hfrom
      refine ⟨test, htest, hbefore, hfrom.imp_right ?_⟩
      rintro ⟨entry, hentry, hpass⟩ j entry' hle hentry'
      obtain ⟨birth, -, -, hlogged⟩ := h.logs.logged
      obtain ⟨actor, hactor⟩ := h.toCore.logged hhandle
      exact (hlogged handle.actor actor hactor).meets_mono (hb.entries handle.actor).le htest hle
        hentry hentry' hpass
    · rcases hstands with ⟨nonce, hholding⟩ | ⟨_, _, _, hwaiting, -⟩
      · obtain rfl := Phase.holding.inj (htoken.symm.trans hholding)
        rw [← hid]
        exact locate_token h.toCore hb hnone hhandle hgiven.position_le nonce
      · cases htoken.symm.trans hwaiting

theorem Kept.delivered (h : Kept md5 w) (hb : Bounded w) : Delivered md5 w where
  stored := fun ticket r data partitionKey explicitHashKey number shardId hr hcommand hreply =>
    h.stored hr hcommand hreply
  logs := fun n actor hactor => by
    obtain ⟨birth, -, -, hlogged⟩ := h.logs.logged
    rw [trimmed_eq hactor]
    exact (hlogged n actor hactor).records
  increasing := fun n => by
    obtain ⟨birth, -, -, hlogged⟩ := h.logs.logged
    cases hactor : w.stream.actors[n]? with
    | none =>
        have hlength := getElem?_eq_none_iff.mp hactor
        have hnil : w.entries n = [] := by
          unfold entries
          rw [getD_eq_getElem?_getD, getElem?_eq_none (h.logs.length.trans_le hlength)]
          rfl
        rw [hnil]
        exact List.Pairwise.nil
    | some actor => exact (hlogged n actor hactor).increasing (hb.entries n).le
  children := fun child hchild parent hparent hnamed x hx y hy => by
    obtain ⟨birth, hmono, hbirth, hlogged⟩ := h.logs.logged
    obtain ⟨other, hother, hid, hlt⟩ := h.lineage child hchild _ hnamed
    obtain rfl := h.toCore.handle_eq hb hother hparent hid
    obtain ⟨actor, hactor⟩ := h.toCore.logged hother
    obtain ⟨actor', hactor'⟩ := h.toCore.logged hchild
    obtain ⟨i, hi, rfl⟩ := getElem_of_mem hx
    obtain ⟨j, hj, rfl⟩ := getElem_of_mem hy
    rw [(hlogged _ _ hactor).numbers i _ (getElem?_eq_getElem hi),
      (hlogged _ _ hactor').numbers j _ (getElem?_eq_getElem hj)]
    exact firstNumber_lt hlt ((h.toCore.actor_lt hchild).trans hb.shards) (hmono hlt.le)
      ((hbirth _).trans_lt hb.clock) i j
  reads := fun ticket r position limit records next behind hr hcommand hreply => by
    obtain ⟨first, hrecords, hfirst, hnext, -, hskipped, hend⟩ :=
      (h.answers ticket r _ hr hreply).2 position limit hcommand
    exact ⟨first, hrecords, hfirst, hnext, hskipped, hend⟩
  readers := fun reader hreader => h.attended hb hreader

/-- In every run of a new stream and its clients, what is acknowledged is delivered. -/
theorem run_delivered (md5 : String → HashKey) {n : ℕ} (hpos : 0 < n) (hlt : n < 2 ^ 32)
    (name : String) (retentionPeriod millis : Millis) :
    ∃ s, create name n retentionPeriod millis = some s ∧
      ∀ events w, run md5 (start s millis) events = some w → Bounded w → Delivered md5 w := by
  obtain ⟨s, hcreate, hcreated⟩ :=
    create_created hpos hlt name retentionPeriod millis
  refine ⟨s, hcreate, fun events w hrun hb => ?_⟩
  have hstart : Kept md5 (start s millis) := start_kept hcreated
  exact ((run_kept hstart.toCore hrun).2.2 hb hstart).delivered hb

/-- A run of a new stream whose records all have the first key. -/
def replay (name : String) (millis : Millis) (events : List Event) : Option World :=
  (StreamState.create name 1 86400000 millis).bind fun s =>
    run (fun _ => HashKey.MIN) (start s millis) events

/-- A reader follows its iterator to a record that was put before. -/
def readOne (request : IteratorRequest) : List Event :=
  [.put [] "key" none, .send 0, .handle 0,
    .getShardIterator (formatShardId 0) request, .send 1, .handle 0, .take 0 "nonce",
    .getRecords 0 none, .send 2, .handle 0, .take 0 "nonce"]

/-- The first of two records is trimmed, and the shard is split under a reader of it. -/
def readAcross : List Event :=
  [.put [1] "key" none, .send 0, .handle 0, .wait 10, .put [2] "key" none, .send 1, .handle 0,
    .wait 86400005, .cleanup 0,
    .getShardIterator (formatShardId 0) .trimHorizon, .send 2, .handle 0, .take 0 "nonce",
    .split (formatShardId 0) "1", .close, .send 3, .handle 0, .closed, .finish,
    .put [3] "key" none, .send 4, .handle 1,
    .getRecords 0 none, .send 5, .handle 0, .take 0 "nonce"]

theorem readAcross_delivered : ∃ w, replay "stream" 0 readAcross = some w ∧
    (w.readers.map fun reader => reader.received.map (·.data)) = [[[2]]] ∧
    Delivered (fun _ => HashKey.MIN) w := by
  obtain ⟨s, hcreate, hall⟩ := run_delivered (fun _ => HashKey.MIN) (n := 1) (by decide) (by decide)
    "stream" 86400000 0
  have hreplay : ((replay "stream" 0 readAcross).map fun w =>
      ((w.readers.map fun reader => reader.received.map (·.data), w.stream.name),
        w.clock, w.stream.shards.length, w.history.all fun entries => entries.length < 2 ^ 64)) =
      some (([[[2]]], "stream"), 86400005, 3, true) := by
    decide +kernel
  obtain ⟨w, hw, hfacts⟩ := Option.map_eq_some_iff.mp hreplay
  obtain ⟨hfacts, hsizes⟩ := Prod.mk.inj hfacts
  obtain ⟨hreceived, hname⟩ := Prod.mk.inj hfacts
  obtain ⟨hclock, hsizes⟩ := Prod.mk.inj hsizes
  obtain ⟨hshards, hentries⟩ := Prod.mk.inj hsizes
  have hrun : run (fun _ => HashKey.MIN) (start s 0) readAcross = some w := by
    unfold replay at hw
    rwa [hcreate, Option.bind_some] at hw
  refine ⟨w, hw, hreceived, hall _ w hrun ⟨?_, ?_, ?_, fun n => ?_⟩⟩
  · rw [hname]
    decide
  · rw [hclock]
    decide
  · rw [hshards]
    decide
  · unfold entries
    rw [getD_eq_getElem?_getD]
    cases hget : w.history[n]? with
    | none => exact Nat.two_pow_pos 64
    | some stored =>
        exact of_decide_eq_true (all_eq_true.mp hentries stored (mem_of_getElem? hget))

/-! ## Runs that are not bounded -/

/-- A reader asks for the largest number, and is given a record that is put later. -/
def readFuture : List Event :=
  [.put [] "key" none, .send 0, .handle 0,
    .getShardIterator (formatShardId 0)
      (.atSequenceNumber (SequenceNumber.toPaddedString (2 ^ 128 - 1))),
    .send 1, .handle 0, .take 0 "nonce",
    .put [] "key" none, .send 2, .handle 0,
    .getRecords 0 none, .send 3, .handle 0, .take 0 "nonce"]

/-- The only shard is split when the clock no longer has 48 bits. -/
def splitLate : List Event :=
  [.put [] "key" none, .send 0, .handle 0, .wait (2 ^ 48),
    .split (formatShardId 0) "1", .close, .send 1, .handle 0, .closed, .finish,
    .put [] "key" none, .send 2, .handle 1]

/-- An actor that has served a number of puts. -/
def puts (k : ℕ) : ShardActor :=
  (fun actor : ShardActor => (actor.handleCommand (.putRecord [] "key" none) 0).2)^[k]
    (StreamState.freshActor 86400000 0 0)

theorem puts_logged (k : ℕ) : ∃ entries, Logged entries 0 0 0 (puts k) ∧ entries.length = k ∧
    (puts k).closed = false ∧ (puts k).recordLog.trimOffset = 0 := by
  induction k with
  | zero => exact ⟨[], Logged.fresh _ _ _ _, rfl, rfl, rfl⟩
  | succ k ih =>
      obtain ⟨entries, hlogged, hlength, hopen, htrim⟩ := ih
      have hputs : puts (k + 1) = ((puts k).handleCommand (.putRecord [] "key" none) 0).2 :=
        Function.iterate_succ_apply' _ _ _
      have hlog : ∃ record, ((puts k).handleCommand (.putRecord [] "key" none) 0).2.recordLog =
          (puts k).recordLog.append record ∧
          ((puts k).handleCommand (.putRecord [] "key" none) 0).2.closed = false := by
        unfold ShardActor.handleCommand
        dsimp only
        rw [if_neg (by rw [hopen]; exact Bool.false_ne_true)]
        exact ⟨_, rfl, hopen⟩
      obtain ⟨record, hlog, hstill⟩ := hlog
      have hserved := hlogged.serve 0 (.putRecord [] "key" none)
      rw [added_append hlog] at hserved
      rw [hputs]
      refine ⟨_, hserved, ?_, hstill, ?_⟩
      · rw [length_append, hlength]
        rfl
      · rw [hlog]
        exact htrim

/-- A future number is answered with older records, a colon in the name of a stream makes its
iterators unreadable, and large clocks and counts give numbers that do not grow. -/
theorem delivery_unbounded :
    ((replay "stream" 0 readFuture).map fun w =>
        w.readers.map fun reader => reader.received.map (·.sequenceNumber)) = some [[1]] ∧
      ((replay "a:b" 0 (readOne .trimHorizon).dropLast.dropLast.dropLast).map fun w =>
        w.readers.map fun reader => reader.phase) = some [.refused] ∧
      ((replay "stream" (2 ^ 48 - 1) splitLate).map fun w =>
        w.history.map fun entries => entries.map (·.2.sequenceNumber)) =
          some [[(2 ^ 48 - 1) * 2 ^ 80], [2 ^ 64], []] ∧
      ∃ first last, (puts (2 ^ 64 + 1)).recordLog.records[0]? = some first ∧
        (puts (2 ^ 64 + 1)).recordLog.records[2 ^ 64]? = some last ∧
        last.sequenceNumber = first.sequenceNumber := by
  refine ⟨by decide +kernel, by decide +kernel, by decide +kernel, ?_⟩
  obtain ⟨entries, hlogged, hlength, -, htrim⟩ := puts_logged (2 ^ 64 + 1)
  have hrecords := hlogged.records
  rw [htrim, drop_zero] at hrecords
  have hfirst : 0 < entries.length := hlength ▸ Nat.succ_pos _
  have hlast : 2 ^ 64 < entries.length := hlength ▸ Nat.lt_succ_self _
  refine ⟨entries[0].2, entries[2 ^ 64].2, ?_, ?_, ?_⟩
  · rw [hrecords, getElem?_map, getElem?_eq_getElem hfirst]
    rfl
  · rw [hrecords, getElem?_map, getElem?_eq_getElem hlast]
    rfl
  · rw [hlogged.numbers _ _ (getElem?_eq_getElem hlast),
      hlogged.numbers _ _ (getElem?_eq_getElem hfirst), Nat.mod_self, Nat.zero_mod]

end Rustack.Kinesis.World
