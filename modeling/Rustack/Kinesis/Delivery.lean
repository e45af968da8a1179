import Rustack.Kinesis.Growth

/-!
# Records are delivered

The invariant of a stream and its clients: the shards are those of a stream that calls have
split and merged, logs hold what has been stored, requests are served once, and every reader
has been given the records from its first position on.
-/

namespace Rustack.Kinesis.World

variable {md5 : String → HashKey} {w w' : World} {s : StreamState}

/-! ## The invariant -/

/-- The stream as it was before the reshard under way. -/
structure Whole (w : World) (s : StreamState) : Prop where
  kept : StreamState.Kept s
  handles : s.handles.Perm w.handles
  shards : s.shards = w.stream.shards
  actors : s.actors = w.stream.actors
  idle : w.closing = none → w.stream = s
  busy : ∀ c, w.closing = some c → StreamState.Replaces s c.reshard w.stream

/-- Parents have lower numbers than their children. -/
def Lineage (handles : List ShardHandle) : Prop :=
  ∀ child ∈ handles, ∀ id, child.info.parentShardId = some id ∨
      child.info.adjacentParentShardId = some id →
    ∃ parent ∈ handles, parent.info.shardId = id ∧ parent.actor < child.actor

structure Logs (history : List (List (ℕ × StoredRecord))) (actors : List ShardActor)
    (clock : Millis) : Prop where
  length : history.length = actors.length
  logged : ∃ birth : ℕ → Millis, Monotone birth ∧ (∀ n, birth n ≤ clock) ∧
    ∀ (n : ℕ) (actor : ShardActor), actors[n]? = some actor →
      Logged (history.getD n []) n (birth n) clock actor

/-- Requests are served once. -/
structure Tickets (w : World) : Prop where
  nodup : w.queue.Nodup
  queued : ∀ ticket ∈ w.queue, ∃ r : Request, w.requests[ticket]? = some r ∧ r.progress = .sent
  served : ∀ ticket ∈ w.served, ∃ r : Request, w.requests[ticket]? = some r ∧
    ∃ reply, r.progress = .answered reply
  answered : ∀ (ticket : ℕ) (r : Request) (reply : ShardReply), w.requests[ticket]? = some r →
    r.progress = .answered reply → ticket ∈ w.served
  entries : ∀ n, ∀ entry ∈ w.entries n, entry.1 ∈ w.served ∧
    ∃ r : Request, w.requests[entry.1]? = some r ∧ r.actor = n
  distinct : ∀ n, ((w.entries n).map (·.1)).Nodup

/-- The hash key of a record. -/
def keyOf (md5 : String → HashKey) (partitionKey : String) (explicitHashKey : Option String) :
    Except Decimal.ParseIntError HashKey :=
  match explicitHashKey with
  | none => .ok (md5 partitionKey)
  | some text => HashKey.fromDecimalStr text

/-- A put goes to the shard that takes its key, and a read begins inside what was stored. -/
structure Posed (md5 : String → HashKey) (w : World) (r : Request) : Prop where
  put : ∀ data partitionKey explicitHashKey,
    r.command = .putRecord data partitionKey explicitHashKey →
    ∃ key handle, keyOf md5 partitionKey explicitHashKey = .ok key ∧ handle ∈ w.handles ∧
      handle.actor = r.actor ∧ handle.info.range.contains key = true
  read : ∀ position limit, r.command = .getRecords position limit →
    position ≤ (w.entries r.actor).length

/-- The kinds of answers that readers wait for. -/
structure Matches (r : Request) (reply : ShardReply) : Prop where
  read : ∀ position limit, r.command = .getRecords position limit →
    ∃ records next behind, reply = .records records next behind
  iterator : ∀ request, r.command = .getShardIterator request → ∃ result, reply = .position result

/-- What a reader has been given between two positions: all records, but for those that had been
trimmed before it came to them. -/
structure Given (w : World) (n start position : ℕ) (places : List ℕ)
    (received : List StoredRecord) : Prop where
  start_le : start ≤ position
  position_le : position ≤ (w.entries n).length
  increasing : places.Pairwise (· < ·)
  inside : ∀ i ∈ places, start ≤ i ∧ i < position
  records : received.map some = places.map fun i => ((w.entries n)[i]?).map (·.2)
  missing : ∀ i, start ≤ i → i < position → i ∉ places → i < w.trimmed n

/-- Where a reader with an iterator stands. -/
def Stands (w : World) (reader : Reader) (n position : ℕ) : Prop :=
  (∃ nonce, reader.phase = .holding
      (ShardIteratorToken.encode ⟨w.stream.name, reader.shardId, position, nonce⟩)) ∨
    ∃ (ticket : ℕ) (r : Request) (limit : ℕ), reader.phase = .waiting ticket ∧
      w.requests[ticket]? = some r ∧ r.actor = n ∧ r.command = .getRecords position limit

/-- A reader waits for its first iterator or was refused it, or it follows its iterators. -/
structure Attends (w : World) (reader : Reader) (n : ℕ) (opened : Request) : Prop where
  handle : ∃ handle ∈ w.handles, handle.info.shardId = reader.shardId ∧ handle.actor = n
  asked : w.requests[reader.opened]? = some opened
  actor : opened.actor = n
  command : ∃ request, opened.command = .getShardIterator request
  progress :
    (reader.received = [] ∧ (reader.phase = .waiting reader.opened ∨
      reader.phase = .refused ∧ ∃ error, opened.progress = .answered (.position (.error error)))) ∨
    ∃ start position places, opened.progress = .answered (.position (.ok start)) ∧
      Given w n start position places reader.received ∧ Stands w reader n position

/-- What holds of shards, logs and channels in every run. -/
structure Core (w : World) : Prop where
  whole : ∃ s, Whole w s
  lineage : Lineage w.handles
  logs : Logs w.history w.stream.actors w.clock
  tickets : Tickets w

/-- The invariant, with what holds of requests and readers while the sizes are bounded. -/
structure Kept (md5 : String → HashKey) (w : World) : Prop extends Core w where
  posed : ∀ (ticket : ℕ) (r : Request), w.requests[ticket]? = some r → Posed md5 w r
  answers : ∀ (ticket : ℕ) (r : Request) (reply : ShardReply), w.requests[ticket]? = some r →
    r.progress = .answered reply → Matches r reply ∧ w.Answers ticket r reply
  readers : ∀ reader ∈ w.readers, ∃ n opened, Attends w reader n opened

/-- The sizes within which sequence numbers and iterators are what they should be. -/
structure Bounded (w : World) : Prop where
  name : ':' ∉ w.stream.name.toList
  clock : w.clock < 2 ^ 48
  shards : w.stream.shards.length < 2 ^ 16
  entries : ∀ n, (w.entries n).length < 2 ^ 64

theorem Bounded.of_grows (h : Bounded w') (hgrows : Grows w w') : Bounded w where
  name := hgrows.name ▸ h.name
  clock := hgrows.clock.trans_lt h.clock
  shards := hgrows.shards.trans_lt h.shards
  entries := fun n => (hgrows.length_le n).trans_lt (h.entries n)

/-! ## Facts that stay -/

theorem Posed.grow {r r' : Request} (h : Posed md5 w r) (hgrows : Grows w w')
    (hfollows : Request.Follows r r') : Posed md5 w' r' where
  put := fun data partitionKey explicitHashKey hcommand => by
    obtain ⟨key, handle, hkey, hhandle, hactor, hcontains⟩ :=
      h.put data partitionKey explicitHashKey (hfollows.command ▸ hcommand)
    exact ⟨key, handle, hkey, hgrows.handles handle hhandle, hactor.trans hfollows.actor.symm,
      hcontains⟩
  read := fun position limit hcommand => by
    rw [hfollows.actor]
    exact (h.read position limit (hfollows.command ▸ hcommand)).trans (hgrows.length_le _)

theorem Matches.follow {r r' : Request} {reply : ShardReply} (h : Matches r reply)
    (hfollows : Request.Follows r r') : Matches r' reply :=
  ⟨fun position limit hcommand => h.read position limit (hfollows.command ▸ hcommand),
    fun request hcommand => h.iterator request (hfollows.command ▸ hcommand)⟩

theorem Given.grow {n start position : ℕ} {places : List ℕ} {received : List StoredRecord}
    (h : Given w n start position places received) (hgrows : Grows w w') :
    Given w' n start position places received where
  start_le := h.start_le
  position_le := h.position_le.trans (hgrows.length_le n)
  increasing := h.increasing
  inside := h.inside
  records := by
    rw [h.records]
    refine List.map_congr_left fun i hi => ?_
    have hlt : i < (w.entries n).length := (h.inside i hi).2.trans_le h.position_le
    rw [hgrows.entry (List.getElem?_eq_getElem hlt), List.getElem?_eq_getElem hlt]
  missing := fun i hi hlt hnot => (h.missing i hi hlt hnot).trans_le (hgrows.trimmed n)

theorem Stands.grow {reader : Reader} {n position : ℕ} (h : Stands w reader n position)
    (hgrows : Grows w w') : Stands w' reader n position := by
  rcases h with ⟨nonce, hphase⟩ | ⟨ticket, r, limit, hphase, hr, hactor, hcommand⟩
  · exact .inl ⟨nonce, hgrows.name ▸ hphase⟩
  · obtain ⟨r', hr', hfollows⟩ := hgrows.requests ticket r hr
    exact .inr ⟨ticket, r', limit, hphase, hr', hfollows.actor.trans hactor,
      hfollows.command.trans hcommand⟩

theorem Attends.grow {reader : Reader} {n : ℕ} {opened : Request}
    (h : Attends w reader n opened) (hgrows : Grows w w') :
    ∃ opened', Attends w' reader n opened' := by
  obtain ⟨opened', hopened, hfollows⟩ := hgrows.requests _ _ h.asked
  refine ⟨opened', ?_, hopened, hfollows.actor.trans h.actor, ?_, ?_⟩
  · obtain ⟨handle, hhandle, hid⟩ := h.handle
    exact ⟨handle, hgrows.handles handle hhandle, hid⟩
  · obtain ⟨request, hcommand⟩ := h.command
    exact ⟨request, hfollows.command.trans hcommand⟩
  · rcases h.progress with ⟨hnone, hphase⟩ | ⟨start, position, places, hstart, hgiven, hstands⟩
    · refine .inl ⟨hnone, hphase.imp_right ?_⟩
      rintro ⟨hrefused, error, herror⟩
      exact ⟨hrefused, error, hfollows.answered _ herror⟩
    · exact .inr ⟨start, position, places, hfollows.answered _ hstart, hgiven.grow hgrows,
        hstands.grow hgrows⟩

end Rustack.Kinesis.World
