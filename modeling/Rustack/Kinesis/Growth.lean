import Rustack.Kinesis.Log

/-!
# What only grows

In every step the shards keep their handles, records are only added to what a shard has stored,
and an answer stays as it was given.  A fact about an answer holds from then on.
-/

namespace Rustack.Kinesis.World

open List

variable {w w' w'' : World}

/-- Everything that a shard has stored. -/
def entries (w : World) (n : ℕ) : List (ℕ × StoredRecord) := w.history.getD n []

/-- The number of records that a shard has trimmed. -/
def trimmed (w : World) (n : ℕ) : ℕ :=
  ((w.stream.actors[n]?).map (·.recordLog.trimOffset)).getD 0

/-- The handles of all shards, those of a reshard under way included. -/
def handles (w : World) : List ShardHandle :=
  w.stream.handles ++ ((w.closing.map (·.reshard.parents)).getD [])

/-- A request is the same one, further on. -/
structure Request.Follows (r r' : Request) : Prop where
  actor : r'.actor = r.actor
  command : r'.command = r.command
  answered : ∀ reply, r.progress = .answered reply → r'.progress = .answered reply

theorem Request.Follows.refl (r : Request) : Request.Follows r r := ⟨rfl, rfl, fun _ h => h⟩

def Extends (requests requests' : List Request) : Prop :=
  ∀ (t : ℕ) (r : Request), requests[t]? = some r →
    ∃ r', requests'[t]? = some r' ∧ Request.Follows r r'

theorem Extends.refl (requests : List Request) : Extends requests requests :=
  fun _ r h => ⟨r, h, .refl r⟩

theorem Extends.trans {a b c : List Request} (h : Extends a b) (h' : Extends b c) :
    Extends a c := by
  intro t r hr
  obtain ⟨r', hr', hfollows⟩ := h t r hr
  obtain ⟨r'', hr'', hfollows'⟩ := h' t r' hr'
  exact ⟨r'', hr'', hfollows'.actor.trans hfollows.actor, hfollows'.command.trans hfollows.command,
    fun reply hreply => hfollows'.answered reply (hfollows.answered reply hreply)⟩

theorem extends_append (requests : List Request) (r : Request) :
    Extends requests (requests ++ [r]) := by
  intro t old hold
  refine ⟨old, ?_, .refl old⟩
  rw [List.getElem?_append_left (List.getElem?_eq_some_iff.mp hold).1]
  exact hold

/-- The requests after the progress of one that has not been answered. -/
theorem extends_modify {requests : List Request} {ticket : ℕ} {r : Request}
    (hr : requests[ticket]? = some r) (hopen : ∀ reply, r.progress ≠ .answered reply)
    (progress : Progress) :
    Extends requests (requests.modify ticket fun request => { request with progress }) := by
  intro t old hold
  rw [getElem?_modify, hold]
  by_cases ht : ticket = t
  · subst ht
    obtain rfl := Option.some.inj (hr.symm.trans hold)
    exact ⟨{ r with progress }, by simp, rfl, rfl, fun reply hreply => absurd hreply (hopen reply)⟩
  · exact ⟨old, by simp [ht], .refl old⟩

structure Grows (w w' : World) : Prop where
  name : w'.stream.name = w.stream.name
  handles : ∀ handle ∈ w.handles, handle ∈ w'.handles
  entries : ∀ n, w.entries n <+: w'.entries n
  fresh : ∀ n i entry, (w.entries n).length ≤ i → (w'.entries n)[i]? = some entry →
    entry.1 ∉ w.served
  trimmed : ∀ n, w.trimmed n ≤ w'.trimmed n
  requests : Extends w.requests w'.requests
  served : w.served <+: w'.served
  clock : w.clock ≤ w'.clock
  shards : w.stream.shards.length ≤ w'.stream.shards.length

/-! ## Facts that stay -/

theorem entry_of_prefix {a b : List (ℕ × StoredRecord)} {i : ℕ} {entry : ℕ × StoredRecord}
    (h : a <+: b) (hentry : a[i]? = some entry) : b[i]? = some entry := by
  obtain ⟨rest, rfl⟩ := h
  rw [List.getElem?_append_left (List.getElem?_eq_some_iff.mp hentry).1]
  exact hentry

theorem Grows.entry (h : Grows w w') {n i : ℕ} {entry : ℕ × StoredRecord}
    (hentry : (w.entries n)[i]? = some entry) : (w'.entries n)[i]? = some entry :=
  entry_of_prefix (h.entries n) hentry

/-- An entry at a place that was there before is the entry that was there. -/
theorem Grows.entry_back (h : Grows w w') {n i : ℕ} {entry : ℕ × StoredRecord}
    (hi : i < (w.entries n).length) (hentry : (w'.entries n)[i]? = some entry) :
    (w.entries n)[i]? = some entry := by
  have hold := h.entry (getElem?_eq_getElem hi)
  rw [getElem?_eq_getElem hi]
  exact hold.symm.trans hentry

theorem Grows.refl (w : World) : Grows w w where
  name := rfl
  handles := fun _ h => h
  entries := fun _ => prefix_refl _
  fresh := fun n i entry hle hentry => by
    rw [getElem?_eq_none hle] at hentry
    cases hentry
  trimmed := fun _ => Nat.le_refl _
  requests := .refl _
  served := prefix_refl _
  clock := Nat.le_refl _
  shards := Nat.le_refl _

theorem Grows.trans (h : Grows w w') (h' : Grows w' w'') : Grows w w'' where
  name := h'.name.trans h.name
  handles := fun handle hhandle => h'.handles handle (h.handles handle hhandle)
  entries := fun n => (h.entries n).trans (h'.entries n)
  fresh := fun n i entry hle hentry hserved => by
    rcases Nat.lt_or_ge i (w'.entries n).length with hlt | hge
    · exact h.fresh n i entry hle (h'.entry_back hlt hentry) hserved
    · exact h'.fresh n i entry hge hentry (h.served.subset hserved)
  trimmed := fun n => (h.trimmed n).trans (h'.trimmed n)
  requests := h.requests.trans h'.requests
  served := h.served.trans h'.served
  clock := h.clock.trans h'.clock
  shards := h.shards.trans h'.shards

theorem Grows.length_le (h : Grows w w') (n : ℕ) : (w.entries n).length ≤ (w'.entries n).length :=
  (h.entries n).length_le

/-- The tickets that were served before one. -/
def servedBefore (w : World) (ticket : ℕ) : List ℕ := w.served.takeWhile (· ≠ ticket)

theorem Grows.servedBefore (h : Grows w w') {ticket : ℕ} (hserved : ticket ∈ w.served) :
    w'.servedBefore ticket = w.servedBefore ticket := by
  obtain ⟨rest, hrest⟩ := h.served
  unfold World.servedBefore
  rw [← hrest]
  generalize w.served = served at hserved
  induction served with
  | nil => cases hserved
  | cons t served ih =>
      by_cases ht : t = ticket
      · rw [cons_append, takeWhile_cons_of_neg (by simp [ht]),
          takeWhile_cons_of_neg (by simp [ht])]
      · rw [cons_append, takeWhile_cons_of_pos (by simp [ht]),
          takeWhile_cons_of_pos (by simp [ht]),
          ih ((mem_cons.mp hserved).resolve_left (Ne.symm ht))]

/-- A position was the end of the log when a request was served. -/
structure EndsAt (w : World) (ticket n position : ℕ) : Prop where
  served : ticket ∈ w.served
  iff : ∀ i entry, (w.entries n)[i]? = some entry →
    (i < position ↔ entry.1 ∈ w.servedBefore ticket)

/-- What an answer says of the records that the shard has stored. -/
def Answers (w : World) (ticket : ℕ) (r : Request) : ShardReply → Prop
  | .put (.ok (number, shardId)) =>
    ∀ data partitionKey explicitHashKey,
      r.command = .putRecord data partitionKey explicitHashKey →
      ∃ (i : ℕ) (record : StoredRecord), (w.entries r.actor)[i]? = some (ticket, record) ∧
        record.data = data ∧ record.partitionKey = partitionKey ∧
        record.explicitHashKey = explicitHashKey ∧
        number = record.sequenceNumber.toPaddedString ∧
        shardId = formatShardId (r.actor % 2 ^ 32)
  | .records records next _ =>
    ∀ position limit, r.command = .getRecords position limit →
      ∃ first, records = (((w.entries r.actor).map (·.2)).take next).drop first ∧
        position ≤ first ∧ first ≤ next ∧ next ≤ (w.entries r.actor).length ∧
        (∀ i, position ≤ i → i < first → i < w.trimmed r.actor) ∧
        (next = first + limit ∨ w.EndsAt ticket r.actor next)
  | .position (.ok position) =>
    ∀ request, r.command = .getShardIterator request →
      ∃ test, meets request = .ok test ∧ position ≤ (w.entries r.actor).length ∧
        (∀ i entry, i < position → (w.entries r.actor)[i]? = some entry → test entry.2 = true →
          i < w.trimmed r.actor) ∧
        (w.EndsAt ticket r.actor position ∨
          ∃ entry, (w.entries r.actor)[position]? = some entry ∧ test entry.2 = true)
  | .position (.error _) =>
    ∀ request, r.command = .getShardIterator request → ∃ error, meets request = .error error
  | _ => True

theorem Grows.endsAt (h : Grows w w') {ticket n position : ℕ}
    (hle : position ≤ (w.entries n).length) (hends : w.EndsAt ticket n position) :
    w'.EndsAt ticket n position := by
  refine ⟨h.served.subset hends.served, fun i entry hentry => ?_⟩
  rw [h.servedBefore hends.served]
  rcases Nat.lt_or_ge i (w.entries n).length with hlt | hge
  · exact hends.iff i entry (h.entry_back hlt hentry)
  · -- what came later was served later
    refine iff_of_false (Nat.not_lt_of_ge (hle.trans hge)) fun hbefore => ?_
    exact h.fresh n i entry hge hentry ((takeWhile_sublist _).subset hbefore)

theorem take_of_prefix {α : Type} {a b : List α} (h : a <+: b) {k : ℕ} (hle : k ≤ a.length) :
    b.take k = a.take k := by
  obtain ⟨rest, rfl⟩ := h
  exact take_append_of_le_length hle

theorem Grows.answers (h : Grows w w') {ticket : ℕ} {r r' : Request} {reply : ShardReply}
    (hfollows : Request.Follows r r') (hanswers : w.Answers ticket r reply) :
    w'.Answers ticket r' reply := by
  cases reply with
  | put result =>
      cases result with
      | error => trivial
      | ok pair =>
          intro data partitionKey explicitHashKey hcommand
          obtain ⟨i, record, hentry, hrecord⟩ := hanswers data partitionKey explicitHashKey
            (hfollows.command ▸ hcommand)
          rw [hfollows.actor]
          exact ⟨i, record, h.entry hentry, hrecord⟩
  | records records next behind =>
      intro position limit hcommand
      obtain ⟨first, hrecords, hfirst, hnext, hle, htrimmed, hend⟩ := hanswers position limit
        (hfollows.command ▸ hcommand)
      rw [hfollows.actor]
      refine ⟨first, ?_, hfirst, hnext, hle.trans (h.length_le _),
        fun i hi hlt => (htrimmed i hi hlt).trans_le (h.trimmed _), hend.imp_right (h.endsAt hle)⟩
      rw [hrecords, ← map_take, ← map_take, take_of_prefix (h.entries _) hle]
  | position result =>
      cases result with
      | error => exact fun request hcommand => hanswers request (hfollows.command ▸ hcommand)
      | ok position =>
          intro request hcommand
          obtain ⟨test, htest, hle, htrimmed, hend⟩ := hanswers request
            (hfollows.command ▸ hcommand)
          rw [hfollows.actor]
          refine ⟨test, htest, hle.trans (h.length_le _), fun i entry hi hentry hpass => ?_,
            hend.imp (h.endsAt hle) fun ⟨entry, hentry, hpass⟩ => ⟨entry, h.entry hentry, hpass⟩⟩
          have hold := h.entry_back (hi.trans_le hle) hentry
          exact (htrimmed i entry hi hold hpass).trans_le (h.trimmed _)
  | closed => trivial
  | stopped => trivial

end Rustack.Kinesis.World
