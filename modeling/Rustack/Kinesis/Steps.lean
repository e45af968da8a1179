import Rustack.Kinesis.Delivery

/-!
# Steps of a stream and its clients

Every step keeps the invariant, and things only grow in it.  A step is put together from small
changes: a new request, another reader, an actor that has moved on, a stream whose shards have
changed.
-/

namespace Rustack.Kinesis.World

open List

variable {md5 : String → HashKey} {w w' : World} {s : StreamState}

/-- A request of the next state is one of the old ones, or it is sound by itself. -/
def Sound (md5 : String → HashKey) (w w' : World) (ticket : ℕ) (r' : Request) : Prop :=
  (∃ r, w.requests[ticket]? = some r ∧ Request.Follows r r' ∧
    ∀ reply, r'.progress = .answered reply → r.progress = .answered reply) ∨
  Posed md5 w' r' ∧ ∀ reply, r'.progress = .answered reply →
    Matches r' reply ∧ w'.Answers ticket r' reply

theorem sound_of_same {ticket : ℕ} {r : Request} (h : w.requests[ticket]? = some r) :
    Sound md5 w w' ticket r :=
  .inl ⟨r, h, .refl r, fun _ hreply => hreply⟩

/-- What is known of requests and readers stays where things only grow. -/
theorem Kept.step (h : Kept md5 w) (hgrows : Grows w w') (hcore : Core w')
    (hrequests : ∀ (ticket : ℕ) (r : Request), w'.requests[ticket]? = some r →
      Sound md5 w w' ticket r)
    (hreaders : ∀ reader ∈ w'.readers, ∃ n opened, Attends w reader n opened) : Kept md5 w' := by
  refine ⟨hcore, fun ticket r' hr' => ?_, fun ticket r' reply hr' hreply => ?_,
    fun reader hreader => ?_⟩
  · rcases hrequests ticket r' hr' with ⟨r, hr, hfollows, -⟩ | ⟨hposed, -⟩
    · exact (h.posed ticket r hr).grow hgrows hfollows
    · exact hposed
  · rcases hrequests ticket r' hr' with ⟨r, hr, hfollows, hback⟩ | ⟨-, hanswers⟩
    · obtain ⟨hmatches, hanswers⟩ := h.answers ticket r reply hr (hback reply hreply)
      exact ⟨hmatches.follow hfollows, hgrows.answers hfollows hanswers⟩
    · exact hanswers reply hreply
  · obtain ⟨n, opened, hattends⟩ := hreaders reader hreader
    exact ⟨n, hattends.grow hgrows⟩

/-! ## Clients -/

theorem issue_grows (w : World) (actor : ℕ) (command : ShardCommand) :
    Grows w (w.issue actor command) :=
  { Grows.refl w with requests := extends_append _ _ }

theorem issue_requests {actor ticket : ℕ} {command : ShardCommand} {r : Request}
    (h : (w.issue actor command).requests[ticket]? = some r) :
    w.requests[ticket]? = some r ∨ r = ⟨actor, command, .routed⟩ := by
  rcases Nat.lt_or_ge ticket w.requests.length with hlt | hge
  · exact .inl ((getElem?_append_left hlt).symm.trans h)
  · have hlast := (getElem?_append_right hge).symm.trans h
    obtain ⟨hone, rfl⟩ := List.getElem?_eq_some_iff.mp hlast
    exact .inr (List.getElem_singleton hone)

theorem Tickets.issue (h : Tickets w) (actor : ℕ) (command : ShardCommand) :
    Tickets (w.issue actor command) := by
  have hold : ∀ {ticket : ℕ} {r : Request}, w.requests[ticket]? = some r →
      (w.issue actor command).requests[ticket]? = some r := fun hr =>
    (List.getElem?_append_left (List.getElem?_eq_some_iff.mp hr).1).trans hr
  refine ⟨h.nodup, fun ticket hticket => ?_, fun ticket hticket => ?_,
    fun ticket r reply hr hreply => ?_, fun n entry hentry => ?_, h.distinct⟩
  · obtain ⟨r, hr, hsent⟩ := h.queued ticket hticket
    exact ⟨r, hold hr, hsent⟩
  · obtain ⟨r, hr, hanswered⟩ := h.served ticket hticket
    exact ⟨r, hold hr, hanswered⟩
  · rcases issue_requests hr with hr | rfl
    · exact h.answered ticket r reply hr hreply
    · cases hreply
  · obtain ⟨hserved, r, hr, hactor⟩ := h.entries n entry hentry
    exact ⟨hserved, r, hold hr, hactor⟩

theorem Core.issue (h : Core w) (actor : ℕ) (command : ShardCommand) :
    Core (w.issue actor command) := by
  obtain ⟨s, hs⟩ := h.whole
  exact ⟨⟨s, { hs with }⟩, h.lineage, h.logs, h.tickets.issue actor command⟩

theorem Kept.issue (h : Kept md5 w) {actor : ℕ} {command : ShardCommand}
    (hposed : Posed md5 w ⟨actor, command, .routed⟩) : Kept md5 (w.issue actor command) := by
  have hgrows := issue_grows w actor command
  refine h.step hgrows (h.toCore.issue actor command) (fun ticket r hr => ?_) h.readers
  rcases issue_requests hr with hr | rfl
  · exact sound_of_same hr
  · refine .inr ⟨hposed.grow hgrows (.refl _), fun reply hreply => ?_⟩
    cases hreply

theorem withReaders_grows (w : World) (readers : List Reader) : Grows w { w with readers } :=
  { Grows.refl w with }

theorem Core.withReaders (h : Core w) (readers : List Reader) : Core { w with readers } := by
  obtain ⟨s, hs⟩ := h.whole
  exact ⟨⟨s, { hs with }⟩, h.lineage, h.logs, { h.tickets with }⟩

theorem Kept.withReaders (h : Kept md5 w) {readers : List Reader}
    (hreaders : ∀ reader ∈ readers, ∃ n opened, Attends w reader n opened) :
    Kept md5 { w with readers } :=
  h.step (withReaders_grows w readers) (h.toCore.withReaders readers)
    (fun _ _ => sound_of_same) hreaders

theorem Kept.setReader (h : Kept md5 w) (i : ℕ) {reader : Reader}
    (hreader : ∃ n opened, Attends w reader n opened) : Kept md5 (w.setReader i reader) := by
  refine h.withReaders fun other hother => ?_
  rcases mem_or_eq_of_mem_set hother with hold | rfl
  · exact h.readers other hold
  · exact hreader

/-- A reshard goes on with the same parents. -/
theorem withClosing_grows {c c' : Closing} (hc : w.closing = some c)
    (hsame : c'.reshard = c.reshard) : Grows w { w with closing := some c' } := by
  refine { Grows.refl w with handles := fun handle hhandle => ?_ }
  unfold handles at hhandle ⊢
  rw [hc] at hhandle
  rw [Option.map_some, hsame]
  exact hhandle

theorem Core.withClosing (h : Core w) {c c' : Closing} (hc : w.closing = some c)
    (hsame : c'.reshard = c.reshard) : Core { w with closing := some c' } := by
  have hhandles : World.handles { w with closing := some c' } = w.handles := by
    unfold handles
    rw [hc, Option.map_some, Option.map_some, hsame]
  obtain ⟨s, hs⟩ := h.whole
  refine ⟨⟨s, ?_⟩, hhandles ▸ h.lineage, h.logs, { h.tickets with }⟩
  refine { hs with handles := hhandles ▸ hs.handles, idle := ?_, busy := ?_ }
  · intro hnone
    cases hnone
  · intro other hother
    cases hother
    exact hsame ▸ hs.busy c hc

theorem Kept.withClosing (h : Kept md5 w) {c c' : Closing} (hc : w.closing = some c)
    (hsame : c'.reshard = c.reshard) : Kept md5 { w with closing := some c' } :=
  h.step (withClosing_grows hc hsame) (h.toCore.withClosing hc hsame)
    (fun _ _ => sound_of_same) h.readers

/-! ## Requests move on -/

theorem setProgress_requests {ticket other : ℕ} {progress : Progress} {r r' : Request}
    (hr : w.requests[ticket]? = some r)
    (h : (w.setProgress ticket progress).requests[other]? = some r') :
    (other = ticket ∧ r' = { r with progress }) ∨
      (other ≠ ticket ∧ w.requests[other]? = some r') := by
  change (w.requests.modify ticket _)[other]? = some r' at h
  rw [getElem?_modify] at h
  by_cases hother : ticket = other
  · subst hother
    rw [hr] at h
    refine .inl ⟨rfl, ?_⟩
    simpa using h.symm
  · refine .inr ⟨Ne.symm hother, ?_⟩
    simpa [hother] using h

theorem setProgress_self {ticket : ℕ} {progress : Progress} {r : Request}
    (hr : w.requests[ticket]? = some r) :
    (w.setProgress ticket progress).requests[ticket]? = some { r with progress } := by
  change (w.requests.modify ticket _)[ticket]? = _
  rw [getElem?_modify, hr]
  simp

theorem setProgress_other {ticket other : ℕ} {progress : Progress} (hne : other ≠ ticket) :
    (w.setProgress ticket progress).requests[other]? = w.requests[other]? := by
  change (w.requests.modify ticket _)[other]? = _
  rw [getElem?_modify]
  simp [Ne.symm hne]

/-- A request that is not answered yet has not been served. -/
theorem Tickets.not_served (h : Tickets w) {ticket : ℕ} {r : Request}
    (hr : w.requests[ticket]? = some r) (hopen : ∀ reply, r.progress ≠ .answered reply) :
    ticket ∉ w.served := by
  intro hserved
  obtain ⟨r', hr', reply, hreply⟩ := h.served ticket hserved
  obtain rfl := Option.some.inj (hr.symm.trans hr')
  exact hopen reply hreply

theorem send_cases {ticket : ℕ} (h : w.send ticket = some w') :
    ∃ actor command, w.requests[ticket]? = some ⟨actor, command, .routed⟩ ∧
      w' = { w.setProgress ticket .sent with queue := w.queue ++ [ticket] } := by
  unfold send at h
  split at h
  · next actor command hr =>
      split at h
      · exact ⟨actor, command, hr, (Option.some.inj h).symm⟩
      · cases h
  · cases h

theorem send_grows {ticket : ℕ} (h : w.send ticket = some w') : Grows w w' := by
  obtain ⟨actor, command, hr, rfl⟩ := send_cases h
  refine { Grows.refl w with requests := extends_modify hr ?_ .sent }
  intro reply hreply
  cases hreply

theorem Tickets.not_queued (h : Tickets w) {ticket : ℕ} {r : Request}
    (hr : w.requests[ticket]? = some r) (hrouted : r.progress = .routed) : ticket ∉ w.queue := by
  intro hmem
  obtain ⟨r', hr', hsent⟩ := h.queued ticket hmem
  obtain rfl := Option.some.inj (hr.symm.trans hr')
  cases hrouted.symm.trans hsent

theorem Core.send (h : Core w) {ticket : ℕ} (hsend : w.send ticket = some w') : Core w' := by
  obtain ⟨actor, command, hr, rfl⟩ := send_cases hsend
  have hserved : ticket ∉ w.served := h.tickets.not_served hr fun _ hreply => by cases hreply
  have hqueued := h.tickets.not_queued hr rfl
  obtain ⟨s, hs⟩ := h.whole
  refine ⟨⟨s, { hs with }⟩, h.lineage, h.logs, ?_, fun other hother => ?_, fun other hother => ?_,
    fun other r reply hr' hreply => ?_, fun n entry hentry => ?_, h.tickets.distinct⟩
  · exact nodup_append.mpr ⟨h.tickets.nodup, nodup_singleton _, fun a ha b hb hab =>
      hqueued (mem_singleton.mp hb ▸ hab ▸ ha)⟩
  · rcases mem_append.mp hother with hold | hnew
    · obtain ⟨r, hr', hsent⟩ := h.tickets.queued other hold
      have hne : other ≠ ticket := fun heq => hqueued (heq ▸ hold)
      exact ⟨r, (setProgress_other hne).trans hr', hsent⟩
    · obtain rfl := mem_singleton.mp hnew
      exact ⟨_, setProgress_self hr, rfl⟩
  · obtain ⟨r, hr', hanswered⟩ := h.tickets.served other hother
    have hne : other ≠ ticket := fun heq => hserved (heq ▸ hother)
    exact ⟨r, (setProgress_other hne).trans hr', hanswered⟩
  · rcases setProgress_requests hr hr' with ⟨-, rfl⟩ | ⟨-, hr'⟩
    · cases hreply
    · exact h.tickets.answered other r reply hr' hreply
  · obtain ⟨hmem, r, hr', hactor⟩ := h.tickets.entries n entry hentry
    have hne : entry.1 ≠ ticket := fun heq => hserved (heq ▸ hmem)
    exact ⟨hmem, r, (setProgress_other hne).trans hr', hactor⟩

theorem Kept.send (h : Kept md5 w) {ticket : ℕ} (hsend : w.send ticket = some w') :
    Kept md5 w' := by
  refine h.step (send_grows hsend) (h.toCore.send hsend) (fun other r' hr' => ?_) ?_
  · obtain ⟨actor, command, hr, rfl⟩ := send_cases hsend
    rcases setProgress_requests hr hr' with ⟨rfl, rfl⟩ | ⟨-, hr'⟩
    · exact .inl ⟨_, hr, ⟨rfl, rfl, fun _ hreply => by cases hreply⟩,
        fun _ hreply => by cases hreply⟩
    · exact sound_of_same hr'
  · obtain ⟨_, _, -, rfl⟩ := send_cases hsend
    exact h.readers

/-! ## Actors move on -/

theorem kept_withActors {actors : List ShardActor} (h : StreamState.Kept s)
    (hlength : actors.length = s.actors.length) : StreamState.Kept { s with actors } where
  tiles := h.tiles
  numbered := { h.numbered with counted := hlength.trans h.numbered.counted }
  next := h.next

theorem replaces_withActors {s' : StreamState} {reshard : StreamState.Reshard}
    {actors : List ShardActor} (h : StreamState.Replaces s reshard s') :
    StreamState.Replaces { s with actors } reshard { s' with actors } where
  frame := by
    rw [h.frame]
  perm := h.perm
  tiles := h.tiles
  within := h.within
  named := h.named

theorem Whole.withActors {actors : List ShardActor} (h : Whole w s)
    (hlength : actors.length = w.stream.actors.length) :
    Whole { w with stream := { w.stream with actors } } { s with actors } where
  kept := kept_withActors h.kept (by rw [h.actors]; exact hlength)
  handles := h.handles
  shards := h.shards
  actors := rfl
  idle := fun hnone => by
    have hsame := h.idle hnone
    simp only [hsame]
  busy := fun c hc => replaces_withActors (h.busy c hc)

/-- One of the actors has moved on. -/
theorem logged_set {history : List (List (ℕ × StoredRecord))} {actors : List ShardActor}
    {birth : ℕ → Millis} {clock : Millis} {i : ℕ} {actor : ShardActor}
    (h : ∀ (n : ℕ) (actor : ShardActor), actors[n]? = some actor →
      Logged (history.getD n []) n (birth n) clock actor)
    (history' : List (List (ℕ × StoredRecord)))
    (hothers : ∀ n, n ≠ i → history'.getD n [] = history.getD n [])
    (hself : Logged (history'.getD i []) i (birth i) clock actor) :
    ∀ (n : ℕ) (actor' : ShardActor), (actors.set i actor)[n]? = some actor' →
      Logged (history'.getD n []) n (birth n) clock actor' := by
  intro n actor' hactor'
  by_cases hn : n = i
  · subst hn
    obtain ⟨hlt, hget⟩ := List.getElem?_eq_some_iff.mp hactor'
    rw [List.getElem_set_self] at hget
    exact hget ▸ hself
  · rw [getElem?_set_ne (Ne.symm hn)] at hactor'
    rw [hothers n hn]
    exact h n actor' hactor'

theorem trimmed_setActor {i : ℕ} {actor actor' : ShardActor}
    (hactor : w.stream.actors[i]? = some actor)
    (hle : actor.recordLog.trimOffset ≤ actor'.recordLog.trimOffset) (n : ℕ) :
    w.trimmed n ≤ (w.setActor i actor').trimmed n := by
  unfold trimmed setActor
  dsimp only
  by_cases hn : n = i
  · subst hn
    rw [List.getElem?_set_self (List.getElem?_eq_some_iff.mp hactor).1, hactor]
    exact hle
  · rw [getElem?_set_ne (Ne.symm hn)]

theorem setActor_grows {i : ℕ} {actor actor' : ShardActor}
    (hactor : w.stream.actors[i]? = some actor)
    (hle : actor.recordLog.trimOffset ≤ actor'.recordLog.trimOffset) :
    Grows w (w.setActor i actor') :=
  { Grows.refl w with trimmed := trimmed_setActor hactor hle }

theorem cleanup_cases {i : ℕ} (h : w.cleanup i = some w') :
    ∃ actor, w.stream.actors[i]? = some actor ∧ w' = w.setActor i (actor.trim w.clock) := by
  obtain ⟨actor, hactor, hw'⟩ := Option.map_eq_some_iff.mp h
  exact ⟨actor, hactor, hw'.symm⟩

theorem cleanup_grows {i : ℕ} (h : w.cleanup i = some w') : Grows w w' := by
  obtain ⟨actor, hactor, rfl⟩ := cleanup_cases h
  exact setActor_grows hactor (Nat.le_add_right _ _)

theorem Core.cleanup (h : Core w) {i : ℕ} (hcleanup : w.cleanup i = some w') : Core w' := by
  obtain ⟨actor, hactor, rfl⟩ := cleanup_cases hcleanup
  obtain ⟨s, hs⟩ := h.whole
  obtain ⟨birth, hmono, hbirth, hlogged⟩ := h.logs.logged
  refine ⟨⟨_, hs.withActors (length_set ..)⟩, h.lineage, ⟨?_, birth, hmono, hbirth, ?_⟩,
    { h.tickets with }⟩
  · exact h.logs.length.trans (length_set ..).symm
  · exact logged_set hlogged w.history (fun _ _ => rfl) ((hlogged i actor hactor).trim w.clock)

theorem Kept.cleanup (h : Kept md5 w) {i : ℕ} (hcleanup : w.cleanup i = some w') :
    Kept md5 w' := by
  have hgrows := cleanup_grows hcleanup
  have hcore := h.toCore.cleanup hcleanup
  obtain ⟨actor, hactor, rfl⟩ := cleanup_cases hcleanup
  exact h.step hgrows hcore (fun _ _ => sound_of_same) h.readers

/-! ## Requests are served -/

theorem handle_cases {i : ℕ} (h : w.handle i = some w') :
    ∃ (ticket : ℕ) (r : Request) (actor : ShardActor), ticket ∈ w.queue ∧
      w.requests[ticket]? = some r ∧ r.actor = i ∧ w.stream.actors[i]? = some actor ∧
      w' = w.serve i ticket actor r.command := by
  obtain ⟨ticket, hhead, h⟩ := Option.bind_eq_some_iff.mp h
  obtain ⟨r, hr, h⟩ := Option.bind_eq_some_iff.mp h
  obtain ⟨actor, hactor, h⟩ := Option.bind_eq_some_iff.mp h
  obtain ⟨hqueue, hown⟩ := mem_filter.mp (mem_of_head? hhead)
  refine ⟨ticket, r, actor, hqueue, hr, ?_, hactor, (Option.some.inj h).symm⟩
  have hown := of_decide_eq_true hown
  unfold actorOf at hown
  rw [hr] at hown
  exact Option.some.inj hown

section Serve

variable {i ticket : ℕ} {actor : ShardActor} {command : ShardCommand}

theorem entries_serve_other {n : ℕ} (hn : n ≠ i) :
    (w.serve i ticket actor command).entries n = w.entries n := by
  unfold entries serve
  simp [Ne.symm hn]

theorem entries_serve_self (ticket : ℕ) (actor : ShardActor) (command : ShardCommand)
    (hi : i < w.history.length) :
    (w.serve i ticket actor command).entries i = w.entries i ++
      (added actor (actor.handleCommand command w.clock).2).map fun record => (ticket, record) := by
  unfold entries serve
  simp [hi]

theorem entries_serve_same (hi : i < w.history.length)
    (hlog : (actor.handleCommand command w.clock).2.recordLog = actor.recordLog) :
    (w.serve i ticket actor command).entries i = w.entries i := by
  rw [entries_serve_self ticket actor command hi, added_of_eq hlog, map_nil, append_nil]

theorem trimOffset_handleCommand (actor : ShardActor) (command : ShardCommand) (now : Millis) :
    (actor.handleCommand command now).2.recordLog.trimOffset = actor.recordLog.trimOffset := by
  obtain ⟨-, ⟨hlog, -⟩ | ⟨record, hlog, -⟩⟩ := handleCommand_log actor command now
  · rw [hlog]
  · rw [hlog]
    rfl

/-- A new entry carries the ticket that is served. -/
theorem entries_serve_mem (hi : i < w.history.length) {n j : ℕ} {entry : ℕ × StoredRecord}
    (hentry : ((w.serve i ticket actor command).entries n)[j]? = some entry) :
    (w.entries n)[j]? = some entry ∨
      (n = i ∧ (w.entries n).length ≤ j ∧ entry.1 = ticket) := by
  by_cases hn : n = i
  · subst hn
    rw [entries_serve_self ticket actor command hi] at hentry
    rcases Nat.lt_or_ge j (w.entries n).length with hlt | hge
    · exact .inl ((getElem?_append_left hlt).symm.trans hentry)
    · have hnew := (getElem?_append_right hge).symm.trans hentry
      obtain ⟨record, -, rfl⟩ := mem_map.mp (mem_of_getElem? hnew)
      exact .inr ⟨rfl, hge, rfl⟩
  · rw [entries_serve_other hn] at hentry
    exact .inl hentry

theorem serve_grows {r : Request} (hlogs : w.history.length = w.stream.actors.length)
    (htickets : Tickets w) (hqueue : ticket ∈ w.queue) (hr : w.requests[ticket]? = some r)
    (hactor : w.stream.actors[i]? = some actor) : Grows w (w.serve i ticket actor command) := by
  have hi : i < w.history.length := hlogs ▸ (List.getElem?_eq_some_iff.mp hactor).1
  obtain ⟨r', hr', hsent⟩ := htickets.queued ticket hqueue
  obtain rfl := Option.some.inj (hr.symm.trans hr')
  have hopen : ∀ reply, r.progress ≠ .answered reply := fun reply hreply => by
    rw [hsent] at hreply
    cases hreply
  refine { Grows.refl w with
    entries := ?_, fresh := ?_, trimmed := ?_, requests := ?_, served := ?_ }
  · intro n
    by_cases hn : n = i
    · subst hn
      rw [entries_serve_self ticket actor command hi]
      exact prefix_append _ _
    · refine ⟨[], ?_⟩
      rw [append_nil, entries_serve_other hn]
  · intro n j entry hle hentry
    rcases entries_serve_mem hi hentry with hold | ⟨-, -, hticket⟩
    · rw [getElem?_eq_none hle] at hold
      cases hold
    · rw [hticket]
      exact htickets.not_served hr hopen
  · exact trimmed_setActor hactor (trimOffset_handleCommand actor command w.clock).ge
  · exact extends_modify hr hopen _
  · exact prefix_append _ _

theorem added_length_le (actor : ShardActor) (command : ShardCommand) (now : Millis) :
    (added actor (actor.handleCommand command now).2).length ≤ 1 := by
  obtain ⟨-, ⟨hlog, -⟩ | ⟨record, hlog, -⟩⟩ := handleCommand_log actor command now
  · rw [added_of_eq hlog]
    exact Nat.zero_le 1
  · rw [added_append hlog]
    exact Nat.le_refl 1

theorem Tickets.serve {r : Request} (hlogs : w.history.length = w.stream.actors.length)
    (h : Tickets w) (hqueue : ticket ∈ w.queue) (hr : w.requests[ticket]? = some r)
    (hown : r.actor = i) (hactor : w.stream.actors[i]? = some actor) :
    Tickets (w.serve i ticket actor command) := by
  have hi : i < w.history.length := hlogs ▸ (List.getElem?_eq_some_iff.mp hactor).1
  obtain ⟨r', hr', hsent⟩ := h.queued ticket hqueue
  obtain rfl := Option.some.inj (hr.symm.trans hr')
  have hserved : ticket ∉ w.served := h.not_served hr fun reply hreply => by
    rw [hsent] at hreply
    cases hreply
  refine ⟨h.nodup.erase ticket, fun other hother => ?_, fun other hother => ?_,
    fun other r' reply hr' hreply => ?_, fun n entry hentry => ?_, fun n => ?_⟩
  · obtain ⟨hne, hold⟩ := (h.nodup.mem_erase_iff).mp hother
    obtain ⟨r', hr', hsent'⟩ := h.queued other hold
    exact ⟨r', (setProgress_other hne).trans hr', hsent'⟩
  · rcases mem_append.mp hother with hold | hnew
    · obtain ⟨r', hr', hanswered⟩ := h.served other hold
      have hne : other ≠ ticket := fun heq => hserved (heq ▸ hold)
      exact ⟨r', (setProgress_other hne).trans hr', hanswered⟩
    · obtain rfl := mem_singleton.mp hnew
      exact ⟨_, setProgress_self hr, _, rfl⟩
  · rcases setProgress_requests hr hr' with ⟨rfl, -⟩ | ⟨-, hr'⟩
    · exact mem_append_right _ (mem_singleton_self _)
    · exact mem_append_left _ (h.answered other r' reply hr' hreply)
  · obtain ⟨j, hj, hget⟩ := getElem_of_mem hentry
    rcases entries_serve_mem hi (List.getElem?_eq_some_iff.mpr ⟨hj, hget⟩) with
      hold | ⟨rfl, -, hticket⟩
    · obtain ⟨hmem, r', hr', howner⟩ := h.entries n entry (mem_of_getElem? hold)
      have hne : entry.1 ≠ ticket := fun heq => hserved (heq ▸ hmem)
      exact ⟨mem_append_left _ hmem, r', (setProgress_other hne).trans hr', howner⟩
    · rw [hticket]
      exact ⟨mem_append_right _ (mem_singleton_self _), _, setProgress_self hr, hown⟩
  · by_cases hn : n = i
    · subst hn
      rw [entries_serve_self ticket actor command hi, map_append, map_map]
      refine nodup_append.mpr ⟨h.distinct n, ?_, ?_⟩
      · -- one record is added at most
        have hle := added_length_le actor command w.clock
        generalize added actor (actor.handleCommand command w.clock).2 = records at hle ⊢
        rcases records with _ | ⟨record, _ | ⟨_, _⟩⟩
        · exact nodup_nil
        · exact nodup_singleton _
        · simp at hle
      · rintro a ha b hb rfl
        obtain ⟨entry, hentry, rfl⟩ := mem_map.mp ha
        obtain ⟨record, -, hticket⟩ := mem_map.mp hb
        have hsame : ticket = entry.1 := hticket
        exact hserved (hsame ▸ (h.entries n entry hentry).1)
    · rw [entries_serve_other hn]
      exact h.distinct n

/-- What is served last sees all that has been stored. -/
theorem endsAt_serve (htickets : Tickets w) (hserved : ticket ∉ w.served)
    (hsame : (w.serve i ticket actor command).entries i = w.entries i) :
    (w.serve i ticket actor command).EndsAt ticket i (w.entries i).length := by
  refine ⟨mem_append_right _ (mem_singleton_self _), fun j entry hentry => ?_⟩
  rw [hsame] at hentry
  have hall : (w.serve i ticket actor command).servedBefore ticket = w.served := by
    have hne : ∀ t ∈ w.served, decide (t ≠ ticket) = true := fun t ht =>
      decide_eq_true fun heq => hserved (heq ▸ ht)
    refine (takeWhile_append_of_pos hne).trans ?_
    rw [takeWhile_cons_of_neg (by simp), append_nil]
  rw [hall]
  exact iff_of_true (List.getElem?_eq_some_iff.mp hentry).1
    (htickets.entries i entry (mem_of_getElem? hentry)).1

/-- An answer is right when it is given. -/
theorem answers_serve {birth : Millis} (htickets : Tickets w) (hserved : ticket ∉ w.served)
    (hi : i < w.history.length) (hactor : w.stream.actors[i]? = some actor)
    (hlogged : Logged (w.entries i) i birth w.clock actor) {r : Request} (hown : r.actor = i)
    (hposed : Posed md5 w r) :
    (w.serve i ticket actor r.command).Answers ticket r
      (actor.handleCommand r.command w.clock).1 := by
  have htrimmed : (w.serve i ticket actor r.command).trimmed i =
      actor.recordLog.trimOffset := by
    unfold trimmed serve setActor setProgress
    dsimp only
    rw [List.getElem?_set_self (List.getElem?_eq_some_iff.mp hactor).1]
    exact trimOffset_handleCommand actor r.command w.clock
  cases hcommand : r.command with
  | putRecord data partitionKey explicitHashKey =>
      have hself := entries_serve_self ticket actor
        (.putRecord data partitionKey explicitHashKey) hi
      cases hreply : (actor.handleCommand (.putRecord data partitionKey explicitHashKey)
        w.clock).1 with
      | put result =>
          cases result with
          | error => trivial
          | ok pair =>
              obtain ⟨record, hadded, hdata, hkey, hexplicit, hnumber, hid⟩ :=
                put_acknowledged hreply
              rw [hadded] at hself
              intro data' partitionKey' explicitHashKey' hcommand'
              cases hcommand.symm.trans hcommand'
              refine ⟨(w.entries i).length, record, ?_, hdata, hkey, hexplicit, hnumber, ?_⟩
              · rw [hown, hself, getElem?_append_right (Nat.le_refl _), Nat.sub_self]
                rfl
              · rw [hid, hlogged.shardId, hown]
      | records | position | closed | stopped =>
          unfold ShardActor.handleCommand at hreply
          dsimp only at hreply
          split at hreply <;> cases hreply
  | getRecords position limit =>
      rw [hcommand] at htrimmed
      have hsame : (w.serve i ticket actor (.getRecords position limit)).entries i =
          w.entries i := entries_serve_same hi rfl
      have hends := endsAt_serve htickets hserved hsame
      obtain ⟨first, next, hread, hfirst, hnext, hle, hskipped, hlast⟩ :=
        hlogged.getRecords (hown ▸ hposed.read position limit hcommand) limit
      unfold ShardActor.handleCommand
      dsimp only
      rw [hread]
      intro position' limit' hcommand'
      cases hcommand.symm.trans hcommand'
      rw [hown, hsame, htrimmed]
      exact ⟨first, rfl, hfirst, hnext, hle, hskipped, hlast.imp_right fun heq => by
        rw [heq]; exact hends⟩
  | getShardIterator request =>
      rw [hcommand] at htrimmed
      have hsame : (w.serve i ticket actor (.getShardIterator request)).entries i =
          w.entries i := entries_serve_same hi rfl
      have hends := endsAt_serve htickets hserved hsame
      unfold ShardActor.handleCommand
      dsimp only
      cases hposition : ShardActor.position actor.recordLog request with
      | error error =>
          intro request' hcommand'
          cases hcommand.symm.trans hcommand'
          exact position_error hposition
      | ok position =>
          obtain ⟨test, htest, rfl⟩ := position_ok hposition
          obtain ⟨hle, hskipped, hlast⟩ := hlogged.positionWhere test
          intro request' hcommand'
          cases hcommand.symm.trans hcommand'
          rw [hown, hsame, htrimmed]
          exact ⟨test, htest, hle, hskipped, hlast.imp_left fun heq => by rw [heq]; exact hends⟩
  | close => trivial
  | shutdown => trivial

theorem matches_handleCommand (actor : ShardActor) (r : Request) (now : Millis) :
    Matches r (actor.handleCommand r.command now).1 := by
  refine ⟨fun position limit hcommand => ?_, fun request hcommand => ?_⟩
  · rw [hcommand]
    exact ⟨_, _, _, rfl⟩
  · rw [hcommand]
    exact ⟨_, rfl⟩

end Serve

theorem follows_of_sent {r : Request} (hsent : r.progress = .sent) (progress : Progress) :
    Request.Follows r { r with progress } :=
  ⟨rfl, rfl, fun reply hreply => by
    rw [hsent] at hreply
    cases hreply⟩

theorem Core.handle (h : Core w) {i : ℕ} (hhandle : w.handle i = some w') :
    Grows w w' ∧ Core w' := by
  obtain ⟨ticket, r, actor, hqueue, hr, hown, hactor, rfl⟩ := handle_cases hhandle
  have hi : i < w.history.length := h.logs.length ▸ (List.getElem?_eq_some_iff.mp hactor).1
  obtain ⟨birth, hmono, hbirth, hlogged⟩ := h.logs.logged
  obtain ⟨s, hs⟩ := h.whole
  have hwhole := hs.withActors (w.stream.actors.length_set (i := i)
    (a := (actor.handleCommand r.command w.clock).2))
  refine ⟨serve_grows h.logs.length h.tickets hqueue hr hactor, ⟨_, { hwhole with }⟩, h.lineage,
    ⟨?_, birth, hmono, hbirth, ?_⟩, h.tickets.serve h.logs.length hqueue hr hown hactor⟩
  · exact (length_modify ..).trans (h.logs.length.trans (length_set ..).symm)
  · refine logged_set hlogged _ (fun n hn => entries_serve_other hn) ?_
    change Logged ((w.serve i ticket actor r.command).entries i) i (birth i) w.clock _
    rw [entries_serve_self ticket actor r.command hi]
    exact (hlogged i actor hactor).serve ticket r.command

theorem Kept.handle (h : Kept md5 w) {i : ℕ} (hhandle : w.handle i = some w') : Kept md5 w' := by
  obtain ⟨hgrows, hcore⟩ := h.toCore.handle hhandle
  obtain ⟨ticket, r, actor, hqueue, hr, hown, hactor, rfl⟩ := handle_cases hhandle
  have hi : i < w.history.length := h.logs.length ▸ (List.getElem?_eq_some_iff.mp hactor).1
  obtain ⟨r', hr', hsent⟩ := h.tickets.queued ticket hqueue
  obtain rfl := Option.some.inj (hr.symm.trans hr')
  have hserved : ticket ∉ w.served := h.tickets.not_served hr fun reply hreply => by
    rw [hsent] at hreply
    cases hreply
  obtain ⟨birth, -, -, hlogged⟩ := h.logs.logged
  refine h.step hgrows hcore (fun other r' hr' => ?_) h.readers
  rcases setProgress_requests hr hr' with ⟨rfl, rfl⟩ | ⟨-, hr'⟩
  · refine .inr ⟨(h.posed _ r hr).grow hgrows (follows_of_sent hsent _), fun reply hreply => ?_⟩
    obtain rfl := Progress.answered.inj hreply
    have hanswers := answers_serve h.tickets hserved hi hactor (hlogged i actor hactor) hown
      (h.posed _ r hr)
    have hfollows := follows_of_sent hsent (.answered (actor.handleCommand r.command w.clock).1)
    exact ⟨(matches_handleCommand actor r w.clock).follow hfollows,
      (Grows.refl _).answers hfollows hanswers⟩
  · exact sound_of_same hr'

/-! ## Time and reshards -/

theorem wait_grows {time : Millis} (hle : w.clock ≤ time) : Grows w { w with clock := time } :=
  { Grows.refl w with clock := hle }

theorem Core.wait (h : Core w) {time : Millis} (hle : w.clock ≤ time) :
    Core { w with clock := time } := by
  obtain ⟨s, hs⟩ := h.whole
  obtain ⟨birth, hmono, hbirth, hlogged⟩ := h.logs.logged
  refine ⟨⟨s, { hs with }⟩, h.lineage, ⟨h.logs.length, birth, hmono, ?_, ?_⟩, { h.tickets with }⟩
  · exact fun n => (hbirth n).trans hle
  · exact fun n actor hactor => (hlogged n actor hactor).later hle

theorem Kept.wait (h : Kept md5 w) {time : Millis} (hle : w.clock ≤ time) :
    Kept md5 { w with clock := time } :=
  h.step (wait_grows hle) (h.toCore.wait hle) (fun _ _ => sound_of_same) h.readers

/-- The stream while no reshard holds it. -/
theorem Core.idle (h : Core w) (hnone : w.closing = none) : StreamState.Kept w.stream := by
  obtain ⟨s, hs⟩ := h.whole
  rw [hs.idle hnone]
  exact hs.kept

theorem handles_idle (hnone : w.closing = none) : w.handles = w.stream.handles := by
  unfold handles
  rw [hnone]
  exact append_nil _

/-- A reshard takes its parents. -/
theorem Core.begin (h : Core w) (hnone : w.closing = none) {reshard : StreamState.Reshard}
    {stream : StreamState} (hreplaces : StreamState.Replaces w.stream reshard stream) :
    Grows w { w with stream, closing := some ⟨reshard, [], none⟩ } ∧
      Core { w with stream, closing := some ⟨reshard, [], none⟩ } := by
  have hshards : stream.shards = w.stream.shards := by rw [hreplaces.frame]
  have hactors : stream.actors = w.stream.actors := by rw [hreplaces.frame]
  have hname : stream.name = w.stream.name := by rw [hreplaces.frame]
  have hclosed : stream.closedShardHandles = w.stream.closedShardHandles := by
    rw [hreplaces.frame]
  have hhandles : w.handles.Perm
      (World.handles { w with stream, closing := some ⟨reshard, [], none⟩ }) := by
    rw [handles_idle hnone]
    unfold handles StreamState.handles
    rw [hclosed, Option.map_some, Option.getD_some]
    calc w.stream.activeShards ++ w.stream.closedShardHandles
        |>.Perm (reshard.parents ++ stream.activeShards ++ w.stream.closedShardHandles) :=
          hreplaces.perm.append_right _
      _ |>.Perm (stream.activeShards ++ w.stream.closedShardHandles ++ reshard.parents) := by
          rw [append_assoc]
          exact perm_append_comm
  have hgrows : Grows w { w with stream, closing := some ⟨reshard, [], none⟩ } :=
    { Grows.refl w with
      name := hname
      handles := fun handle hhandle => hhandles.mem_iff.mp hhandle
      trimmed := fun n => by
        unfold trimmed
        rw [hactors]
      shards := (congrArg length hshards).ge }
  refine ⟨hgrows, ⟨w.stream, ?_⟩, ?_, hactors ▸ h.logs, { h.tickets with }⟩
  · refine ⟨h.idle hnone, ?_, hshards.symm, hactors.symm, fun hc => ?_, fun c hc => ?_⟩
    · rw [← handles_idle hnone]
      exact hhandles
    · cases hc
    · cases hc
      exact hreplaces
  · intro child hchild id hid
    obtain ⟨parent, hparent, hrest⟩ := h.lineage child (hhandles.mem_iff.mpr hchild) id hid
    exact ⟨parent, hhandles.mem_iff.mp hparent, hrest⟩

theorem Kept.begin (h : Kept md5 w) (hnone : w.closing = none) {reshard : StreamState.Reshard}
    {stream : StreamState} (hreplaces : StreamState.Replaces w.stream reshard stream) :
    Kept md5 { w with stream, closing := some ⟨reshard, [], none⟩ } :=
  h.step (h.toCore.begin hnone hreplaces).1 (h.toCore.begin hnone hreplaces).2
    (fun _ _ => sound_of_same) h.readers

theorem Core.retain (h : Core w) (hnone : w.closing = none) (period : Millis) :
    Grows w { w with stream := { w.stream with retentionPeriod := period } } ∧
      Core { w with stream := { w.stream with retentionPeriod := period } } := by
  have hgrows : Grows w { w with stream := { w.stream with retentionPeriod := period } } :=
    { Grows.refl w with }
  have hkept := h.idle hnone
  refine ⟨hgrows, ⟨{ w.stream with retentionPeriod := period }, ?_⟩, h.lineage, h.logs,
    { h.tickets with }⟩
  refine ⟨⟨hkept.tiles, { hkept.numbered with }, hkept.next⟩, ?_, rfl, rfl, fun _ => rfl,
    fun c hc => ?_⟩
  · change w.stream.handles.Perm w.handles
    rw [handles_idle hnone]
  · rw [show w.closing = some c from hc] at hnone
    cases hnone

theorem Kept.retain (h : Kept md5 w) (hnone : w.closing = none) (period : Millis) :
    Kept md5 { w with stream := { w.stream with retentionPeriod := period } } :=
  h.step (h.toCore.retain hnone period).1 (h.toCore.retain hnone period).2
    (fun _ _ => sound_of_same) h.readers

/-! ## The end of a reshard -/

theorem finish_cases (h : w.finish = some w') :
    ∃ reshard endings, w.closing = some ⟨reshard, endings, none⟩ ∧
      endings.length = reshard.parents.length ∧
      w' = { w with
        stream := w.stream.finishReshard reshard endings w.clock
        closing := none
        history := w.history ++ reshard.children.map fun _ => [] } := by
  unfold finish at h
  split at h
  · next reshard endings hclosing =>
      split at h
      · next hlength => exact ⟨reshard, endings, hclosing, hlength, (Option.some.inj h).symm⟩
      · cases h
  · cases h

theorem getD_append_nil {β : Type} (history : List (List (ℕ × StoredRecord))) (children : List β)
    (n : ℕ) : (history ++ children.map fun _ => []).getD n [] = history.getD n [] := by
  rw [getD_eq_getElem?_getD, getD_eq_getElem?_getD]
  rcases Nat.lt_or_ge n history.length with hlt | hge
  · rw [getElem?_append_left hlt]
  · rw [getElem?_append_right hge, getElem?_eq_none hge, getElem?_map]
    cases children[n - history.length]? <;> rfl

/-- The children of a reshard join the shards. -/
structure Finishes (w : World) (reshard : StreamState.Reshard) (children : List ShardHandle)
    (stream : StreamState) : Prop where
  name : stream.name = w.stream.name
  handles : (w.handles ++ children).Perm stream.handles
  shards : stream.shards.length = w.stream.shards.length + children.length
  actors : stream.actors = w.stream.actors ++ (List.range children.length).map fun k =>
    StreamState.freshActor w.stream.retentionPeriod w.clock (w.stream.actors.length + k)
  retention : stream.retentionPeriod = w.stream.retentionPeriod
  count : children.length = reshard.children.length
  numbers : ∀ child ∈ children, w.stream.actors.length ≤ child.actor
  parents : ∀ child ∈ children, child.info.parentShardId = some reshard.parentShardId ∧
    child.info.adjacentParentShardId = reshard.adjacentParentShardId
  kept : StreamState.Kept stream

theorem Whole.finishes (h : Whole w s) {reshard : StreamState.Reshard}
    {endings : List (Option String)} {waiting : Option ℕ}
    (hclosing : w.closing = some ⟨reshard, endings, waiting⟩)
    (hlength : endings.length = reshard.parents.length) :
    ∃ children, Finishes w reshard children
      (w.stream.finishReshard reshard endings w.clock) := by
  have hreplaces : StreamState.Replaces s reshard w.stream := h.busy _ hclosing
  obtain ⟨shards, children, heq, hmarks, hnumbered, hspawns, hranges, hparents, -⟩ :=
    StreamState.finishReshard_spawns h.kept hreplaces hlength w.clock
  have hcount : shards.length = w.stream.actors.length := by
    rw [hmarks.length, ← h.actors]
    exact h.kept.numbered.counted.symm
  have hstream : (w.stream.closing reshard endings).activeShards = w.stream.activeShards ∧
      (w.stream.closing reshard endings).name = w.stream.name ∧
      (w.stream.closing reshard endings).retentionPeriod = w.stream.retentionPeriod ∧
      (w.stream.closing reshard endings).actors = w.stream.actors ∧
      (w.stream.closing reshard endings).shards = shards ∧
      (w.stream.closing reshard endings).closedShardHandles =
        w.stream.closedShardHandles ++ reshard.parents := by
    rw [heq]
    refine ⟨rfl, rfl, rfl, rfl, rfl, ?_⟩
    rw [hreplaces.frame]
  obtain ⟨hopened, hname, hretention, hactors, hshards, hclosed⟩ := hstream
  refine ⟨children, hspawns.name.trans hname, ?_, ?_, ?_, hspawns.retentionPeriod.trans hretention,
    ?_, ?_, hparents, (StreamState.finishReshard_spec h.kept hreplaces hlength w.clock).1⟩
  · unfold World.handles StreamState.handles
    rw [hclosing, hspawns.opened, hspawns.closed, hopened, hclosed, Option.map_some,
      Option.getD_some, append_assoc, append_assoc, append_assoc]
    refine List.Perm.append_left _ ?_
    rw [← append_assoc]
    exact perm_append_comm
  · rw [hspawns.shards, hshards, length_append, length_map, hmarks.length, h.shards]
  · rw [hspawns.actors, hactors]
    unfold StreamState.freshActors
    rw [hretention, hshards, hcount]
  · rw [← hranges, length_map]
  · intro child hchild
    rw [← hcount, ← hshards]
    exact hspawns.numbers child hchild

theorem Core.finish (h : Core w) (hfinish : w.finish = some w') : Grows w w' ∧ Core w' := by
  obtain ⟨reshard, endings, hclosing, hlength, rfl⟩ := finish_cases hfinish
  obtain ⟨s, hs⟩ := h.whole
  obtain ⟨children, hf⟩ := hs.finishes hclosing hlength
  generalize w.stream.finishReshard reshard endings w.clock = stream at hf ⊢
  have hreplaces : StreamState.Replaces s reshard w.stream := hs.busy _ hclosing
  have hhandles : World.handles { w with
      stream
      closing := none
      history := w.history ++ reshard.children.map fun _ => [] } = stream.handles :=
    append_nil _
  have hentries : ∀ n, World.entries { w with
      stream
      closing := none
      history := w.history ++ reshard.children.map fun _ => [] } n = w.entries n :=
    getD_append_nil w.history reshard.children
  have hgrows : Grows w { w with
      stream
      closing := none
      history := w.history ++ reshard.children.map fun _ => [] } :=
    { Grows.refl w with
      name := hf.name
      handles := fun handle hhandle =>
        hhandles ▸ hf.handles.mem_iff.mp (mem_append_left _ hhandle)
      entries := fun n => ⟨[], by rw [append_nil, hentries]⟩
      fresh := fun n i entry hle hentry => by
        rw [hentries, getElem?_eq_none hle] at hentry
        cases hentry
      trimmed := fun n => by
        unfold trimmed
        dsimp only
        rw [hf.actors]
        rcases Nat.lt_or_ge n w.stream.actors.length with hlt | hge
        · rw [getElem?_append_left hlt]
        · rw [getElem?_eq_none hge]
          exact Nat.zero_le _
      shards := by
        dsimp only
        rw [hf.shards]
        exact Nat.le_add_right _ _ }
  refine ⟨hgrows, ⟨stream, ?_⟩, ?_, ?_, ?_⟩
  · refine ⟨hf.kept, ?_, rfl, rfl, fun _ => rfl, fun c hc => by cases hc⟩
    rw [hhandles]
  · -- the parents of the children are among the old handles
    rw [hhandles]
    intro child hchild id hid
    rcases mem_append.mp (hf.handles.mem_iff.mpr hchild) with hold | hnew
    · obtain ⟨parent, hparent, hrest⟩ := h.lineage child hold id hid
      exact ⟨parent, hf.handles.mem_iff.mp (mem_append_left _ hparent), hrest⟩
    · rw [(hf.parents child hnew).1, (hf.parents child hnew).2] at hid
      obtain ⟨parent, hparent, hname⟩ := hreplaces.named id hid
      have hmem : parent ∈ w.handles := by
        unfold handles
        rw [hclosing]
        exact mem_append_right _ hparent
      refine ⟨parent, hf.handles.mem_iff.mp (mem_append_left _ hmem), hname, ?_⟩
      refine Nat.lt_of_lt_of_le ?_ (hf.numbers child hnew)
      rw [← hs.actors, hs.kept.numbered.counted]
      exact mem_range.mp (hs.kept.numbered.perm.mem_iff.mp
        (mem_map_of_mem (hs.handles.mem_iff.mpr hmem)))
  · obtain ⟨birth, hmono, hbirth, hlogged⟩ := h.logs.logged
    refine ⟨?_, fun n => if n < w.stream.actors.length then birth n else w.clock, ?_, ?_, ?_⟩
    · dsimp only
      rw [hf.actors, length_append, length_append, length_map, length_map,
        length_range, h.logs.length, hf.count]
    · intro a b hab
      dsimp only
      split
      · split
        · exact hmono hab
        · exact hbirth a
      · next ha =>
          rw [if_neg fun hb => ha (hab.trans_lt hb)]
    · intro n
      dsimp only
      split
      · exact hbirth n
      · exact Nat.le_refl _
    · intro n actor hactor
      dsimp only at hactor ⊢
      rw [hf.actors] at hactor
      rw [getD_append_nil]
      rcases Nat.lt_or_ge n w.stream.actors.length with hlt | hge
      · rw [getElem?_append_left hlt] at hactor
        rw [if_pos hlt]
        exact hlogged n actor hactor
      · rw [getElem?_append_right hge, getElem?_map] at hactor
        obtain ⟨k, hk, rfl⟩ := Option.map_eq_some_iff.mp hactor
        obtain ⟨_, hget⟩ := List.getElem?_eq_some_iff.mp hk
        rw [List.getElem_range] at hget
        rw [if_neg (Nat.not_lt_of_ge hge), getD_eq_getElem?_getD,
          getElem?_eq_none (h.logs.length.trans_le hge), ← hget, Nat.add_sub_cancel' hge]
        exact Logged.fresh _ _ _ _
  · refine ⟨h.tickets.nodup, h.tickets.queued, h.tickets.served, h.tickets.answered,
      fun n entry hentry => ?_, fun n => ?_⟩
    · rw [hentries] at hentry
      exact h.tickets.entries n entry hentry
    · rw [hentries]
      exact h.tickets.distinct n

theorem Kept.finish (h : Kept md5 w) (hfinish : w.finish = some w') : Kept md5 w' := by
  obtain ⟨hgrows, hcore⟩ := h.toCore.finish hfinish
  obtain ⟨_, _, -, -, rfl⟩ := finish_cases hfinish
  exact h.step hgrows hcore (fun _ _ => sound_of_same) h.readers

end Rustack.Kinesis.World
