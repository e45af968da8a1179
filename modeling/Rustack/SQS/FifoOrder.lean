import Rustack.SQS.GroupOrder
import Rustack.SQS.Run

/-!
# The order of FIFO groups over whole runs

What every turn of the event loop keeps: the groups are lines of what is in flight,
pending at a dead-letter queue, or waiting.  The log of deliveries and the list of
accepted messages go through the turns, so that the order in which a group was
delivered can be read off at the end of a run.
-/

namespace Rustack.SQS

open QueueMessage (ofGroup ident)
open List FifoQueueStorage

def Reply.delivered : Reply → List QueueMessage
  | .received _ deliveries => deliveries.map (·.message)
  | _ => []

/-- The messages handed out by some replies. -/
def delivered (replies : List Reply) : List QueueMessage := replies.flatMap Reply.delivered

theorem delivered_append (replies replies' : List Reply) :
    delivered (replies ++ replies') = delivered replies ++ delivered replies' :=
  flatMap_append

/-- The message of an enqueue as it was taken in. -/
def Enqueue.accepted (e : Enqueue) : Option QueueMessage :=
  match e.result with
  | .enqueued _ seq => some { e.message with sequenceNumber := some seq }
  | .deduplicated _ _ => none

/-- The messages that some enqueues took in. -/
def accepted (enqueues : List Enqueue) : List QueueMessage := enqueues.filterMap Enqueue.accepted

theorem accepted_append (enqueues enqueues' : List Enqueue) :
    accepted (enqueues ++ enqueues') = accepted enqueues ++ accepted enqueues' :=
  filterMap_append

theorem accepted_enqueue (s : FifoQueueStorage) (now : Instant) (message : QueueMessage)
    (key : DedupKey) :
    accepted [{ now, message, key, result := (s.enqueue now message key).2 }] =
      s.accepted now message key := by
  unfold accepted FifoQueueStorage.accepted FifoQueueStorage.enqueue
  cases s.liveEntry now key <;> rfl

variable {R : Type} {env : SqsEnv} {m : Moment} {routing : Routing R} {log acc : List QueueMessage}

theorem RedriveManager.handoff_eq_some {routes routes' : R} {self manager : RedriveManager}
    {message : QueueMessage} {targetArn sourceArn : String}
    (h : self.handoff routing routes message targetArn sourceArn = some (manager, routes')) :
    ∃ reply, manager.pending = self.pending ++ [PendingTransfer.mk message reply] := by
  unfold handoff at h
  split at h
  · cases h
  split at h
  · cases h
  split at h
  · cases h
  split at h
  · cases h
  · next reply routes'' _ =>
      cases h
      exact ⟨reply, rfl⟩

/-! ## One receive -/

/-- A receive under way: the messages in `taken` have left their groups and are not yet dealt
with. -/
structure ReceivingInv (env : SqsEnv) (r : Receiving FifoQueueStorage R)
    (taken : List (QueueMessage × String)) (log acc : List QueueMessage) : Prop where
  ordered : r.storage.Ordered
    (taken.map Prod.fst ++ r.redrive.pending.map PendingTransfer.message)
    (log ++ r.result.map Delivery.message) acc
  fresh : r.storage.FreshFrom env r.drawn
  group : ∀ t ∈ taken, t.1.group = t.2

section

variable {redrive : RedriveRequest} {request : ReceiveRequest}
  {taken : List (QueueMessage × String)}
  {r r' : Receiving FifoQueueStorage R}

theorem ReceivingInv.turn {t : QueueMessage × String} (h : ReceivingInv env r (t :: taken) log acc)
    (hturn : receiveFifoTurn env m routing redrive request r t = some r') :
    ReceivingInv env r' taken log acc := by
  have hgroup : t.1.group = t.2 := h.group t (.head _)
  have hgroups : ∀ t ∈ taken, t.1.group = t.2 := fun t ht => h.group t (.tail _ ht)
  have hordered := h.ordered
  rw [map_cons, cons_append] at hordered
  unfold receiveFifoTurn at hturn
  split at hturn
  · split at hturn
    · next hhandoff =>
        cases hturn
        obtain ⟨reply, hpending⟩ := RedriveManager.handoff_eq_some hhandoff
        refine ⟨hordered.perm ?_, h.fresh, hgroups⟩
        dsimp only
        rw [hpending, map_append, ← append_assoc]
        exact perm_append_singleton _ _ |>.symm
    · cases hturn
      refine ⟨?_, h.fresh.of_subset fun handle hmem => ?_, hgroups⟩
      · dsimp only
        rw [← hgroup]
        exact hordered.restore (List.Perm.refl _)
      · rw [inFlight_finishRedrive] at hmem
        exact hmem
  · obtain ⟨visibleAt, -, hturn⟩ := Option.bind_eq_some_iff.mp hturn
    cases hturn
    refine ⟨?_, h.fresh.markInFlight _ _ visibleAt, hgroups⟩
    dsimp only
    rw [map_append, ← append_assoc, ← hgroup]
    refine hordered.markInFlight (List.Perm.refl _) (h.fresh r.drawn (Nat.le_refl _)) ?_ ?_
      visibleAt
    · rfl
    · rfl

theorem ReceivingInv.turns (h : ReceivingInv env r taken log acc)
    (hturns : taken.foldlM (receiveFifoTurn env m routing redrive request) r = some r') :
    ReceivingInv env r' [] log acc :=
  Outcome.option_foldlM_rule (I := fun r taken => ReceivingInv env r taken log acc)
    (fun _ _ _ _ h hturn => h.turn hturn) h hturns

theorem ReceivingInv.tryReceive (h : ReceivingInv env r [] log acc)
    (hreceive : tryReceiveFifo env m routing redrive request r = some r') :
    ReceivingInv env r' [] log acc := by
  obtain ⟨hordered, hgroup⟩ := h.ordered.receive request.max
  have hstart : ReceivingInv env { r with storage := (r.storage.receive request.max).1 }
      (r.storage.receive request.max).2 log acc := by
    refine ⟨hordered, h.fresh.of_subset fun handle hmem => ?_, hgroup⟩
    exact (inFlight_receiveLoop request.max _ r.storage []) ▸ hmem
  exact hstart.turns hreceive

end

/-! ## The actor -/

namespace QueueActor

/-- The messages held for a redrive. -/
def held (a : QueueActor) : List QueueMessage := a.redrive.pending.map PendingTransfer.message

/-- A FIFO actor whose groups are lines. -/
structure FifoInv (env : SqsEnv) (a : QueueActor) (log acc : List QueueMessage) : Prop where
  isFifo : a.isFifo = true
  storage : ∃ s, a.storage = .fifo s ∧ s.Ordered a.held log acc ∧ s.FreshFrom env a.handlesDrawn

variable {a a' : QueueActor} {routes routes' : R}

theorem new_fifoInv (env : SqsEnv) (name arn : String) (attributes : QueueAttributes)
    (tags : StringMap) (accountId : String) (createdAt : ℕ) :
    (new name arn true attributes tags accountId createdAt).FifoInv env [] [] where
  isFifo := rfl
  storage := ⟨.empty, rfl, empty_ordered, fun _ _ => AList.notMem_empty _⟩

/-- A change of what the order does not look at. -/
theorem FifoInv.congr (h : a.FifoInv env log acc) (hfifo : a'.isFifo = a.isFifo)
    (hstorage : a'.storage = a.storage) (hpending : a'.redrive.pending = a.redrive.pending)
    (hdrawn : a'.handlesDrawn = a.handlesDrawn) : a'.FifoInv env log acc where
  isFifo := hfifo.trans h.isFifo
  storage := by
    obtain ⟨s, hs, hordered, hfresh⟩ := h.storage
    refine ⟨s, hstorage.trans hs, ?_, hdrawn ▸ hfresh⟩
    rw [held, hpending]
    exact hordered

theorem FifoInv.refresh (h : a.FifoInv env log acc) (m : Moment) :
    (a.refresh m).1.FifoInv env log acc := by
  obtain ⟨s, hs, hordered, hfresh⟩ := h.storage
  unfold QueueActor.refresh
  rw [hs]
  exact ⟨h.isFifo, _, rfl, hordered.returnExpiredInflight m,
    hfresh.of_subset fun _ hmem => mem_inFlight_returnExpired hmem⟩

theorem FifoInv.receiveFrom (h : a.FifoInv env log acc) {request : ReceiveRequest}
    {deliveries : List Delivery}
    (hreceive : a.receiveFrom env m routing routes request = some (a', routes', deliveries)) :
    a'.FifoInv env (log ++ deliveries.map Delivery.message) acc := by
  obtain ⟨s, hs, hordered, hfresh⟩ := h.storage
  unfold QueueActor.receiveFrom at hreceive
  rw [hs] at hreceive
  obtain ⟨r, hr, hreceive⟩ := Option.bind_eq_some_iff.mp hreceive
  cases hreceive
  have hstart : ReceivingInv env
      ({ storage := s, redrive := a.redrive, routes, drawn := a.handlesDrawn, result := [] } :
        Receiving FifoQueueStorage R) [] log acc :=
    ⟨by simpa [held] using hordered, hfresh, fun t ht => absurd ht not_mem_nil⟩
  have hend := hstart.tryReceive hr
  exact ⟨h.isFifo, _, rfl, hend.ordered, hend.fresh⟩

theorem FifoInv.tryReceive (h : a.FifoInv env log acc) {request : ReceiveRequest}
    {deliveries : List Delivery}
    (hreceive : a.tryReceive env m routing routes request = some (a', routes', deliveries)) :
    a'.FifoInv env (log ++ deliveries.map Delivery.message) acc :=
  (h.refresh m).receiveFrom hreceive

theorem FifoInv.fulfillLoop {polls : List PendingLongPoll} {replies replies' : List Reply}
    (h : a.FifoInv env (log ++ delivered replies) acc)
    (hloop : fulfillLoop env m routing polls a routes replies = some (a', routes', replies')) :
    a'.FifoInv env (log ++ delivered replies') acc := by
  induction polls generalizing a routes replies with
  | nil =>
      cases hloop
      exact h
  | cons poll polls ih =>
      rw [QueueActor.fulfillLoop] at hloop
      split at hloop
      · exact ih h hloop
      · obtain ⟨⟨next, routes₁, messages⟩, hreceive, hloop⟩ := Option.bind_eq_some_iff.mp hloop
        have hnext := h.tryReceive hreceive
        dsimp only at hloop
        split at hloop
        · next hempty =>
            rw [isEmpty_iff.mp hempty, map_nil, append_nil] at hnext
            refine ih ?_ hloop
            exact hnext.congr rfl rfl rfl rfl
        · refine ih ?_ hloop
          rw [delivered_append, ← append_assoc]
          simpa [delivered, Reply.delivered] using hnext

theorem FifoInv.fulfillPendingLongPolls (h : a.FifoInv env log acc) {replies : List Reply}
    (hfulfill : a.fulfillPendingLongPolls env m routing routes = some (a', routes', replies)) :
    a'.FifoInv env (log ++ delivered replies) acc := by
  have hstart : ({ a with pendingLongPolls := [] } : QueueActor).FifoInv env
      (log ++ delivered []) acc := by
    rw [show delivered [] = [] from rfl, append_nil]
    exact h.congr rfl rfl rfl rfl
  exact hstart.fulfillLoop hfulfill

/-! ## Settling -/

/-- An actor that settles its transfers: the ones in `rest` have been taken out. -/
structure SettlingInv (env : SqsEnv) (a : QueueActor) (rest : List PendingTransfer)
    (log acc : List QueueMessage) : Prop where
  isFifo : a.isFifo = true
  storage : ∃ s, a.storage = .fifo s ∧
    s.Ordered (rest.map PendingTransfer.message ++ a.held) log acc ∧
    s.FreshFrom env a.handlesDrawn

theorem SettlingInv.settle {transfer : PendingTransfer} {rest : List PendingTransfer}
    (h : a.SettlingInv env (transfer :: rest) log acc) (result : Except SqsError Unit) :
    (a.settle transfer.message result).SettlingInv env rest log acc := by
  obtain ⟨s, hs, hordered, hfresh⟩ := h.storage
  unfold QueueActor.settle
  rw [hs]
  have hinFlight : ∀ restore handle,
      handle ∈ (s.finishRedrive transfer.message.group restore).inFlight → handle ∈ s.inFlight :=
    fun restore handle hmem => by
      rw [inFlight_finishRedrive] at hmem
      exact hmem
  refine ⟨h.isFifo, _, rfl, ?_, hfresh.of_subset (hinFlight _)⟩
  cases result with
  | ok => exact hordered.handOver (List.Perm.refl _)
  | error => exact hordered.restore (List.Perm.refl _)

theorem SettlingInv.keep {transfer : PendingTransfer} {rest : List PendingTransfer}
    (h : a.SettlingInv env (transfer :: rest) log acc) :
    ({ a with redrive := { a.redrive with pending := a.redrive.pending ++ [transfer] } } :
      QueueActor).SettlingInv env rest log acc := by
  obtain ⟨s, hs, hordered, hfresh⟩ := h.storage
  refine ⟨h.isFifo, s, hs, hordered.perm ?_, hfresh⟩
  rw [held, held, map_append, map_cons, cons_append, ← append_assoc]
  exact (perm_append_singleton _ _).symm

theorem SettlingInv.settleLoop {rest : List PendingTransfer}
    (h : a.SettlingInv env rest log acc) : (settleLoop m rest a).FifoInv env log acc := by
  induction rest generalizing a with
  | nil => exact ⟨h.isFifo, h.storage⟩
  | cons transfer rest ih =>
      rw [QueueActor.settleLoop]
      split
      · exact ih h.keep
      · exact ih (h.settle _)

theorem FifoInv.settleTransfers (h : a.FifoInv env log acc) (m : Moment) :
    (a.settleTransfers m).FifoInv env log acc := by
  obtain ⟨s, hs, hordered, hfresh⟩ := h.storage
  refine SettlingInv.settleLoop ⟨h.isFifo, s, hs, hordered.perm ?_, hfresh⟩
  rw [held, held, map_nil, append_nil]

/-! ## Commands -/

theorem FifoInv.enqueue (h : a.FifoInv env log acc) {s : FifoQueueStorage}
    (hs : a.storage = .fifo s) (now : Instant) (msg : QueueMessage) (key : DedupKey)
    (drawn : ℕ) :
    ({ a with storage := .fifo (s.enqueue now msg key).1, messagesDrawn := drawn } :
      QueueActor).FifoInv env log (acc ++ s.accepted now msg key) := by
  obtain ⟨s', hs', hordered, hfresh⟩ := h.storage
  cases hs.symm.trans hs'
  refine ⟨h.isFifo, _, rfl, hordered.enqueue now msg key, hfresh.of_subset fun handle hmem => ?_⟩
  rw [inFlight_enqueue] at hmem
  exact hmem

/-- A new storage with the same order. -/
theorem FifoInv.withStorage (h : a.FifoInv env log acc) {f : FifoQueueStorage → FifoQueueStorage}
    {s : FifoQueueStorage} (hs : a.storage = .fifo s)
    (hordered : ∀ {s}, s.Ordered a.held log acc → (f s).Ordered a.held log acc)
    (hsubset : ∀ {s handle}, handle ∈ (f s).inFlight → handle ∈ s.inFlight) :
    ({ a with storage := .fifo (f s) } : QueueActor).FifoInv env log acc := by
  obtain ⟨s', hs', h', hfresh⟩ := h.storage
  cases hs.symm.trans hs'
  exact ⟨h.isFifo, _, rfl, hordered h', hfresh.of_subset fun _ => hsubset⟩

theorem FifoInv.handleReceiveMessage (h : a.FifoInv env log acc) {input : ReceiveMessageInput}
    {reply : ℕ} {handled : Handled R}
    (hreceive : a.handleReceiveMessage env m routing routes input reply = some handled) :
    handled.actor.FifoInv env (log ++ delivered handled.replies) acc := by
  obtain ⟨⟨next, routes₁, messages⟩, hnext, hreceive⟩ := Option.bind_eq_some_iff.mp hreceive
  have hinv := h.tryReceive hnext
  dsimp only at hreceive
  split at hreceive
  · cases hreceive
    simpa [delivered, Reply.delivered] using hinv
  · next hnot =>
      cases hreceive
      have hempty : messages = [] := by
        rw [not_or, Bool.not_eq_true, Bool.not_eq_false', List.isEmpty_iff] at hnot
        exact hnot.1
      rw [hempty, map_nil] at hinv
      exact hinv.congr rfl rfl rfl rfl

theorem FifoInv.handleDeleteMessage (h : a.FifoInv env log acc) (handle : String) :
    (a.handleDeleteMessage handle).1.FifoInv env log acc := by
  obtain ⟨s, hs, -⟩ := h.storage
  unfold QueueActor.handleDeleteMessage
  rw [hs]
  exact h.withStorage (f := fun s => (s.deleteMessage handle).1) hs
    (fun hordered => hordered.deleteMessage handle) mem_inFlight_deleteMessage

theorem FifoInv.handleChangeVisibility (h : a.FifoInv env log acc) {handle : String}
    {visibilityTimeout : ℤ} {result : Except SqsError Bool}
    (hchange : a.handleChangeVisibility m handle visibilityTimeout = some (a', result)) :
    a'.FifoInv env log acc := by
  obtain ⟨s, hs, -⟩ := h.storage
  unfold QueueActor.handleChangeVisibility at hchange
  rw [hs] at hchange
  obtain ⟨visibleAt, -, hchange⟩ := Option.bind_eq_some_iff.mp hchange
  have hinv := h.withStorage (f := fun s => (s.changeVisibility m.now handle visibleAt).1) hs
    (fun hordered => hordered.changeVisibility m.now handle visibleAt)
    mem_inFlight_changeVisibility
  dsimp only at hchange
  split at hchange
  · cases hchange
    exact hinv
  · cases hchange
    exact hinv

theorem FifoInv.handlePurge (h : a.FifoInv env log acc) (m : Moment) :
    (a.handlePurge m).1.FifoInv env log acc := by
  obtain ⟨s, hs, hordered, -⟩ := h.storage
  unfold QueueActor.handlePurge
  split
  · exact h
  · rw [hs]
    exact ⟨h.isFifo, s.purge, rfl, hordered.purge, fun _ _ => AList.notMem_empty _⟩

theorem FifoInv.setAttributes (h : a.FifoInv env log acc) (attributes : StringMap) :
    (a.setAttributes env m attributes).1.FifoInv env log acc := by
  unfold QueueActor.setAttributes
  split
  · exact h.congr rfl rfl rfl rfl
  · exact h.congr rfl rfl rfl rfl

/-- What the enqueue of a turn takes in. -/
def acceptedBy (env : SqsEnv) (m : Moment) (a : QueueActor) (event : Event) :
    List QueueMessage :=
  accepted (a.enqueued env m event).toList

theorem acceptedBy_eq {s : FifoQueueStorage} (hs : a.storage = .fifo s) {event : Event}
    {msg : QueueMessage} {key : DedupKey} (hwanted : a.wanted env m event = some (msg, key)) :
    a.acceptedBy env m event = s.accepted m.now msg key := by
  rw [← accepted_enqueue, acceptedBy, enqueued, hs]
  dsimp only
  rw [hwanted]
  rfl

theorem acceptedBy_eq_nil {event : Event} (hwanted : a.wanted env m event = none) :
    a.acceptedBy env m event = [] := by
  rw [acceptedBy, enqueued]
  split
  · rfl
  · rw [hwanted]
    rfl

theorem FifoInv.acceptTransfer (h : a.FifoInv env log acc) {message : QueueMessage}
    {sourceArn : String} {reply : ℕ} (hreply : m.abandoned reply = false) :
    (a.acceptTransfer env m message sourceArn).1.FifoInv env log
      (acc ++ a.acceptedBy env m (.command (.transfer message sourceArn reply))) := by
  obtain ⟨s, hs, -⟩ := h.storage
  unfold QueueActor.acceptTransfer
  cases hcheck : a.checkTransfer env message sourceArn with
  | error e =>
      rw [acceptedBy_eq_nil (by rw [wanted, hreply, hcheck]; rfl), append_nil]
      exact h
  | ok =>
      have hwanted : a.wanted env m (.command (.transfer message sourceArn reply)) =
          some (transferredFifoMessage m message sourceArn,
            .redrive sourceArn message.messageId) := by
        rw [wanted, hreply, hcheck]
        rfl
      rw [acceptedBy_eq hs hwanted, hs]
      exact h.enqueue hs m.now _ _ a.messagesDrawn

theorem FifoInv.handleSendMessage (h : a.FifoInv env log acc) {input : SendMessageInput}
    {reply : ℕ} (hreply : m.closed reply = false) {output : SendMessageOutput} {fulfill : Bool}
    (hsend : a.handleSendMessage env m input = .ok (a', output, fulfill)) :
    a'.FifoInv env log (acc ++ a.acceptedBy env m (.command (.sendMessage input reply))) := by
  obtain ⟨s, hs, -⟩ := h.storage
  unfold QueueActor.handleSendMessage at hsend
  obtain ⟨_, hcheck, hsend⟩ := Except.bind_eq_ok.mp hsend
  rw [if_pos h.isFifo] at hsend
  unfold handleSendMessageFifo at hsend
  rw [hs] at hsend
  obtain ⟨⟨msg, key⟩, hmessage, hsend⟩ := Except.bind_eq_ok.mp hsend
  obtain ⟨rfl, -⟩ := Prod.mk.inj (Except.ok.inj hsend)
  have hwanted : a.wanted env m (.command (.sendMessage input reply)) = some (msg, key) := by
    rw [wanted, hreply, hcheck]
    dsimp only [bind, Except.bind]
    rw [hmessage]
    rfl
  rw [acceptedBy_eq hs hwanted]
  exact h.enqueue hs m.now msg key _

theorem FifoInv.wanted_eq_none (h : a.FifoInv env log acc) {input : SendMessageInput} {reply : ℕ}
    {e : SqsError} (hsend : a.handleSendMessage env m input = .error e) :
    a.wanted env m (.command (.sendMessage input reply)) = none := by
  obtain ⟨s, hs, -⟩ := h.storage
  rw [wanted]
  split
  · rfl
  · unfold QueueActor.handleSendMessage at hsend
    rw [if_pos h.isFifo, handleSendMessageFifo, hs] at hsend
    cases hcheck : a.checkSend input with
    | error e => rfl
    | ok =>
        rw [hcheck] at hsend
        cases hmessage : a.fifoMessage env m input with
        | error e => rfl
        | ok x =>
            dsimp only [bind, Except.bind] at hsend
            rw [hmessage] at hsend
            cases hsend

theorem FifoInv.handleCommand (h : a.FifoInv env log acc) {cmd : QueueCommand}
    {handled : Handled R} (hcmd : a.handleCommand env m routing routes cmd = some handled) :
    handled.actor.FifoInv env (log ++ delivered handled.replies)
      (acc ++ a.acceptedBy env m (.command cmd)) := by
  have hsame : ∀ {actor : QueueActor}, actor.FifoInv env log acc →
      a.wanted env m (.command cmd) = none →
      actor.FifoInv env (log ++ []) (acc ++ a.acceptedBy env m (.command cmd)) := by
    intro actor hactor hnone
    rw [acceptedBy_eq_nil hnone, append_nil, append_nil]
    exact hactor
  cases cmd with
  | transfer message sourceArn reply =>
      rw [QueueActor.handleCommand] at hcmd
      split at hcmd
      · next habandoned =>
          cases hcmd
          exact hsame h (by rw [wanted, if_pos habandoned])
      · next hreply =>
          cases hcmd
          dsimp only
          rw [show delivered [.transferred reply _] = [] from rfl, append_nil]
          exact h.acceptTransfer (Bool.not_eq_true _ ▸ hreply)
  | quiesce reply =>
      cases hcmd
      dsimp only
      split
      · exact hsame (h.congr rfl rfl rfl rfl) rfl
      · exact hsame (h.congr rfl rfl rfl rfl) rfl
  | sendMessage input reply =>
      rw [QueueActor.handleCommand] at hcmd
      split at hcmd
      · next hclosed =>
          cases hcmd
          exact hsame h (by rw [wanted, if_pos hclosed])
      · next hreply =>
          split at hcmd
          · next hsend =>
              cases hcmd
              exact hsame h (h.wanted_eq_none hsend)
          · next hsend =>
              cases hcmd
              dsimp only
              rw [show delivered [.sent reply _] = [] from rfl, append_nil]
              exact h.handleSendMessage (Bool.not_eq_true _ ▸ hreply) hsend
  | receiveMessage input reply =>
      rw [acceptedBy_eq_nil rfl, append_nil]
      exact h.handleReceiveMessage hcmd
  | deleteMessage receiptHandle reply =>
      cases hcmd
      exact hsame (h.handleDeleteMessage receiptHandle) rfl
  | changeVisibility receiptHandle visibilityTimeout reply =>
      obtain ⟨⟨next, result⟩, hchange, hcmd⟩ := Option.bind_eq_some_iff.mp hcmd
      cases hcmd
      exact hsame (h.handleChangeVisibility hchange) rfl
  | getAttributes | getTags =>
      cases hcmd
      exact hsame h rfl
  | setAttributes attributes reply =>
      cases hcmd
      exact hsame (h.setAttributes attributes) rfl
  | purge reply =>
      cases hcmd
      exact hsame (h.handlePurge m) rfl
  | setTags | removeTags | shutdown =>
      cases hcmd
      exact hsame (h.congr rfl rfl rfl rfl) rfl

/-! ## Turns -/

theorem FifoInv.expireLongPolls (h : a.FifoInv env log acc) (m : Moment) :
    (a.expireLongPolls m).1.FifoInv env log acc := h.congr rfl rfl rfl rfl

theorem delivered_expireLongPolls (a : QueueActor) (m : Moment) :
    delivered (a.expireLongPolls m).2 = [] := by
  rw [delivered, flatMap_eq_nil_iff]
  intro reply hreply
  obtain ⟨poll, -, rfl⟩ := mem_map.mp hreply
  rfl

theorem FifoInv.cleanDedupCache (h : a.FifoInv env log acc) (m : Moment) :
    (a.cleanDedupCache m).FifoInv env log acc := by
  obtain ⟨s, hs, -⟩ := h.storage
  unfold QueueActor.cleanDedupCache
  rw [hs]
  exact h.withStorage (f := fun s => s.cleanDedupCache m.now) hs
    (fun hordered => hordered.cleanDedupCache m.now) id

theorem FifoInv.periodicCleanup (h : a.FifoInv env log acc) {replies : List Reply}
    (hcleanup : a.periodicCleanup env m routing routes = some (a', routes', replies)) :
    a'.FifoInv env (log ++ delivered replies) acc := by
  have hclean := (h.refresh m).cleanDedupCache m
  obtain ⟨next, answered, hnext, rfl, rfl⟩ := periodicCleanup_eq_some hcleanup
  rw [delivered_append, delivered_expireLongPolls, append_nil]
  apply FifoInv.expireLongPolls
  split at hnext
  · exact hclean.fulfillPendingLongPolls hnext
  · cases hnext
    rw [show delivered [] = [] from rfl, append_nil]
    exact hclean

theorem FifoInv.handleEvent (h : a.FifoInv env log acc) {event : Event} {replies : List Reply}
    (hevent : a.handleEvent env m routing routes event = some (a', routes', replies)) :
    a'.FifoInv env (log ++ delivered replies) (acc ++ a.acceptedBy env m event) := by
  cases event with
  | command cmd =>
      obtain ⟨handled, hcmd, hevent⟩ := Option.bind_eq_some_iff.mp hevent
      have hhandled := h.handleCommand hcmd
      split at hevent
      · obtain ⟨⟨next, routes₁, answered⟩, hnext, hevent⟩ := Option.bind_eq_some_iff.mp hevent
        cases hevent
        rw [delivered_append, ← append_assoc]
        exact hhandled.fulfillPendingLongPolls hnext
      · cases hevent
        exact hhandled
  | commandsClosed =>
      cases hevent
      rw [acceptedBy_eq_nil rfl, append_nil, show delivered [] = [] from rfl, append_nil]
      exact h.congr rfl rfl rfl rfl
  | transferReady =>
      cases hevent
      rw [acceptedBy_eq_nil rfl, append_nil, show delivered [] = [] from rfl, append_nil]
      exact h
  | cleanup =>
      rw [acceptedBy_eq_nil rfl, append_nil]
      exact h.periodicCleanup hevent
  | pollDeadline =>
      have hexpire : some ((a.expireLongPolls m).1, routes, (a.expireLongPolls m).2) =
          some (a', routes', replies) := hevent
      simp only [Option.some.injEq, Prod.mk.injEq] at hexpire
      obtain ⟨rfl, rfl, rfl⟩ := hexpire
      rw [acceptedBy_eq_nil rfl, append_nil, delivered_expireLongPolls, append_nil]
      exact h.expireLongPolls m

theorem FifoInv.answerQuiesce (h : a.FifoInv env log acc) :
    (a.answerQuiesce).1.FifoInv env log acc ∧ delivered a.answerQuiesce.2 = [] := by
  unfold QueueActor.answerQuiesce
  split
  · refine ⟨h.congr rfl rfl rfl rfl, ?_⟩
    cases a.quiesceReply <;> rfl
  · exact ⟨h, rfl⟩

theorem FifoInv.turn (h : a.FifoInv env log acc) {event : Event} {replies : List Reply}
    (hturn : a.turn env m routing routes event = some (a', routes', replies)) :
    a'.FifoInv env (log ++ delivered replies) (acc ++ a.acceptedBy env m event) := by
  obtain ⟨next, answered, hevent, rfl, rfl⟩ := turn_eq_some.mp hturn
  obtain ⟨hinv, hbarrier⟩ := ((h.handleEvent hevent).settleTransfers m).answerQuiesce
  rw [delivered_append, hbarrier, append_nil]
  exact hinv

end QueueActor

/-! ## Runs -/

namespace History

variable {h h' : History} {stimuli : List (Stimulus R)}

def FifoInv (env : SqsEnv) (h : History) : Prop :=
  h.actor.FifoInv env (delivered h.replies) (accepted h.enqueues)

theorem FifoInv.next (hinv : h.FifoInv env) {s : Stimulus R}
    (hnext : h.next env routing s = some h') : h'.FifoInv env := by
  obtain ⟨actor, routes, replies, hturn, rfl⟩ := next_eq_some.mp hnext
  unfold FifoInv
  rw [delivered_append, accepted_append]
  exact QueueActor.FifoInv.turn hinv hturn

theorem FifoInv.run (hinv : h.FifoInv env) (hrun : h.run env routing stimuli = some h') :
    h'.FifoInv env :=
  Outcome.option_foldlM_rule (I := fun h _ => h.FifoInv env)
    (fun _ _ _ _ hinv hnext => hinv.next hnext) hinv hrun

/-- What is out in a group: its messages in flight, and the ones pending at another queue. -/
def outstanding (h : History) (s : FifoQueueStorage) (g : String) : List QueueMessage :=
  s.flying g ++ ofGroup h.actor.held g

/-- One group of the queue, with what was accepted and delivered of it so far. -/
structure GroupInOrder (h : History) (s : FifoQueueStorage) (g : String) : Prop where
  length_outstanding : (h.outstanding s g).length ≤ 1
  blocked_iff : g ∈ s.blockedGroups ↔ h.outstanding s g ≠ []
  line_sorted : ((h.outstanding s g ++ s.waiting g).map QueueMessage.sequence).Pairwise (· < ·)
  accepted_sorted :
    ((ofGroup (accepted h.enqueues) g).map QueueMessage.sequence).Pairwise (· < ·)
  delivered_sorted :
    ((ofGroup (delivered h.replies) g).map QueueMessage.sequence).Pairwise (· ≤ ·)
  delivered_accepted :
    ∀ msg ∈ ofGroup (delivered h.replies) g,
      ∃ sent ∈ ofGroup (accepted h.enqueues) g, ident msg = ident sent

theorem FifoInv.groupInOrder (hinv : h.FifoInv env) :
    ∃ s, h.actor.storage = .fifo s ∧ ∀ g, h.GroupInOrder s g := by
  obtain ⟨s, hs, hordered, -⟩ := hinv.storage
  refine ⟨s, hs, fun g => ?_⟩
  obtain ⟨l, hl⟩ := hordered g
  have hblocked := hl.blocked_iff
  rw [show (s.view g).blocked = decide (g ∈ s.blockedGroups) from rfl, decide_eq_true_iff]
    at hblocked
  refine ⟨hl.length_outstanding_le, hblocked, hl.sorted, ?_, hl.served_sorted, fun msg hmsg => ?_⟩
  · have hjoined := l.joined_sorted
    rw [← hl.joined, pairwise_map] at hjoined
    rw [pairwise_map]
    exact hjoined
  · have hserved : ident msg ∈ l.joined := l.served_joined _ (by
      rw [← hl.served]
      exact mem_map_of_mem hmsg)
    rw [← hl.joined] at hserved
    obtain ⟨sent, hsent, heq⟩ := mem_map.mp hserved
    exact ⟨sent, hsent, heq.symm⟩

variable {name arn accountId : String} {attributes : QueueAttributes} {tags : StringMap}
  {createdAt : ℕ}

/-- In every state of every run each group is a line, and what was delivered of it came in the
order in which it was accepted. -/
theorem run_groupInOrder
    (hrun : (start (QueueActor.new name arn true attributes tags accountId createdAt)).run env
      routing stimuli = some h) :
    ∃ s, h.actor.storage = .fifo s ∧ ∀ g, h.GroupInOrder s g := by
  have hstart : (start (QueueActor.new name arn true attributes tags accountId createdAt)).FifoInv
      env := QueueActor.new_fifoInv env name arn attributes tags accountId createdAt
  exact (hstart.run hrun).groupInOrder

/-- Two messages of a group; the first one is received, released, received again and deleted,
then the second one is received. -/
def twoMessages : List (Stimulus Unit) :=
  [commandAt 0 (.sendMessage (plainSend "a" "g" "1") 0),
    commandAt 1 (.sendMessage (plainSend "b" "g" "2") 1),
    commandAt 2 (.receiveMessage (plainReceive 10) 2),
    commandAt 3 (.changeVisibility "" 0 3),
    commandAt 4 (.receiveMessage (plainReceive 10) 4),
    commandAt 5 (.deleteMessage "r" 5),
    commandAt 6 (.receiveMessage (plainReceive 10) 6)]

theorem run_groupInOrder_twoMessages :
    ∃ h, (start (plainActor true)).run (plainEnv []) noRoutes twoMessages = some h ∧
      (delivered h.replies).map QueueMessage.sequence = [1, 1, 2] ∧
      ∃ s, h.actor.storage = .fifo s ∧ ∀ g, h.GroupInOrder s g := by
  have hdelivered : ((start (plainActor true)).run (plainEnv []) noRoutes twoMessages).map
      (fun h => (delivered h.replies).map QueueMessage.sequence) = some [1, 1, 2] := by
    decide +kernel
  obtain ⟨h, hrun, hsequences⟩ := Option.map_eq_some_iff.mp hdelivered
  exact ⟨h, hrun, hsequences, run_groupInOrder hrun⟩

end History

end Rustack.SQS
