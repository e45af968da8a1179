import Rustack.SQS.AttributeLanguage
import Rustack.SQS.Run

/-!
# The instants of a queue

Every instant an actor keeps is the clock moved by a number of seconds that a request asks
for.  Moved by a negative number it does not exist, and the actor comes down; moved by any
other `i32` it stays near the clock.
-/

namespace Rustack.SQS

open List QueueActor

/-- The most a request can move the clock by. -/
def farthest : ℕ := seconds (2 ^ 31)

/-- An `i32` that is no negative one. -/
def Ahead (secs : ℤ) : Prop := 0 ≤ secs ∧ secs < 2 ^ 31

theorem moved_le {now limit : Instant} (hlimit : now + farthest ≤ limit) {secs : ℤ}
    (hsecs : secs < 2 ^ 31) : now + seconds secs.toNat ≤ limit := by
  have hle : secs.toNat ≤ 2 ^ 31 := by omega
  exact (Nat.add_le_add_left (Nat.mul_le_mul_right 1000000000 hle) now).trans hlimit

theorem after_eq_some {now limit : Instant} (hlimit : now + farthest ≤ limit) {secs : ℤ}
    (hsecs : Ahead secs) : ∃ later, after now secs = some later ∧ later ≤ limit :=
  ⟨now + seconds secs.toNat, if_neg (not_lt.mpr hsecs.1), moved_le hlimit hsecs.2⟩

/-! ## Storages -/

namespace StandardQueueStorage

structure Within (limit : Instant) (s : StandardQueueStorage) : Prop where
  delayed : ∀ msg ∈ s.delayed, msg.availableAt ≤ limit
  inFlight : ∀ handle ifm, s.inFlight.lookup handle = some ifm → ifm.visibleAt ≤ limit

variable {limit : Instant} {s : StandardQueueStorage}

theorem empty_within (limit : Instant) : empty.Within limit :=
  ⟨fun _ h => absurd h not_mem_nil, fun _ _ h => by cases h⟩

theorem Within.withAvailable (h : s.Within limit) (available : List QueueMessage) :
    Within limit { s with available } :=
  ⟨h.delayed, h.inFlight⟩

theorem Within.erase (h : s.Within limit) (available : List QueueMessage) (handle : String) :
    Within limit { s with available, inFlight := s.inFlight.erase handle } :=
  ⟨h.delayed, AList.forall_lookup_erase h.inFlight handle⟩

theorem Within.insert (h : s.Within limit) (available : List QueueMessage) (handle : String)
    {ifm : InFlightMessage} (hifm : ifm.visibleAt ≤ limit) :
    Within limit { s with available, inFlight := s.inFlight.insert handle ifm } :=
  ⟨h.delayed, AList.forall_lookup_insert h.inFlight handle hifm⟩

theorem Within.promoteDelayed (h : s.Within limit) (now : Instant) :
    (s.promoteDelayed now).1.Within limit :=
  ⟨fun msg hmsg => h.delayed msg (mem_of_mem_filter hmsg), h.inFlight⟩

theorem Within.giveBack (h : s.Within limit) (handle : String) :
    (s.giveBack handle).Within limit := by
  unfold StandardQueueStorage.giveBack
  split
  · exact h
  · exact h.erase _ handle

theorem Within.returnExpiredInflight (h : s.Within limit) (m : Moment) :
    (s.returnExpiredInflight m).1.Within limit :=
  foldlRecOn (s.expired m) StandardQueueStorage.giveBack h fun _ hb handle _ =>
    hb.giveBack handle

end StandardQueueStorage

namespace FifoQueueStorage

structure Within (limit : Instant) (s : FifoQueueStorage) : Prop where
  inFlight : ∀ handle ifm, s.inFlight.lookup handle = some ifm → ifm.visibleAt ≤ limit
  dedupCache : ∀ key entry, s.dedupCache.lookup key = some entry → entry.expiry ≤ limit

variable {limit : Instant} {s : FifoQueueStorage}

theorem empty_within (limit : Instant) : empty.Within limit where
  inFlight _ _ h := by cases h
  dedupCache _ _ h := by cases h

/-- Only what is in flight and the cache have instants. -/
theorem Within.congr (h : s.Within limit) {s' : FifoQueueStorage}
    (hinFlight : s'.inFlight = s.inFlight) (hcache : s'.dedupCache = s.dedupCache) :
    s'.Within limit :=
  ⟨hinFlight ▸ h.inFlight, hcache ▸ h.dedupCache⟩

theorem Within.markInFlight (h : s.Within limit) (handle : String) (msg : QueueMessage)
    (g : String) {visibleAt : Instant} (hvisible : visibleAt ≤ limit) :
    (s.markInFlight handle msg g visibleAt).Within limit :=
  ⟨AList.forall_lookup_insert h.inFlight handle hvisible, h.dedupCache⟩

theorem Within.takeInFlight (h : s.Within limit) (handle : String) :
    (s.takeInFlight handle).Within limit :=
  ⟨AList.forall_lookup_erase h.inFlight handle, h.dedupCache⟩

theorem Within.unblockIdle (h : s.Within limit) (g : String) : (s.unblockIdle g).Within limit := by
  unfold FifoQueueStorage.unblockIdle
  split
  · exact h
  · exact h.congr rfl rfl

theorem Within.giveBack (h : s.Within limit) (handle : String) :
    (s.giveBack handle).Within limit := by
  unfold FifoQueueStorage.giveBack
  split
  · exact h
  · next ifm _ =>
      have hpushed : ((s.takeInFlight handle).pushFront ifm.groupId ifm.message).Within limit :=
        (h.takeInFlight handle).congr rfl rfl
      exact hpushed.unblockIdle _

theorem Within.returnExpiredInflight (h : s.Within limit) (m : Moment) :
    (s.returnExpiredInflight m).1.Within limit :=
  foldlRecOn (s.expired m) FifoQueueStorage.giveBack h fun _ hb handle _ =>
    hb.giveBack handle

theorem Within.deleteMessage (h : s.Within limit) (handle : String) :
    (s.deleteMessage handle).1.Within limit := by
  unfold FifoQueueStorage.deleteMessage
  split
  · exact h
  · exact (h.takeInFlight handle).unblockIdle _

theorem Within.changeVisibility (h : s.Within limit) (now : Instant) (handle : String)
    {visibleAt : Instant} (hvisible : visibleAt ≤ limit) :
    (s.changeVisibility now handle visibleAt).1.Within limit := by
  unfold FifoQueueStorage.changeVisibility
  split
  · exact h
  · split
    · exact h.giveBack handle
    · exact h.markInFlight handle _ _ hvisible

theorem Within.finishRedrive (h : s.Within limit) (g : String) (restore : Option QueueMessage) :
    (s.finishRedrive g restore).Within limit := by
  unfold FifoQueueStorage.finishRedrive
  split
  · exact h.congr rfl rfl
  · exact h.congr rfl rfl

theorem Within.enqueue (h : s.Within limit) {now : Instant} (hnow : now + farthest ≤ limit)
    (msg : QueueMessage) (key : DedupKey) : (s.enqueue now msg key).1.Within limit := by
  unfold FifoQueueStorage.enqueue
  split
  · exact h
  · have hexpiry : now + dedupWindow ≤ limit :=
      le_trans (Nat.add_le_add_left (by decide) now) hnow
    exact ⟨h.inFlight, AList.forall_lookup_insert h.dedupCache key hexpiry⟩

theorem Within.cleanDedupCache (h : s.Within limit) (now : Instant) :
    (s.cleanDedupCache now).Within limit := by
  refine ⟨h.inFlight, fun key entry hlookup => ?_⟩
  rw [FifoQueueStorage.cleanDedupCache, AList.lookup_retainEntries] at hlookup
  exact h.dedupCache key entry (Option.filter_eq_some_iff.mp hlookup).1

/-- The loop only takes messages out of their groups. -/
theorem Within.receiveLoop (h : s.Within limit) (max : ℕ) (keys : List String)
    (result : List (QueueMessage × String)) :
    (FifoQueueStorage.receiveLoop max keys s result).1.Within limit := by
  induction keys generalizing s result with
  | nil => exact h
  | cons key keys ih =>
      rw [FifoQueueStorage.receiveLoop]
      split
      · exact h
      split
      · exact ih h _
      split
      · next msg queue _ =>
          have htaken : Within limit { s.setWaiting key queue with
              blockedGroups := insert key s.blockedGroups } := h.congr rfl rfl
          exact ih htaken _
      · exact ih h _

theorem Within.receive (h : s.Within limit) (max : ℕ) : (s.receive max).1.Within limit :=
  (h.receiveLoop max _ []).congr rfl rfl

end FifoQueueStorage

/-! ## Receiving -/

section

variable {R : Type} {env : SqsEnv} {m : Moment} {routing : Routing R} {redrive : RedriveRequest}
  {request : ReceiveRequest} {limit : Instant}

/-- A message can be received: the timeout leads to an instant, or the message does not go out. -/
def Receivable (redrive : RedriveRequest) (request : ReceiveRequest) (msg : QueueMessage) : Prop :=
  Ahead request.visibilityTimeout ∨ redrive.target msg ≠ none

theorem receiveStandardTurn_within (hnow : m.now + farthest ≤ limit)
    {r : Receiving StandardQueueStorage R} (h : r.storage.Within limit) {msg : QueueMessage}
    {rest : List QueueMessage} (havailable : r.storage.available = msg :: rest)
    (hmsg : Receivable redrive request msg) :
    ∃ r', receiveStandardTurn env m routing redrive request r = some r' ∧
      r'.storage.Within limit ∧
      (r'.storage.available = rest ∨ r'.storage.available = rest ++ [msg]) := by
  unfold receiveStandardTurn
  rw [havailable]
  dsimp only
  cases htarget : redrive.target msg with
  | some target =>
      dsimp only
      split
      · exact ⟨_, rfl, h.withAvailable rest, .inl rfl⟩
      · exact ⟨_, rfl, h.withAvailable (rest ++ [msg]), .inr rfl⟩
  | none =>
      have hahead := hmsg.resolve_right (not_not.mpr htarget)
      obtain ⟨later, hlater, hle⟩ := after_eq_some hnow hahead
      dsimp only
      rw [hlater]
      exact ⟨_, rfl, h.insert rest _ hle, .inl rfl⟩

theorem receiveStandardLoop_within (hnow : m.now + farthest ≤ limit) {budget : ℕ}
    {r : Receiving StandardQueueStorage R} (h : r.storage.Within limit)
    (hbudget : budget ≤ r.storage.available.length)
    (hmsgs : ∀ msg ∈ r.storage.available.take budget, Receivable redrive request msg) :
    ∃ r', receiveStandardLoop env m routing redrive request budget r = some r' ∧
      r'.storage.Within limit := by
  induction budget generalizing r with
  | zero => exact ⟨r, rfl, h⟩
  | succ budget ih =>
      rw [receiveStandardLoop]
      split
      · exact ⟨r, rfl, h⟩
      · cases havailable : r.storage.available with
        | nil =>
            rw [havailable] at hbudget
            cases hbudget
        | cons msg rest =>
            rw [havailable, take_succ_cons, forall_mem_cons] at hmsgs
            rw [havailable, length_cons] at hbudget
            have hle := Nat.le_of_succ_le_succ hbudget
            obtain ⟨r', hturn, hr', hrest⟩ :=
              receiveStandardTurn_within hnow h havailable hmsgs.1
            -- a message put back stands behind what is still to be scanned
            have hscan : r'.storage.available.take budget = rest.take budget ∧
                budget ≤ r'.storage.available.length := by
              rcases hrest with hrest | hrest
              · rw [hrest]
                exact ⟨rfl, hle⟩
              · rw [hrest, take_append_of_le_length hle, length_append]
                exact ⟨rfl, Nat.le_add_right_of_le hle⟩
            rw [hturn, Option.bind_some]
            exact ih hr' hscan.2 (hscan.1 ▸ hmsgs.2)

theorem receiveFifoTurn_within (hnow : m.now + farthest ≤ limit)
    {r : Receiving FifoQueueStorage R} (h : r.storage.Within limit) {taken : QueueMessage × String}
    (hmsg : Receivable redrive request taken.1) :
    ∃ r', receiveFifoTurn env m routing redrive request r taken = some r' ∧
      r'.storage.Within limit := by
  unfold receiveFifoTurn
  cases htarget : redrive.target taken.1 with
  | some target =>
      dsimp only
      split
      · exact ⟨_, rfl, h⟩
      · exact ⟨_, rfl, h.finishRedrive taken.2 (some taken.1)⟩
  | none =>
      have hahead := hmsg.resolve_right (not_not.mpr htarget)
      obtain ⟨later, hlater, hle⟩ := after_eq_some hnow hahead
      dsimp only
      rw [hlater]
      exact ⟨_, rfl, h.markInFlight _ _ _ hle⟩

theorem receiveFifoTurns_within (hnow : m.now + farthest ≤ limit)
    {r : Receiving FifoQueueStorage R} (h : r.storage.Within limit)
    {taken : List (QueueMessage × String)} (hmsgs : ∀ t ∈ taken, Receivable redrive request t.1) :
    ∃ r', taken.foldlM (receiveFifoTurn env m routing redrive request) r = some r' ∧
      r'.storage.Within limit := by
  induction taken generalizing r with
  | nil => exact ⟨r, rfl, h⟩
  | cons t taken ih =>
      rw [forall_mem_cons] at hmsgs
      obtain ⟨r', hturn, hr'⟩ := receiveFifoTurn_within hnow h hmsgs.1
      rw [foldlM_cons, hturn]
      exact ih hr' hmsgs.2

end

/-! ## The actor -/

namespace QueueStorage

def Within (limit : Instant) : QueueStorage → Prop
  | .standard s => s.Within limit
  | .fifo s => s.Within limit

/-- A receive of so many messages hands one out. -/
def Delivers (redrive : RedriveRequest) (max : ℕ) : QueueStorage → Prop
  | .standard s => ∃ msg ∈ s.available.take 128, redrive.target msg = none
  | .fifo s => ∃ taken ∈ (s.receive max).2, redrive.target taken.1 = none

end QueueStorage

namespace QueueActor

variable {R : Type} {env : SqsEnv} {m : Moment} {routing : Routing R} {limit : Instant}
  {a a' : QueueActor} {routes : R}

/-- What the actor keeps can be told: the defaults are in range, and so is every instant. -/
structure Timed (limit : Instant) (a : QueueActor) : Prop where
  regular : a.attributes.Regular a.isFifo
  polls : ∀ poll ∈ a.pendingLongPolls,
    Ahead poll.request.visibilityTimeout ∧ poll.deadline ≤ limit
  storage : a.storage.Within limit

/-- A receive of this request hands a message out. -/
def Delivers (a : QueueActor) (request : ReceiveRequest) : Prop :=
  a.storage.Delivers { attributes := a.attributes, sourceArn := a.arn } request.max

theorem Timed.refresh (h : a.Timed limit) (m : Moment) : (a.refresh m).1.Timed limit := by
  have hstorage := h.storage
  unfold QueueActor.refresh
  cases hs : a.storage with
  | standard s =>
      rw [hs] at hstorage
      have hs : s.Within limit := hstorage
      exact ⟨h.regular, h.polls, (hs.returnExpiredInflight m).promoteDelayed m.now⟩
  | fifo s =>
      rw [hs] at hstorage
      have hs : s.Within limit := hstorage
      exact ⟨h.regular, h.polls, hs.returnExpiredInflight m⟩

theorem Timed.receiveFrom (h : a.Timed limit) (hnow : m.now + farthest ≤ limit)
    {request : ReceiveRequest}
    (hsafe : Ahead request.visibilityTimeout ∨ ¬a.Delivers request) (routes : R) :
    ∃ a' routes' result, a.receiveFrom env m routing routes request = some (a', routes', result) ∧
      a'.Timed limit := by
  have hstorage := h.storage
  unfold Delivers at hsafe
  unfold QueueActor.receiveFrom
  cases hs : a.storage with
  | standard s =>
      rw [hs] at hstorage hsafe
      have hmsgs : ∀ msg ∈ s.available.take (min s.available.length 128),
          Receivable { attributes := a.attributes, sourceArn := a.arn } request msg := by
        intro msg hmsg
        refine hsafe.imp_right fun hnone htarget => hnone ⟨msg, ?_, htarget⟩
        exact take_subset_take_left s.available (Nat.min_le_right _ _) hmsg
      obtain ⟨r', hreceive, hr'⟩ : ∃ r', tryReceiveStandard env m routing
          { attributes := a.attributes, sourceArn := a.arn } request
          { storage := s, redrive := a.redrive, routes, drawn := a.handlesDrawn, result := [] } =
          some r' ∧ r'.storage.Within limit :=
        receiveStandardLoop_within hnow hstorage (Nat.min_le_left _ _) hmsgs
      dsimp only
      rw [hreceive]
      exact ⟨_, _, _, rfl, h.regular, h.polls, hr'⟩
  | fifo s =>
      rw [hs] at hstorage hsafe
      have hs : s.Within limit := hstorage
      have hmsgs : ∀ taken ∈ (s.receive request.max).2,
          Receivable { attributes := a.attributes, sourceArn := a.arn } request taken.1 :=
        fun taken htaken => hsafe.imp_right fun hnone htarget => hnone ⟨taken, htaken, htarget⟩
      obtain ⟨r', hreceive, hr'⟩ : ∃ r', tryReceiveFifo env m routing
          { attributes := a.attributes, sourceArn := a.arn } request
          { storage := s, redrive := a.redrive, routes, drawn := a.handlesDrawn, result := [] } =
          some r' ∧ r'.storage.Within limit :=
        receiveFifoTurns_within hnow (hs.receive request.max) hmsgs
      dsimp only
      rw [hreceive]
      exact ⟨_, _, _, rfl, h.regular, h.polls, hr'⟩

theorem Timed.tryReceive (h : a.Timed limit) (hnow : m.now + farthest ≤ limit)
    {request : ReceiveRequest}
    (hsafe : Ahead request.visibilityTimeout ∨ ¬(a.refresh m).1.Delivers request) (routes : R) :
    ∃ a' routes' result, a.tryReceive env m routing routes request = some (a', routes', result) ∧
      a'.Timed limit :=
  (h.refresh m).receiveFrom hnow hsafe routes

/-! ### Commands -/

/-- A number of seconds as a request carries it. -/
def IsI32 (secs : ℤ) : Prop := -2 ^ 31 ≤ secs ∧ secs < 2 ^ 31

/-- The numbers of an event are of their type. -/
def Event.Typed : Event → Prop
  | .command (.sendMessage input _) => ∀ secs, input.delaySeconds = some secs → IsI32 secs
  | .command (.receiveMessage input _) =>
    (∀ secs, input.visibilityTimeout = some secs → IsI32 secs) ∧
      ∀ secs, input.waitTimeSeconds = some secs → IsI32 secs
  | .command (.changeVisibility _ secs _) => IsI32 secs
  | _ => True

/-- No negative timeout is used: a change of visibility has none, or finds no message in flight in a
standard queue; a receive has none, or neither hands out a message nor waits for one. -/
def Guarded (m : Moment) (a : QueueActor) : Event → Prop
  | .command (.receiveMessage input _) =>
    0 ≤ (a.receiveRequest input).visibilityTimeout ∨
      ¬(a.refresh m).1.Delivers (a.receiveRequest input) ∧
        input.waitTimeSeconds.getD a.attributes.receiveMessageWaitTimeSeconds ≤ 0
  | .command (.changeVisibility handle secs _) =>
    0 ≤ secs ∨ ∃ s, a.storage = .standard s ∧ s.inFlight.lookup handle = none
  | _ => True

/-- A timeout asked for or the default one of the queue. -/
theorem Timed.ahead_receiveRequest (h : a.Timed limit) {input : ReceiveMessageInput}
    (htyped : ∀ secs, input.visibilityTimeout = some secs → IsI32 secs)
    (hguard : 0 ≤ (a.receiveRequest input).visibilityTimeout) :
    Ahead (a.receiveRequest input).visibilityTimeout := by
  refine ⟨hguard, ?_⟩
  unfold receiveRequest
  cases hinput : input.visibilityTimeout with
  | none =>
      have hdefault := h.regular.visibilityTimeout.2
      dsimp only [Option.getD_none]
      omega
  | some secs => exact (htyped secs hinput).2

theorem Timed.handleReceiveMessage (h : a.Timed limit) (hnow : m.now + farthest ≤ limit)
    {input : ReceiveMessageInput} {reply : ℕ}
    (htyped : Event.Typed (.command (.receiveMessage input reply)))
    (hguard : a.Guarded m (.command (.receiveMessage input reply))) (routes : R) :
    ∃ handled, a.handleReceiveMessage env m routing routes input reply = some handled ∧
      handled.actor.Timed limit := by
  have hsafe : Ahead (a.receiveRequest input).visibilityTimeout ∨
      ¬(a.refresh m).1.Delivers (a.receiveRequest input) :=
    hguard.imp (h.ahead_receiveRequest htyped.1) And.left
  obtain ⟨a', routes', messages, hreceive, ha'⟩ :=
    @Timed.tryReceive _ env _ routing _ _ h hnow _ hsafe routes
  unfold QueueActor.handleReceiveMessage
  dsimp only
  rw [hreceive]
  dsimp only [Option.bind_eq_bind, Option.bind_some]
  split
  · exact ⟨_, rfl, ha'⟩
  · next hwait =>
      have hlonger := not_le.mp (fun hle => hwait (.inr hle))
      have hahead := h.ahead_receiveRequest htyped.1
        (hguard.resolve_right fun hnone => absurd hnone.2 (not_le.mpr hlonger))
      refine ⟨_, rfl, ha'.regular, ?_, ha'.storage⟩
      rw [forall_mem_append]
      refine ⟨ha'.polls, fun poll hpoll => ?_⟩
      rw [mem_singleton.mp hpoll]
      refine ⟨hahead, moved_le hnow ?_⟩
      cases hinput : input.waitTimeSeconds with
      | none =>
          have hdefault := h.regular.receiveMessageWaitTimeSeconds.2
          dsimp only [Option.getD_none]
          omega
      | some secs => exact (htyped.2 secs hinput).2

theorem Timed.handleSendMessage (h : a.Timed limit) (hnow : m.now + farthest ≤ limit)
    {input : SendMessageInput} (htyped : ∀ secs, input.delaySeconds = some secs → IsI32 secs)
    {output : SendMessageOutput} {fulfill : Bool}
    (hsend : a.handleSendMessage env m input = .ok (a', output, fulfill)) : a'.Timed limit := by
  have hstorage := h.storage
  obtain ⟨-, -, hsend⟩ := Except.bind_eq_ok.mp hsend
  split at hsend
  · unfold handleSendMessageFifo at hsend
    cases hs : a.storage with
    | standard s =>
        rw [hs] at hsend
        cases hsend
    | fifo s =>
        rw [hs] at hsend hstorage
        have hs : s.Within limit := hstorage
        obtain ⟨⟨msg, key⟩, -, hsend⟩ := Except.bind_eq_ok.mp hsend
        have hstored := hs.enqueue hnow msg key
        dsimp only at hsend
        generalize s.enqueue m.now msg key = stored at hsend hstored
        have ha' := congrArg Prod.fst (Except.ok.inj hsend)
        dsimp only at ha'
        rw [← ha']
        exact ⟨h.regular, h.polls, hstored⟩
  · unfold handleSendMessageStandard at hsend
    split at hsend
    · cases hsend
    split at hsend
    · cases hsend
    cases hs : a.storage with
    | fifo s =>
        rw [hs] at hsend
        cases hsend
    | standard s =>
        rw [hs] at hsend hstorage
        have hs : s.Within limit := hstorage
        have hdelay : input.delaySeconds.getD a.attributes.delaySeconds < 2 ^ 31 := by
          cases hinput : input.delaySeconds with
          | none =>
              have hdefault := h.regular.delaySeconds.2
              dsimp only [Option.getD_none]
              omega
          | some secs => exact (htyped secs hinput).2
        cases hsend
        refine ⟨h.regular, h.polls, ?_⟩
        by_cases hpos : 0 < input.delaySeconds.getD a.attributes.delaySeconds
        · simp only [hpos, if_true]
          refine ⟨?_, hs.inFlight⟩
          rw [forall_mem_append]
          refine ⟨hs.delayed, fun msg hmsg => ?_⟩
          rw [mem_singleton.mp hmsg]
          exact moved_le hnow hdelay
        · simp only [hpos, if_false]
          exact hs.withAvailable _

theorem Timed.acceptTransfer (h : a.Timed limit) (hnow : m.now + farthest ≤ limit)
    (message : QueueMessage) (sourceArn : String) :
    (a.acceptTransfer env m message sourceArn).1.Timed limit := by
  have hstorage := h.storage
  unfold QueueActor.acceptTransfer
  split
  · exact h
  cases hs : a.storage with
  | standard s =>
      rw [hs] at hstorage
      have hs : s.Within limit := hstorage
      exact ⟨h.regular, h.polls, hs.withAvailable _⟩
  | fifo s =>
      rw [hs] at hstorage
      have hs : s.Within limit := hstorage
      exact ⟨h.regular, h.polls, hs.enqueue hnow _ _⟩

theorem Timed.handleDeleteMessage (h : a.Timed limit) (handle : String) :
    (a.handleDeleteMessage handle).1.Timed limit := by
  have hstorage := h.storage
  unfold QueueActor.handleDeleteMessage
  cases hs : a.storage with
  | standard s =>
      rw [hs] at hstorage
      have hs : s.Within limit := hstorage
      exact ⟨h.regular, h.polls, hs.erase s.available handle⟩
  | fifo s =>
      rw [hs] at hstorage
      have hs : s.Within limit := hstorage
      exact ⟨h.regular, h.polls, hs.deleteMessage handle⟩

theorem Timed.handleChangeVisibility (h : a.Timed limit) (hnow : m.now + farthest ≤ limit)
    {handle : String} {secs : ℤ} {reply : ℕ} (htyped : IsI32 secs)
    (hguard : a.Guarded m (.command (.changeVisibility handle secs reply))) :
    ∃ a' result, a.handleChangeVisibility m handle secs = some (a', result) ∧ a'.Timed limit := by
  have hstorage := h.storage
  unfold QueueActor.handleChangeVisibility
  unfold Guarded at hguard
  cases hs : a.storage with
  | standard s =>
      rw [hs] at hstorage
      have hwithin : s.Within limit := hstorage
      dsimp only
      cases hlookup : s.inFlight.lookup handle with
      | none => exact ⟨a, _, rfl, h⟩
      | some ifm =>
          have hpos : 0 ≤ secs := by
            refine hguard.resolve_right ?_
            rintro ⟨s', hs', hnone⟩
            rw [hs] at hs'
            cases hs'
            rw [hlookup] at hnone
            cases hnone
          obtain ⟨later, hlater, hle⟩ := after_eq_some hnow ⟨hpos, htyped.2⟩
          dsimp only
          split
          · exact ⟨_, _, rfl, h.regular, h.polls, hwithin.giveBack handle⟩
          · rw [hlater]
            exact ⟨_, _, rfl, h.regular, h.polls, hwithin.insert s.available handle hle⟩
  | fifo s =>
      rw [hs] at hstorage
      have hwithin : s.Within limit := hstorage
      have hpos : 0 ≤ secs := by
        refine hguard.resolve_right ?_
        rintro ⟨s', hs', -⟩
        rw [hs] at hs'
        cases hs'
      obtain ⟨later, hlater, hle⟩ := after_eq_some hnow ⟨hpos, htyped.2⟩
      have hchanged := hwithin.changeVisibility m.now handle hle
      dsimp only
      rw [hlater]
      dsimp only [Option.bind_eq_bind, Option.bind_some]
      split
      · exact ⟨_, _, rfl, h.regular, h.polls, hchanged⟩
      · exact ⟨_, _, rfl, h.regular, h.polls, hchanged⟩

theorem Timed.handlePurge (h : a.Timed limit) (m : Moment) : (a.handlePurge m).1.Timed limit := by
  have hstorage := h.storage
  unfold QueueActor.handlePurge
  split
  · exact h
  · refine ⟨h.regular, h.polls, ?_⟩
    cases hs : a.storage with
    | standard s => exact StandardQueueStorage.empty_within limit
    | fifo s =>
        rw [hs] at hstorage
        have hs : s.Within limit := hstorage
        exact ⟨fun _ _ hlookup => (by cases hlookup), hs.dedupCache⟩

theorem Timed.setAttributes (h : a.Timed limit) (m : Moment) (attributes : StringMap) :
    (a.setAttributes env m attributes).1.Timed limit := by
  have hupdate := @QueueAttributes.updateFromMap_regular env.policies _ _ h.regular attributes
  unfold QueueActor.setAttributes
  split
  · next hresult =>
      rw [hresult] at hupdate
      exact ⟨hupdate, h.polls, h.storage⟩
  · next hresult =>
      rw [hresult] at hupdate
      exact ⟨hupdate, h.polls, h.storage⟩

/-- A command leaves the actor with instants near the clock. -/
theorem Timed.handleCommand (h : a.Timed limit) (hnow : m.now + farthest ≤ limit)
    {cmd : QueueCommand} (htyped : Event.Typed (.command cmd))
    (hguard : a.Guarded m (.command cmd)) (routes : R) :
    ∃ handled, a.handleCommand env m routing routes cmd = some handled ∧
      handled.actor.Timed limit := by
  cases cmd with
  | transfer message sourceArn reply =>
      unfold QueueActor.handleCommand
      dsimp only
      split
      · exact ⟨_, rfl, h⟩
      · exact ⟨_, rfl, h.acceptTransfer hnow message sourceArn⟩
  | quiesce reply =>
      refine ⟨_, rfl, ?_⟩
      dsimp only
      split
      · exact ⟨h.regular, h.polls, h.storage⟩
      · exact ⟨h.regular, h.polls, h.storage⟩
  | sendMessage input reply =>
      unfold QueueActor.handleCommand
      dsimp only
      split
      · exact ⟨_, rfl, h⟩
      · cases hsend : a.handleSendMessage env m input with
        | error e => exact ⟨_, rfl, h⟩
        | ok result => exact ⟨_, rfl, h.handleSendMessage hnow htyped hsend⟩
  | receiveMessage input reply => exact h.handleReceiveMessage hnow htyped hguard routes
  | deleteMessage receiptHandle reply => exact ⟨_, rfl, h.handleDeleteMessage receiptHandle⟩
  | changeVisibility receiptHandle secs reply =>
      obtain ⟨a', result, hchange, ha'⟩ := h.handleChangeVisibility hnow htyped hguard
      unfold QueueActor.handleCommand
      dsimp only
      rw [hchange]
      exact ⟨_, rfl, ha'⟩
  | getAttributes attributeNames reply => exact ⟨_, rfl, h⟩
  | setAttributes attributes reply => exact ⟨_, rfl, h.setAttributes m attributes⟩
  | purge reply => exact ⟨_, rfl, h.handlePurge m⟩
  | getTags reply => exact ⟨_, rfl, h⟩
  | setTags | removeTags | shutdown => exact ⟨_, rfl, h.regular, h.polls, h.storage⟩

/-! ### Turns -/

theorem Timed.fulfillLoop (hnow : m.now + farthest ≤ limit) {polls : List PendingLongPoll}
    (hpolls : ∀ poll ∈ polls, Ahead poll.request.visibilityTimeout ∧ poll.deadline ≤ limit)
    (h : a.Timed limit) (routes : R) (replies : List Reply) :
    ∃ a' routes' replies', fulfillLoop env m routing polls a routes replies =
      some (a', routes', replies') ∧ a'.Timed limit := by
  induction polls generalizing a routes replies with
  | nil => exact ⟨a, routes, replies, rfl, h⟩
  | cons poll polls ih =>
      rw [forall_mem_cons] at hpolls
      rw [fulfillLoop]
      split
      · exact ih hpolls.2 h routes replies
      · obtain ⟨a', routes', messages, hreceive, ha'⟩ :=
          @Timed.tryReceive _ env _ routing _ _ h hnow _ (.inl hpolls.1.1) routes
        rw [hreceive]
        dsimp only [Option.bind_eq_bind, Option.bind_some]
        split
        · have hkept : Timed limit
              { a' with pendingLongPolls := a'.pendingLongPolls ++ [poll] } := by
            refine ⟨ha'.regular, ?_, ha'.storage⟩
            rw [forall_mem_append]
            exact ⟨ha'.polls, fun p hp => mem_singleton.mp hp ▸ hpolls.1⟩
          exact ih hpolls.2 hkept routes' replies
        · exact ih hpolls.2 ha' routes' _

theorem Timed.fulfillPendingLongPolls (h : a.Timed limit) (hnow : m.now + farthest ≤ limit)
    (routes : R) :
    ∃ a' routes' replies, a.fulfillPendingLongPolls env m routing routes =
      some (a', routes', replies) ∧ a'.Timed limit := by
  have htaken : Timed limit { a with pendingLongPolls := [] } :=
    ⟨h.regular, fun _ hpoll => absurd hpoll not_mem_nil, h.storage⟩
  exact Timed.fulfillLoop hnow h.polls htaken routes []

theorem Timed.expireLongPolls (h : a.Timed limit) (m : Moment) :
    (a.expireLongPolls m).1.Timed limit :=
  ⟨h.regular, fun poll hpoll => h.polls poll
    (mem_of_mem_filter (mem_of_mem_filter hpoll)), h.storage⟩

theorem Timed.cleanDedupCache (h : a.Timed limit) (m : Moment) :
    (a.cleanDedupCache m).Timed limit := by
  have hstorage := h.storage
  unfold QueueActor.cleanDedupCache
  cases hs : a.storage with
  | standard s => exact h
  | fifo s =>
      rw [hs] at hstorage
      have hs : s.Within limit := hstorage
      exact ⟨h.regular, h.polls, hs.cleanDedupCache m.now⟩

theorem Timed.periodicCleanup (h : a.Timed limit) (hnow : m.now + farthest ≤ limit) (routes : R) :
    ∃ a' routes' replies, a.periodicCleanup env m routing routes = some (a', routes', replies) ∧
      a'.Timed limit := by
  have hclean := (h.refresh m).cleanDedupCache m
  unfold QueueActor.periodicCleanup
  dsimp only
  split
  · obtain ⟨a', routes', replies, hfulfill, ha'⟩ :=
      @Timed.fulfillPendingLongPolls _ env m routing _ _ hclean hnow routes
    rw [hfulfill]
    exact ⟨_, _, _, rfl, ha'.expireLongPolls m⟩
  · exact ⟨_, _, _, rfl, hclean.expireLongPolls m⟩

theorem Timed.settle (h : a.Timed limit) (message : QueueMessage)
    (result : Except SqsError Unit) : (a.settle message result).Timed limit := by
  have hstorage := h.storage
  unfold QueueActor.settle
  cases hs : a.storage with
  | standard s =>
      rw [hs] at hstorage
      have hs : s.Within limit := hstorage
      exact ⟨h.regular, h.polls, hs.withAvailable _⟩
  | fifo s =>
      rw [hs] at hstorage
      have hs : s.Within limit := hstorage
      exact ⟨h.regular, h.polls, hs.finishRedrive _ _⟩

theorem Timed.settleLoop (m : Moment) {pending : List PendingTransfer} (h : a.Timed limit) :
    (settleLoop m pending a).Timed limit := by
  induction pending generalizing a with
  | nil => exact h
  | cons transfer pending ih =>
      rw [settleLoop]
      split
      · exact ih ⟨h.regular, h.polls, h.storage⟩
      · exact ih (h.settle _ _)

theorem Timed.answerQuiesce (h : a.Timed limit) : a.answerQuiesce.1.Timed limit := by
  unfold QueueActor.answerQuiesce
  split
  · exact ⟨h.regular, h.polls, h.storage⟩
  · exact h

theorem Timed.handleEvent (h : a.Timed limit) (hnow : m.now + farthest ≤ limit) {event : Event}
    (htyped : event.Typed) (hguard : a.Guarded m event) (routes : R) :
    ∃ a' routes' replies, a.handleEvent env m routing routes event = some (a', routes', replies) ∧
      a'.Timed limit := by
  cases event with
  | command cmd =>
      obtain ⟨handled, hcommand, hhandled⟩ :=
        @Timed.handleCommand _ env m routing _ _ h hnow _ htyped hguard routes
      rw [QueueActor.handleEvent, hcommand]
      dsimp only [Option.bind_eq_bind, Option.bind_some]
      split
      · obtain ⟨a', routes', replies, hfulfill, ha'⟩ :=
          @Timed.fulfillPendingLongPolls _ env m routing _ _ hhandled hnow handled.routes
        rw [hfulfill]
        exact ⟨_, _, _, rfl, ha'⟩
      · exact ⟨_, _, _, rfl, hhandled⟩
  | commandsClosed => exact ⟨_, _, _, rfl, h.regular, h.polls, h.storage⟩
  | transferReady => exact ⟨_, _, _, rfl, h⟩
  | cleanup => exact h.periodicCleanup hnow routes
  | pollDeadline => exact ⟨_, _, _, rfl, h.expireLongPolls m⟩

/-- A turn without a negative timeout goes through. -/
theorem Timed.turn (h : a.Timed limit) (hnow : m.now + farthest ≤ limit) {event : Event}
    (htyped : event.Typed) (hguard : a.Guarded m event) (routes : R) :
    ∃ a' routes' replies, a.turn env m routing routes event = some (a', routes', replies) ∧
      a'.Timed limit := by
  obtain ⟨b, routes', replies, hevent, hb⟩ :=
    @Timed.handleEvent _ env m routing _ _ h hnow _ htyped hguard routes
  have hsettled : (b.settleTransfers m).Timed limit :=
    Timed.settleLoop m ⟨hb.regular, hb.polls, hb.storage⟩
  exact ⟨_, _, _, turn_eq_some.mpr ⟨b, replies, hevent, rfl, rfl⟩, hsettled.answerQuiesce⟩

theorem new_timed (limit : Instant) (name arn : String) {isFifo : Bool}
    {attributes : QueueAttributes} (h : attributes.Regular isFifo) (tags : StringMap)
    (accountId : String) (createdAt : ℕ) :
    (new name arn isFifo attributes tags accountId createdAt).Timed limit := by
  refine ⟨h, fun _ hpoll => absurd hpoll not_mem_nil, ?_⟩
  cases isFifo with
  | false => exact StandardQueueStorage.empty_within limit
  | true => exact FifoQueueStorage.empty_within limit

/-- However many messages are asked for, between one and ten are looked for. -/
theorem max_receiveRequest (a : QueueActor) (input : ReceiveMessageInput) :
    1 ≤ (a.receiveRequest input).max ∧ (a.receiveRequest input).max ≤ 10 := by
  unfold receiveRequest
  dsimp only
  omega

end QueueActor

/-! ## Runs -/

namespace History

variable {R : Type} {env : SqsEnv} {routing : Routing R}

/-- No turn of the run uses a negative timeout. -/
def Guarded (env : SqsEnv) (routing : Routing R) : History → List (Stimulus R) → Prop
  | _, [] => True
  | h, s :: stimuli =>
    h.actor.Guarded s.moment s.event ∧
      ∀ h', h.next env routing s = some h' → Guarded env routing h' stimuli

theorem exists_run {limit : Instant} {h : History} {stimuli : List (Stimulus R)}
    (hactor : h.actor.Timed limit)
    (hstimuli : ∀ s ∈ stimuli, s.event.Typed ∧ s.moment.now + farthest ≤ limit)
    (hguard : h.Guarded env routing stimuli) :
    ∃ h', h.run env routing stimuli = some h' ∧ h'.actor.Timed limit := by
  induction stimuli generalizing h with
  | nil => exact ⟨h, rfl, hactor⟩
  | cons s stimuli ih =>
      rw [forall_mem_cons] at hstimuli
      obtain ⟨actor, routes, replies, hturn, htimed⟩ :=
        @QueueActor.Timed.turn _ env _ routing _ _ hactor hstimuli.1.2 _ hstimuli.1.1 hguard.1
          s.routes
      have hnext := next_eq_some.mpr ⟨actor, routes, replies, hturn, rfl⟩
      obtain ⟨h', hrun, hh'⟩ := ih htimed hstimuli.2 (hguard.2 _ hnext)
      refine ⟨h', ?_, hh'⟩
      rw [run, foldlM_cons, hnext]
      exact hrun

/-- A run in which no negative timeout is used goes on to its end, every instant the actor keeps
is one that a machine has, and the number of messages looked for is between one and ten. -/
theorem run_without_panic {attrs : StringMap} {isFifo : Bool} {attributes : QueueAttributes}
    (hattributes : QueueAttributes.fromMap env.policies attrs isFifo = .ok attributes)
    {stimuli : List (Stimulus R)}
    (hstimuli : ∀ s ∈ stimuli, s.event.Typed ∧ s.moment.now ≤ seconds (2 ^ 62))
    (name arn accountId : String) (tags : StringMap) (createdAt : ℕ)
    (hguard : (start (new name arn isFifo attributes tags accountId
      createdAt)).Guarded env routing stimuli) :
    (∃ h, (start (new name arn isFifo attributes tags accountId createdAt)).run env
        routing stimuli = some h ∧ h.actor.Timed (seconds (2 ^ 62 + 2 ^ 31))) ∧
      ∀ (a : QueueActor) (input : ReceiveMessageInput),
        1 ≤ (a.receiveRequest input).max ∧ (a.receiveRequest input).max ≤ 10 := by
  refine ⟨exists_run ?_ (fun s hs => ⟨(hstimuli s hs).1, ?_⟩) hguard,
    max_receiveRequest⟩
  · exact new_timed _ name arn (QueueAttributes.fromMap_regular hattributes) tags
      accountId createdAt
  · refine (Nat.add_le_add_right (hstimuli s hs).2 farthest).trans (le_of_eq ?_)
    exact (Nat.add_mul (2 ^ 62) (2 ^ 31) 1000000000).symm

/-- A message is sent and received for five seconds. -/
theorem run_without_panic_received :
    ∃ h, (start (plainActor false)).run (plainEnv []) noRoutes
      [commandAt 0 (.sendMessage { plainSend "a" "g" "1" with
          messageGroupId := none, messageDeduplicationId := none } 0),
        commandAt 1 (.receiveMessage { plainReceive 1 with visibilityTimeout := some 5 } 1)] =
        some h ∧ h.actor.Timed (seconds (2 ^ 62 + 2 ^ 31)) := by
  have hattributes : QueueAttributes.fromMap (plainEnv []).policies ∅ false =
      .ok QueueAttributes.default := rfl
  refine (run_without_panic hattributes ?_ "q.fifo" "arn:q.fifo" "0" ∅ 0 ?_).1
  · intro s hs
    rcases mem_cons.mp hs with rfl | hs
    · exact ⟨nofun, by decide⟩
    · rw [mem_singleton.mp hs]
      refine ⟨⟨fun secs hsecs => ?_, nofun⟩, by decide⟩
      cases hsecs
      exact ⟨by decide, by decide⟩
  · exact ⟨trivial, fun h' _ => ⟨.inl (show (0 : ℤ) ≤ 5 by decide), fun _ _ => trivial⟩⟩

/-- The same with a timeout of minus one second. -/
theorem run_negative_timeout :
    ((start (plainActor false)).run (plainEnv []) noRoutes
      [commandAt 0 (.sendMessage { plainSend "a" "g" "1" with
          messageGroupId := none, messageDeduplicationId := none } 0),
        commandAt 1 (.receiveMessage { plainReceive 1 with
          visibilityTimeout := some (-1) } 1)]).isNone = true := by
  decide +kernel

end History

end Rustack.SQS
