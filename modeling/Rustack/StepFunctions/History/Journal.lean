import Mathlib.Algebra.BigOperators.Group.List.Basic
import Rustack.StepFunctions.History.Event

/-!
# The journal

A bounded persistent history: events in chunks of at most 64, newest chunk first, a
count, and the bytes charged to the execution and to the pool of all executions.  One
event and a fixed number of bytes are reserved for the end of the execution.  The sum
of the sizes stays far below the machine's range, so the saturating additions are
plain ones.
-/

namespace Rustack.StepFunctions

open List

inductive ExecutionError where
  | invalid
  | capacity
  | dataLimit
  deriving DecidableEq

/-- `size_of::<StoredEvent>()`, which is far below a megabyte. -/
structure Layout where
  storedEvent : ℕ
  storedEvent_le : 4096 + storedEvent + 1024 ≤ 1024 * 1024

def fixedOverhead : ℕ := 1024

def terminalReserve (layout : Layout) : ℕ := 4096 + layout.storedEvent + fixedOverhead

def eventBytes : ℕ := 2 * 1024 * 1024

def pageEvents : ℕ := 64

/-- `encode_with_limit`, which does not fail for any other reason. -/
def encodeWithLimit (event : HistoryEvent) (limit : ℕ) : Except ExecutionError JsonText :=
  if limit < event.encode.length then .error .dataLimit else .ok event.encode

/-- What one event is charged. -/
def eventCharge (layout : Layout) (encoded : ℕ) : ℕ :=
  encoded + layout.storedEvent + fixedOverhead

/-- The charge of the events of a snapshot, recomputed from their sizes: the last one is
covered by the reserve if it ends the execution. -/
def snapshotCharge (layout : Layout) (terminal : Bool) (sizes : List ℕ) : ℕ :=
  loop (terminalReserve layout) sizes
where
  loop (bytes : ℕ) : List ℕ → ℕ
    | [] => bytes
    | encoded :: rest =>
      let charge := eventCharge layout encoded
      let charge :=
        if terminal && rest.isEmpty then charge - terminalReserve layout else charge
      loop (bytes + charge) rest

structure HistoryLimits where
  events : ℕ
  bytes : ℕ
  events_mem : 2 ≤ events ∧ events ≤ 25000
  bytes_mem : 1024 * 1024 ≤ bytes ∧ bytes ≤ 256 * 1024 * 1024

/-- The pool that all executions draw from. -/
structure HistoryCapacity where
  used : ℕ
  limit : ℕ
  deriving DecidableEq

def HistoryCapacity.reserve (pool : HistoryCapacity) (bytes : ℕ) :
    Except ExecutionError HistoryCapacity :=
  if pool.used + bytes ≤ pool.limit then .ok { pool with used := pool.used + bytes }
  else .error .capacity

structure StoredEvent where
  event : HistoryEvent
  encoded : ℕ
  deriving DecidableEq

/-- The chunks newest first, each oldest event first. -/
structure ExecutionHistory where
  chunks : List (List StoredEvent)
  count : ℕ
  charged : ℕ
  deriving DecidableEq

namespace ExecutionHistory

/-- All events, oldest first. -/
def stored (h : ExecutionHistory) : List StoredEvent := h.chunks.reverse.flatten

def push (h : ExecutionHistory) (event : StoredEvent) : ExecutionHistory :=
  let chunks := match h.chunks with
    | events :: previous =>
      if events.length < pageEvents then (events ++ [event]) :: previous
      else [event] :: events :: previous
    | [] => [[event]]
  { h with
    chunks
    count := h.count + 1 }

end ExecutionHistory

structure Journal where
  view : ExecutionHistory
  limits : HistoryLimits

namespace Journal

variable (layout : Layout)

def new (limits : HistoryLimits) : Journal where
  view := { chunks := [], count := 0, charged := terminalReserve layout }
  limits

/-- What an append leaves behind. -/
structure Appended where
  journal : Journal
  pool : HistoryCapacity
  result : Except ExecutionError Unit

/-- The bytes an event is charged beyond the reserve. -/
def chargeOf (terminal : Bool) (encoded : ℕ) : ℕ :=
  if terminal then eventCharge layout encoded - terminalReserve layout
  else eventCharge layout encoded

/-- Charge the bytes to the execution and put the event in. -/
def store (j : Journal) (charge : ℕ) (event : StoredEvent) : Journal :=
  { j with view := { j.view with charged := j.view.charged + charge }.push event }

def appendCausal (j : Journal) (pool : HistoryCapacity) (event : HistoryEvent) (previous : ℕ)
    (terminal : Bool) : Appended :=
  let fail := fun e => { journal := j, pool, result := .error e : Appended }
  if j.view.count < previous then fail .invalid
  else
    let maxCount := if terminal then j.limits.events else j.limits.events - 1
    if maxCount ≤ j.view.count then fail .capacity
    else
      let event :=
        { event with
          id := j.view.count + 1
          previousEventId := some previous }
      match encodeWithLimit event eventBytes with
      | .error e => fail e
      | .ok text =>
        let charge := chargeOf layout terminal text.length
        if j.limits.bytes < j.view.charged + charge then fail .capacity
        else
          -- a terminal event that the reserve covers takes nothing from the pool
          match if terminal && charge == 0 then .ok pool else pool.reserve charge with
          | .error e => fail e
          | .ok pool =>
            { journal := j.store charge { event, encoded := text.length }
              pool
              result := .ok () }

/-- The event before is the last one, but the first state entered comes from the start of the
execution itself. -/
def append (j : Journal) (pool : HistoryCapacity) (event : HistoryEvent) (terminal : Bool) :
    Appended :=
  let previous := if j.view.count = 1 ∧ event.stateEntered.isSome then 0 else j.view.count
  j.appendCausal layout pool event previous terminal

/-- One call, with the pool as the other executions have left it. -/
structure Call where
  pool : HistoryCapacity
  event : HistoryEvent
  previous : Option ℕ
  terminal : Bool

def call (j : Journal) (c : Call) : Appended :=
  match c.previous with
  | none => j.append layout c.pool c.event c.terminal
  | some previous => j.appendCausal layout c.pool c.event previous c.terminal

end Journal

/-- A journal in use; `ended` once a terminal event has been stored. -/
structure Session where
  journal : Journal
  ended : Bool

namespace Session

variable (layout : Layout)

def start (limits : HistoryLimits) : Session where
  journal := Journal.new layout limits
  ended := false

def next (s : Session) (c : Journal.Call) : Session :=
  let appended := s.journal.call layout c
  { journal := appended.journal
    ended := s.ended || c.terminal && appended.result.isOk }

def run (s : Session) (calls : List Journal.Call) : Session := calls.foldl (next layout) s

/-- No call is made once a terminal event has been stored. -/
def Open (s : Session) : List Journal.Call → Prop
  | [] => True
  | c :: calls => s.ended = false ∧ (s.next layout c).Open calls

end Session

/-! ## What one append does -/

variable {layout : Layout}

theorem ExecutionHistory.stored_push (h : ExecutionHistory) (event : StoredEvent) :
    (h.push event).stored = h.stored ++ [event] := by
  unfold ExecutionHistory.push ExecutionHistory.stored
  dsimp only
  split
  · next events previous hchunks =>
      rw [hchunks]
      split
      · simp
      · simp
  · next hchunks =>
      rw [hchunks]
      rfl

namespace Journal

/-- An event that has been stored: its number, its cause, and what it costs. -/
structure Stored (layout : Layout) (j : Journal) (previous : ℕ) (terminal : Bool)
    (record : StoredEvent) : Prop where
  id : record.event.id = j.view.count + 1
  previousEventId : record.event.previousEventId = some previous
  previous_le : previous ≤ j.view.count
  encoded : record.encoded = record.event.encode.length
  encoded_le : record.encoded ≤ eventBytes
  count_lt : j.view.count < if terminal then j.limits.events else j.limits.events - 1

theorem appendCausal_cases (j : Journal) (pool : HistoryCapacity) (event : HistoryEvent)
    (previous : ℕ) (terminal : Bool) :
    (∃ e, j.appendCausal layout pool event previous terminal =
        { journal := j, pool, result := .error e }) ∨
      ∃ record pool', record.event =
          { event with id := j.view.count + 1, previousEventId := some previous } ∧
        j.Stored layout previous terminal record ∧
        j.view.charged + chargeOf layout terminal record.encoded ≤ j.limits.bytes ∧
        j.appendCausal layout pool event previous terminal =
          { journal := j.store (chargeOf layout terminal record.encoded) record
            pool := pool'
            result := .ok () } := by
  unfold appendCausal
  by_cases hprevious : j.view.count < previous
  · exact .inl ⟨.invalid, if_pos hprevious⟩
  rw [if_neg hprevious]
  by_cases hcount : (if terminal then j.limits.events else j.limits.events - 1) ≤ j.view.count
  · exact .inl ⟨.capacity, if_pos hcount⟩
  dsimp only
  rw [if_neg hcount]
  unfold encodeWithLimit
  by_cases hlimit : eventBytes < ({ event with
      id := j.view.count + 1
      previousEventId := some previous } : HistoryEvent).encode.length
  · rw [if_pos hlimit]
    exact .inl ⟨.dataLimit, rfl⟩
  rw [if_neg hlimit]
  dsimp only
  split
  · exact .inl ⟨_, rfl⟩
  next hbytes =>
    split
    · exact .inl ⟨_, rfl⟩
    next pool' _ =>
      refine .inr ⟨⟨_, _⟩, pool', rfl, ⟨rfl, rfl, ?_, rfl, ?_, ?_⟩, Nat.le_of_not_lt hbytes, rfl⟩
      · exact Nat.le_of_not_lt hprevious
      · exact Nat.le_of_not_lt hlimit
      · exact Nat.lt_of_not_le hcount

/-- What a call names as its cause. -/
def Call.cause (c : Call) (j : Journal) : ℕ :=
  match c.previous with
  | none => if j.view.count = 1 ∧ c.event.stateEntered.isSome then 0 else j.view.count
  | some previous => previous

theorem call_eq (j : Journal) (c : Call) :
    j.call layout c = j.appendCausal layout c.pool c.event (c.cause j) c.terminal := by
  unfold call Call.cause
  split <;> rfl

theorem call_of_error {j : Journal} {c : Call} {e : ExecutionError}
    (h : (j.call layout c).result = .error e) :
    (j.call layout c).journal = j ∧ (j.call layout c).pool = c.pool := by
  rw [call_eq] at h ⊢
  rcases j.appendCausal_cases c.pool c.event (c.cause j) c.terminal with
    ⟨e', heq⟩ | ⟨record, pool', -, -, -, heq⟩
  · rw [heq]
    exact ⟨rfl, rfl⟩
  · rw [heq] at h
    cases h

/-- An event that is taken comes last, with the next number and its cause. -/
theorem call_of_ok {j : Journal} {c : Call} (h : (j.call layout c).result = .ok ()) :
    ∃ record, record.event =
        { c.event with id := j.view.count + 1, previousEventId := some (c.cause j) } ∧
      (j.call layout c).journal.view.stored = j.view.stored ++ [record] := by
  rw [call_eq] at h ⊢
  rcases j.appendCausal_cases c.pool c.event (c.cause j) c.terminal with
    ⟨e, heq⟩ | ⟨record, pool', hevent, -, -, heq⟩
  · rw [heq] at h
    cases h
  · rw [heq]
    exact ⟨record, hevent, ExecutionHistory.stored_push { j.view with
      charged := j.view.charged + chargeOf layout c.terminal record.encoded } record⟩

end Journal

/-! ## What every run keeps -/

/-- Numbers without gaps, causes before their effects, and recorded sizes. -/
structure ExecutionHistory.Causal (h : ExecutionHistory) : Prop where
  count : h.count = h.stored.length
  ids : h.stored.map (·.event.id) = List.range' 1 h.stored.length
  previous : ∀ r ∈ h.stored, ∃ previous, r.event.previousEventId = some previous ∧
    previous < r.event.id
  encoded : ∀ r ∈ h.stored, r.encoded = r.event.encode.length ∧ r.encoded ≤ eventBytes

theorem ExecutionHistory.Causal.store {j : Journal} (h : j.view.Causal) {record : StoredEvent}
    {previous : ℕ} {terminal : Bool} (hstored : j.Stored layout previous terminal record)
    (charge : ℕ) : (j.store charge record).view.Causal := by
  have hview : (j.store charge record).view.stored = j.view.stored ++ [record] :=
    ExecutionHistory.stored_push { j.view with charged := j.view.charged + charge } record
  have hid : record.event.id = j.view.stored.length + 1 := by
    rw [hstored.id, h.count]
  refine ⟨?_, ?_, ?_, ?_⟩
  · rw [hview, length_append, ← h.count]
    rfl
  · rw [hview, map_append, h.ids, length_append, range'_append_1.symm]
    simp [hid, Nat.add_comm]
  · intro r hr
    rw [hview, mem_append] at hr
    rcases hr with hr | hr
    · exact h.previous r hr
    · rw [mem_singleton.mp hr]
      refine ⟨previous, hstored.previousEventId, ?_⟩
      rw [hstored.id]
      exact Nat.lt_succ_of_le hstored.previous_le
  · intro r hr
    rw [hview, mem_append] at hr
    rcases hr with hr | hr
    · exact h.encoded r hr
    · rw [mem_singleton.mp hr]
      exact ⟨hstored.encoded, hstored.encoded_le⟩

theorem snapshotCharge_append (layout : Layout) (terminal : Bool) (sizes : List ℕ)
    (encoded : ℕ) :
    snapshotCharge layout terminal (sizes ++ [encoded]) =
      snapshotCharge layout false sizes + Journal.chargeOf layout terminal encoded := by
  have hloop : ∀ bytes, snapshotCharge.loop layout terminal bytes (sizes ++ [encoded]) =
      snapshotCharge.loop layout false bytes sizes +
        Journal.chargeOf layout terminal encoded := by
    induction sizes with
    | nil =>
        intro bytes
        cases terminal <;> rfl
    | cons size sizes ih =>
        intro bytes
        rw [cons_append, snapshotCharge.loop, snapshotCharge.loop]
        have hempty : (sizes ++ [encoded]).isEmpty = false := by simp
        rw [hempty, Bool.and_false, Bool.false_and]
        exact ih _
  exact hloop _

/-- An open session: the charge is the one a snapshot is given, within the limits, and a session
that has not ended has room for the end. -/
structure Session.Inv (layout : Layout) (s : Session) : Prop where
  causal : s.journal.view.Causal
  charged : s.journal.view.charged =
    snapshotCharge layout s.ended (s.journal.view.stored.map StoredEvent.encoded)
  charged_le : s.journal.view.charged ≤ s.journal.limits.bytes
  count_lt : s.ended = false → s.journal.view.count < s.journal.limits.events

theorem Session.next_cases (s : Session) (c : Journal.Call) :
    s.next layout c = s ∨
      ∃ record, s.journal.Stored layout (c.cause s.journal) c.terminal record ∧
        s.journal.view.charged + Journal.chargeOf layout c.terminal record.encoded ≤
          s.journal.limits.bytes ∧
        s.next layout c =
          { journal :=
              s.journal.store (Journal.chargeOf layout c.terminal record.encoded) record
            ended := s.ended || c.terminal } := by
  unfold Session.next
  dsimp only
  rw [Journal.call_eq]
  rcases s.journal.appendCausal_cases c.pool c.event (c.cause s.journal)
    c.terminal with ⟨e, heq⟩ | ⟨record, pool', -, hstored, hbytes, heq⟩
  · rw [heq]
    left
    simp [Except.isOk, Except.toBool]
  · rw [heq]
    right
    refine ⟨record, hstored, hbytes, ?_⟩
    simp [Except.isOk, Except.toBool]

theorem Session.Inv.next {s : Session} (h : s.Inv layout) (hopen : s.ended = false)
    (c : Journal.Call) : (s.next layout c).Inv layout := by
  rcases s.next_cases c with heq | ⟨record, hstored, hbytes, heq⟩
  · rw [heq]
    exact h
  · rw [heq]
    refine ⟨h.causal.store hstored _, ?_, hbytes, ?_⟩
    · have hview := ExecutionHistory.stored_push
        { s.journal.view with
          charged := s.journal.view.charged +
            Journal.chargeOf layout c.terminal record.encoded } record
      have hcharged := h.charged
      rw [hopen] at hcharged
      dsimp only [Journal.store]
      rw [hview, map_append, map_singleton, hopen, Bool.false_or,
        snapshotCharge_append]
      exact congrArg (· + Journal.chargeOf layout c.terminal record.encoded) hcharged
    · intro hended
      rw [hopen, Bool.false_or] at hended
      have hlt := hstored.count_lt
      rw [show c.terminal = false from hended, if_neg Bool.false_ne_true] at hlt
      exact Nat.add_lt_of_lt_sub hlt

theorem Session.Inv.run {s : Session} (h : s.Inv layout) {calls : List Journal.Call}
    (hopen : s.Open layout calls) : (s.run layout calls).Inv layout := by
  induction calls generalizing s with
  | nil => exact h
  | cons c calls ih => exact ih (h.next hopen.1 c) hopen.2

theorem Session.start_inv (layout : Layout) (limits : HistoryLimits) :
    (Session.start layout limits).Inv layout where
  causal := ⟨rfl, rfl, fun _ hr => absurd hr not_mem_nil,
    fun _ hr => absurd hr not_mem_nil⟩
  charged := rfl
  charged_le := layout.storedEvent_le.trans limits.bytes_mem.1
  count_lt := fun _ => Nat.lt_of_lt_of_le Nat.zero_lt_two limits.events_mem.1

theorem Session.causal_run {s : Session} (h : s.journal.view.Causal)
    (calls : List Journal.Call) : (s.run layout calls).journal.view.Causal := by
  induction calls generalizing s with
  | nil => exact h
  | cons c calls ih =>
      apply ih
      rcases s.next_cases c with heq | ⟨record, hstored, -, heq⟩
      · rw [heq]
        exact h
      · rw [heq]
        exact h.store hstored _

/-- The end of an execution that is small enough is always taken. -/
theorem Session.Inv.terminal {s : Session} (h : s.Inv layout) (hopen : s.ended = false)
    {c : Journal.Call} (hterminal : c.terminal = true)
    (hprevious : c.cause s.journal ≤ s.journal.view.count)
    (hencoded : ({ c.event with
        id := s.journal.view.count + 1
        previousEventId := some (c.cause s.journal) } : HistoryEvent).encode.length ≤ 4096) :
    (s.journal.call layout c).result = .ok () := by
  have hcount : ¬s.journal.limits.events ≤ s.journal.view.count :=
    Nat.not_le_of_lt (h.count_lt hopen)
  rw [Journal.call_eq, Journal.appendCausal, hterminal]
  dsimp only
  rw [if_neg (Nat.not_lt_of_le hprevious), if_pos rfl, if_neg hcount, encodeWithLimit,
    if_neg (Nat.not_lt_of_le (hencoded.trans (by decide)))]
  dsimp only
  have hcharge : Journal.chargeOf layout true ({ c.event with
        id := s.journal.view.count + 1
        previousEventId := some (c.cause s.journal) } : HistoryEvent).encode.length = 0 := by
    rw [Journal.chargeOf, if_pos rfl]
    unfold eventCharge terminalReserve
    omega
  rw [hcharge, Nat.add_zero, if_neg (Nat.not_lt_of_le h.charged_le)]
  rfl

end Rustack.StepFunctions
