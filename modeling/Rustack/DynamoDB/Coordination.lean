import Rustack.Lib.Runs

/-!
# Draining requests before a shutdown

Requests hold permits, operations run one at a time behind a gate, and `quiesce` closes the
semaphore, waits until all permits are back, and takes the gate once.  A run interleaves the
atomic steps of all of them.
-/

namespace Rustack.DynamoDB

open List

def REQUEST_CAPACITY : ℕ := 128

/-- Where a call of `quiesce` is, and whether it has been woken since it began to listen. -/
inductive Quiescing where
  | looping
  | listening (woken : Bool)
  | asleep (woken : Bool)
  | drained
  | gated
  | returned (healthy : Bool)
  deriving DecidableEq

def Quiescing.wake : Quiescing → Quiescing
  | .listening _ => .listening true
  | .asleep _ => .asleep true
  | q => q

/-- Requests that hold a permit outside of an operation are `idle`, the operation behind the gate
has a permit or is of a direct call, and requests that are `leaving` have still to wake the
waiting calls. -/
structure RequestTracker where
  available : ℕ
  closed : Bool
  failed : Bool
  idle : ℕ
  operation : Option Bool
  leaving : ℕ
  quiescing : List Quiescing
  deriving DecidableEq

inductive TrackerEvent where
  | admits
  | guard (permitted : Bool)
  | finish (panics : Bool)
  | release
  | wake
  | quiesce
  | advance (i : ℕ)

namespace RequestTracker

def new : RequestTracker := ⟨REQUEST_CAPACITY, false, false, 0, none, 0, []⟩

/-- The next step of a call of `quiesce`, unless it has to wait. -/
def next (t : RequestTracker) : Quiescing → Option Quiescing
  | .looping => some (.listening false)
  | .listening woken =>
    some (if t.available = REQUEST_CAPACITY then .drained else .asleep woken)
  | .asleep woken => if woken then some .looping else none
  | .drained =>
    if t.failed then some (.returned false) else if t.operation = none then some .gated else none
  | .gated => some (.returned !t.failed)
  | .returned _ => none

/-- A request that is refused changes nothing. -/
def step (t : RequestTracker) : TrackerEvent → Option RequestTracker
  | .admits =>
    if t.closed = true ∨ t.available = 0 then some t
    else some { t with available := t.available - 1, idle := t.idle + 1 }
  | .guard permitted =>
    if t.operation ≠ none ∨ t.idle < permitted.toNat then none
    else if t.closed then some t
    else some { t with operation := some permitted, idle := t.idle - permitted.toNat }
  | .finish panics =>
    match t.operation with
    | none => none
    | some permitted => some { t with
        operation := none
        idle := t.idle + permitted.toNat
        failed := t.failed || panics
        closed := t.closed || panics }
  | .release =>
    if t.idle = 0 then none
    else some { t with
      idle := t.idle - 1
      available := t.available + 1
      leaving := t.leaving + 1 }
  | .wake =>
    if t.leaving = 0 then none
    else some { t with leaving := t.leaving - 1, quiescing := t.quiescing.map .wake }
  | .quiesce => some { t with closed := true, quiescing := t.quiescing ++ [.looping] }
  | .advance i => do
    let q ← t.quiescing[i]?
    let q' ← t.next q
    return { t with quiescing := t.quiescing.set i q' }

/-- The permits that are out. -/
def held (t : RequestTracker) : ℕ := t.idle + (t.operation.getD false).toNat

/-- What holds of a call of `quiesce` by the place it has reached. -/
def Holds (t : RequestTracker) : Quiescing → Prop
  | .asleep false => 0 < t.held ∨ 0 < t.leaving
  | .drained | .returned false => t.held = 0
  | .gated | .returned true => t.operation = none ∧ t.idle = 0
  | _ => True

structure Inv (t : RequestTracker) : Prop where
  permits : t.available + t.held = REQUEST_CAPACITY
  closed : t.quiescing ≠ [] → t.closed = true
  calls : ∀ q ∈ t.quiescing, t.Holds q

theorem advance_eq_some {t t' : RequestTracker} {i : ℕ} (h : t.step (.advance i) = some t') :
    ∃ q q', t.quiescing[i]? = some q ∧ t.next q = some q' ∧
      t' = { t with quiescing := t.quiescing.set i q' } := by
  obtain ⟨q, hq, h⟩ := Option.bind_eq_some_iff.mp h
  obtain ⟨q', hnext, h⟩ := Option.bind_eq_some_iff.mp h
  exact ⟨q, q', hq, hnext, (Option.some.inj h).symm⟩

theorem permits_step {t t' : RequestTracker} {e : TrackerEvent} (he : t.step e = some t') :
    t'.available + t'.held = t.available + t.held := by
  cases e with
  | advance i =>
      obtain ⟨q, q', -, -, rfl⟩ := advance_eq_some he
      rfl
  | _ =>
      simp only [step, held] at he ⊢
      grind

theorem Holds.step {t t' : RequestTracker} {e : TrackerEvent} {q : Quiescing} (hq : t.Holds q)
    (hclosed : t.closed = true) (hwake : e ≠ .wake) (he : t.step e = some t') : t'.Holds q := by
  cases e with
  | advance i =>
      obtain ⟨q, q', -, -, rfl⟩ := advance_eq_some he
      exact hq
  | wake => exact absurd rfl hwake
  | _ =>
      unfold Holds held at *
      simp only [RequestTracker.step] at he
      grind

theorem Inv.next {t : RequestTracker} (h : t.Inv) {q q' : Quiescing} (hq : t.Holds q)
    (hnext : t.next q = some q') : t.Holds q' := by
  have hpermits := h.permits
  unfold Holds held at *
  cases q with
  -- if it goes to sleep, a permit is still out
  | listening woken => grind [RequestTracker.next]
  | _ => grind [RequestTracker.next]

theorem Inv.step {t t' : RequestTracker} {e : TrackerEvent} (h : t.Inv) (he : t.step e = some t') :
    t'.Inv := by
  have hkept {q : Quiescing} (hq : q ∈ t.quiescing) (hwake : e ≠ .wake) : t'.Holds q :=
    (h.calls q hq).step (h.closed (ne_nil_of_mem hq)) hwake he
  refine ⟨(permits_step he).trans h.permits, ?_, fun q hq => ?_⟩
  · have := h.closed
    cases e with
    | advance i =>
        obtain ⟨q, q', hq, -, rfl⟩ := advance_eq_some he
        exact fun _ => this (ne_nil_of_mem (mem_of_getElem? hq))
    | _ =>
        simp only [RequestTracker.step] at he
        grind
  · cases e with
    | wake =>
        simp only [RequestTracker.step] at he
        split at he
        · cases he
        · cases he
          obtain ⟨p, hp, rfl⟩ := mem_map.mp hq
          have hcall := h.calls p hp
          cases p with
          | returned healthy => cases healthy <;> exact hcall
          | _ => trivial
    | quiesce =>
        cases he
        rcases mem_append.mp hq with hq | hq
        · exact hkept hq nofun
        · rw [mem_singleton.mp hq]
          trivial
    | advance i =>
        obtain ⟨p, p', hp, hnext, rfl⟩ := advance_eq_some he
        rcases mem_or_eq_of_mem_set hq with hq | rfl
        · exact hkept hq nofun
        · exact h.next (h.calls p (mem_of_getElem? hp)) hnext
    | _ =>
        refine hkept ?_ nofun
        simp only [RequestTracker.step] at he
        grind

theorem run_inv {es : List TrackerEvent} {t : RequestTracker} (h : Runs.run step new es = some t) :
    t.Inv :=
  Runs.run_invariant step (fun hs he => hs.step he)
    ⟨rfl, fun hne => absurd rfl hne, forall_mem_nil _⟩ h

/-- What a call that has returned well leaves behind stays. -/
theorem drained_step {t t' : RequestTracker} {e : TrackerEvent}
    (ht : t.closed = true ∧ t.operation = none ∧ t.idle = 0) (he : t.step e = some t') :
    t'.closed = true ∧ t'.operation = none ∧ t'.idle = 0 := by
  cases e with
  | advance i =>
      obtain ⟨q, q', -, -, rfl⟩ := advance_eq_some he
      exact ht
  | _ =>
      simp only [step] at he
      grind

/-- At every moment at most the capacity of requests hold a permit, and a call of `quiesce` that
sleeps has a wake-up ahead.  Once a call has returned well, no request and no operation is left,
then and ever after. -/
theorem quiesce_drains {es es' : List TrackerEvent} {t t' : RequestTracker}
    (h : Runs.run step new es = some t) (h' : Runs.run step t es' = some t') :
    t.available + t.held = REQUEST_CAPACITY ∧
      (Quiescing.asleep false ∈ t.quiescing → 0 < t.held ∨ 0 < t.leaving) ∧
      (Quiescing.returned true ∈ t.quiescing → t'.held = 0 ∧ t'.operation = none) := by
  have hinv := run_inv h
  refine ⟨hinv.permits, fun hq => hinv.calls _ hq, fun hq => ?_⟩
  have hdrained : t.operation = none ∧ t.idle = 0 := hinv.calls _ hq
  obtain ⟨-, hnone, hidle⟩ := Runs.run_invariant step drained_step
    ⟨hinv.closed (ne_nil_of_mem hq), hdrained⟩ h'
  exact ⟨by rw [held, hnone, hidle]; rfl, hnone⟩

/-- A call finds one request on its way, sleeps, is woken, and returns. -/
def oneRequest : List TrackerEvent :=
  [.admits, .guard true, .quiesce, .advance 0, .advance 0, .finish false, .release, .wake,
    .advance 0, .advance 0, .advance 0, .advance 0, .advance 0]

theorem quiesce_drains_oneRequest :
    ∃ t, Runs.run step new oneRequest = some t ∧ t.held = 0 ∧ t.operation = none :=
  ⟨⟨128, true, false, 0, none, 0, [.returned true]⟩, rfl,
    (@quiesce_drains oneRequest [] _ _ rfl rfl).2.2 (mem_singleton_self _)⟩

end RequestTracker

end Rustack.DynamoDB
