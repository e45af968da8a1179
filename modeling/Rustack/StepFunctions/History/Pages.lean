import Rustack.StepFunctions.History.Journal

/-!
# Pages of a history

A page starts at an event and takes what fits, by count and by the bytes of the
encoded events; the number of the first event left out is where the next page
starts.  Read forwards from 1 or backwards from the last event, the pages are the
history.
-/

namespace Rustack.StepFunctions

open List

def pageBytes : ℕ := 4 * 1024 * 1024

structure HistoryPage where
  events : List HistoryEvent
  next : Option ℕ
  deriving DecidableEq

/-- The event as it is shown. -/
def shown (includeData : Bool) (event : HistoryEvent) : HistoryEvent :=
  if includeData then event else event.omitData

/-- The length a page counts for an event: known, or that of the event without its data. -/
def shownLength (includeData : Bool) (record : StoredEvent) : Except ExecutionError ℕ :=
  if includeData then .ok record.encoded
  else (encodeWithLimit (shown includeData record.event) eventBytes).map List.length

/-- The loop over the records from the first one of the page on. -/
def pageLoop (limit : ℕ) (includeData : Bool) :
    List StoredEvent → List HistoryEvent → ℕ → Except ExecutionError HistoryPage
  | [], events, _ => .ok { events, next := none }
  | record :: records, events, bytes => do
    let stop : HistoryPage := { events, next := some record.event.id }
    if limit ≤ events.length then return stop
    if includeData && pageBytes < bytes + (record.encoded + 1) then return stop
    let encoded ← shownLength includeData record
    if pageBytes < bytes + (encoded + 1) then return stop
    pageLoop limit includeData records (events ++ [shown includeData record.event])
      (bytes + (encoded + 1))

namespace ExecutionHistory

/-- `page` and `page_reverse`. -/
def pageOrdered (h : ExecutionHistory) (first limit : ℕ) (includeData reverse : Bool) :
    Except ExecutionError HistoryPage :=
  let valid :=
    if reverse then (h.count = 0 ∧ first = 0) ∨ (0 < first ∧ first ≤ h.count)
    else 0 < first ∧ first ≤ h.count + 1
  if ¬valid ∨ ¬(1 ≤ limit ∧ limit ≤ 1000) then .error .invalid
  else
    let records := (h.chunks.map List.reverse).flatten
    let records := if reverse then records else records.reverse
    let records := records.filter fun r =>
      if reverse then r.event.id ≤ first else first ≤ r.event.id
    pageLoop limit includeData records [] 256

/-- Read page after page from `first` on; `none` if a page fails or the fuel does not last. -/
def pagesFrom (h : ExecutionHistory) (limit : ℕ) (includeData reverse : Bool) :
    ℕ → ℕ → Option (List (List HistoryEvent))
  | 0, _ => none
  | fuel + 1, first =>
    match h.pageOrdered first limit includeData reverse with
    | .error _ => none
    | .ok page =>
      match page.next with
      | none => some [page.events]
      | some next => (h.pagesFrom limit includeData reverse fuel next).map (page.events :: ·)

/-- The history in the order in which it is read. -/
def inOrder (h : ExecutionHistory) (reverse : Bool) : List StoredEvent :=
  if reverse then h.stored.reverse else h.stored

end ExecutionHistory

/-! ## One page -/

section

variable {limit : ℕ} {includeData : Bool}

/-- A page takes records from the front and names the first one it leaves out. -/
theorem pageLoop_eq {records : List StoredEvent}
    (hencoded : ∀ r ∈ records, r.encoded = r.event.encode.length ∧ r.encoded ≤ eventBytes)
    (events : List HistoryEvent) (bytes : ℕ) :
    ∃ taken rest, records = taken ++ rest ∧
      pageLoop limit includeData records events bytes = .ok
        { events := events ++ taken.map fun r => shown includeData r.event
          next := rest.head?.map (·.event.id) } ∧
      (events.length < limit → bytes ≤ 256 → records ≠ [] → taken ≠ []) := by
  induction records generalizing events bytes with
  | nil =>
      refine ⟨[], [], rfl, ?_, fun _ _ hne => absurd rfl hne⟩
      rw [pageLoop, map_nil, append_nil]
      rfl
  | cons record records ih =>
      obtain ⟨hsize, hle⟩ := hencoded record (.head _)
      have hshown : (shown includeData record.event).encode.length ≤ record.encoded := by
        rw [hsize, shown]
        split
        · exact Nat.le_refl _
        · exact record.event.length_encode_omitData_le
      -- the length that the page counts for the event as it is shown
      have hlength : ∃ encoded, encoded ≤ record.encoded ∧
          shownLength includeData record = .ok encoded := by
        cases includeData with
        | true => exact ⟨record.encoded, Nat.le_refl _, rfl⟩
        | false =>
            refine ⟨_, hshown, ?_⟩
            rw [shownLength, if_neg Bool.false_ne_true, encodeWithLimit,
              if_neg (Nat.not_lt_of_le (hshown.trans hle))]
            rfl
      obtain ⟨encoded, hencoded_le, hlength⟩ := hlength
      have hstop : ∀ {p : Prop}, p → (events.length < limit → bytes ≤ 256 → ¬p) →
          ∃ taken rest, record :: records = taken ++ rest ∧
            (Except.ok { events, next := some record.event.id } :
              Except ExecutionError HistoryPage) = .ok
              { events := events ++ taken.map fun r => shown includeData r.event
                next := rest.head?.map (·.event.id) } ∧
            (events.length < limit → bytes ≤ 256 → record :: records ≠ [] → taken ≠ []) := by
        intro p hp hfits
        exact ⟨[], record :: records, rfl, by simp, fun hlimit hbytes _ =>
          absurd hp (hfits hlimit hbytes)⟩
      have hsmall : bytes ≤ 256 → ∀ n ≤ record.encoded, ¬pageBytes < bytes + (n + 1) := by
        intro hbytes n hn
        have hpage : 256 + (eventBytes + 1) ≤ pageBytes := by decide
        omega
      unfold pageLoop
      dsimp only
      split
      · next hlimit => exact hstop hlimit fun hlt _ => Nat.not_le_of_lt hlt
      split
      · next hdata =>
          refine hstop hdata fun _ hbytes hdata => ?_
          rw [Bool.and_eq_true, decide_eq_true_iff] at hdata
          exact hsmall hbytes _ (Nat.le_refl _) hdata.2
      rw [hlength]
      dsimp only [bind, Except.bind]
      split
      · next hfull =>
          exact hstop hfull fun _ hbytes => hsmall hbytes _ hencoded_le
      obtain ⟨taken, rest, hsplit, hloop, -⟩ := ih
        (fun r hr => hencoded r (.tail _ hr))
        (events ++ [shown includeData record.event]) (bytes + (encoded + 1))
      refine ⟨record :: taken, rest, by rw [hsplit, cons_append], ?_,
        fun _ _ _ => cons_ne_nil _ _⟩
      rw [hloop, append_assoc, singleton_append, map_cons]

end

/-! ## All pages -/

namespace ExecutionHistory

variable {h : ExecutionHistory} {limit : ℕ} {includeData reverse : Bool}

theorem records_eq (h : ExecutionHistory) :
    (h.chunks.map List.reverse).flatten = h.stored.reverse := by
  rw [stored, List.reverse_flatten, List.map_reverse, List.reverse_reverse]

/-- The records from a number on, in the order of reading. -/
def From (h : ExecutionHistory) (reverse : Bool) (first : ℕ) : List StoredEvent :=
  (h.inOrder reverse).filter fun r => if reverse then r.event.id ≤ first else first ≤ r.event.id

theorem pageOrdered_eq {first : ℕ} (hlimit : 1 ≤ limit ∧ limit ≤ 1000)
    (hfirst : if reverse then (h.count = 0 ∧ first = 0) ∨ (0 < first ∧ first ≤ h.count)
      else 0 < first ∧ first ≤ h.count + 1) :
    h.pageOrdered first limit includeData reverse =
      pageLoop limit includeData (h.From reverse first) [] 256 := by
  unfold pageOrdered
  rw [if_neg (not_or.mpr ⟨not_not.mpr hfirst, not_not.mpr hlimit⟩), records_eq]
  unfold From inOrder
  cases reverse with
  | true => rfl
  | false =>
      dsimp only
      rw [if_neg Bool.false_ne_true, if_neg Bool.false_ne_true, reverse_reverse]

theorem Causal.sorted (hcausal : h.Causal) :
    h.stored.Pairwise fun a b => a.event.id < b.event.id := by
  have hids : (h.stored.map (·.event.id)).Pairwise (· < ·) := by
    rw [hcausal.ids]
    exact pairwise_lt_range'
  exact pairwise_map.mp hids

theorem Causal.id_mem (hcausal : h.Causal) {r : StoredEvent} (hr : r ∈ h.inOrder reverse) :
    0 < r.event.id ∧ r.event.id ≤ h.count := by
  have hstored : r ∈ h.stored := by
    unfold inOrder at hr
    split at hr
    · exact mem_reverse.mp hr
    · exact hr
  have hmem : r.event.id ∈ h.stored.map (·.event.id) := mem_map_of_mem hstored
  rw [hcausal.ids, mem_range'_1, ← hcausal.count] at hmem
  omega

/-- The records from a stored one on. -/
theorem Causal.from_eq (hcausal : h.Causal) {pre rest : List StoredEvent} {r : StoredEvent}
    (hsplit : h.inOrder reverse = pre ++ r :: rest) :
    h.From reverse r.event.id = r :: rest := by
  unfold From
  rw [hsplit, filter_append]
  have hsorted := hcausal.sorted
  cases reverse with
  | true =>
      rw [inOrder, if_pos rfl] at hsplit
      rw [← reverse_reverse h.stored, pairwise_reverse, hsplit,
        pairwise_append] at hsorted
      obtain ⟨-, hsuffix, hcross⟩ := hsorted
      rw [filter_eq_nil_iff.mpr, filter_eq_self.mpr, nil_append]
      · intro a ha
        rcases mem_cons.mp ha with rfl | ha
        · simp
        · have hlt := rel_of_pairwise_cons hsuffix ha
          simp only [if_pos, decide_eq_true_eq]
          exact Nat.le_of_lt hlt
      · intro a ha
        have hlt := hcross a ha r (.head _)
        simp only [if_pos, decide_eq_true_eq, not_le]
        exact hlt
  | false =>
      rw [inOrder, if_neg Bool.false_ne_true] at hsplit
      rw [hsplit, pairwise_append] at hsorted
      obtain ⟨-, hsuffix, hcross⟩ := hsorted
      rw [filter_eq_nil_iff.mpr, filter_eq_self.mpr, nil_append]
      · intro a ha
        rcases mem_cons.mp ha with rfl | ha
        · simp
        · have hlt := rel_of_pairwise_cons hsuffix ha
          simp only [Bool.false_eq_true, if_false, decide_eq_true_eq]
          exact Nat.le_of_lt hlt
      · intro a ha
        have hlt := hcross a ha r (.head _)
        simp only [Bool.false_eq_true, if_false, decide_eq_true_eq, not_le]
        exact hlt

theorem Causal.encoded_inOrder (hcausal : h.Causal) :
    ∀ r ∈ h.inOrder reverse, r.encoded = r.event.encode.length ∧ r.encoded ≤ eventBytes := by
  intro r hr
  unfold inOrder at hr
  split at hr
  · exact hcausal.encoded r (mem_reverse.mp hr)
  · exact hcausal.encoded r hr

/-- From a stored record on, the pages are what is left, and none is empty. -/
theorem Causal.pagesFrom_eq (hcausal : h.Causal) (hlimit : 1 ≤ limit ∧ limit ≤ 1000)
    {fuel : ℕ} {pre rest : List StoredEvent} {r : StoredEvent}
    (hsplit : h.inOrder reverse = pre ++ r :: rest) (hfuel : rest.length < fuel) :
    ∃ pages, h.pagesFrom limit includeData reverse fuel r.event.id = some pages ∧
      pages.flatten = (r :: rest).map (fun r => shown includeData r.event) ∧
      ∀ page ∈ pages, page ≠ [] := by
  induction fuel generalizing pre r rest with
  | zero => exact absurd hfuel (Nat.not_lt_zero _)
  | succ fuel ih =>
      have hmem : r ∈ h.inOrder reverse := by
        rw [hsplit]
        exact mem_append_right _ (.head _)
      obtain ⟨hpos, hle⟩ := hcausal.id_mem hmem
      have hvalid : if reverse then
          (h.count = 0 ∧ r.event.id = 0) ∨ (0 < r.event.id ∧ r.event.id ≤ h.count)
          else 0 < r.event.id ∧ r.event.id ≤ h.count + 1 := by
        cases reverse with
        | true => exact .inr ⟨hpos, hle⟩
        | false => exact ⟨hpos, Nat.le_succ_of_le hle⟩
      have hencoded : ∀ x ∈ r :: rest,
          x.encoded = x.event.encode.length ∧ x.encoded ≤ eventBytes := fun x hx =>
        hcausal.encoded_inOrder x (by
          rw [hsplit]
          exact mem_append_right _ hx)
      obtain ⟨taken, left, htaken, hloop, hne⟩ := @pageLoop_eq limit includeData _ hencoded [] 256
      have hne := hne (Nat.lt_of_lt_of_le Nat.zero_lt_one hlimit.1) (Nat.le_refl _)
        (cons_ne_nil _ _)
      rw [pagesFrom, pageOrdered_eq hlimit hvalid, hcausal.from_eq hsplit, hloop]
      dsimp only
      cases left with
      | nil =>
          rw [append_nil] at htaken
          refine ⟨_, rfl, ?_, ?_⟩
          · rw [htaken]
            simp
          · intro page hpage
            rw [mem_singleton.mp hpage, nil_append, ne_eq, map_eq_nil_iff]
            exact hne
      | cons r' left =>
          have hsplit' : h.inOrder reverse = (pre ++ taken) ++ r' :: left := by
            rw [hsplit, htaken, append_assoc]
          have hlength : left.length < fuel := by
            have hlen := congrArg length htaken
            have htakenpos := length_pos_iff.mpr hne
            simp only [length_cons, length_append] at hlen
            omega
          obtain ⟨pages, hpages, hflatten, hpagesne⟩ := ih hsplit' hlength
          refine ⟨_, by rw [head?_cons, Option.map_some]; dsimp only; rw [hpages]; rfl,
            ?_, ?_⟩
          · rw [flatten_cons, hflatten, htaken, map_append, nil_append]
          · intro page hpage
            rcases mem_cons.mp hpage with rfl | hpage
            · rw [nil_append, ne_eq, map_eq_nil_iff]
              exact hne
            · exact hpagesne page hpage

/-- Where reading starts. -/
def firstId (h : ExecutionHistory) (reverse : Bool) : ℕ := if reverse then h.count else 1

theorem Causal.pages_eq (hcausal : h.Causal) (hlimit : 1 ≤ limit ∧ limit ≤ 1000)
    (includeData reverse : Bool) :
    ∃ pages, h.pagesFrom limit includeData reverse (h.count + 1) (h.firstId reverse) =
        some pages ∧
      pages.flatten = (h.inOrder reverse).map (fun r => shown includeData r.event) ∧
      (0 < h.count → ∀ page ∈ pages, page ≠ []) := by
  cases hstored : h.inOrder reverse with
  | nil =>
      have hcount : h.count = 0 := by
        rw [hcausal.count, length_eq_zero_iff]
        unfold inOrder at hstored
        split at hstored
        · exact reverse_eq_nil_iff.mp hstored
        · exact hstored
      have hvalid : if reverse then
          (h.count = 0 ∧ h.firstId reverse = 0) ∨
            (0 < h.firstId reverse ∧ h.firstId reverse ≤ h.count)
          else 0 < h.firstId reverse ∧ h.firstId reverse ≤ h.count + 1 := by
        cases reverse with
        | true => exact .inl ⟨hcount, hcount⟩
        | false => exact ⟨Nat.zero_lt_one, Nat.le_add_left 1 _⟩
      refine ⟨[[]], ?_, rfl, fun hpos => absurd hpos (by rw [hcount]; exact Nat.lt_irrefl 0)⟩
      rw [pagesFrom, pageOrdered_eq hlimit hvalid, From, hstored, filter_nil, pageLoop]
  | cons r rest =>
      have hfirst : h.firstId reverse = r.event.id := by
        have hids := hcausal.ids
        unfold firstId
        unfold inOrder at hstored
        cases reverse with
        | true =>
            rw [if_pos rfl] at hstored ⊢
            rw [← reverse_reverse h.stored, hstored, reverse_cons, map_append,
              length_append, range'_append_1.symm] at hids
            have hlast := (append_inj' hids rfl).2
            simp only [map_singleton, length_singleton, range'_one,
              cons.injEq, and_true] at hlast
            rw [hlast, hcausal.count, ← length_reverse, hstored, length_cons,
              length_reverse, Nat.add_comm]
        | false =>
            rw [if_neg Bool.false_ne_true] at hstored ⊢
            rw [hstored, map_cons, length_cons, range'_succ] at hids
            exact (cons.inj hids).1.symm
      have hlength : rest.length < h.count + 1 := by
        have hlen := congrArg length hstored
        have hall : (h.inOrder reverse).length = h.count := by
          rw [hcausal.count]
          unfold inOrder
          split
          · exact length_reverse
          · rfl
        rw [hall, length_cons] at hlen
        omega
      have hsplit : h.inOrder reverse = [] ++ r :: rest := hstored
      obtain ⟨pages, hpages, hflatten, hne⟩ := hcausal.pagesFrom_eq hlimit hsplit hlength
      exact ⟨pages, by rw [hfirst, hpages], hflatten, fun _ => hne⟩

end ExecutionHistory

/-! ## The contract -/

namespace Session

variable (layout : Layout) (limits : HistoryLimits) (calls : List Journal.Call)

/-- What the journal promises after some calls. -/
structure Contract (s : Session) : Prop where
  ids : s.journal.view.stored.map (·.event.id) = List.range' 1 s.journal.view.count
  causal : ∀ r ∈ s.journal.view.stored, ∃ previous,
    r.event.previousEventId = some previous ∧ previous < r.event.id
  encoded : ∀ r ∈ s.journal.view.stored, r.encoded = r.event.encode.length
  appended : ∀ c, (s.journal.call layout c).result = .ok () → ∃ record,
    record.event = { c.event with
      id := s.journal.view.count + 1, previousEventId := some (c.cause s.journal) } ∧
    (s.journal.call layout c).journal.view.stored = s.journal.view.stored ++ [record]
  failed : ∀ c e, (s.journal.call layout c).result = .error e →
    (s.journal.call layout c).journal = s.journal ∧ (s.journal.call layout c).pool = c.pool
  charged : (start layout limits).Open layout calls →
    s.journal.view.charged =
      snapshotCharge layout s.ended (s.journal.view.stored.map StoredEvent.encoded)
  closable : (start layout limits).Open layout calls → s.ended = false →
    ∀ c : Journal.Call, c.terminal = true → c.cause s.journal ≤ s.journal.view.count →
      ({ c.event with
        id := s.journal.view.count + 1
        previousEventId := some (c.cause s.journal) } : HistoryEvent).encode.length ≤ 4096 →
      (s.journal.call layout c).result = .ok ()
  pages : ∀ limit, 1 ≤ limit ∧ limit ≤ 1000 → ∀ includeData reverse,
    ∃ pages, s.journal.view.pagesFrom limit includeData reverse (s.journal.view.count + 1)
        (s.journal.view.firstId reverse) = some pages ∧
      pages.flatten =
        (s.journal.view.inOrder reverse).map (fun r => shown includeData r.event) ∧
      (0 < s.journal.view.count → ∀ page ∈ pages, page ≠ [])

/-- After every sequence of calls. -/
theorem run_contract : ((start layout limits).run layout calls).Contract layout limits calls := by
  have hcausal : ((start layout limits).run layout calls).journal.view.Causal :=
    causal_run (start_inv layout limits).causal calls
  refine ⟨?_, hcausal.previous, fun r hr => (hcausal.encoded r hr).1,
    fun c => Journal.call_of_ok, fun c e => Journal.call_of_error,
    fun hopen => ((start_inv layout limits).run hopen).charged,
    fun hopen hended c => ((start_inv layout limits).run hopen).terminal hended,
    fun limit hlimit => hcausal.pages_eq hlimit⟩
  rw [hcausal.count]
  exact hcausal.ids

end Session

/-! ## What a journal does not promise -/

/-- An event without details. -/
def plainEvent : HistoryEvent where
  id := 0
  previousEventId := none
  executionStarted := none
  executionSucceeded := none
  stateEntered := none
  stateExited := none
  lambdaFunctionScheduled := none
  lambdaFunctionSucceeded := none
  taskSucceeded := none
  taskSubmitted := none
  taskScheduled := none
  others := []

def plainLayout : Layout where
  storedEvent := 4096
  storedEvent_le := by decide

def plainLimits : HistoryLimits where
  events := 2
  bytes := 1024 * 1024
  events_mem := by decide
  bytes_mem := by decide

/-- A call that ends the execution. -/
def endCall : Journal.Call where
  pool := { used := 0, limit := 8 * 1024 * 1024 }
  event := plainEvent
  previous := none
  terminal := true

/-- After two ends the charge is no snapshot's and a third end is refused; and the only page of a
history without events is empty. -/
theorem Session.twoEnds :
    let s := (start plainLayout plainLimits).run plainLayout [endCall, endCall]
    (∀ terminal, s.journal.view.charged ≠
        snapshotCharge plainLayout terminal (s.journal.view.stored.map StoredEvent.encoded)) ∧
      (s.journal.call plainLayout endCall).result = .error .capacity ∧
      (start plainLayout plainLimits).journal.view.pagesFrom 1 true false 1 1 = some [[]] := by
  decide +kernel

end Rustack.StepFunctions
