import Rustack.Lib.Lane
import Rustack.SQS.Receive

/-!
# The groups of a FIFO storage as lines

A group is a line whose head may be out: its deque is the line without the head that
is out, the messages in flight and the ones held for a redrive are what is out, and
the group is blocked exactly if something is.  Every operation of the storage is an
operation of these lines.
-/

namespace Rustack.SQS

open List FifoQueueStorage

namespace QueueMessage

def group (msg : QueueMessage) : String := msg.messageGroupId.getD ""

def sequence (msg : QueueMessage) : ℕ := msg.sequenceNumber.getD 0

/-- What stays of a message over its receives: its id and its number. -/
def ident (msg : QueueMessage) : String × ℕ := (msg.messageId, msg.sequence)

/-- The messages of one group. -/
def ofGroup (msgs : List QueueMessage) (groupId : String) : List QueueMessage :=
  msgs.filter fun msg => msg.group = groupId

end QueueMessage

open QueueMessage (ofGroup ident)

abbrev GroupLane := Lane (String × ℕ) Prod.snd

/-- What a storage has of one group. -/
structure GroupView where
  flying : List QueueMessage
  waiting : List QueueMessage
  blocked : Bool
  next : ℕ

/-- The group is a line: `held` is out as well as what is in flight, `log` is what was delivered
and `acc` what was accepted so far. -/
structure Lined (v : GroupView) (held log acc : List QueueMessage) (g : String) (l : GroupLane) :
    Prop where
  out : ((v.flying ++ ofGroup held g).map ident).Perm l.out.toList
  waiting : v.waiting.map ident = l.waiting
  blocked : v.blocked = l.out.isSome
  served : (ofGroup log g).map ident = l.served
  joined : (ofGroup acc g).map ident = l.joined
  next : l.next = v.next
  waiting_group : ∀ msg ∈ v.waiting, msg.group = g
  flying_group : ∀ msg ∈ v.flying, msg.group = g

/-! ## Lines -/

section

variable {v v' : GroupView} {held held' log log' acc acc' flying : List QueueMessage}
  {g : String} {l : GroupLane} {msg msg' : QueueMessage}

theorem ofGroup_append (msgs msgs' : List QueueMessage) (g : String) :
    ofGroup (msgs ++ msgs') g = ofGroup msgs g ++ ofGroup msgs' g := filter_append ..

theorem ofGroup_singleton (h : msg.group = g) : ofGroup [msg] g = [msg] := by
  simp [ofGroup, h]

theorem ofGroup_singleton_ne (h : msg.group ≠ g) : ofGroup [msg] g = [] := by
  simp [ofGroup, h]

theorem ofGroup_cons (h : msg.group = g) (msgs : List QueueMessage) :
    ofGroup (msg :: msgs) g = msg :: ofGroup msgs g := by
  simp [ofGroup, h]

theorem ofGroup_cons_ne (h : msg.group ≠ g) (msgs : List QueueMessage) :
    ofGroup (msg :: msgs) g = ofGroup msgs g := by
  simp [ofGroup, h]

/-- A held message of the group, put first. -/
theorem perm_of_held (hheld : held.Perm (msg :: held')) (hgroup : msg.group = g)
    (flying : List QueueMessage) :
    (flying ++ ofGroup held g).Perm (msg :: (flying ++ ofGroup held' g)) := by
  have hfilter : (ofGroup held g).Perm (ofGroup (msg :: held') g) := hheld.filter _
  rw [ofGroup_cons hgroup] at hfilter
  exact (hfilter.append_left _).trans perm_middle

/-- A held message of another group. -/
theorem perm_of_held_ne (hheld : held.Perm (msg :: held')) (hgroup : msg.group ≠ g)
    (flying : List QueueMessage) :
    (flying ++ ofGroup held' g).Perm (flying ++ ofGroup held g) := by
  have hfilter : (ofGroup held g).Perm (ofGroup (msg :: held') g) := hheld.filter _
  rw [ofGroup_cons_ne hgroup] at hfilter
  exact hfilter.symm.append_left _

namespace Lined

theorem map_outstanding (h : Lined v held log acc g l) :
    (v.flying ++ ofGroup held g).map ident = l.out.toList := by
  have hperm := h.out
  cases hout : l.out with
  | none =>
      rw [hout] at hperm
      exact hperm.eq_nil
  | some a =>
      rw [hout] at hperm
      exact perm_singleton.mp hperm

theorem length_outstanding_le (h : Lined v held log acc g l) :
    (v.flying ++ ofGroup held g).length ≤ 1 := by
  rw [← length_map (f := ident), h.map_outstanding]
  cases l.out with
  | none => exact Nat.zero_le _
  | some a => exact Nat.le_refl _

theorem blocked_iff (h : Lined v held log acc g l) :
    v.blocked = true ↔ v.flying ++ ofGroup held g ≠ [] := by
  rw [h.blocked, ne_eq, ← map_eq_nil_iff (f := ident), h.map_outstanding]
  cases l.out <;> simp

/-- What is out comes before what waits, and what waits is in order. -/
theorem sorted (h : Lined v held log acc g l) :
    ((v.flying ++ ofGroup held g ++ v.waiting).map QueueMessage.sequence).Pairwise (· < ·) := by
  have hline := l.line_sorted
  rw [← h.map_outstanding, ← h.waiting, ← map_append, pairwise_map] at hline
  rw [pairwise_map]
  exact hline

theorem served_sorted (h : Lined v held log acc g l) :
    ((ofGroup log g).map QueueMessage.sequence).Pairwise (· ≤ ·) := by
  have hserved := l.served_sorted
  rw [← h.served, pairwise_map] at hserved
  rw [pairwise_map]
  exact hserved

/-- If one message is out, it is the only one. -/
theorem out_eq (h : Lined v held log acc g l) {rest : List QueueMessage}
    (hout : (v.flying ++ ofGroup held g).Perm (msg :: rest)) :
    l.out = some (ident msg) ∧ rest = [] := by
  have hperm := (hout.map ident).symm.trans h.out
  rw [map_cons] at hperm
  cases hlane : l.out with
  | none =>
      rw [hlane] at hperm
      exact absurd hperm.eq_nil (cons_ne_nil _ _)
  | some a =>
      rw [hlane] at hperm
      obtain ⟨rfl, hrest⟩ := cons.inj (perm_singleton.mp hperm)
      exact ⟨rfl, map_eq_nil_iff.mp hrest⟩

/-- A group that nothing happens to. -/
theorem congr (h : Lined v held log acc g l)
    (hout : (v'.flying ++ ofGroup held' g).Perm (v.flying ++ ofGroup held g))
    (hwaiting : v'.waiting = v.waiting) (hblocked : v'.blocked = v.blocked)
    (hnext : v'.next = v.next) (hlog : ofGroup log' g = ofGroup log g)
    (hacc : ofGroup acc' g = ofGroup acc g) (hgroup : ∀ msg ∈ v'.flying, msg.group = g) :
    Lined v' held' log' acc' g l where
  out := (hout.map ident).trans h.out
  waiting := hwaiting ▸ h.waiting
  blocked := hblocked.trans h.blocked
  served := hlog ▸ h.served
  joined := hacc ▸ h.joined
  next := h.next.trans hnext.symm
  waiting_group := hwaiting ▸ h.waiting_group
  flying_group := hgroup

theorem push (h : Lined v held log acc g l) (hgroup : msg.group = g)
    (hnext : msg.sequence = v.next) :
    Lined { v with waiting := v.waiting ++ [msg], next := v.next + 1 } held log (acc ++ [msg]) g
      (l.push (ident msg) (hnext.trans h.next.symm)) where
  out := h.out
  waiting := by
    rw [map_append, h.waiting]
    rfl
  blocked := h.blocked
  served := h.served
  joined := by
    rw [ofGroup_append, ofGroup_singleton hgroup, map_append, h.joined]
    rfl
  next := congrArg (· + 1) h.next
  waiting_group := by
    intro m hm
    rcases mem_append.mp hm with hm | hm
    · exact h.waiting_group m hm
    · rw [mem_singleton.mp hm, hgroup]
  flying_group := h.flying_group

theorem skip (h : Lined v held log acc g l) (hgroup : msg.group ≠ g) :
    Lined { v with next := v.next + 1 } held log (acc ++ [msg]) g l.skip where
  out := h.out
  waiting := h.waiting
  blocked := h.blocked
  served := h.served
  joined := by
    rw [ofGroup_append, ofGroup_singleton_ne hgroup, append_nil]
    exact h.joined
  next := congrArg (· + 1) h.next
  waiting_group := h.waiting_group
  flying_group := h.flying_group

/-- The head of a group that is not blocked goes to whoever asked for it. -/
theorem take (h : Lined v held log acc g l) (hblocked : v.blocked = false)
    {rest : List QueueMessage} (hwaiting : v.waiting = msg :: rest) :
    ∃ l', Lined { v with waiting := rest, blocked := true } (msg :: held) log acc g l' := by
  have hout : l.out = none := by
    rw [h.blocked] at hblocked
    exact Option.isSome_eq_false_iff.mp hblocked |> Option.isNone_iff_eq_none.mp
  have hline : l.waiting = ident msg :: rest.map ident := by
    rw [← h.waiting, hwaiting, map_cons]
  have hgroup : msg.group = g := h.waiting_group msg (hwaiting ▸ mem_cons_self)
  refine ⟨l.take (ident msg) (rest.map ident) hout hline, ?_, rfl, rfl, h.served, h.joined, h.next,
    fun m hm => h.waiting_group m (hwaiting ▸ .tail _ hm), h.flying_group⟩
  have hnone := h.map_outstanding
  rw [hout, Option.toList_none, map_eq_nil_iff, append_eq_nil_iff] at hnone
  rw [ofGroup_cons hgroup, hnone.1, hnone.2]
  exact List.Perm.refl _

/-- A held message is delivered. -/
theorem serve (h : Lined v held log acc g l) (hheld : held.Perm (msg :: held'))
    (hgroup : msg.group = g) (hident : ident msg' = ident msg) (hgroup' : msg'.group = g) :
    ∃ l', Lined { v with flying := msg' :: v.flying } held' (log ++ [msg']) acc g l' := by
  obtain ⟨hout, hnil⟩ := h.out_eq (perm_of_held hheld hgroup v.flying)
  refine ⟨l.serve (ident msg) hout, ?_, h.waiting, h.blocked, ?_, h.joined, h.next,
    h.waiting_group, ?_⟩
  · change ((msg' :: (v.flying ++ ofGroup held' g)).map ident).Perm l.out.toList
    rw [hnil, hout, map_cons, hident]
    exact List.Perm.refl _
  · rw [ofGroup_append, ofGroup_singleton hgroup', map_append, h.served, map_singleton,
      hident]
    rfl
  · intro m hm
    rcases mem_cons.mp hm with rfl | hm
    · exact hgroup'
    · exact h.flying_group m hm

/-- The message that is out comes back. -/
theorem putBack (h : Lined v held log acc g l) (hgroup : msg.group = g)
    (hout : (v.flying ++ ofGroup held g).Perm (msg :: (flying ++ ofGroup held' g)))
    (hflying : ∀ m ∈ flying, m.group = g) :
    Lined { v with flying, waiting := msg :: v.waiting, blocked := false } held' log acc g
      l.putBack := by
  obtain ⟨hlane, hnil⟩ := h.out_eq hout
  refine ⟨?_, ?_, rfl, h.served, h.joined, h.next, ?_, hflying⟩
  · change ((flying ++ ofGroup held' g).map ident).Perm []
    rw [hnil]
    exact List.Perm.nil
  · change (msg :: v.waiting).map ident = l.out.toList ++ l.waiting
    rw [map_cons, h.waiting, hlane]
    rfl
  · intro m hm
    rcases mem_cons.mp hm with rfl | hm
    · exact hgroup
    · exact h.waiting_group m hm

/-- The message that is out is gone. -/
theorem drop (h : Lined v held log acc g l)
    (hout : (v.flying ++ ofGroup held g).Perm (msg :: (flying ++ ofGroup held' g)))
    (hflying : ∀ m ∈ flying, m.group = g) :
    Lined { v with flying, blocked := false } held' log acc g l.drop := by
  obtain ⟨-, hnil⟩ := h.out_eq hout
  refine ⟨?_, h.waiting, rfl, h.served, h.joined, h.next, h.waiting_group, hflying⟩
  change ((flying ++ ofGroup held' g).map ident).Perm []
  rw [hnil]
  exact List.Perm.nil

theorem clear (h : Lined v held log acc g l) :
    Lined { v with flying := [], waiting := [], blocked := false } [] log acc g l.clear where
  out := List.Perm.nil
  waiting := rfl
  blocked := rfl
  served := h.served
  joined := h.joined
  next := h.next
  waiting_group := fun _ hm => absurd hm not_mem_nil
  flying_group := fun _ hm => absurd hm not_mem_nil

end Lined

end

/-! ## What the operations do to a group -/

namespace FifoQueueStorage

def flying (s : FifoQueueStorage) (g : String) : List QueueMessage :=
  (s.inFlight.entries.filter fun e => e.2.groupId = g).map fun e => e.2.message

def view (s : FifoQueueStorage) (g : String) : GroupView where
  flying := s.flying g
  waiting := s.waiting g
  blocked := g ∈ s.blockedGroups
  next := s.nextSequence

variable (s : FifoQueueStorage) (g g' handle : String) (msg : QueueMessage)

theorem waiting_setWaiting (queue : List QueueMessage) :
    (s.setWaiting g queue).waiting g' = if g = g' then queue else s.waiting g' := by
  rw [waiting, setWaiting, SortedMap.get?_insert]
  simp only [Std.LawfulEqCmp.compare_eq_iff_eq]
  split <;> rfl

theorem view_setWaiting (queue : List QueueMessage) :
    (s.setWaiting g queue).view g' =
      if g = g' then { s.view g' with waiting := queue } else s.view g' := by
  rw [view, waiting_setWaiting]
  split <;> rfl

theorem view_pushFront :
    (s.pushFront g msg).view g' =
      if g = g' then { s.view g' with waiting := msg :: s.waiting g' } else s.view g' := by
  rw [pushFront, view_setWaiting]
  split
  · next heq => rw [heq]
  · rfl

theorem view_pushBack :
    (s.pushBack g msg).view g' =
      if g = g' then { s.view g' with waiting := s.waiting g' ++ [msg] } else s.view g' := by
  rw [pushBack, view_setWaiting]
  split
  · next heq => rw [heq]
  · rfl

theorem view_unblock :
    (s.unblock g).view g' =
      if g = g' then { s.view g' with blocked := false } else s.view g' := by
  have hmem : g' ∈ s.blockedGroups.erase g ↔ g' ≠ g ∧ g' ∈ s.blockedGroups := Finset.mem_erase
  unfold view unblock
  split
  · next heq =>
      rw [decide_eq_false fun h => (hmem.mp h).1 heq.symm]
      rfl
  · next hne =>
      rw [decide_eq_decide.mpr (hmem.trans (and_iff_right (Ne.symm hne)))]
      rfl

theorem view_block :
    ({ s with blockedGroups := insert g s.blockedGroups } : FifoQueueStorage).view g' =
      if g = g' then { s.view g' with blocked := true } else s.view g' := by
  unfold view
  split
  · next heq =>
      rw [heq, decide_eq_true (Finset.mem_insert_self g' s.blockedGroups)]
      rfl
  · next hne =>
      rw [decide_eq_decide.mpr (Finset.mem_insert.trans (or_iff_right (Ne.symm hne)))]
      rfl

/-- Taking a message out of flight. -/
theorem flying_perm {s : FifoQueueStorage} {handle : String} {ifm : FifoInFlightMessage}
    (h : s.inFlight.lookup handle = some ifm) :
    (s.flying g).Perm (if ifm.groupId = g then ifm.message :: (s.takeInFlight handle).flying g
      else (s.takeInFlight handle).flying g) := by
  have hperm := ((AList.entries_perm_erase h).filter fun e => e.2.groupId = g).map
    fun e => e.2.message
  rw [filter_cons] at hperm
  simp only [decide_eq_true_eq] at hperm
  split at hperm
  · next heq =>
      rw [if_pos heq]
      exact hperm
  · next hne =>
      rw [if_neg hne]
      exact hperm

theorem flying_markInFlight (visibleAt : Instant) :
    (s.markInFlight handle msg g visibleAt).flying g' =
      if g = g' then msg :: (s.takeInFlight handle).flying g'
      else (s.takeInFlight handle).flying g' := by
  change ((kinsert handle _ s.inFlight.entries).filter _).map _ = _
  rw [kinsert_def, filter_cons]
  simp only [decide_eq_true_eq]
  split <;> rfl

theorem takeInFlight_of_notMem {handle : String} (hfresh : handle ∉ s.inFlight) :
    s.takeInFlight handle = s := by
  rw [takeInFlight, AList.erase_eq_self_iff.mpr (AList.lookup_eq_none.mpr hfresh)]

/-! ## Order -/

/-- Every group is a line. -/
def Ordered (s : FifoQueueStorage) (held log acc : List QueueMessage) : Prop :=
  ∀ g, ∃ l, Lined (s.view g) held log acc g l

variable {s : FifoQueueStorage} {held held' log acc : List QueueMessage} {msg : QueueMessage}
  {handle : String}

theorem empty_ordered : empty.Ordered [] [] [] := fun _ =>
  ⟨Lane.empty 1, List.Perm.nil, rfl, rfl, rfl, rfl, rfl, fun _ hm => absurd hm not_mem_nil,
    fun _ hm => absurd hm not_mem_nil⟩

theorem Ordered.perm (h : s.Ordered held log acc) (hperm : held.Perm held') :
    s.Ordered held' log acc := by
  intro g
  obtain ⟨l, hl⟩ := h g
  exact ⟨l, hl.congr ((hperm.symm.filter _).append_left _) rfl rfl rfl rfl rfl hl.flying_group⟩

/-- What an enqueue takes in: nothing if it is a duplicate. -/
def accepted (s : FifoQueueStorage) (now : Instant) (msg : QueueMessage) (key : DedupKey) :
    List QueueMessage :=
  match s.liveEntry now key with
  | some _ => []
  | none => [{ msg with sequenceNumber := some s.nextSequence }]

theorem Ordered.enqueue (h : s.Ordered held log acc) (now : Instant) (msg : QueueMessage)
    (key : DedupKey) :
    (s.enqueue now msg key).1.Ordered held log (acc ++ s.accepted now msg key) := by
  unfold FifoQueueStorage.enqueue accepted
  cases s.liveEntry now key with
  | some entry =>
      rw [append_nil]
      exact h
  | none =>
      intro g
      obtain ⟨l, hl⟩ := h g
      let sent : QueueMessage := { msg with sequenceNumber := some s.nextSequence }
      dsimp only
      rw [view_pushBack]
      split
      · next heq =>
          have hgroup : sent.group = g := heq
          exact ⟨_, hl.push hgroup rfl⟩
      · next hne =>
          have hgroup : sent.group ≠ g := hne
          exact ⟨_, hl.skip hgroup⟩

/-- The loop over the group keys, with what it has taken so far. -/
theorem Ordered.receiveLoop (max : ℕ) (keys : List String) {result : List (QueueMessage × String)}
    (h : s.Ordered (result.map Prod.fst ++ held) log acc)
    (hresult : ∀ taken ∈ result, taken.1.group = taken.2) :
    (receiveLoop max keys s result).1.Ordered
        ((receiveLoop max keys s result).2.map Prod.fst ++ held) log acc ∧
      ∀ taken ∈ (receiveLoop max keys s result).2, taken.1.group = taken.2 := by
  induction keys generalizing s result with
  | nil => exact ⟨h, hresult⟩
  | cons key keys ih =>
      rw [receiveLoop]
      split
      · exact ⟨h, hresult⟩
      split
      · exact ih h hresult
      next hblocked =>
        split
        · next msg queue hqueue =>
            have hwaiting : (s.view key).waiting = msg :: queue := by
              change (s.groups.get? key).getD [] = _
              rw [hqueue, Option.getD_some]
            have hkey : msg.group = key := by
              obtain ⟨l, hl⟩ := h key
              exact hl.waiting_group msg (hwaiting ▸ mem_cons_self)
            refine ih (fun g => ?_) fun taken htaken => ?_
            · obtain ⟨l, hl⟩ := h g
              rw [view_block, view_setWaiting]
              have hheld : (msg :: (result.map Prod.fst ++ held)).Perm
                  ((result ++ [(msg, key)]).map Prod.fst ++ held) := by
                rw [map_append, append_assoc]
                exact perm_middle.symm
              split
              · next heq =>
                  subst heq
                  obtain ⟨l', hl'⟩ := hl.take (by simpa [view] using hblocked) hwaiting
                  exact ⟨l', hl'.congr ((hheld.symm.filter _).append_left _) rfl rfl rfl rfl rfl
                    hl'.flying_group⟩
              · next hne =>
                  exact ⟨l, hl.congr (perm_of_held_ne hheld.symm (hkey ▸ hne) _).symm rfl rfl rfl
                    rfl rfl hl.flying_group⟩
            · rcases mem_append.mp htaken with htaken | htaken
              · exact hresult taken htaken
              · rw [mem_singleton.mp htaken]
                exact hkey
        · exact ih h hresult

theorem view_retain (s : FifoQueueStorage) (g : String) :
    ({ s with groups := s.groups.retain fun _ queue => !queue.isEmpty } : FifoQueueStorage).view g =
      s.view g := by
  have hwaiting : ((s.groups.retain fun _ queue => !queue.isEmpty).get? g).getD [] =
      (s.groups.get? g).getD [] := by
    rw [SortedMap.get?_retain]
    cases hget : s.groups.get? g with
    | none => rfl
    | some queue => cases queue <;> rfl
  unfold view
  exact congrArg (fun queue => GroupView.mk _ queue _ _) hwaiting

theorem Ordered.receive (h : s.Ordered held log acc) (max : ℕ) :
    (s.receive max).1.Ordered ((s.receive max).2.map Prod.fst ++ held) log acc ∧
      ∀ taken ∈ (s.receive max).2, taken.1.group = taken.2 := by
  have hloop := @Ordered.receiveLoop _ _ _ _ max (s.groups.entries.map Prod.fst) [] h
    (fun taken htaken => absurd htaken not_mem_nil)
  refine ⟨fun g => ?_, hloop.2⟩
  have hview := view_retain
    (FifoQueueStorage.receiveLoop max (s.groups.entries.map Prod.fst) s []).1 g
  obtain ⟨l, hl⟩ := hloop.1 g
  exact ⟨l, hview ▸ hl⟩

/-- A redrive that failed gives the message back. -/
theorem Ordered.restore (h : s.Ordered held log acc) (hheld : held.Perm (msg :: held')) :
    (s.finishRedrive msg.group (some msg)).Ordered held' log acc := by
  intro g
  obtain ⟨l, hl⟩ := h g
  rw [finishRedrive, view_pushFront, view_unblock]
  split
  · next hg =>
      exact ⟨_, hl.putBack hg (perm_of_held hheld hg _) hl.flying_group⟩
  · next hg =>
      exact ⟨l, hl.congr (perm_of_held_ne hheld hg _) rfl rfl rfl rfl rfl hl.flying_group⟩

/-- A redrive that went through takes the message away. -/
theorem Ordered.handOver (h : s.Ordered held log acc) (hheld : held.Perm (msg :: held')) :
    (s.finishRedrive msg.group none).Ordered held' log acc := by
  intro g
  obtain ⟨l, hl⟩ := h g
  rw [finishRedrive, view_unblock]
  split
  · next hg => exact ⟨_, hl.drop (perm_of_held hheld hg _) hl.flying_group⟩
  · next hg =>
      exact ⟨l, hl.congr (perm_of_held_ne hheld hg _) rfl rfl rfl rfl rfl hl.flying_group⟩

theorem view_markInFlight (s : FifoQueueStorage) (handle : String) (msg : QueueMessage)
    (g g' : String) (visibleAt : Instant) :
    (s.markInFlight handle msg g visibleAt).view g' =
      { s.view g' with
        flying := if g = g' then msg :: (s.takeInFlight handle).flying g'
          else (s.takeInFlight handle).flying g' } := by
  rw [← flying_markInFlight s g g' handle msg visibleAt]
  rfl

/-- A held message goes in flight under a new handle. -/
theorem Ordered.markInFlight (h : s.Ordered held log acc) (hheld : held.Perm (msg :: held'))
    (hfresh : handle ∉ s.inFlight) {msg' : QueueMessage} (hident : ident msg' = ident msg)
    (hgroup : msg'.group = msg.group) (visibleAt : Instant) :
    (s.markInFlight handle msg' msg.group visibleAt).Ordered held' (log ++ [msg']) acc := by
  intro g
  obtain ⟨l, hl⟩ := h g
  rw [view_markInFlight, takeInFlight_of_notMem s hfresh]
  by_cases hg : msg.group = g
  · rw [if_pos hg]
    exact hl.serve hheld hg hident (hgroup.trans hg)
  · rw [if_neg hg]
    refine ⟨l, hl.congr (perm_of_held_ne hheld hg _) rfl rfl rfl ?_ rfl hl.flying_group⟩
    rw [ofGroup_append, ofGroup_singleton_ne (hgroup ▸ hg), append_nil]

/-! ### Messages in flight -/

theorem groupInFlight_eq_false_iff (s : FifoQueueStorage) (g : String) :
    s.groupInFlight g = false ↔ s.flying g = [] := by
  rw [groupInFlight, any_eq_false, flying, map_eq_nil_iff, filter_eq_nil_iff]

theorem flying_takeInFlight_subset (s : FifoQueueStorage) (handle : String) (g : String) :
    ∀ msg ∈ (s.takeInFlight handle).flying g, msg ∈ s.flying g := by
  intro msg hmsg
  obtain ⟨e, he, rfl⟩ := mem_map.mp hmsg
  obtain ⟨he, hg⟩ := mem_filter.mp he
  exact mem_map_of_mem (mem_filter.mpr ⟨(kerase_sublist _ _).subset he, hg⟩)

variable {ifm : FifoInFlightMessage}

theorem flying_perm_held (hlookup : s.inFlight.lookup handle = some ifm)
    (held : List QueueMessage) :
    (s.flying ifm.groupId ++ ofGroup held ifm.groupId).Perm
      (ifm.message :: ((s.takeInFlight handle).flying ifm.groupId ++
        ofGroup held ifm.groupId)) := by
  have hperm := flying_perm ifm.groupId hlookup
  rw [if_pos rfl] at hperm
  exact hperm.append_right _

/-- No other message of its group is in flight. -/
theorem Ordered.unblockIdle_eq (h : s.Ordered held log acc)
    (hlookup : s.inFlight.lookup handle = some ifm) {s' : FifoQueueStorage}
    (hs' : s'.inFlight = (s.takeInFlight handle).inFlight) :
    s'.unblockIdle ifm.groupId = s'.unblock ifm.groupId := by
  obtain ⟨l, hl⟩ := h ifm.groupId
  obtain ⟨-, hnil⟩ := hl.out_eq (flying_perm_held hlookup held)
  have hflying : s'.flying ifm.groupId = [] := by
    rw [flying, hs']
    exact (append_eq_nil_iff.mp hnil).1
  rw [unblockIdle, (groupInFlight_eq_false_iff s' ifm.groupId).mpr hflying]
  rfl

theorem Ordered.deleteMessage (h : s.Ordered held log acc) (handle : String) :
    (s.deleteMessage handle).1.Ordered held log acc := by
  unfold FifoQueueStorage.deleteMessage
  split
  · exact h
  · next ifm hlookup =>
      dsimp only
      rw [h.unblockIdle_eq hlookup rfl]
      intro g
      obtain ⟨l, hl⟩ := h g
      have hflying : ∀ msg ∈ (s.takeInFlight handle).flying g, msg.group = g := fun msg hmsg =>
        hl.flying_group msg (flying_takeInFlight_subset s handle g msg hmsg)
      rw [view_unblock]
      split
      · next hg =>
          subst hg
          exact ⟨_, hl.drop (flying_perm_held hlookup held) hflying⟩
      · next hg =>
          have hperm := flying_perm g hlookup
          rw [if_neg hg] at hperm
          exact ⟨l, hl.congr (hperm.symm.append_right _) rfl rfl rfl rfl rfl hflying⟩

theorem Ordered.giveBack (h : s.Ordered held log acc) (handle : String) :
    (s.giveBack handle).Ordered held log acc := by
  unfold FifoQueueStorage.giveBack
  split
  · exact h
  · next ifm hlookup =>
      have hunblock : ((s.takeInFlight handle).pushFront ifm.groupId ifm.message).unblockIdle
          ifm.groupId = _ := h.unblockIdle_eq hlookup rfl
      rw [hunblock]
      intro g
      obtain ⟨l, hl⟩ := h g
      have hflying : ∀ msg ∈ (s.takeInFlight handle).flying g, msg.group = g := fun msg hmsg =>
        hl.flying_group msg (flying_takeInFlight_subset s handle g msg hmsg)
      rw [view_unblock, view_pushFront]
      split
      · next hg =>
          subst hg
          have hgroup : ifm.message.group = ifm.groupId := by
            have hperm := flying_perm ifm.groupId hlookup
            rw [if_pos rfl] at hperm
            exact hl.flying_group _ (hperm.mem_iff.mpr (.head _))
          exact ⟨_, hl.putBack hgroup (flying_perm_held hlookup held) hflying⟩
      · next hg =>
          have hperm := flying_perm g hlookup
          rw [if_neg hg] at hperm
          exact ⟨l, hl.congr (hperm.symm.append_right _) rfl rfl rfl rfl rfl hflying⟩

theorem Ordered.changeVisibility (h : s.Ordered held log acc) (now : Instant) (handle : String)
    (visibleAt : Instant) : (s.changeVisibility now handle visibleAt).1.Ordered held log acc := by
  unfold FifoQueueStorage.changeVisibility
  split
  · exact h
  · next ifm hlookup =>
      split
      · exact h.giveBack handle
      · intro g
        obtain ⟨l, hl⟩ := h g
        have hperm := flying_perm g hlookup
        rw [view_markInFlight]
        refine ⟨l, hl.congr (hperm.symm.append_right _) rfl rfl rfl rfl rfl fun msg hmsg => ?_⟩
        exact hl.flying_group msg (hperm.mem_iff.mpr hmsg)

theorem Ordered.returnExpiredInflight (h : s.Ordered held log acc) (m : Moment) :
    (s.returnExpiredInflight m).1.Ordered held log acc := by
  unfold FifoQueueStorage.returnExpiredInflight
  induction s.expired m generalizing s with
  | nil => exact h
  | cons handle handles ih => exact ih (h.giveBack handle)

theorem Ordered.cleanDedupCache (h : s.Ordered held log acc) (now : Instant) :
    (s.cleanDedupCache now).Ordered held log acc := h

theorem Ordered.purge (h : s.Ordered held log acc) : s.purge.Ordered [] log acc := by
  intro g
  obtain ⟨l, hl⟩ := h g
  exact ⟨_, hl.clear⟩

/-! ## Receipt handles -/

/-- No handle from `drawn` on is in use. -/
def FreshFrom (env : SqsEnv) (s : FifoQueueStorage) (drawn : ℕ) : Prop :=
  ∀ n, drawn ≤ n → env.receiptHandles n ∉ s.inFlight

section

variable {env : SqsEnv} {s' : FifoQueueStorage} {drawn : ℕ}

theorem FreshFrom.of_subset (h : s.FreshFrom env drawn)
    (hsubset : ∀ handle, handle ∈ s'.inFlight → handle ∈ s.inFlight) : s'.FreshFrom env drawn :=
  fun n hn hmem => h n hn (hsubset _ hmem)

theorem FreshFrom.markInFlight (h : s.FreshFrom env drawn) (msg : QueueMessage) (g : String)
    (visibleAt : Instant) :
    (s.markInFlight (env.receiptHandles drawn) msg g visibleAt).FreshFrom env (drawn + 1) := by
  intro n hn hmem
  rcases AList.mem_insert _ |>.mp hmem with heq | hmem
  · have hn' := env.receiptHandles_injective heq
    omega
  · exact h n (Nat.le_of_succ_le hn) hmem

theorem mem_inFlight_giveBack {handle other : String} (h : other ∈ (s.giveBack handle).inFlight) :
    other ∈ s.inFlight := by
  unfold giveBack at h
  split at h
  · exact h
  · unfold unblockIdle at h
    split at h <;> exact (AList.mem_erase.mp h).2

theorem mem_inFlight_deleteMessage {handle other : String}
    (h : other ∈ (s.deleteMessage handle).1.inFlight) : other ∈ s.inFlight := by
  unfold deleteMessage at h
  split at h
  · exact h
  · unfold unblockIdle at h
    split at h <;> exact (AList.mem_erase.mp h).2

theorem mem_inFlight_changeVisibility {now visibleAt : Instant} {handle other : String}
    (h : other ∈ (s.changeVisibility now handle visibleAt).1.inFlight) : other ∈ s.inFlight := by
  unfold changeVisibility at h
  split at h
  · exact h
  · next hlookup =>
      split at h
      · exact mem_inFlight_giveBack h
      · rcases AList.mem_insert _ |>.mp h with heq | hmem
        · rw [heq]
          exact AList.lookup_isSome.mp (by rw [hlookup]; rfl)
        · exact hmem

theorem mem_inFlight_returnExpired {m : Moment} {other : String}
    (h : other ∈ (s.returnExpiredInflight m).1.inFlight) : other ∈ s.inFlight := by
  unfold returnExpiredInflight at h
  generalize s.expired m = handles at h
  induction handles generalizing s with
  | nil => exact h
  | cons handle handles ih => exact mem_inFlight_giveBack (ih h)

theorem inFlight_receiveLoop (max : ℕ) (keys : List String) (s : FifoQueueStorage)
    (result : List (QueueMessage × String)) :
    (receiveLoop max keys s result).1.inFlight = s.inFlight := by
  induction keys generalizing s result with
  | nil => rfl
  | cons key keys ih =>
      rw [receiveLoop]
      split
      · rfl
      split
      · exact ih _ _
      split
      · exact ih _ _
      · exact ih _ _

theorem inFlight_enqueue (s : FifoQueueStorage) (now : Instant) (msg : QueueMessage)
    (key : DedupKey) : (s.enqueue now msg key).1.inFlight = s.inFlight := by
  unfold enqueue
  split <;> rfl

theorem inFlight_finishRedrive (s : FifoQueueStorage) (g : String)
    (restore : Option QueueMessage) : (s.finishRedrive g restore).inFlight = s.inFlight := by
  cases restore <;> rfl

end

end FifoQueueStorage

end Rustack.SQS
