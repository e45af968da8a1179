import Rustack.SQS.AttributeLanguage
import Rustack.SQS.Message

/-!
# Updates of a live queue

A loop over the entries that changes the attributes in place.  What an entry does is told
from the attributes before the update, since every name occurs once.
-/

namespace Rustack.SQS.QueueAttributes

open List
open Except (bind_eq_ok)

variable {codec : PolicyCodec} {isFifo : Bool} {self self' : QueueAttributes}
  {key value : String}

/-! ## One entry -/

/-- An entry sets its attribute in the same way whatever the others are. -/
theorem updateEntry_transfer (h : self.updateEntry codec isFifo key value = .ok self')
    (other : QueueAttributes) :
    other.updateEntry codec isFifo key value = .ok (self'.adopt other key) := by
  unfold updateEntry at h
  split at h
  case h_1 | h_2 | h_3 | h_4 | h_5 | h_13 =>
    obtain ⟨n, hn, h⟩ := bind_eq_ok.mp h
    cases h
    simp only [updateEntry, hn]
    rfl
  case h_6 =>
    by_cases hempty : value.isEmpty
    · rw [if_pos hempty] at h
      cases h
      simp only [updateEntry, hempty, if_true]
      rfl
    · rw [if_neg hempty] at h
      obtain ⟨policy, hpolicy, h⟩ := bind_eq_ok.mp h
      cases h
      simp only [updateEntry, hempty, hpolicy]
      rfl
  case h_7 | h_11 | h_12 | h_14 =>
    cases h
    rfl
  case h_8 | h_9 | h_10 =>
    cases isFifo with
    | false => cases h
    | true =>
        cases h
        rfl
  case h_15 => cases h

/-- Setting what was set changes nothing more. -/
theorem adopt_of_updateEntry (h : self.updateEntry codec isFifo key value = .ok self') :
    self'.adopt self key = self' :=
  (Except.ok.inj (h.symm.trans (updateEntry_transfer h self))).symm

theorem adopt_adopt_self (origin self other : QueueAttributes) (name : String) :
    (origin.adopt self name).adopt other name = origin.adopt other name := by
  unfold adopt
  split <;> rfl

theorem adopt_adopt_of_ne (origin self other : QueueAttributes) {name name' : String}
    (h : name ≠ name') : (origin.adopt self name).adopt other name' = self.adopt other name' := by
  unfold adopt
  split
  case h_15 => rfl
  all_goals split <;> first | rfl | exact absurd rfl h

theorem adopt_self (self : QueueAttributes) (name : String) : self.adopt self name = self := by
  unfold adopt
  split <;> rfl

/-! ## Many entries -/

/-- A text is a number in a range. -/
def InRange (value : String) (min max : ℤ) : Prop :=
  ∃ n, parseI32 value = some n ∧ min ≤ n ∧ n ≤ max

/-- A queue of the kind takes the entry. -/
def Accepted (codec : PolicyCodec) (isFifo : Bool) (e : Sigma fun _ : String => String) : Prop :=
  match e.1 with
  | "DelaySeconds" => InRange e.2 0 900
  | "MaximumMessageSize" => InRange e.2 1024 262144
  | "MessageRetentionPeriod" => InRange e.2 60 1209600
  | "ReceiveMessageWaitTimeSeconds" => InRange e.2 0 20
  | "VisibilityTimeout" => InRange e.2 0 43200
  | "RedrivePolicy" => e.2.isEmpty = true ∨ ∃ policy, codec.fromStr e.2 = .ok policy
  | "RedriveAllowPolicy" => True
  | "ContentBasedDeduplication" => isFifo = true
  | "DeduplicationScope" => isFifo = true
  | "FifoThroughputLimit" => isFifo = true
  | "Policy" => True
  | "KmsMasterKeyId" => True
  | "KmsDataKeyReusePeriodSeconds" => InRange e.2 60 86400
  | "SqsManagedSseEnabled" => True
  | _ => False

/-- The queue holds what the entry sets. -/
def Held (codec : PolicyCodec) (self : QueueAttributes) (e : Sigma fun _ : String => String) :
    Prop :=
  match e.1 with
  | "DelaySeconds" => parseI32 e.2 = some self.delaySeconds
  | "MaximumMessageSize" => parseI32 e.2 = some self.maximumMessageSize
  | "MessageRetentionPeriod" => parseI32 e.2 = some self.messageRetentionPeriod
  | "ReceiveMessageWaitTimeSeconds" => parseI32 e.2 = some self.receiveMessageWaitTimeSeconds
  | "VisibilityTimeout" => parseI32 e.2 = some self.visibilityTimeout
  | "RedrivePolicy" =>
    (if e.2.isEmpty then none else (codec.fromStr e.2).toOption) = self.redrivePolicy
  | "RedriveAllowPolicy" => orCleared e.2 = self.redriveAllowPolicy
  | "ContentBasedDeduplication" => parseFlag e.2 = self.contentBasedDeduplication
  | "DeduplicationScope" => e.2 = self.deduplicationScope
  | "FifoThroughputLimit" => e.2 = self.fifoThroughputLimit
  | "Policy" => orCleared e.2 = self.policy
  | "KmsMasterKeyId" => orCleared e.2 = self.kmsMasterKeyId
  | "KmsDataKeyReusePeriodSeconds" => parseI32 e.2 = self.kmsDataKeyReusePeriodSeconds
  | "SqsManagedSseEnabled" => parseFlag e.2 = self.sqsManagedSseEnabled
  | _ => False

variable {entries before behind : List (Sigma fun _ : String => String)}
  {e : Sigma fun _ : String => String}

/-- What becomes of an entry: it is taken, and changes nothing where it is held, or refused. -/
structure EntryUpdate (accepted held : Prop) (attributes : QueueAttributes)
    (r : Except SqsError QueueAttributes) : Prop where
  taken : accepted → ∃ target, r = .ok target ∧ (held ↔ target = attributes)
  refused : ¬accepted → ∃ error, r = .error error

theorem EntryUpdate.ok {held : Prop} {target : QueueAttributes} (h : held ↔ target = self) :
    EntryUpdate True held self (.ok target) :=
  ⟨fun _ => ⟨target, rfl, h⟩, fun hnot => absurd trivial hnot⟩

theorem EntryUpdate.fifoOnly {held : Prop} {target : QueueAttributes}
    (h : held ↔ target = self) : EntryUpdate (isFifo = true) held self
      (if !isFifo then .error (unknownAttribute key) else .ok target) := by
  cases isFifo with
  | false => exact ⟨nofun, fun _ => ⟨_, rfl⟩⟩
  | true => exact ⟨fun _ => ⟨target, rfl, h⟩, fun hnot => absurd rfl hnot⟩

theorem EntryUpdate.number {held : Option ℤ} {min max : ℤ} (set : ℤ → QueueAttributes)
    (h : ∀ n, some n = held ↔ set n = self) :
    EntryUpdate (InRange value min max) (parseI32 value = held) self
      (do return set (← parseI32Range key value min max)) := by
  constructor
  · rintro ⟨n, hn, hrange⟩
    refine ⟨set n, ?_, by rw [hn, h]⟩
    rw [parseI32Range_eq_ok.mpr ⟨hn, hrange⟩]
    rfl
  · intro hnot
    cases hread : parseI32Range key value min max with
    | error error => exact ⟨error, rfl⟩
    | ok n => exact absurd ⟨n, parseI32Range_eq_ok.mp hread⟩ hnot

theorem updateEntry_spec (codec : PolicyCodec) (isFifo : Bool) (self : QueueAttributes)
    (e : Sigma fun _ : String => String) : EntryUpdate (Accepted codec isFifo e)
      (Held codec self e) self (self.updateEntry codec isFifo e.1 e.2) := by
  obtain ⟨key, value⟩ := e
  unfold Accepted
  dsimp only
  split
  case h_1 | h_2 | h_3 | h_4 | h_5 | h_13 => exact .number _ fun n => by cases self; simp
  case h_6 =>
    cases hempty : value.isEmpty with
    | true =>
        simp only [Held, updateEntry, hempty, if_true, true_or]
        exact .ok (by cases self; simp)
    | false =>
        simp only [Held, updateEntry, hempty, PolicyCodec.read]
        cases hread : codec.fromStr value with
        | error error =>
            refine ⟨fun htaken => ?_, fun _ => ⟨_, rfl⟩⟩
            obtain htrue | ⟨policy, hpolicy⟩ := htaken
            · cases htrue
            · cases hpolicy
        | ok policy =>
            refine ⟨fun _ => ⟨_, rfl, ?_⟩, fun hnot => absurd (.inr ⟨policy, rfl⟩) hnot⟩
            cases self
            simp [Except.toOption]
  case h_7 | h_11 | h_12 | h_14 => exact .ok (by cases self; simp [Held])
  case h_8 | h_9 | h_10 => exact .fifoOnly (by cases self; simp [Held])
  case h_15 =>
    refine ⟨False.elim, fun _ => ?_⟩
    unfold updateEntry
    split
    case h_15 => exact ⟨_, rfl⟩
    all_goals exact absurd rfl ‹_›

/-- An accepted entry, as `updateEntry` takes it. -/
theorem Accepted.exists_target (h : Accepted codec isFifo e) (self : QueueAttributes) :
    ∃ target, self.updateEntry codec isFifo e.1 e.2 = .ok target ∧
      (Held codec self e ↔ target = self) :=
  (updateEntry_spec codec isFifo self e).taken h

theorem updateEntries_append (hbefore : self.updateEntries codec isFifo before = (self', .ok ())) :
    self.updateEntries codec isFifo (before ++ behind) =
      self'.updateEntries codec isFifo behind := by
  induction before generalizing self with
  | nil =>
      cases hbefore
      rfl
  | cons b before ih =>
      rw [updateEntries] at hbefore
      rw [cons_append, updateEntries]
      split at hbefore
      · cases hbefore
      next target hread =>
      exact ih hbefore

/-- A loop that goes through has set what each entry sets, and nothing else. -/
theorem exists_updateEntries (hentries : ∀ b ∈ entries, Accepted codec isFifo b)
    (hnodup : (entries.map Sigma.fst).Nodup) :
    ∃ result, self.updateEntries codec isFifo entries = (result, .ok ()) ∧
      (∀ b ∈ entries, ∀ target, self.updateEntry codec isFifo b.1 b.2 = .ok target →
        ∀ other, result.adopt other b.1 = target.adopt other b.1) ∧
      ∀ name, name ∉ entries.map Sigma.fst →
        ∀ other, result.adopt other name = self.adopt other name := by
  induction entries generalizing self with
  | nil => exact ⟨self, rfl, fun b hb => absurd hb not_mem_nil, fun _ _ _ => rfl⟩
  | cons b entries ih =>
      rw [forall_mem_cons] at hentries
      rw [map_cons, nodup_cons] at hnodup
      obtain ⟨target, htarget, -⟩ := hentries.1.exists_target self
      obtain ⟨result, hresult, hset, hkept⟩ := @ih target hentries.2 hnodup.2
      refine ⟨result, ?_, fun c hc => ?_, fun name hname other => ?_⟩
      · rw [updateEntries, htarget]
        exact hresult
      · intro chosen hchosen other
        rcases mem_cons.mp hc with rfl | hc
        · cases htarget.symm.trans hchosen
          exact hkept c.1 hnodup.1 other
        · rw [hset c hc _ (updateEntry_transfer hchosen target) other, adopt_adopt_self]
      · rw [map_cons, mem_cons, not_or] at hname
        rw [hkept name hname.2 other, ← adopt_of_updateEntry htarget,
          adopt_adopt_of_ne target self other (Ne.symm hname.1)]

/-- The loop leaves the attributes alone just when each entry does. -/
theorem updateEntries_eq_self_iff (hentries : ∀ b ∈ entries, Accepted codec isFifo b)
    (hnodup : (entries.map Sigma.fst).Nodup)
    (h : self.updateEntries codec isFifo entries = (self', .ok ())) :
    self' = self ↔ ∀ b ∈ entries, Held codec self b := by
  constructor
  · rintro rfl b hb
    obtain ⟨result, hresult, hset, -⟩ := exists_updateEntries hentries hnodup
    cases h.symm.trans hresult
    obtain ⟨target, htarget, hheld⟩ := (hentries b hb).exists_target self'
    have hsame := hset b hb target htarget self'
    rw [adopt_self, adopt_of_updateEntry htarget] at hsame
    exact hheld.mpr hsame.symm
  · intro hall
    induction entries with
    | nil =>
        cases h
        rfl
    | cons b entries ih =>
        rw [forall_mem_cons] at hentries hall
        rw [map_cons, nodup_cons] at hnodup
        obtain ⟨target, htarget, hheld⟩ := hentries.1.exists_target self
        rw [hheld.mp hall.1] at htarget
        rw [updateEntries, htarget] at h
        exact ih hentries.2 hnodup.2 h hall.2

/-! ## Whole updates -/

/-- What `fromMap` holds a new queue to. -/
structure Legal (attributes : QueueAttributes) (isFifo : Bool) : Prop where
  regular : attributes.Regular isFifo
  importable : attributes.Importable isFifo

/-- The attributes a queue can have: those of a new queue, and what updates make of them. -/
inductive Reached (codec : PolicyCodec) (isFifo : Bool) : QueueAttributes → Prop
  | created {attrs : StringMap} {self : QueueAttributes}
      (h : fromMap codec attrs isFifo = .ok self) : Reached codec isFifo self
  | updated {self : QueueAttributes} (attrs : StringMap) (h : Reached codec isFifo self) :
      Reached codec isFifo (self.updateFromMap codec attrs isFifo).1

theorem Reached.regular (h : Reached codec isFifo self) : self.Regular isFifo := by
  induction h with
  | created h => exact fromMap_regular h
  | updated attrs _ ih => exact updateFromMap_regular ih attrs

/-- The redrive policy an update asks for, where it is none of the queue's own. -/
def askedPolicy (codec : PolicyCodec) (self : QueueAttributes) (attrs : StringMap) :
    Option RedrivePolicy :=
  match attrs.lookup "RedrivePolicy" with
  | none => self.redrivePolicy
  | some value => if value.isEmpty then none else (codec.fromStr value).toOption

/-- What an update asks for may stay. -/
structure Asks (codec : PolicyCodec) (isFifo : Bool) (held : QueueAttributes) (attrs : StringMap) :
    Prop where
  redrivePolicy : ∀ policy, askedPolicy codec held attrs = some policy → 1 ≤ policy.maxReceiveCount
  deduplicationScope : isFifo = true →
    (attrs.lookup "DeduplicationScope").getD held.deduplicationScope = "queue" ∨
      (attrs.lookup "DeduplicationScope").getD held.deduplicationScope = "messageGroup"

/-- An update that fails leaves the attributes as they were, and one that goes through leaves
them legal. -/
structure AllOrNothing (codec : PolicyCodec) (isFifo : Bool) (held : QueueAttributes)
    (attrs : StringMap) : Prop where
  nothing : ∀ e, (held.updateFromMap codec attrs isFifo).2 = .error e →
    (held.updateFromMap codec attrs isFifo).1 = held
  all : (held.updateFromMap codec attrs isFifo).2 = .ok () →
    (held.updateFromMap codec attrs isFifo).1.Legal isFifo

theorem exists_first_refused (h : ¬∀ e ∈ entries, Accepted codec isFifo e) :
    ∃ before e behind, entries = before ++ e :: behind ∧ ¬Accepted codec isFifo e ∧
      ∀ b ∈ before, Accepted codec isFifo b := by
  induction entries with
  | nil => exact absurd (fun e he => absurd he not_mem_nil) h
  | cons b entries ih =>
      by_cases hb : Accepted codec isFifo b
      · rw [forall_mem_cons, not_and] at h
        obtain ⟨before, e, behind, rfl, he, hbefore⟩ := ih (h hb)
        exact ⟨b :: before, e, behind, rfl, he, forall_mem_cons.mpr ⟨hb, hbefore⟩⟩
      · exact ⟨[], b, entries, rfl, hb, fun c hc => absurd hc not_mem_nil⟩

/-- The loop ends at the first refused entry, with what it has set so far. -/
theorem updateFromMap_refused {attrs : StringMap} (hentries : attrs.entries = before ++ e :: behind)
    (he : ¬Accepted codec isFifo e) (hbefore : ∀ b ∈ before, Accepted codec isFifo b) :
    ∃ error, (self.updateFromMap codec attrs isFifo).2 = .error error ∧
      ((self.updateFromMap codec attrs isFifo).1 = self ↔
        ∀ b ∈ before, Held codec self b) := by
  have hnodup : (before.map Sigma.fst).Nodup := by
    have hkeys := attrs.nodupKeys
    rw [hentries] at hkeys
    exact (hkeys.sublist (sublist_append_left _ _))
  obtain ⟨result, hresult, -⟩ := exists_updateEntries hbefore hnodup
  obtain ⟨error, herror⟩ := (updateEntry_spec codec isFifo result e).refused he
  have hupdate : self.updateFromMap codec attrs isFifo = (result, .error error) := by
    rw [updateFromMap, hentries, updateEntries_append hresult, updateEntries, herror]
  rw [hupdate]
  exact ⟨error, rfl, updateEntries_eq_self_iff hbefore hnodup hresult⟩

/-- After an update that goes through stand the policy and the scope it asked for. -/
theorem updateFromMap_asks {attrs : StringMap}
    (hentries : ∀ e ∈ attrs.entries, Accepted codec isFifo e) :
    (self.updateFromMap codec attrs isFifo).2 = .ok () ∧
      (self.updateFromMap codec attrs isFifo).1.redrivePolicy = askedPolicy codec self attrs ∧
      (isFifo = true → (self.updateFromMap codec attrs isFifo).1.deduplicationScope =
        (attrs.lookup "DeduplicationScope").getD self.deduplicationScope) := by
  obtain ⟨result, hresult, hset, hkept⟩ := exists_updateEntries hentries attrs.nodupKeys
  have hupdate : self.updateFromMap codec attrs isFifo = (result, .ok ()) := hresult
  rw [hupdate]
  refine ⟨rfl, ?_, fun hfifo => ?_⟩
  · rw [askedPolicy]
    cases hlookup : attrs.lookup "RedrivePolicy" with
    | none =>
        rw [AList.lookup_eq_none, AList.mem_keys] at hlookup
        have hsame := congrArg QueueAttributes.redrivePolicy (hkept "RedrivePolicy" hlookup self)
        exact hsame
    | some value =>
        have hmem := AList.mem_lookup_iff.mp hlookup
        obtain ⟨target, htarget, -⟩ := (hentries _ hmem).exists_target self
        have hpolicy := congrArg QueueAttributes.redrivePolicy (hset _ hmem target htarget self)
        have hasked : target.redrivePolicy =
            if value.isEmpty then none else (codec.fromStr value).toOption := by
          by_cases hempty : value.isEmpty
          · simp only [updateEntry, hempty, if_true] at htarget ⊢
            cases htarget
            rfl
          · simp only [updateEntry, hempty] at htarget ⊢
            obtain ⟨policy, hread, htarget⟩ := bind_eq_ok.mp htarget
            cases htarget
            rw [PolicyCodec.read, Outcome.except_mapError_eq_ok] at hread
            rw [hread]
            rfl
        exact hpolicy.trans hasked
  · cases hlookup : attrs.lookup "DeduplicationScope" with
    | none =>
        rw [AList.lookup_eq_none, AList.mem_keys] at hlookup
        have hsame := congrArg QueueAttributes.deduplicationScope
          (hkept "DeduplicationScope" hlookup self)
        exact hsame
    | some value =>
        have hmem := AList.mem_lookup_iff.mp hlookup
        obtain ⟨target, htarget, -⟩ := (hentries _ hmem).exists_target self
        have hscope := congrArg QueueAttributes.deduplicationScope (hset _ hmem target htarget self)
        subst hfifo
        cases htarget
        exact hscope

/-- An update is all or nothing just when all before the first refused entry is held already, and
what it asks for may stay. -/
theorem allOrNothing_iff (h : Reached codec isFifo self) (attrs : StringMap) :
    AllOrNothing codec isFifo self attrs ↔
      (∀ before e behind, attrs.entries = before ++ e :: behind → ¬Accepted codec isFifo e →
        (∀ b ∈ before, Accepted codec isFifo b) → ∀ b ∈ before, Held codec self b) ∧
      ((∀ e ∈ attrs.entries, Accepted codec isFifo e) → Asks codec isFifo self attrs) := by
  constructor
  · intro hall
    refine ⟨fun before e behind hentries he hbefore => ?_, fun hentries => ?_⟩
    · obtain ⟨error, herror, hsame⟩ := updateFromMap_refused hentries he hbefore
      exact hsame.mp (hall.nothing error herror)
    · obtain ⟨hok, hpolicy, hscope⟩ := updateFromMap_asks hentries
      have hlegal := (hall.all hok).importable
      refine ⟨fun policy hasked => hlegal.redrivePolicy policy (hpolicy.trans hasked), ?_⟩
      intro hfifo
      rw [← hscope hfifo]
      exact hlegal.deduplicationScope hfifo
  · rintro ⟨hidle, hasks⟩
    by_cases hentries : ∀ e ∈ attrs.entries, Accepted codec isFifo e
    · obtain ⟨hok, hpolicy, hscope⟩ := updateFromMap_asks hentries
      refine ⟨fun e he => ?_, fun _ => ⟨updateFromMap_regular h.regular attrs, ?_, ?_⟩⟩
      · rw [hok] at he
        cases he
      · intro policy hheld
        exact (hasks hentries).redrivePolicy policy (hpolicy.symm.trans hheld)
      · intro hfifo
        rw [hscope hfifo]
        exact (hasks hentries).deduplicationScope hfifo
    · obtain ⟨before, e, behind, hsplit, he, hbefore⟩ := exists_first_refused hentries
      obtain ⟨error, herror, hsame⟩ := updateFromMap_refused hsplit he hbefore
      refine ⟨fun _ _ => hsame.mpr (hidle before e behind hsplit he hbefore), fun hok => ?_⟩
      rw [herror] at hok
      cases hok

def deadLetters (maxReceiveCount : ℤ) : RedrivePolicy :=
  ⟨"arn:aws:sqs:us-east-1:000000000000:dead.fifo", maxReceiveCount⟩

def reader : PolicyCodec := policyReader [deadLetters 3, deadLetters 5]

/-- What a FIFO queue is created with. -/
def ordersAttributes : StringMap where
  entries := [⟨"DelaySeconds", "5"⟩, ⟨"DeduplicationScope", "messageGroup"⟩,
    ⟨"RedrivePolicy", policyText (deadLetters 3)⟩]
  nodupKeys := by simp [List.NodupKeys, keys]

def orders : QueueAttributes :=
  { default with delaySeconds := 5, deduplicationScope := "messageGroup",
                 redrivePolicy := some (deadLetters 3) }

/-- Two entries that are held already, in front of one that is refused. -/
def refusedUpdate : StringMap where
  entries := [⟨"RedrivePolicy", policyText (deadLetters 3)⟩, ⟨"DelaySeconds", "5"⟩,
    ⟨"VisibilityTimeout", "x"⟩]
  nodupKeys := by simp [List.NodupKeys, keys]

def acceptedUpdate : StringMap where
  entries := [⟨"RedrivePolicy", policyText (deadLetters 5)⟩, ⟨"DeduplicationScope", "queue"⟩,
    ⟨"VisibilityTimeout", "60"⟩]
  nodupKeys := by simp [List.NodupKeys, keys]

theorem allOrNothing_orders : AllOrNothing reader true orders refusedUpdate ∧
    AllOrNothing reader true orders acceptedUpdate := by
  have hcreated : fromMap reader ordersAttributes true = .ok orders := by decide +kernel
  have hx : parseI32 "x" = none := by decide +kernel
  refine ⟨(allOrNothing_iff (.created hcreated) _).mpr ⟨?_, fun hall => ?_⟩,
    (allOrNothing_iff (.created hcreated) _).mpr ⟨?_, fun _ => ⟨?_, fun _ => .inl rfl⟩⟩⟩
  · intro before e behind hentries _ hbefore b hb
    have hmem : b ∈ refusedUpdate.entries := hentries ▸ mem_append_left _ hb
    have haccepted := hbefore b hb
    simp only [refusedUpdate, mem_cons, not_mem_nil, or_false] at hmem
    rcases hmem with rfl | rfl | rfl
    · exact (by decide +kernel : (if (policyText (deadLetters 3)).isEmpty then none
        else (reader.fromStr (policyText (deadLetters 3))).toOption) = some (deadLetters 3))
    · exact (by decide +kernel : parseI32 "5" = some 5)
    · obtain ⟨n, hn, -⟩ := haccepted
      cases hx.symm.trans hn
  · obtain ⟨n, hn, -⟩ := hall ⟨"VisibilityTimeout", "x"⟩ (by simp [refusedUpdate])
    cases hx.symm.trans hn
  · intro before e behind hentries he
    refine absurd ?_ he
    have hmem : e ∈ acceptedUpdate.entries := hentries ▸ mem_append_right _ (.head _)
    simp only [acceptedUpdate, mem_cons, not_mem_nil, or_false] at hmem
    rcases hmem with rfl | rfl | rfl
    · exact .inr ⟨deadLetters 5, by decide +kernel⟩
    · exact rfl
    · exact ⟨60, by decide +kernel, by decide, by decide⟩
  · intro policy hasked
    have hpolicy : askedPolicy reader orders acceptedUpdate = some (deadLetters 5) := by
      decide +kernel
    rw [hpolicy] at hasked
    cases hasked
    decide

/-- A bad timeout behind a good delay. -/
theorem updateFromMap_half_applied :
    ∃ attrs : StringMap, attrs.entries = [⟨"DelaySeconds", "5"⟩, ⟨"VisibilityTimeout", "x"⟩] ∧
      Reached (policyReader []) false default ∧
      default.updateFromMap (policyReader []) attrs false =
        ({ default with delaySeconds := 5 }, .error (.invalidParameterValue
          "Invalid value for the parameter VisibilityTimeout.")) := by
  refine ⟨⟨[⟨"DelaySeconds", "5"⟩, ⟨"VisibilityTimeout", "x"⟩], ?_⟩, rfl,
    @Reached.created _ _ ∅ _ rfl, ?_⟩
  · simp [List.NodupKeys, keys]
  · decide +kernel

end Rustack.SQS.QueueAttributes
