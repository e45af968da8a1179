import Rustack.SQS.AttributeLanguage
import Rustack.SQS.Provider

/-!
# Snapshots restore what they export

A run of create, configure, tag and delete keeps every queue well formed: its URL
and ARN belong to its name and its attributes are in range.  The snapshot of such
a state is read back into the same queues if no queue has a redrive count below
one or a deduplication scope that is no choice, and only then.
-/

namespace Rustack.SQS

open List QueueAttributes

inductive SqsOp where
  | createQueue (input : CreateQueueInput)
  | setQueueAttributes (url : String) (attributes : StringMap)
  | tagQueue (url : String) (tags : StringMap)
  | untagQueue (url : String) (keys : List String)
  | deleteQueue (url : String)

namespace RustackSqs

variable (env : SqsEnv) (config : SqsConfig)

/-- The state after an operation; a failed one changes nothing, except that an update keeps
the attributes before the bad one. -/
def step (m : Moment) (s : RustackSqs) : SqsOp → RustackSqs
  | .createQueue input =>
    match s.createQueue env config m.epochSeconds input with
    | .error _ => s
    | .ok (s, _) => s
  | .setQueueAttributes url attributes => (s.setQueueAttributes env m url attributes).1
  | .tagQueue url tags => (s.tagQueue url tags).1
  | .untagQueue url keys => (s.untagQueue url keys).1
  | .deleteQueue url =>
    match s.deleteQueue url with
    | .error _ => s
    | .ok s => s

inductive Reachable : RustackSqs → Prop where
  | empty : Reachable empty
  | step {s : RustackSqs} (h : Reachable s) (m : Moment) (op : SqsOp) :
      Reachable (s.step env config m op)

end RustackSqs

/-! ## Well-formed queues -/

/-- What a queue has by its name, and attributes in range. -/
structure QueueHandle.WellFormed (config : SqsConfig) (name : String) (handle : QueueHandle) :
    Prop where
  valid : validateQueueName name = .ok ()
  name_eq : handle.metadata.name = name
  url : handle.metadata.url = queueUrl config name
  arn : handle.metadata.arn = queueArn config name
  isFifo : handle.metadata.isFifo = isFifoName name
  actor_isFifo : handle.actor.isFifo = isFifoName name
  regular : handle.actor.attributes.Regular (isFifoName name)

namespace RustackSqs

def WellFormed (config : SqsConfig) (s : RustackSqs) : Prop :=
  ∀ name handle, s.queues.lookup name = some handle → handle.WellFormed config name

variable {env : SqsEnv} {config : SqsConfig} {s : RustackSqs}

theorem wellFormed_insert (hs : s.WellFormed config) {name : String} {handle : QueueHandle}
    (hhandle : handle.WellFormed config name) :
    WellFormed config { s with queues := s.queues.insert name handle } := by
  intro other handle' hlookup
  by_cases hname : other = name
  · subst hname
    rw [AList.lookup_insert] at hlookup
    cases hlookup
    exact hhandle
  · rw [AList.lookup_insert_ne hname] at hlookup
    exact hs other handle' hlookup

theorem newHandle_wellFormed {now : ℕ} {input : CreateQueueInput} {attributes : QueueAttributes}
    (hvalid : validateQueueName input.queueName = .ok ())
    (hattributes : fromMap env.policies input.attributes
      (isFifoName input.queueName) = .ok attributes) :
    (newHandle config now input attributes).WellFormed config input.queueName where
  valid := hvalid
  name_eq := rfl
  url := rfl
  arn := rfl
  isFifo := rfl
  actor_isFifo := rfl
  regular := fromMap_regular hattributes

/-- A queue is there already, or it is made with the attributes read from the map. -/
theorem createQueue_cases {now : ℕ} {input : CreateQueueInput} {s' : RustackSqs} {url : String}
    (h : s.createQueue env config now input = .ok (s', url)) :
    s' = s ∨ ∃ attributes, validateQueueName input.queueName = .ok () ∧
      fromMap env.policies input.attributes (isFifoName input.queueName) =
        .ok attributes ∧
      s' = { s with
        queues := s.queues.insert input.queueName (newHandle config now input attributes) } := by
  obtain ⟨_, hvalid, h⟩ := Except.bind_eq_ok.mp h
  obtain ⟨_, -, h⟩ := Except.bind_eq_ok.mp h
  split at h
  · split at h
    · cases h
    · cases h
      exact Or.inl rfl
  · obtain ⟨attributes, hattributes, h⟩ := Except.bind_eq_ok.mp h
    cases h
    exact Or.inr ⟨attributes, hvalid, hattributes, rfl⟩

/-- A command that leaves the kind of the queue and its ranges alone. -/
theorem modifyQueue_wellFormed (hs : s.WellFormed config) (url : String)
    {f : QueueActor → QueueActor × Except SqsError Unit}
    (hfifo : ∀ actor, (f actor).1.isFifo = actor.isFifo)
    (hregular : ∀ actor : QueueActor, actor.attributes.Regular actor.isFifo →
      (f actor).1.attributes.Regular actor.isFifo) :
    (s.modifyQueue url f).1.WellFormed config := by
  unfold modifyQueue
  cases hqueue : s.getQueue url with
  | error e => exact hs
  | ok found =>
      obtain ⟨name, handle⟩ := found
      have hlookup : s.queues.lookup name = some handle := by
        obtain ⟨name', -, hqueue⟩ := Except.bind_eq_ok.mp hqueue
        split at hqueue
        · cases hqueue
        · next hfound =>
            cases hqueue
            exact hfound
      have hhandle := hs name handle hlookup
      have hactor := hregular handle.actor (hhandle.actor_isFifo ▸ hhandle.regular)
      exact wellFormed_insert hs
        { hhandle with
          actor_isFifo := (hfifo handle.actor).trans hhandle.actor_isFifo
          regular := hhandle.actor_isFifo ▸ hactor }

theorem setAttributes_regular {actor : QueueActor} {m : Moment} (attributes : StringMap)
    (h : actor.attributes.Regular actor.isFifo) :
    (actor.setAttributes env m attributes).1.attributes.Regular actor.isFifo := by
  have hupdate := @QueueAttributes.updateFromMap_regular env.policies _ _ h attributes
  unfold QueueActor.setAttributes
  split
  · next hresult =>
      rw [hresult] at hupdate
      exact hupdate
  · next hresult =>
      rw [hresult] at hupdate
      exact hupdate

theorem setAttributes_isFifo (actor : QueueActor) (m : Moment) (attributes : StringMap) :
    (actor.setAttributes env m attributes).1.isFifo = actor.isFifo := by
  unfold QueueActor.setAttributes
  split <;> rfl

theorem step_wellFormed (hs : s.WellFormed config) (m : Moment) (op : SqsOp) :
    (s.step env config m op).WellFormed config := by
  cases op with
  | createQueue input =>
      rw [step]
      split
      · exact hs
      · next hcreate =>
          rcases createQueue_cases hcreate with rfl | ⟨attributes, hvalid, hattributes, rfl⟩
          · exact hs
          · exact wellFormed_insert hs (newHandle_wellFormed hvalid hattributes)
  | setQueueAttributes url attributes =>
      exact modifyQueue_wellFormed hs url (fun actor => setAttributes_isFifo actor m attributes)
        fun actor => setAttributes_regular attributes
  | tagQueue url tags =>
      exact modifyQueue_wellFormed hs url (fun actor => rfl) fun actor h => h
  | untagQueue url keys =>
      exact modifyQueue_wellFormed hs url (fun actor => rfl) fun actor h => h
  | deleteQueue url =>
      rw [step]
      split
      · exact hs
      · next hdelete =>
          obtain ⟨name, -, hdelete⟩ := Except.bind_eq_ok.mp hdelete
          cases hdelete
          intro other handle hlookup
          by_cases hname : other = name
          · rw [hname, AList.lookup_erase] at hlookup
            cases hlookup
          · rw [AList.lookup_erase_ne hname] at hlookup
            exact hs other handle hlookup

theorem Reachable.wellFormed (h : Reachable env config s) : s.WellFormed config := by
  induction h with
  | empty =>
      intro name handle hlookup
      cases (AList.lookup_empty name).symm.trans hlookup
  | step h m op ih => exact step_wellFormed ih m op

/-! ## What a snapshot holds -/

theorem mem_settableAttributeNames {name : String} (h : isSettableAttribute name = true) :
    name ∈ settableAttributeNames ∧ name ∈ attributeNames := by
  unfold isSettableAttribute at h
  split at h
  case h_16 => cases h
  all_goals decide

/-- The attributes of an exported queue, by name. -/
theorem lookup_snapshotQueue (name : String) (handle : QueueHandle) (key : String) :
    (snapshotQueue env name handle).attributes.lookup key =
      if isSettableAttribute key then
        handle.actor.attributes.attributeValue env.policies handle.actor.isFifo handle.actor.arn
          handle.actor.createdAt handle.actor.lastModifiedAt handle.actor.counts key
      else none := by
  rw [snapshotQueue, AList.lookup_retain]
  split
  · next hkey =>
      obtain ⟨hwanted, hname⟩ := mem_settableAttributeNames hkey
      have hmem : key ∈ attributeNames.filter fun name =>
          settableAttributeNames.isEmpty || settableAttributeNames.contains "All" ||
            settableAttributeNames.contains name := by
        refine mem_filter.mpr ⟨hname, ?_⟩
        rw [contains_iff_mem.mpr hwanted, Bool.or_true]
      rw [QueueActor.getAttributes, toMap, AList.lookup_ofNames]
      exact if_pos hmem
  · rfl

/-- The queues of a state with their names, in the order of export. -/
def exported (s : RustackSqs) : List (String × QueueHandle) :=
  (s.queues.keys.mergeSort).filterMap fun name => (s.queues.lookup name).map (Prod.mk name)

theorem exportSnapshot_eq_map (s : RustackSqs) :
    s.exportSnapshot env = s.exported.map fun e => snapshotQueue env e.1 e.2 := by
  rw [exportSnapshot, exported, map_filterMap]
  refine congrArg (fun f => filterMap f _) (funext fun name => ?_)
  rw [Option.map_map]
  rfl

theorem mem_exported {name : String} {handle : QueueHandle} :
    (name, handle) ∈ s.exported ↔ s.queues.lookup name = some handle := by
  rw [exported, mem_filterMap]
  constructor
  · rintro ⟨other, -, hother⟩
    obtain ⟨handle', hlookup, heq⟩ := Option.map_eq_some_iff.mp hother
    cases heq
    exact hlookup
  · intro hlookup
    refine ⟨name, (mergeSort_perm _ _).mem_iff.mpr ?_, by rw [hlookup]; rfl⟩
    rw [← AList.mem_keys, ← AList.lookup_isSome, hlookup]
    rfl

theorem exported_nodup (s : RustackSqs) : (s.exported.map Prod.fst).Nodup := by
  have hkeys : s.queues.keys.mergeSort.Nodup :=
    (mergeSort_perm _ _).nodup_iff.mpr s.queues.keys_nodup
  rw [exported, map_filterMap]
  refine hkeys.filterMap fun a b c ha hb => ?_
  obtain ⟨e, he, rfl⟩ := Option.map_eq_some_iff.mp ha
  obtain ⟨e', he', heq⟩ := Option.map_eq_some_iff.mp hb
  obtain ⟨_, -, rfl⟩ := Option.map_eq_some_iff.mp he
  obtain ⟨_, -, rfl⟩ := Option.map_eq_some_iff.mp he'
  exact heq.symm

/-! ## Import -/

/-- The entry of a queue in a snapshot: its name and, as maps, its attributes and tags. -/
structure EntryOf (env : SqsEnv) (e : String × QueueHandle) (queue : SqsQueueSnapshot) :
    Prop where
  name : queue.name = e.1
  attributes : ∀ key, queue.attributes.lookup key =
    (snapshotQueue env e.1 e.2).attributes.lookup key
  tags : ∀ key, queue.tags.lookup key = e.2.actor.tags.lookup key

end RustackSqs

/-- A queue as it was, its messages and time stamps apart. -/
structure QueueHandle.Restored (handle handle' : QueueHandle) : Prop where
  name : handle'.metadata.name = handle.metadata.name
  url : handle'.metadata.url = handle.metadata.url
  arn : handle'.metadata.arn = handle.metadata.arn
  isFifo : handle'.metadata.isFifo = handle.metadata.isFifo
  attributes : handle'.actor.attributes = handle.actor.attributes
  tags : ∀ key, handle'.actor.tags.lookup key = handle.actor.tags.lookup key

/-- What the import asks of a queue and live updates do not. -/
def QueueHandle.Importable (handle : QueueHandle) : Prop :=
  handle.actor.attributes.Importable handle.actor.isFifo

/-- The redrive policy of a queue is read back from its text. -/
def QueueHandle.PolicyRestores (env : SqsEnv) (handle : QueueHandle) : Prop :=
  ∀ policy, handle.actor.attributes.redrivePolicy = some policy → env.policies.Restores policy

namespace RustackSqs

variable {env : SqsEnv} {config : SqsConfig} {s : RustackSqs} {e : String × QueueHandle}
  {queue : SqsQueueSnapshot}

theorem EntryOf.lookup_attributes (hqueue : EntryOf env e queue) (key : String) :
    queue.attributes.lookup key = if isSettableAttribute key then
      e.2.actor.attributes.attributeValue env.policies e.2.actor.isFifo e.2.actor.arn
        e.2.actor.createdAt e.2.actor.lastModifiedAt e.2.actor.counts key
      else none :=
  (hqueue.attributes key).trans (lookup_snapshotQueue e.1 e.2 key)

theorem EntryOf.isFifoName_eq (hqueue : EntryOf env e queue)
    (hform : e.2.WellFormed config e.1) : isFifoName queue.name = e.2.actor.isFifo := by
  rw [hqueue.name, hform.actor_isFifo]

theorem EntryOf.checkFifoAttribute (hqueue : EntryOf env e queue)
    (hform : e.2.WellFormed config e.1) :
    checkFifoAttribute
      { queueName := queue.name, attributes := queue.attributes, tags := queue.tags } =
      .ok () := by
  have hlookup : queue.attributes.lookup "FifoQueue" =
      if isFifoName queue.name then some "true" else none := by
    rw [hqueue.lookup_attributes, hqueue.isFifoName_eq hform]
    rfl
  unfold RustackSqs.checkFifoAttribute
  rw [hlookup]
  cases hfifo : isFifoName queue.name with
  | false => rfl
  | true => simp

/-- Making an exported queue anew is reading its attributes. -/
theorem EntryOf.createQueue (hqueue : EntryOf env e queue)
    (hform : e.2.WellFormed config e.1) (now : ℕ) {t : RustackSqs}
    (habsent : t.queues.lookup e.1 = none) :
    t.createQueue env config now
        { queueName := queue.name, attributes := queue.attributes, tags := queue.tags } =
      (fromMap env.policies queue.attributes (isFifoName queue.name)).map
        fun attributes =>
          ({ t with
              queues := t.queues.insert queue.name (newHandle config now
                { queueName := queue.name, attributes := queue.attributes, tags := queue.tags }
                attributes) }, queueUrl config queue.name) := by
  have hvalid : validateQueueName queue.name = .ok () := hqueue.name ▸ hform.valid
  have hlookup : t.queues.lookup queue.name = none := hqueue.name ▸ habsent
  rw [RustackSqs.createQueue, hvalid, hqueue.checkFifoAttribute hform]
  simp only [hlookup]
  cases fromMap env.policies queue.attributes (isFifoName queue.name) <;> rfl

theorem EntryOf.restored (hqueue : EntryOf env e queue) (hform : e.2.WellFormed config e.1)
    (now : ℕ) :
    e.2.Restored (newHandle config now
      { queueName := queue.name, attributes := queue.attributes, tags := queue.tags }
      e.2.actor.attributes) where
  name := hqueue.name.trans hform.name_eq.symm
  url := (congrArg (queueUrl config) hqueue.name).trans hform.url.symm
  arn := (congrArg (queueArn config) hqueue.name).trans hform.arn.symm
  isFifo := (congrArg isFifoName hqueue.name).trans hform.isFifo.symm
  attributes := rfl
  tags := hqueue.tags

/-- Making the exported queues one after another goes through if each may be imported, and
restores them. -/
theorem createAll_of_importable (now : ℕ) {queues : List (String × QueueHandle)}
    {snapshot : List SqsQueueSnapshot} (hsnapshot : List.Forall₂ (EntryOf env) queues snapshot)
    (hform : ∀ e ∈ queues, e.2.WellFormed config e.1)
    (hpolicy : ∀ e ∈ queues, e.2.PolicyRestores env) (hnodup : (queues.map Prod.fst).Nodup)
    (himportable : ∀ e ∈ queues, e.2.Importable) {t : RustackSqs}
    (habsent : ∀ e ∈ queues, t.queues.lookup e.1 = none) :
    ∃ t', createAll env config now snapshot t = (t', .ok ()) ∧
      (∀ e ∈ queues, ∃ handle', t'.queues.lookup e.1 = some handle' ∧ e.2.Restored handle') ∧
      ∀ name, name ∉ queues.map Prod.fst → t'.queues.lookup name = t.queues.lookup name := by
  induction hsnapshot generalizing t with
  | nil => exact ⟨t, rfl, fun e he => absurd he not_mem_nil, fun name _ => rfl⟩
  | @cons e queue queues snapshot hqueue hrest ih =>
      obtain ⟨hfresh, hnodup⟩ := nodup_cons.mp hnodup
      have hforme := hform e (.head _)
      have hread : fromMap env.policies queue.attributes
          (isFifoName queue.name) = .ok e.2.actor.attributes := by
        rw [hqueue.isFifoName_eq hforme]
        exact fromMap_of_importable (hforme.actor_isFifo ▸ hforme.regular)
          (hpolicy e (.head _)) hqueue.lookup_attributes
          (himportable e (.head _))
      have hcreate := hqueue.createQueue hforme now (habsent e (.head _))
      rw [hread] at hcreate
      have hrestored := hqueue.restored hforme now
      set made := newHandle config now
        { queueName := queue.name, attributes := queue.attributes, tags := queue.tags }
        e.2.actor.attributes
      obtain ⟨t', hall, hback, hother⟩ := ih (fun e he => hform e (.tail _ he))
        (fun e he => hpolicy e (.tail _ he)) hnodup
        (fun e he => himportable e (.tail _ he))
        (t := { t with queues := t.queues.insert queue.name made }) (fun e' he' => by
          have hne : e'.1 ≠ queue.name := fun heq =>
            hfresh (hqueue.name ▸ heq ▸ mem_map_of_mem he')
          rw [AList.lookup_insert_ne hne]
          exact habsent e' (.tail _ he'))
      refine ⟨t', by rw [createAll, hcreate]; exact hall, fun e' he' => ?_, fun name hname => ?_⟩
      · rcases mem_cons.mp he' with rfl | he'
        · refine ⟨made, ?_, hrestored⟩
          rw [hother _ hfresh, ← hqueue.name, AList.lookup_insert]
        · exact hback e' he'
      · rw [map_cons, mem_cons, not_or] at hname
        rw [hother name hname.2, AList.lookup_insert_ne (hqueue.name ▸ hname.1)]

/-- A queue that may not be imported stops the import. -/
theorem importable_of_createAll (now : ℕ) {queues : List (String × QueueHandle)}
    {snapshot : List SqsQueueSnapshot} (hsnapshot : List.Forall₂ (EntryOf env) queues snapshot)
    (hform : ∀ e ∈ queues, e.2.WellFormed config e.1)
    (hpolicy : ∀ e ∈ queues, e.2.PolicyRestores env) (hnodup : (queues.map Prod.fst).Nodup)
    {t : RustackSqs} (habsent : ∀ e ∈ queues, t.queues.lookup e.1 = none)
    (hall : (createAll env config now snapshot t).2 = .ok ()) : ∀ e ∈ queues, e.2.Importable := by
  induction hsnapshot generalizing t with
  | nil => exact fun e he => absurd he not_mem_nil
  | @cons e queue queues snapshot hqueue hrest ih =>
      obtain ⟨hfresh, hnodup⟩ := nodup_cons.mp hnodup
      have hforme := hform e (.head _)
      have hcreate := hqueue.createQueue hforme now (habsent e (.head _))
      rw [createAll, hcreate] at hall
      cases hread : fromMap env.policies queue.attributes
          (isFifoName queue.name) with
      | error error =>
          rw [hread] at hall
          cases hall
      | ok attributes =>
          rw [hread] at hall
          have himportable : e.2.Importable := by
            rw [hqueue.isFifoName_eq hforme] at hread
            exact importable_of_fromMap (hpolicy e (.head _))
              hqueue.lookup_attributes hread
          have hothers := ih (fun e he => hform e (.tail _ he))
            (fun e he => hpolicy e (.tail _ he)) hnodup (fun e' he' => by
              have hne : e'.1 ≠ queue.name := fun heq =>
                hfresh (hqueue.name ▸ heq ▸ mem_map_of_mem he')
              rw [AList.lookup_insert_ne hne]
              exact habsent e' (.tail _ he')) hall
          intro e' he'
          rcases mem_cons.mp he' with rfl | he'
          · exact himportable
          · exact hothers e' he'

/-- The same snapshot, up to the order in which the maps are gone through. -/
def SameSnapshot (snapshot snapshot' : List SqsQueueSnapshot) : Prop :=
  List.Forall₂ (fun queue queue' => queue'.name = queue.name ∧
    queue'.attributes.entries.Perm queue.attributes.entries ∧
    queue'.tags.entries.Perm queue.tags.entries) snapshot snapshot'

theorem SameSnapshot.entryOf {snapshot : List SqsQueueSnapshot}
    (h : SameSnapshot (s.exportSnapshot env) snapshot) :
    List.Forall₂ (EntryOf env) s.exported snapshot := by
  rw [SameSnapshot, exportSnapshot_eq_map, forall₂_map_left_iff] at h
  refine h.imp fun e queue hqueue => ?_
  exact ⟨hqueue.1, fun key => AList.perm_lookup hqueue.2.1, fun key => AList.perm_lookup hqueue.2.2⟩

/-- Every queue is back and there are no others. -/
structure Restores (s s' : RustackSqs) : Prop where
  back : ∀ name handle, s.queues.lookup name = some handle →
    ∃ handle', s'.queues.lookup name = some handle' ∧ handle.Restored handle'
  absent : ∀ name, s.queues.lookup name = none → s'.queues.lookup name = none

/-- The snapshot of a reachable state is imported, and every queue comes back as it was, if and
only if no queue has a redrive count or a deduplication scope that a new queue may not have. -/
theorem importSnapshot_restores_iff (h : Reachable env config s)
    (hpolicy : ∀ name handle, s.queues.lookup name = some handle → handle.PolicyRestores env)
    {snapshot : List SqsQueueSnapshot} (hsnapshot : SameSnapshot (s.exportSnapshot env) snapshot)
    (now : ℕ) :
    (∃ s', s.importSnapshot env config now snapshot = (s', .ok ()) ∧ s.Restores s') ↔
      ∀ name handle, s.queues.lookup name = some handle → handle.Importable := by
  have hform : ∀ e ∈ s.exported, e.2.WellFormed config e.1 := fun e he =>
    h.wellFormed e.1 e.2 (mem_exported.mp he)
  have hpolicies : ∀ e ∈ s.exported, e.2.PolicyRestores env := fun e he =>
    hpolicy e.1 e.2 (mem_exported.mp he)
  have habsent : ∀ e ∈ s.exported, s.shutdownAll.queues.lookup e.1 = none := fun e _ =>
    AList.lookup_empty e.1
  constructor
  · rintro ⟨s', himport, -⟩ name handle hlookup
    refine importable_of_createAll now hsnapshot.entryOf hform hpolicies (exported_nodup s)
      habsent ?_ (name, handle) (mem_exported.mpr hlookup)
    unfold importSnapshot at himport
    split at himport
    · next hall => rw [hall]
    · cases himport
  · intro himportable
    obtain ⟨t, hall, hback, hother⟩ := createAll_of_importable now hsnapshot.entryOf hform
      hpolicies (exported_nodup s) (fun e he => himportable e.1 e.2 (mem_exported.mp he)) habsent
    refine ⟨{ t with quiescing := false }, by rw [importSnapshot, hall], ?_, ?_⟩
    · exact fun name handle hlookup => hback (name, handle) (mem_exported.mpr hlookup)
    · intro name hnone
      refine (hother name fun hmem => ?_).trans (AList.lookup_empty name)
      obtain ⟨e, he, rfl⟩ := mem_map.mp hmem
      cases hnone.symm.trans (mem_exported.mp he)

/-! ## Two states -/

def plainConfig : SqsConfig where
  host := "localhost"
  port := 4566
  accountId := "000000000000"
  defaultRegion := "us-east-1"
  advertisedEndpoint := none

/-- One queue, made with no attributes and then given a redrive policy. -/
def redriveState (policy : RedrivePolicy) : RustackSqs :=
  let s := empty.step (plainEnv [policy]) plainConfig (plainMoment 0)
    (.createQueue { queueName := "q", attributes := ∅, tags := ∅ })
  s.step (plainEnv [policy]) plainConfig (plainMoment 0)
    (.setQueueAttributes "http://localhost:4566/000000000000/q"
      (AList.singleton "RedrivePolicy" (policyText policy)))

theorem redriveState_reachable (policy : RedrivePolicy) :
    Reachable (plainEnv [policy]) plainConfig (redriveState policy) := by
  unfold redriveState
  exact .step (.step .empty _ _) _ _

theorem SameSnapshot.refl (snapshot : List SqsQueueSnapshot) : SameSnapshot snapshot snapshot :=
  forall₂_same.mpr fun _ _ => ⟨rfl, List.Perm.refl _, List.Perm.refl _⟩

def deadLetterPolicy (maxReceiveCount : ℤ) : RedrivePolicy where
  deadLetterTargetArn := "arn:aws:sqs:us-east-1:000000000000:dead"
  maxReceiveCount

theorem policyReader_restores (policy : RedrivePolicy) :
    (policyReader [policy]).Restores policy := by
  refine ⟨policyText policy, rfl, ?_⟩
  simp only [policyReader, find?_cons, decide_true]

/-- A count of three is imported again. -/
theorem importSnapshot_restores_threeReceives :
    ∃ s', (redriveState (deadLetterPolicy 3)).importSnapshot (plainEnv [deadLetterPolicy 3])
        plainConfig 1 ((redriveState (deadLetterPolicy 3)).exportSnapshot
          (plainEnv [deadLetterPolicy 3])) = (s', .ok ()) ∧
      (redriveState (deadLetterPolicy 3)).Restores s' := by
  have hqueues : ∀ e ∈ (redriveState (deadLetterPolicy 3)).queues.entries,
      e.2.actor.attributes.redrivePolicy = some (deadLetterPolicy 3) ∧
        e.2.actor.isFifo = false := by
    decide +kernel
  have hqueue {name : String} {handle : QueueHandle}
      (hlookup : (redriveState (deadLetterPolicy 3)).queues.lookup name = some handle) :=
    hqueues ⟨name, handle⟩ (AList.mem_lookup_iff.mp hlookup)
  refine (importSnapshot_restores_iff (redriveState_reachable _) (fun name handle hlookup => ?_)
    (SameSnapshot.refl _) 1).mpr fun name handle hlookup => ?_
  · intro policy hpolicy
    obtain rfl := Option.some.inj (hpolicy.symm.trans (hqueue hlookup).1)
    exact policyReader_restores _
  · refine ⟨fun policy hpolicy => ?_, fun hfifo => ?_⟩
    · obtain rfl := Option.some.inj (hpolicy.symm.trans (hqueue hlookup).1)
      decide
    · exact absurd ((hqueue hlookup).2.symm.trans hfifo) (by decide)

/-- A count of zero, which the live queue took, is refused when the live queues are gone. -/
theorem importSnapshot_rejects_zeroReceives :
    Reachable (plainEnv [deadLetterPolicy 0]) plainConfig (redriveState (deadLetterPolicy 0)) ∧
      (redriveState (deadLetterPolicy 0)).queues.keys = ["q"] ∧
      ∃ s', (redriveState (deadLetterPolicy 0)).importSnapshot (plainEnv [deadLetterPolicy 0])
          plainConfig 1 ((redriveState (deadLetterPolicy 0)).exportSnapshot
            (plainEnv [deadLetterPolicy 0])) =
          (s', .error (.invalidParameterValue ("Value for parameter RedrivePolicy is invalid. " ++
            "Reason: maxReceiveCount must be between 1 and 1000."))) ∧
        s'.queues.keys = [] := by
  have hkeys : (redriveState (deadLetterPolicy 0)).queues.keys = ["q"] := by
    decide +kernel
  refine ⟨redriveState_reachable _, hkeys, { queues := ∅, quiescing := true }, ?_, rfl⟩
  rw [exportSnapshot, hkeys, mergeSort_singleton]
  rfl

end RustackSqs

end Rustack.SQS
