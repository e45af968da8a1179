import Rustack.Lib.Outcome
import Rustack.SQS.Attributes

/-!
# The language of the attributes

`toMap` writes what `readEntry` reads: an attribute record that is in range comes
back from its own map, in whatever order the map is gone through.  What a live
update may store and `fromMap` refuses is a redrive count below one and a
deduplication scope that is no choice; `Importable` says that neither is there.
-/

namespace Rustack.SQS

/-- The policy is read back from the text it is written as. -/
def PolicyCodec.Restores (codec : PolicyCodec) (policy : RedrivePolicy) : Prop :=
  ∃ json, codec.toString policy = some json ∧ codec.fromStr json = .ok policy

theorem parseI32Range_eq_ok {key value : String} {min max n : ℤ} :
    parseI32Range key value min max = .ok n ↔ parseI32 value = some n ∧ min ≤ n ∧ n ≤ max := by
  unfold parseI32Range
  split
  · simp [*]
  · next m hm =>
      rw [hm, Option.some.injEq]
      split
      · refine iff_of_false nofun ?_
        rintro ⟨rfl, hrange⟩
        omega
      · constructor
        · intro h
          cases h
          omega
        · rintro ⟨rfl, -⟩
          rfl

theorem parseI32Range_toString (key : String) {min max n : ℤ} (hmin : 0 ≤ min)
    (hmax : max < 2 ^ 31) (hle : min ≤ n) (hge : n ≤ max) :
    parseI32Range key (toString n) min max = .ok n := by
  have hparse : parseI32 (toString n) = some n :=
    DynamoDB.parseSigned_toString (by omega) (by omega)
  rw [parseI32Range, hparse]
  exact if_neg (by omega)

theorem parseFlag_toString (b : Bool) : parseFlag (toString b) = b := by
  cases b <;> decide

namespace QueueAttributes

/-! ## What every queue keeps -/

/-- The ranges of the numbers, and the FIFO attributes of a queue that is none. -/
structure Regular (attributes : QueueAttributes) (isFifo : Bool) : Prop where
  delaySeconds : 0 ≤ attributes.delaySeconds ∧ attributes.delaySeconds ≤ 900
  maximumMessageSize : 1024 ≤ attributes.maximumMessageSize ∧ attributes.maximumMessageSize ≤ 262144
  messageRetentionPeriod :
    60 ≤ attributes.messageRetentionPeriod ∧ attributes.messageRetentionPeriod ≤ 1209600
  receiveMessageWaitTimeSeconds :
    0 ≤ attributes.receiveMessageWaitTimeSeconds ∧ attributes.receiveMessageWaitTimeSeconds ≤ 20
  visibilityTimeout : 0 ≤ attributes.visibilityTimeout ∧ attributes.visibilityTimeout ≤ 43200
  kmsDataKeyReusePeriodSeconds : ∀ period, attributes.kmsDataKeyReusePeriodSeconds = some period →
    60 ≤ period ∧ period ≤ 86400
  fifoOnly : isFifo = false → attributes.contentBasedDeduplication = false ∧
    attributes.deduplicationScope = "queue" ∧ attributes.fifoThroughputLimit = "perQueue"

theorem regular_default (isFifo : Bool) : default.Regular isFifo where
  delaySeconds := by decide
  maximumMessageSize := by decide
  messageRetentionPeriod := by decide
  receiveMessageWaitTimeSeconds := by decide
  visibilityTimeout := by decide
  kmsDataKeyReusePeriodSeconds := fun period h => by cases h
  fifoOnly := fun _ => ⟨rfl, rfl, rfl⟩

/-- What reading one entry can do to the attributes. -/
inductive Assigned (isFifo : Bool) (self : QueueAttributes) : QueueAttributes → Prop where
  | delaySeconds {n : ℤ} (h : 0 ≤ n ∧ n ≤ 900) :
      Assigned isFifo self { self with delaySeconds := n }
  | maximumMessageSize {n : ℤ} (h : 1024 ≤ n ∧ n ≤ 262144) :
      Assigned isFifo self { self with maximumMessageSize := n }
  | messageRetentionPeriod {n : ℤ} (h : 60 ≤ n ∧ n ≤ 1209600) :
      Assigned isFifo self { self with messageRetentionPeriod := n }
  | receiveMessageWaitTimeSeconds {n : ℤ} (h : 0 ≤ n ∧ n ≤ 20) :
      Assigned isFifo self { self with receiveMessageWaitTimeSeconds := n }
  | visibilityTimeout {n : ℤ} (h : 0 ≤ n ∧ n ≤ 43200) :
      Assigned isFifo self { self with visibilityTimeout := n }
  | kmsDataKeyReusePeriodSeconds {n : ℤ} (h : 60 ≤ n ∧ n ≤ 86400) :
      Assigned isFifo self { self with kmsDataKeyReusePeriodSeconds := some n }
  | fifoOnly (content : Bool) (scope limit : String) (h : isFifo = true) :
      Assigned isFifo self
        { self with
          contentBasedDeduplication := content
          deduplicationScope := scope
          fifoThroughputLimit := limit }
  | free (redrive : Option RedrivePolicy) (allow policy kms : Option String) (sse : Bool) :
      Assigned isFifo self
        { self with
          redrivePolicy := redrive
          redriveAllowPolicy := allow
          policy := policy
          kmsMasterKeyId := kms
          sqsManagedSseEnabled := sse }

variable {codec : PolicyCodec} {isFifo : Bool} {self self' : QueueAttributes}
  {key value : String}

theorem Assigned.regular (hassigned : Assigned isFifo self self') (h : self.Regular isFifo) :
    self'.Regular isFifo := by
  cases hassigned with
  | delaySeconds hn => exact { h with delaySeconds := hn }
  | maximumMessageSize hn => exact { h with maximumMessageSize := hn }
  | messageRetentionPeriod hn => exact { h with messageRetentionPeriod := hn }
  | receiveMessageWaitTimeSeconds hn => exact { h with receiveMessageWaitTimeSeconds := hn }
  | visibilityTimeout hn => exact { h with visibilityTimeout := hn }
  | kmsDataKeyReusePeriodSeconds hn =>
      exact { h with
        kmsDataKeyReusePeriodSeconds := fun period hperiod => Option.some.inj hperiod ▸ hn }
  | fifoOnly content scope limit hfifo =>
      exact { h with fifoOnly := fun hnot => absurd (hnot ▸ hfifo) Bool.false_ne_true }
  | free redrive allow policy kms sse => exact { h with }

/-- The number attributes, for either reader. -/
theorem assigned_number {min max : ℤ} {set : ℤ → QueueAttributes}
    (hset : ∀ n, min ≤ n ∧ n ≤ max → Assigned isFifo self (set n))
    (hread : (do return set (← parseI32Range key value min max)) = Except.ok self') :
    Assigned isFifo self self' := by
  obtain ⟨n, hn, hread⟩ := Except.bind_eq_ok.mp hread
  cases hread
  exact hset n (parseI32Range_eq_ok.mp hn).2

/-- The attributes of FIFO queues, for either reader. -/
theorem assigned_fifoOnly {next : Except SqsError QueueAttributes}
    (hnext : isFifo = true → next = .ok self' → Assigned isFifo self self')
    (hread : (if !isFifo then .error (unknownAttribute key) else next) = Except.ok self') :
    Assigned isFifo self self' := by
  cases hfifo : isFifo with
  | false =>
      rw [hfifo] at hread
      cases hread
  | true =>
      rw [hfifo] at hread hnext
      exact hnext rfl hread

theorem readEntry_assigned (hread : self.readEntry codec isFifo key value = .ok self') :
    Assigned isFifo self self' := by
  unfold readEntry at hread
  split at hread
  · exact assigned_number (fun n hn => .delaySeconds hn) hread
  · exact assigned_number (fun n hn => .maximumMessageSize hn) hread
  · exact assigned_number (fun n hn => .messageRetentionPeriod hn) hread
  · exact assigned_number (fun n hn => .receiveMessageWaitTimeSeconds hn) hread
  · exact assigned_number (fun n hn => .visibilityTimeout hn) hread
  · obtain ⟨policy, -, hread⟩ := Except.bind_eq_ok.mp hread
    split at hread
    · cases hread
    · cases hread
      exact .free (some policy) _ _ _ _
  · cases hread
    exact .free _ (some value) _ _ _
  · refine assigned_fifoOnly (fun hfifo hnext => ?_) hread
    cases hnext
    exact .fifoOnly (parseFlag value) _ _ hfifo
  · refine assigned_fifoOnly (fun hfifo hnext => ?_) hread
    split at hnext
    · cases hnext
    · cases hnext
      exact .fifoOnly _ value _ hfifo
  · refine assigned_fifoOnly (fun hfifo hnext => ?_) hread
    cases hnext
    exact .fifoOnly _ _ value hfifo
  · cases hread
    exact .free _ _ (some value) _ _
  · cases hread
    exact .free _ _ _ (some value) _
  · exact assigned_number (fun n hn => .kmsDataKeyReusePeriodSeconds hn) hread
  · cases hread
    exact .free _ _ _ _ (parseFlag value)
  · cases hread
    exact .free _ _ _ _ _
  · cases hread

theorem updateEntry_assigned (hread : self.updateEntry codec isFifo key value = .ok self') :
    Assigned isFifo self self' := by
  unfold updateEntry at hread
  split at hread
  · exact assigned_number (fun n hn => .delaySeconds hn) hread
  · exact assigned_number (fun n hn => .maximumMessageSize hn) hread
  · exact assigned_number (fun n hn => .messageRetentionPeriod hn) hread
  · exact assigned_number (fun n hn => .receiveMessageWaitTimeSeconds hn) hread
  · exact assigned_number (fun n hn => .visibilityTimeout hn) hread
  · split at hread
    · cases hread
      exact .free none _ _ _ _
    · obtain ⟨policy, -, hread⟩ := Except.bind_eq_ok.mp hread
      cases hread
      exact .free (some policy) _ _ _ _
  · cases hread
    exact .free _ (orCleared value) _ _ _
  · refine assigned_fifoOnly (fun hfifo hnext => ?_) hread
    cases hnext
    exact .fifoOnly (parseFlag value) _ _ hfifo
  · refine assigned_fifoOnly (fun hfifo hnext => ?_) hread
    cases hnext
    exact .fifoOnly _ value _ hfifo
  · refine assigned_fifoOnly (fun hfifo hnext => ?_) hread
    cases hnext
    exact .fifoOnly _ _ value hfifo
  · cases hread
    exact .free _ _ (orCleared value) _ _
  · cases hread
    exact .free _ _ _ (orCleared value) _
  · exact assigned_number (fun n hn => .kmsDataKeyReusePeriodSeconds hn) hread
  · cases hread
    exact .free _ _ _ _ (parseFlag value)
  · cases hread

/-- The attributes of a new queue are in range. -/
theorem fromMap_regular {attrs : StringMap} (h : fromMap codec attrs isFifo = .ok self) :
    self.Regular isFifo := by
  exact Outcome.foldlM_invariant (fun _ _ _ _ hresult hread =>
    (readEntry_assigned hread).regular hresult) (regular_default isFifo) h

/-- An update keeps the attributes in range, also one that fails half way. -/
theorem updateFromMap_regular (h : self.Regular isFifo) (attrs : StringMap) :
    (self.updateFromMap codec attrs isFifo).1.Regular isFifo := by
  unfold updateFromMap
  induction attrs.entries generalizing self with
  | nil => exact h
  | cons e entries ih =>
      rw [updateEntries]
      split
      · exact h
      · next hread => exact ih ((updateEntry_assigned hread).regular h)

/-! ## Written and read back -/

/-- `self` with the attribute of one name as `origin` has it. -/
def adopt (origin self : QueueAttributes) (name : String) : QueueAttributes :=
  match name with
  | "DelaySeconds" => { self with delaySeconds := origin.delaySeconds }
  | "MaximumMessageSize" => { self with maximumMessageSize := origin.maximumMessageSize }
  | "MessageRetentionPeriod" =>
    { self with messageRetentionPeriod := origin.messageRetentionPeriod }
  | "ReceiveMessageWaitTimeSeconds" =>
    { self with receiveMessageWaitTimeSeconds := origin.receiveMessageWaitTimeSeconds }
  | "VisibilityTimeout" => { self with visibilityTimeout := origin.visibilityTimeout }
  | "RedrivePolicy" => { self with redrivePolicy := origin.redrivePolicy }
  | "RedriveAllowPolicy" => { self with redriveAllowPolicy := origin.redriveAllowPolicy }
  | "ContentBasedDeduplication" =>
    { self with contentBasedDeduplication := origin.contentBasedDeduplication }
  | "DeduplicationScope" => { self with deduplicationScope := origin.deduplicationScope }
  | "FifoThroughputLimit" => { self with fifoThroughputLimit := origin.fifoThroughputLimit }
  | "Policy" => { self with policy := origin.policy }
  | "KmsMasterKeyId" => { self with kmsMasterKeyId := origin.kmsMasterKeyId }
  | "KmsDataKeyReusePeriodSeconds" =>
    { self with kmsDataKeyReusePeriodSeconds := origin.kmsDataKeyReusePeriodSeconds }
  | "SqsManagedSseEnabled" => { self with sqsManagedSseEnabled := origin.sqsManagedSseEnabled }
  | _ => self

theorem adopt_adopt (origin self : QueueAttributes) (name : String) :
    origin.adopt (origin.adopt self name) name = origin.adopt self name := by
  unfold adopt
  split
  case h_15 => split <;> first | rfl | contradiction
  all_goals rfl

theorem adopt_comm (origin self : QueueAttributes) (name name' : String) :
    origin.adopt (origin.adopt self name) name' = origin.adopt (origin.adopt self name') name := by
  unfold adopt
  split <;> split <;> rfl

/-- Attributes that agree with the origin on every name are the origin. -/
theorem eq_of_adopt_eq {origin : QueueAttributes} (h : ∀ name, origin.adopt self name = self) :
    self = origin := by
  have hdelay := congrArg delaySeconds (h "DelaySeconds")
  have hsize := congrArg maximumMessageSize (h "MaximumMessageSize")
  have hretention := congrArg messageRetentionPeriod (h "MessageRetentionPeriod")
  have hwait := congrArg receiveMessageWaitTimeSeconds (h "ReceiveMessageWaitTimeSeconds")
  have hvisibility := congrArg visibilityTimeout (h "VisibilityTimeout")
  have hredrive := congrArg redrivePolicy (h "RedrivePolicy")
  have hallow := congrArg redriveAllowPolicy (h "RedriveAllowPolicy")
  have hcontent := congrArg contentBasedDeduplication (h "ContentBasedDeduplication")
  have hscope := congrArg deduplicationScope (h "DeduplicationScope")
  have hlimit := congrArg fifoThroughputLimit (h "FifoThroughputLimit")
  have hpolicy := congrArg policy (h "Policy")
  have hkms := congrArg kmsMasterKeyId (h "KmsMasterKeyId")
  have hperiod := congrArg kmsDataKeyReusePeriodSeconds (h "KmsDataKeyReusePeriodSeconds")
  have hsse := congrArg sqsManagedSseEnabled (h "SqsManagedSseEnabled")
  cases self
  cases origin
  simp only [adopt] at *
  simp only [mk.injEq]
  exact ⟨hdelay.symm, hsize.symm, hretention.symm, hwait.symm, hvisibility.symm, hredrive.symm,
    hallow.symm, hcontent.symm, hscope.symm, hlimit.symm, hpolicy.symm, hkms.symm, hperiod.symm,
    hsse.symm⟩

/-- What `fromMap` holds a value to and an update does not. -/
structure Importable (attributes : QueueAttributes) (isFifo : Bool) : Prop where
  redrivePolicy : ∀ policy, attributes.redrivePolicy = some policy → 1 ≤ policy.maxReceiveCount
  deduplicationScope : isFifo = true →
    attributes.deduplicationScope = "queue" ∨ attributes.deduplicationScope = "messageGroup"

theorem number_eq_ok (set : ℤ → QueueAttributes) {min max n : ℤ} (hmin : 0 ≤ min)
    (hmax : max < 2 ^ 31) (hn : min ≤ n ∧ n ≤ max) :
    (do return set (← parseI32Range key (toString n) min max)) =
      (.ok (set n) : Except SqsError QueueAttributes) := by
  rw [parseI32Range_toString key hmin hmax hn.1 hn.2]
  rfl

/-- The text of a FIFO attribute is there for FIFO queues only. -/
theorem fifoOnly_eq_some {text : String}
    (h : (if isFifo then some text else none) = some value) : isFifo = true ∧ text = value := by
  cases isFifo with
  | false => cases h
  | true => exact ⟨rfl, Option.some.inj h⟩

/-- A written attribute is read as what it was. -/
theorem readEntry_attributeValue (hregular : self.Regular isFifo)
    (hrestores : ∀ policy, self.redrivePolicy = some policy → codec.Restores policy)
    (himportable : self.Importable isFifo) {arn : String}
    {createdAt lastModifiedAt : ℕ} {counts : ℕ × ℕ × ℕ} {name : String}
    (hname : isSettableAttribute name = true)
    (hvalue : self.attributeValue codec isFifo arn createdAt lastModifiedAt counts name =
      some value) (result : QueueAttributes) :
    result.readEntry codec isFifo name value = .ok (self.adopt result name) := by
  unfold isSettableAttribute at hname
  split at hname
  · cases hvalue
    exact number_eq_ok (fun n => { result with delaySeconds := n }) (by decide) (by decide)
      hregular.delaySeconds
  · cases hvalue
    exact number_eq_ok (fun n => { result with maximumMessageSize := n }) (by decide) (by decide)
      hregular.maximumMessageSize
  · cases hvalue
    exact number_eq_ok (fun n => { result with messageRetentionPeriod := n }) (by decide)
      (by decide) hregular.messageRetentionPeriod
  · cases hvalue
    exact number_eq_ok (fun n => { result with receiveMessageWaitTimeSeconds := n }) (by decide)
      (by decide) hregular.receiveMessageWaitTimeSeconds
  · cases hvalue
    exact number_eq_ok (fun n => { result with visibilityTimeout := n }) (by decide) (by decide)
      hregular.visibilityTimeout
  · obtain ⟨policy, hpolicy, htext⟩ := Option.bind_eq_some_iff.mp hvalue
    obtain ⟨json, hjson, hread⟩ := hrestores policy hpolicy
    obtain rfl : json = value := Option.some.inj (hjson.symm.trans htext)
    have hcount := himportable.redrivePolicy policy hpolicy
    simp only [readEntry, PolicyCodec.read, hread, adopt, hpolicy]
    exact if_neg (by omega)
  · simp only [readEntry, adopt, show self.redriveAllowPolicy = some value from hvalue]
    rfl
  · simp only [readEntry, adopt, show self.policy = some value from hvalue]
    rfl
  · rfl
  · obtain ⟨rfl, rfl⟩ := fifoOnly_eq_some hvalue
    simp only [readEntry, adopt, parseFlag_toString]
    rfl
  · obtain ⟨rfl, rfl⟩ := fifoOnly_eq_some hvalue
    simp only [readEntry, adopt, Bool.not_true, Bool.false_eq_true, if_false]
    refine if_neg (fun h => ?_)
    rcases himportable.deduplicationScope rfl with hscope | hscope
    · exact h.1 hscope
    · exact h.2 hscope
  · obtain ⟨rfl, rfl⟩ := fifoOnly_eq_some hvalue
    rfl
  · cases hvalue
    simp only [readEntry, adopt, parseFlag_toString]
    rfl
  · simp only [readEntry, adopt, show self.kmsMasterKeyId = some value from hvalue]
    rfl
  · obtain ⟨period, hperiod, rfl⟩ := Option.map_eq_some_iff.mp hvalue
    have hread := @number_eq_ok "KmsDataKeyReusePeriodSeconds"
      (fun n => { result with kmsDataKeyReusePeriodSeconds := some n }) _ _ _ (by decide)
      (by decide) (hregular.kmsDataKeyReusePeriodSeconds period hperiod)
    simp only [adopt, hperiod]
    exact hread
  · cases hname

/-- An attribute with no text is the default one. -/
theorem adopt_default_of_eq_none (hregular : self.Regular isFifo)
    (hrestores : ∀ policy, self.redrivePolicy = some policy → codec.Restores policy)
    {arn : String} {createdAt lastModifiedAt : ℕ} {counts : ℕ × ℕ × ℕ} {name : String}
    (hvalue : self.attributeValue codec isFifo arn createdAt lastModifiedAt counts name = none) :
    self.adopt default name = default := by
  have hfifo {text : String} (h : (if isFifo then some text else none) = none) :
      isFifo = false := by
    cases isFifo with
    | false => rfl
    | true => cases h
  unfold adopt
  split
  · cases hvalue
  · cases hvalue
  · cases hvalue
  · cases hvalue
  · cases hvalue
  · cases hpolicy : self.redrivePolicy with
    | none => rfl
    | some policy =>
        obtain ⟨json, hjson, -⟩ := hrestores policy hpolicy
        have htext := Option.bind_eq_none_iff.mp hvalue policy hpolicy
        rw [hjson] at htext
        cases htext
  · rw [show self.redriveAllowPolicy = none from hvalue]
    rfl
  · rw [(hregular.fifoOnly (hfifo hvalue)).1]
    rfl
  · rw [(hregular.fifoOnly (hfifo hvalue)).2.1]
    rfl
  · rw [(hregular.fifoOnly (hfifo hvalue)).2.2]
    rfl
  · rw [show self.policy = none from hvalue]
    rfl
  · rw [show self.kmsMasterKeyId = none from hvalue]
    rfl
  · rw [Option.map_eq_none_iff.mp hvalue]
    rfl
  · cases hvalue
  · rfl

theorem adopt_of_not_settable {origin : QueueAttributes} {name : String}
    (hname : isSettableAttribute name = false) : origin.adopt self name = self := by
  unfold adopt
  split <;> first | rfl | cases hname

/-- Adopting every attribute that differs gives the origin. -/
theorem foldl_adopt {origin : QueueAttributes} {names : List String}
    (h : ∀ name, name ∉ names → origin.adopt self name = self) :
    names.foldl origin.adopt self = origin := by
  induction names generalizing self with
  | nil => exact eq_of_adopt_eq fun name => h name List.not_mem_nil
  | cons first names ih =>
      rw [List.foldl_cons]
      refine ih fun name hname => ?_
      by_cases heq : name = first
      · rw [heq, adopt_adopt]
      · rw [adopt_comm, h name fun hmem => (List.mem_cons.mp hmem).elim heq hname]

section

variable {arn : String} {createdAt lastModifiedAt : ℕ} {counts : ℕ × ℕ × ℕ} {map : StringMap}

/-- The map of attributes that may be imported is read as these attributes. -/
theorem fromMap_of_importable (hregular : self.Regular isFifo)
    (hrestores : ∀ policy, self.redrivePolicy = some policy → codec.Restores policy)
    (hmap : ∀ name, map.lookup name = if isSettableAttribute name then
      self.attributeValue codec isFifo arn createdAt lastModifiedAt counts name else none)
    (himportable : self.Importable isFifo) : fromMap codec map isFifo = .ok self := by
  have hread (result : QueueAttributes) : ∀ e ∈ map.entries,
      readEntry codec isFifo result e.1 e.2 = .ok (self.adopt result e.1) := by
    intro e he
    have hlookup := AList.mem_lookup_iff.mpr he
    rw [Option.mem_def, hmap] at hlookup
    split at hlookup
    · next hname =>
        exact readEntry_attributeValue hregular hrestores himportable hname hlookup result
    · cases hlookup
  rw [fromMap, Outcome.foldlM_eq_foldl hread]
  refine congrArg Except.ok ?_
  rw [← List.foldl_map]
  refine foldl_adopt fun name hname => ?_
  have hlookup : map.lookup name = none := by
    rw [AList.lookup_eq_none, AList.mem_keys]
    exact hname
  rw [hmap] at hlookup
  split at hlookup
  · exact adopt_default_of_eq_none hregular hrestores hlookup
  · next hname => exact adopt_of_not_settable (Bool.not_eq_true _ ▸ hname)

/-- Only the map of such attributes is read at all. -/
theorem importable_of_fromMap
    (hrestores : ∀ policy, self.redrivePolicy = some policy → codec.Restores policy)
    (hmap : ∀ name, map.lookup name = if isSettableAttribute name then
      self.attributeValue codec isFifo arn createdAt lastModifiedAt counts name else none)
    {read : QueueAttributes} (h : fromMap codec map isFifo = .ok read) :
    self.Importable isFifo := by
  have hstep {name value : String} (hlookup : map.lookup name = some value) :
      ∃ c c', readEntry codec isFifo c name value = .ok c' :=
    Outcome.exists_step_of_foldlM h ⟨name, value⟩ (AList.mem_lookup_iff.mp hlookup)
  refine ⟨fun policy hpolicy => ?_, fun hfifo => ?_⟩
  · obtain ⟨json, hjson, hparse⟩ := hrestores policy hpolicy
    have hlookup : map.lookup "RedrivePolicy" = some json := by
      rw [hmap]
      exact Option.bind_eq_some_iff.mpr ⟨policy, hpolicy, hjson⟩
    obtain ⟨c, c', hread⟩ := hstep hlookup
    obtain ⟨policy', hparse', hread⟩ := Except.bind_eq_ok.mp hread
    obtain rfl : policy = policy' := by
      rw [PolicyCodec.read, hparse] at hparse'
      exact Except.ok.inj hparse'
    split at hread
    · cases hread
    · next hcount => omega
  · have hlookup : map.lookup "DeduplicationScope" = some self.deduplicationScope := by
      rw [hmap]
      exact if_pos hfifo
    obtain ⟨c, c', hread⟩ := hstep hlookup
    rw [hfifo] at hread
    simp only [readEntry, Bool.not_true, Bool.false_eq_true, if_false] at hread
    split at hread
    · cases hread
    · next hscope => exact or_iff_not_and_not.mpr hscope

end

end QueueAttributes

end Rustack.SQS
