import Rustack.SSM.Versions

/-!
# Runs of the parameter operations

In every run of the provider all parameters stay sound, only the named parameters are deleted,
and failed calls leave the store as it was.  Two answers are not what they should be: at the
version limit an overwrite drops an unlabeled version behind a labeled oldest one, and a label
that one request repeats is counted twice.  The runs without these are exactly the runs that
have everything.
-/

namespace Rustack.SSM

open ParameterRecord SortedMap

variable {host : Host} {store : ParameterStore} {now : ℤ} {raises : Prop}

/-- Every parameter is sound, and its selectors resolve to the version they ask for. -/
def StoreSound (store : ParameterStore) : Prop :=
  ∀ name r, store.get? name = some r → Sound r ∧ Resolves r

/-- The parameters a call may delete. -/
def Call.Deletes (name : String) : Call → Prop
  | .deleteParameter deleted => deleted = name
  | .deleteParameters names => name ∈ names
  | _ => False

/-- The parameter a call may raise the version of. -/
def Call.Puts (host : Host) (name : String) : Call → Prop
  | .putParameter input => ∃ put, input.checked host = .ok put ∧ put.name = name
  | _ => False

/-- What a call may do to the store: parameters it does not delete are kept in the sense of
`Follows`, a parameter that is new has version 1 only, and a failure changes nothing. -/
structure Keeps (host : Host) (store : ParameterStore) (call : Call)
    (out : ParameterStore × Answer) : Prop where
  follows : ∀ name r, store.get? name = some r → call.Deletes name ∧ out.1.get? name = none ∨
    ∃ r', out.1.get? name = some r' ∧ Follows (call.Puts host name) r r'
  created : ∀ name r', store.get? name = none → out.1.get? name = some r' →
    r'.currentVersion = 1 ∧ ∀ k v, r'.versions.get? k = some v → k = 1
  failed : ∀ e, out.2 = .error e → out.1 = store

/-- An overwrite succeeds below the version limit, or when the oldest version has no labels, and
then the new version is stored under the next number; a label request succeeds when the version
has no more labels than allowed afterwards. -/
def Call.Answered (host : Host) (store : ParameterStore) (now : ℤ) (out : ParameterStore × Answer) :
    Call → Prop
  | .putParameter input => ∀ put r, input.checked host = .ok put → store.get? put.name = some r →
    (put.overwrite = true → r.parameterType = put.parameterType →
      ((∃ o, out.2 = .ok o) ↔ r.versions.entries.length < MAX_VERSIONS ∨ OldestUnlabeled r)) ∧
    ∀ o, out.2 = .ok o → ∃ r', out.1.get? put.name = some r' ∧
      r'.currentVersion = r.currentVersion + 1 ∧ r'.versions.get? r'.currentVersion =
        some (put.snapshot host.accountId now r'.currentVersion)
  | .labelParameterVersion name version labels => ∀ r v, store.get? name = some r →
    r.versions.get? ((version.map asU64).getD r.currentVersion) = some v →
    ((∃ o, out.2 = .ok o) ↔
      (v.labels ∪ (labels.filter isValidLabel).toFinset).card ≤ MAX_LABELS_PER_VERSION)
  | _ => True

def CallUpheld (host : Host) (store : ParameterStore) (now : ℤ) (call : Call)
    (out : ParameterStore × Answer) : Prop :=
  Keeps host store call out ∧ call.Answered host store now out

/-! ## Calls on one parameter -/

theorem keeps_refl (call : Call) (answer : Answer) : Keeps host store call (store, answer) where
  follows := fun _ r hr => Or.inr ⟨r, hr, Follows.refl r⟩
  created := fun name r' hnone hr' => by
    have hsome : store.get? name = some r' := hr'
    rw [hnone] at hsome
    cases hsome
  failed := fun _ _ => rfl

/-- A parameter is replaced by one that follows it. -/
theorem keeps_insert {name : String} {r r' : ParameterRecord} (hget : store.get? name = some r)
    (call : Call) (hfollows : Follows (call.Puts host name) r r') (output : Output) :
    Keeps host store call (store.insert name r', .ok output) where
  follows := fun name' old hold => by
    refine Or.inr ?_
    rw [get?_insert_eq]
    split
    · rename_i hname
      subst hname
      rw [hget] at hold
      cases hold
      exact ⟨r', rfl, hfollows⟩
    · exact ⟨old, hold, Follows.refl old⟩
  created := fun name' new hnone hnew => by
    rw [get?_insert_eq] at hnew
    split at hnew
    · rename_i hname
      rw [← hname, hget] at hnone
      cases hnone
    · rw [hnone] at hnew
      cases hnew
  failed := fun e he => by cases he

theorem StoreSound.insert (h : StoreSound store) {name : String} {r : ParameterRecord}
    (hr : Sound r) : StoreSound (store.insert name r) := by
  intro name' r' hr'
  rw [get?_insert_eq] at hr'
  split at hr'
  · cases hr'
    exact ⟨hr, hr.resolves⟩
  · exact h name' r' hr'

/-- An edit of one parameter that keeps it. -/
theorem withRecord_keeps {α : Type} (h : StoreSound store) {name : String} {missing : SsmError}
    {edit : ParameterRecord → Except SsmError (ParameterRecord × α)} {answer : α → Output}
    (call : Call)
    (hedit : ∀ r r' a, Sound r → edit r = .ok (r', a) →
      Sound r' ∧ Follows (call.Puts host name) r r') :
    StoreSound (withRecord store name missing edit answer).1 ∧
      Keeps host store call (withRecord store name missing edit answer) := by
  unfold withRecord
  cases hget : store.get? name with
  | none => exact ⟨h, keeps_refl call _⟩
  | some r =>
      dsimp only
      cases hok : edit r with
      | error e => exact ⟨h, keeps_refl call _⟩
      | ok edited =>
          obtain ⟨hsound, hfollows⟩ := hedit r edited.1 edited.2 (h name r hget).1 hok
          exact ⟨h.insert hsound, keeps_insert hget call hfollows _⟩

/-! ## PutParameter -/

theorem newRecord_sound (put : NewParameter) (accountId : String) :
    Sound (put.newRecord accountId now) ∧
      ∀ k v, (put.newRecord accountId now).versions.get? k = some v → k = 1 := by
  have hcases : ∀ k v, (put.newRecord accountId now).versions.get? k = some v →
      k = 1 ∧ v = put.snapshot accountId now 1 := by
    intro k v hget
    rw [NewParameter.newRecord, get?_insert_eq] at hget
    split at hget
    · rename_i hk
      exact ⟨hk.symm, (Option.some.inj hget).symm⟩
    · cases hget
  refine ⟨⟨?_, ⟨put.snapshot accountId now 1, ?_⟩, fun k v hget => ?_,
    fun label k k' v v' hget hget' _ _ => ?_, fun k v hget => ?_⟩,
    fun k v hget => (hcases k v hget).1⟩
  · exact Nat.le_trans (length_insertEntry_le _ _ _) (by decide)
  · rw [NewParameter.newRecord, get?_insert_eq, if_pos rfl]
  · obtain ⟨rfl, rfl⟩ := hcases k v hget
    exact ⟨rfl, Nat.le_refl 1⟩
  · exact (hcases k v hget).1.trans (hcases k' v' hget').1.symm
  · obtain ⟨-, rfl⟩ := hcases k v hget
    exact Nat.zero_le _

/-- The call overwrites a parameter at the version limit whose oldest version has labels and
another one has none. -/
def PutParameterInput.Slips (input : PutParameterInput) (host : Host)
    (store : ParameterStore) : Prop :=
  ∃ put r, input.checked host = .ok put ∧ store.get? put.name = some r ∧ put.overwrite = true ∧
    r.parameterType = put.parameterType ∧ MAX_VERSIONS ≤ r.versions.entries.length ∧
    ¬OldestUnlabeled r ∧ SomeUnlabeled r

theorem putParameter_upheld_iff (h : StoreSound store) (input : PutParameterInput) :
    StoreSound (handle host store now (.putParameter input)).1 ∧
        CallUpheld host store now (.putParameter input)
          (handle host store now (.putParameter input)) ↔
      ¬input.Slips host store := by
  unfold handle PutParameterInput.Slips CallUpheld Call.Answered
  dsimp only
  cases hchecked : input.checked host with
  | error e =>
      refine iff_of_true ⟨h, keeps_refl _ _, fun put r hput => by cases hput⟩ ?_
      rintro ⟨put, r, hput, -⟩
      cases hput
  | ok put =>
      dsimp only
      unfold putParameter
      cases hget : store.get? put.name with
      | none =>
          refine iff_of_true ⟨?_, ⟨fun name r hr => ?_, fun name r' hnone hr' => ?_,
            fun e he => by cases he⟩, fun put' r hput hr => ?_⟩ ?_
          · exact h.insert (newRecord_sound put host.accountId).1
          · refine Or.inr ⟨r, ?_, Follows.refl r⟩
            rw [get?_insert_eq, if_neg, hr]
            rintro rfl
            rw [hget] at hr
            cases hr
          · rw [get?_insert_eq] at hr'
            split at hr'
            · cases hr'
              exact ⟨rfl, (newRecord_sound put host.accountId).2⟩
            · rw [hnone] at hr'
              cases hr'
          · cases hput
            rw [hget] at hr
            cases hr
          · rintro ⟨put', r, hput, hr, -⟩
            cases hput
            rw [hget] at hr
            cases hr
      | some r =>
          dsimp only
          have hok : put.overwrite = true → r.parameterType = put.parameterType →
              ((∃ r', r.overwrite put host.accountId now = .ok r') ↔ _) := overwrite_isOk_iff
          cases hover : r.overwrite put host.accountId now with
          | error e =>
              have hfails : ¬∃ r', r.overwrite put host.accountId now = .ok r' := by
                rintro ⟨r', hr'⟩
                rw [hover] at hr'
                cases hr'
              refine iff_of_true ⟨h, keeps_refl _ _, fun put' r' hput hr =>
                ⟨fun hoverwrite htype => ?_, fun o ho => by cases ho⟩⟩ ?_
              · cases hput
                rw [hget] at hr
                cases hr
                refine iff_of_false (fun hanswer => ?_) fun hroom => hfails ?_
                · obtain ⟨o, ho⟩ := hanswer
                  cases ho
                · exact (hok hoverwrite htype).mpr (hroom.imp_right OldestUnlabeled.someUnlabeled)
              · rintro ⟨put', r', hput, hr, hoverwrite, htype, -, -, hsome⟩
                cases hput
                rw [hget] at hr
                cases hr
                exact hfails ((hok hoverwrite htype).mpr (Or.inr hsome))
          | ok r' =>
              obtain ⟨hoverwrite, htype, versions, -, hr'⟩ := overwrite_ok hover
              have hroom := (hok hoverwrite htype).mp ⟨r', hover⟩
              have hputs : (Call.putParameter input).Puts host put.name := ⟨put, hchecked, rfl⟩
              by_cases holdest : r.versions.entries.length < MAX_VERSIONS ∨ OldestUnlabeled r
              · refine iff_of_true ⟨h.insert ((h _ r hget).1.overwrite hover),
                  keeps_insert hget _ (Follows.overwrite hputs hover holdest) _,
                  fun put' old hput hold => ?_⟩ ?_
                · cases hput
                  rw [hget] at hold
                  cases hold
                  refine ⟨fun _ _ => iff_of_true ⟨_, rfl⟩ holdest, fun _ _ => ⟨r', ?_, ?_⟩⟩
                  · rw [get?_insert_eq, if_pos rfl]
                  · rw [hr']
                    exact ⟨rfl, by rw [get?_insert_eq, if_pos rfl]⟩
                · rintro ⟨put', r', hput, hr, -, -, hfull, hnot, -⟩
                  cases hput
                  rw [hget] at hr
                  cases hr
                  exact hnot (holdest.resolve_left (Nat.not_lt_of_le hfull))
              · obtain ⟨hfull, hnot⟩ := not_or.mp holdest
                refine iff_of_false ?_ (not_not.mpr ⟨put, r, rfl, hget, hoverwrite, htype,
                  Nat.le_of_not_lt hfull, hnot, hroom.resolve_left hfull⟩)
                rintro ⟨-, -, hanswered⟩
                exact holdest (((hanswered put r rfl hget).1 hoverwrite htype).mp ⟨_, rfl⟩)

/-! ## LabelParameterVersion -/

/-- The labels of the call fit on the version, but do not when each repeat is counted. -/
def LabelSlips (store : ParameterStore) (name : String) (version : Option ℤ)
    (labels : List String) : Prop :=
  ∃ r v, store.get? name = some r ∧
    r.versions.get? ((version.map asU64).getD r.currentVersion) = some v ∧
    (v.labels ∪ (labels.filter isValidLabel).toFinset).card ≤ MAX_LABELS_PER_VERSION ∧
    MAX_LABELS_PER_VERSION < v.labels.card + newLabelCount v.labels labels

theorem labelVersion_keeps {r r' : ParameterRecord} {name : String} {version : Option ℕ}
    {labels : List String} {a : List String × ℕ} (h : Sound r)
    (hok : r.labelVersion name version labels = .ok (r', a)) : Sound r' ∧ Follows raises r r' := by
  cases hget : r.versions.get? (version.getD r.currentVersion) with
  | none =>
      rw [labelVersion_none hget] at hok
      cases hok
  | some v =>
      by_cases hwithin : v.labels.card + newLabelCount v.labels labels ≤ MAX_LABELS_PER_VERSION
      · rw [labelVersion_within h hget hwithin] at hok
        obtain ⟨rfl, -⟩ := Prod.mk.inj (Except.ok.inj hok)
        exact ⟨h.labeled hget hwithin, .of_same rfl (labeledVersions_isSome hget)⟩
      · rw [labelVersion_over hget (Nat.lt_of_not_le hwithin)] at hok
        cases hok

theorem labelParameterVersion_upheld_iff (h : StoreSound store) (name : String)
    (version : Option ℤ) (labels : List String) :
    StoreSound (handle host store now (.labelParameterVersion name version labels)).1 ∧
        CallUpheld host store now (.labelParameterVersion name version labels)
          (handle host store now (.labelParameterVersion name version labels)) ↔
      ¬LabelSlips store name version labels := by
  have hboth : StoreSound (handle host store now (.labelParameterVersion name version labels)).1 ∧
      Keeps host store (.labelParameterVersion name version labels)
        (handle host store now (.labelParameterVersion name version labels)) :=
    withRecord_keeps h _ fun r r' a hr hok => labelVersion_keeps hr hok
  refine (and_iff_right hboth.1).trans ((and_iff_right hboth.2).trans ?_)
  unfold handle Call.Answered LabelSlips withRecord
  dsimp only
  cases hget : store.get? name with
  | none =>
      refine iff_of_true (fun r v hr => by cases hr) ?_
      rintro ⟨r, v, hr, -⟩
      cases hr
  | some r =>
      dsimp only
      cases htarget : r.versions.get? ((version.map asU64).getD r.currentVersion) with
      | none =>
          refine iff_of_true (fun r' v hr hv => ?_) ?_
          · cases hr
            rw [htarget] at hv
            cases hv
          · rintro ⟨r', v, hr, hv, -⟩
            cases hr
            rw [htarget] at hv
            cases hv
      | some v =>
          by_cases hwithin :
              v.labels.card + newLabelCount v.labels labels ≤ MAX_LABELS_PER_VERSION
          · rw [labelVersion_within (h name r hget).1 htarget hwithin]
            refine iff_of_true (fun r' v' hr hv => ?_) ?_
            · cases hr
              rw [htarget] at hv
              cases hv
              exact iff_of_true ⟨_, rfl⟩ ((card_union_le _ _).trans hwithin)
            · rintro ⟨r', v', hr, hv, -, hover⟩
              cases hr
              rw [htarget] at hv
              cases hv
              exact Nat.not_lt_of_le hwithin hover
          · have hover := Nat.lt_of_not_le hwithin
            rw [labelVersion_over htarget hover]
            constructor
            · rintro hanswered ⟨r', v', hr, hv, hfits, -⟩
              obtain ⟨o, ho⟩ := (hanswered r' v' hr hv).mpr hfits
              cases ho
            · intro hnot r' v' hr hv
              refine iff_of_false ?_ fun hfits => hnot ⟨r', v', hr, hv, hfits, ?_⟩
              · rintro ⟨o, ho⟩
                cases ho
              · cases hr
                rw [htarget] at hv
                cases hv
                exact hover

/-! ## The other calls -/

theorem keeps_of_erase {name : String} {call : Call} (hdeletes : call.Deletes name)
    (output : Output) : Keeps host store call (store.erase name, .ok output) where
  follows := fun name' r hr => by
    rw [get?_erase_eq]
    by_cases hname : name = name'
    · exact Or.inl ⟨hname ▸ hdeletes, if_pos hname⟩
    · exact Or.inr ⟨r, by rw [if_neg hname, hr], Follows.refl r⟩
  created := fun name' r' hnone hr' => by
    rw [get?_erase_eq] at hr'
    split at hr'
    · cases hr'
    · rw [hnone] at hr'
      cases hr'
  failed := fun e he => by cases he

theorem StoreSound.erase (h : StoreSound store) (name : String) :
    StoreSound (store.erase name) := by
  intro name' r hr
  rw [get?_erase_eq] at hr
  split at hr
  · cases hr
  · exact h name' r hr

/-- What is left after some names were deleted: the store without those of them it had. -/
theorem get?_deleteParameters (names : List String) (store : ParameterStore) (name : String) :
    (deleteParameters store names).1.get? name =
      if name ∈ names then none else store.get? name := by
  induction names generalizing store with
  | nil => rfl
  | cons deleted names ih =>
      rw [deleteParameters]
      cases hget : store.get? deleted with
      | none =>
          dsimp only
          rw [ih]
          by_cases hname : name = deleted
          · rw [hname, hget, ite_self, if_pos List.mem_cons_self]
          · simp [hname]
      | some r =>
          dsimp only
          rw [ih, get?_erase_eq]
          by_cases hname : name = deleted
          · simp [hname]
          · simp [hname, Ne.symm hname]

theorem deleteParameters_keeps (h : StoreSound store) (names : List String) (output : Output) :
    StoreSound (deleteParameters store names).1 ∧
      Keeps host store (.deleteParameters names)
        ((deleteParameters store names).1, .ok output) := by
  have hget := get?_deleteParameters names store
  refine ⟨fun name r hr => ?_, fun name r hr => ?_, fun name r' hnone hr' => ?_,
    fun e he => by cases he⟩
  · rw [hget] at hr
    split at hr
    · cases hr
    · exact h name r hr
  · by_cases hname : name ∈ names
    · exact Or.inl ⟨hname, (hget name).trans (if_pos hname)⟩
    · exact Or.inr ⟨r, ((hget name).trans (if_neg hname)).trans hr, Follows.refl r⟩
  · have hleft : (deleteParameters store names).1.get? name = some r' := hr'
    rw [hget, hnone, ite_self] at hleft
    cases hleft

/-- An edit that leaves versions alone. -/
theorem sameVersions_keeps {r r' : ParameterRecord} (h : Sound r)
    (hcurrent : r'.currentVersion = r.currentVersion) (hversions : r'.versions = r.versions) :
    Sound r' ∧ Follows raises r r' := by
  refine ⟨⟨?_, ?_, ?_, ?_, ?_⟩, .of_same hcurrent fun k => by rw [hversions]⟩
  · rw [hversions]
    exact h.bounded
  · rw [hversions, hcurrent]
    exact h.current
  · rw [hversions, hcurrent]
    exact h.numbered
  · rw [hversions]
    exact h.one_version
  · rw [hversions]
    exact h.quota

theorem addTags_keeps {r r' : ParameterRecord} {tags : List Tag} {a : Unit} (h : Sound r)
    (hok : (r.addTags tags).map (fun r => (r, ())) = .ok (r', a)) :
    Sound r' ∧ Follows raises r r' := by
  unfold addTags at hok
  dsimp only at hok
  split at hok
  · cases hok
  · obtain ⟨rfl, -⟩ := Prod.mk.inj (Except.ok.inj hok)
    exact sameVersions_keeps h rfl rfl

theorem removeTags_keeps {r r' : ParameterRecord} {tagKeys : List String} {a : Unit}
    (h : Sound r) (hok : Except.ok (r.removeTags tagKeys, ()) = (.ok (r', a) : Except SsmError _)) :
    Sound r' ∧ Follows raises r r' := by
  obtain ⟨rfl, -⟩ := Prod.mk.inj (Except.ok.inj hok)
  exact sameVersions_keeps h rfl rfl

theorem unlabelVersion_keeps {r r' : ParameterRecord} {name : String} {version : ℕ}
    {labels : List String} {a : List String × List String} (h : Sound r)
    (hok : r.unlabelVersion name version labels = .ok (r', a)) :
    Sound r' ∧ Follows raises r r' := by
  unfold unlabelVersion at hok
  split at hok
  · cases hok
  next v hget =>
  obtain ⟨rfl, -⟩ := Prod.mk.inj (Except.ok.inj hok)
  exact h.fewer hget (removeLabels_subset _ _)

/-! ## Runs -/

/-- The calls that slip. -/
def Call.Slips (host : Host) (store : ParameterStore) : Call → Prop
  | .putParameter input => input.Slips host store
  | .labelParameterVersion name version labels => LabelSlips store name version labels
  | _ => False

theorem handle_upheld_iff (h : StoreSound store) (call : Call) :
    StoreSound (handle host store now call).1 ∧
        CallUpheld host store now call (handle host store now call) ↔
      ¬call.Slips host store := by
  cases call with
  | putParameter input => exact putParameter_upheld_iff h input
  | labelParameterVersion name version labels =>
      exact labelParameterVersion_upheld_iff h name version labels
  | getParameter name => exact iff_of_true ⟨h, keeps_refl _ _, trivial⟩ not_false
  | getParameters names =>
      refine iff_of_true ?_ not_false
      unfold handle
      dsimp only
      split
      · exact ⟨h, keeps_refl _ _, trivial⟩
      · exact ⟨h, keeps_refl _ _, trivial⟩
  | deleteParameter name =>
      refine iff_of_true ?_ not_false
      unfold handle deleteParameter
      dsimp only
      split
      · exact ⟨h, keeps_refl _ _, trivial⟩
      · have hdeletes : (Call.deleteParameter name).Deletes name := rfl
        exact ⟨h.erase name, keeps_of_erase hdeletes _, trivial⟩
  | deleteParameters names =>
      refine iff_of_true ?_ not_false
      unfold handle
      dsimp only
      split
      · exact ⟨h, keeps_refl _ _, trivial⟩
      · obtain ⟨hsound, hkeeps⟩ := deleteParameters_keeps h names (.deleted _ _)
        exact ⟨hsound, hkeeps, trivial⟩
  | addTagsToResource resourceType resourceId tags =>
      refine iff_of_true ?_ not_false
      unfold handle
      dsimp only
      split
      · exact ⟨h, keeps_refl _ _, trivial⟩
      · obtain ⟨hsound, hkeeps⟩ := withRecord_keeps h _ fun r r' a => addTags_keeps
        exact ⟨hsound, hkeeps, trivial⟩
  | removeTagsFromResource resourceType resourceId tagKeys =>
      refine iff_of_true ?_ not_false
      unfold handle
      dsimp only
      split
      · exact ⟨h, keeps_refl _ _, trivial⟩
      · obtain ⟨hsound, hkeeps⟩ := withRecord_keeps h _ fun r r' a => removeTags_keeps
        exact ⟨hsound, hkeeps, trivial⟩
  | listTagsForResource resourceType resourceId =>
      refine iff_of_true ?_ not_false
      unfold handle
      dsimp only
      split
      · exact ⟨h, keeps_refl _ _, trivial⟩
      · split
        · exact ⟨h, keeps_refl _ _, trivial⟩
        · exact ⟨h, keeps_refl _ _, trivial⟩
  | unlabelParameterVersion name version labels =>
      refine iff_of_true ?_ not_false
      obtain ⟨hsound, hkeeps⟩ := withRecord_keeps h _ fun r r' a => unlabelVersion_keeps
      exact ⟨hsound, hkeeps, trivial⟩

/-- All stores of a run are sound, and every call is upheld. -/
def RunUpheld (host : Host) (store : ParameterStore) : List (ℤ × Call) → Prop
  | [] => StoreSound store
  | (now, call) :: calls => StoreSound store ∧
    CallUpheld host store now call (handle host store now call) ∧
    RunUpheld host (handle host store now call).1 calls

/-- No call of a run slips. -/
def RunSteady (host : Host) (store : ParameterStore) : List (ℤ × Call) → Prop
  | [] => True
  | (now, call) :: calls => ¬call.Slips host store ∧
    RunSteady host (handle host store now call).1 calls

theorem RunUpheld.sound {calls : List (ℤ × Call)} (h : RunUpheld host store calls) :
    StoreSound store := by
  cases calls with
  | nil => exact h
  | cons call calls => exact h.1

theorem StoreSound.run_iff (h : StoreSound store) (calls : List (ℤ × Call)) :
    RunUpheld host store calls ↔ RunSteady host store calls := by
  induction calls generalizing store with
  | nil => exact iff_of_true h trivial
  | cons call calls ih =>
      obtain ⟨now, call⟩ := call
      constructor
      · rintro ⟨-, hupheld, hrest⟩
        exact ⟨(handle_upheld_iff h call).mp ⟨hrest.sound, hupheld⟩, (ih hrest.sound).mp hrest⟩
      · rintro ⟨hsteady, hrest⟩
        obtain ⟨hsound, hupheld⟩ := (handle_upheld_iff h call).mpr hsteady
        exact ⟨h, hupheld, (ih hsound).mpr hrest⟩

/-- Versions and labels of every parameter are as they should be in every state of a run, and
every call does what it should, exactly in the runs no call of which slips. -/
theorem run_upheld_iff_no_slips (host : Host) (calls : List (ℤ × Call)) :
    RunUpheld host empty calls ↔ RunSteady host empty calls :=
  StoreSound.run_iff (fun _ _ hget => (by cases hget)) calls

/-! ## Calls that slip -/

/-- The store after a run. -/
def run (host : Host) (store : ParameterStore) : List (ℤ × Call) → ParameterStore
  | [] => store
  | (now, call) :: calls => run host (handle host store now call).1 calls

theorem RunUpheld.last {calls : List (ℤ × Call)} {call : Call}
    (h : RunUpheld host store (calls ++ [(now, call)])) :
    CallUpheld host (run host store calls) now call
      (handle host (run host store calls) now call) := by
  induction calls generalizing store with
  | nil => exact h.2.1
  | cons first calls ih => exact ih h.2.2

def localHost : Host where
  region := "us-east-1"
  accountId := "000000000000"
  compile := fun _ => none

def putFlag : PutParameterInput where
  name := "/flag"
  value := "on"
  parameterType := none
  description := none
  keyId := none
  overwrite := some true
  allowedPattern := none
  tags := []
  tier := none
  dataType := none
  policies := none

/-- One hundred versions, the first of which gets a label. -/
def fullRun : List (ℤ × Call) :=
  List.replicate 100 (0, .putParameter putFlag) ++
    [(0, .labelParameterVersion "/flag" (some 1) ["gold"])]

/-- A version with nine labels. -/
def nineLabels : List (ℤ × Call) :=
  [(0, .putParameter putFlag), (0, .labelParameterVersion "/flag" (some 1)
    ["a", "b", "c", "d", "e", "f", "g", "h", "i"])]

/-- An overwrite at the limit drops version 2 although version 1 is the oldest and has a label;
and a tenth label is refused when the request names it twice. -/
theorem slips_not_answered :
    ¬RunUpheld localHost empty (fullRun ++ [(0, .putParameter putFlag)]) ∧
    ¬RunUpheld localHost empty
      (nineLabels ++ [(0, .labelParameterVersion "/flag" (some 1) ["z", "z"])]) := by
  constructor
  · intro hupheld
    obtain ⟨hbefore, hafter⟩ : ((run localHost empty fullRun).get? "/flag").map (fun r =>
        ((r.versions.get? 1).map (·.labels), (r.versions.get? 2).map (·.version))) =
          some (some {"gold"}, some 2) ∧
        (((handle localHost (run localHost empty fullRun) 0
          (.putParameter putFlag)).1.get? "/flag").map fun r =>
            ((r.versions.get? 2).map (·.version))) = some none := by
      decide +kernel
    obtain ⟨r, hr, hfacts⟩ := Option.map_eq_some_iff.mp hbefore
    obtain ⟨hgold, hsecond⟩ := Prod.mk.inj hfacts
    obtain ⟨gold, hgold, -⟩ := Option.map_eq_some_iff.mp hgold
    obtain ⟨second, hsecond, -⟩ := Option.map_eq_some_iff.mp hsecond
    obtain ⟨r', hr', hnone⟩ := Option.map_eq_some_iff.mp hafter
    rcases hupheld.last.1.follows "/flag" r hr with ⟨hdeletes, -⟩ | ⟨after, hafter', hfollows⟩
    · exact hdeletes
    · rw [hr'] at hafter'
      cases hafter'
      have hdropped := hfollows.dropped 2 second hsecond (Option.map_eq_none_iff.mp hnone)
      exact absurd (hdropped.2.2.2 1 gold hgold) (by decide)
  · intro hupheld
    have hbefore : ((run localHost empty nineLabels).get? "/flag").map (fun r =>
        (r.versions.get? 1).map (·.labels)) =
          some (some {"a", "b", "c", "d", "e", "f", "g", "h", "i"}) := by
      decide +kernel
    have hrefused : (handle localHost (run localHost empty nineLabels) 0
        (.labelParameterVersion "/flag" (some 1) ["z", "z"])).2 = .error labelLimitExceeded := by
      decide +kernel
    obtain ⟨r, hr, hversion⟩ := Option.map_eq_some_iff.mp hbefore
    obtain ⟨v, hv, hlabels⟩ := Option.map_eq_some_iff.mp hversion
    obtain ⟨o, ho⟩ := (hupheld.last.2 r v hr hv).mpr (by rw [hlabels]; decide +kernel)
    rw [hrefused] at ho
    cases ho

end Rustack.SSM
