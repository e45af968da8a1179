import Mathlib.Data.List.Induction

/-!
# Runs that keep a promise

A promise about a system has two parts: every state that a run passes is good, and every move of
it is answered well.  It is kept exactly by the runs whose moves are mild, if there is an invariant
that mild moves keep, under which mild moves are answered well, and from which a move that is not
mild breaks the promise at once.
-/

namespace Runs

variable {σ μ : Type} (step : σ → μ → Option σ) (good : σ → Prop) (answered mild : σ → μ → Prop)

/-- The state after some moves. -/
def run : σ → List μ → Option σ
  | s, [] => some s
  | s, m :: ms => (step s m).bind fun s' => run s' ms

/-- Every state of the run is good and every move is answered well. -/
def Upheld : σ → List μ → Prop
  | s, [] => good s
  | s, m :: ms => good s ∧ answered s m ∧ ∀ s', step s m = some s' → Upheld s' ms

/-- Every move of the run is mild. -/
def Steady : σ → List μ → Prop
  | _, [] => True
  | s, m :: ms => mild s m ∧ ∀ s', step s m = some s' → Steady s' ms

theorem run_append {s s' : σ} (ms rest : List μ) :
    run step s (ms ++ rest) = some s' ↔
      ∃ mid, run step s ms = some mid ∧ run step mid rest = some s' := by
  induction ms generalizing s with
  | nil => exact ⟨fun h => ⟨s, rfl, h⟩, fun ⟨_, hmid, h⟩ => Option.some.inj hmid ▸ h⟩
  | cons m ms ih =>
      rw [List.cons_append, run, run, Option.bind_eq_some_iff]
      constructor
      · rintro ⟨next, hnext, h⟩
        obtain ⟨mid, hmid, hrest⟩ := ih.mp h
        exact ⟨mid, Option.bind_eq_some_iff.mpr ⟨next, hnext, hmid⟩, hrest⟩
      · rintro ⟨mid, hmid, hrest⟩
        obtain ⟨next, hnext, hmid⟩ := Option.bind_eq_some_iff.mp hmid
        exact ⟨next, hnext, ih.mpr ⟨mid, hmid, hrest⟩⟩

theorem run_singleton {s s' : σ} {m : μ} : run step s [m] = some s' ↔ step s m = some s' := by
  rw [run, Option.bind_eq_some_iff]
  exact ⟨fun ⟨_, hnext, h⟩ => hnext.trans h, fun h => ⟨s', h, rfl⟩⟩

theorem run_invariant {I : σ → Prop} (hstep : ∀ {s m t}, I s → step s m = some t → I t) {s t : σ}
    {ms : List μ} (hs : I s) (h : run step s ms = some t) : I t := by
  induction ms generalizing s with
  | nil => exact Option.some.inj h ▸ hs
  | cons m ms ih =>
      obtain ⟨next, hnext, hrest⟩ := Option.bind_eq_some_iff.mp h
      exact ih (hstep hs hnext) hrest

/-- If a step can be told from where it leads to, and no step leads to a seed, then a run from a
seed can be told from where it ends. -/
theorem run_inj {I seed : σ → Prop} (hinv : ∀ {s m t}, I s → step s m = some t → I t)
    (hstep : ∀ {s m s' m' t}, I s → I s' → step s m = some t → step s' m' = some t →
      s = s' ∧ m = m')
    (hseed : ∀ {s m t}, step s m = some t → ¬seed t) {s s' t : σ} {ms ms' : List μ}
    (hs : I s ∧ seed s) (hs' : I s' ∧ seed s') (h : run step s ms = some t)
    (h' : run step s' ms' = some t) : s = s' ∧ ms = ms' := by
  induction ms using List.reverseRecOn generalizing ms' t with
  | nil =>
      cases h
      induction ms' using List.reverseRecOn with
      | nil => exact ⟨(Option.some.inj h').symm, rfl⟩
      | append_singleton ms' m' _ =>
          obtain ⟨mid, -, hlast⟩ := (run_append step ms' [m']).mp h'
          exact absurd hs.2 (hseed ((run_singleton step).mp hlast))
  | append_singleton ms m ih =>
      obtain ⟨mid, hmid, hlast⟩ := (run_append step ms [m]).mp h
      induction ms' using List.reverseRecOn with
      | nil =>
          cases h'
          exact absurd hs'.2 (hseed ((run_singleton step).mp hlast))
      | append_singleton ms' m' _ =>
          obtain ⟨mid', hmid', hlast'⟩ := (run_append step ms' [m']).mp h'
          obtain ⟨rfl, rfl⟩ := hstep (run_invariant step hinv hs.1 hmid)
            (run_invariant step hinv hs'.1 hmid') ((run_singleton step).mp hlast)
            ((run_singleton step).mp hlast')
          obtain ⟨rfl, rfl⟩ := ih hmid hmid'
          exact ⟨rfl, rfl⟩

variable {step good answered mild} {inv : σ → Prop}

theorem Upheld.head {s : σ} {ms : List μ} (h : Upheld step good answered s ms) : good s := by
  cases ms with
  | nil => exact h
  | cons m ms => exact h.1

/-- A move is answered in the state that the moves before it lead to. -/
theorem Upheld.answer {s s' : σ} {ms rest : List μ} {m : μ}
    (h : Upheld step good answered s (ms ++ m :: rest)) (hrun : run step s ms = some s') :
    answered s' m := by
  induction ms generalizing s with
  | nil =>
      cases hrun
      exact h.2.1
  | cons first ms ih =>
      obtain ⟨next, hnext, hrest⟩ := Option.bind_eq_some_iff.mp hrun
      exact ih (h.2.2 next hnext) hrest

theorem Steady.upheld (hgood : ∀ s, inv s → good s)
    (hanswered : ∀ s m, inv s → mild s m → answered s m)
    (hstep : ∀ s m s', inv s → mild s m → step s m = some s' → inv s') {s : σ} {ms : List μ}
    (hinv : inv s) (h : Steady step mild s ms) : Upheld step good answered s ms := by
  induction ms generalizing s with
  | nil => exact hgood s hinv
  | cons m ms ih =>
      refine ⟨hgood s hinv, hanswered s m hinv h.1, ?_⟩
      intro s' hs'
      exact ih (hstep s m s' hinv h.1 hs') (h.2 s' hs')

theorem Steady.append {s : σ} {ms rest : List μ} (h : Steady step mild s ms)
    (hrest : ∀ s', run step s ms = some s' → Steady step mild s' rest) :
    Steady step mild s (ms ++ rest) := by
  induction ms generalizing s with
  | nil => exact hrest s rfl
  | cons m ms ih =>
      refine ⟨h.1, fun next hnext => ih (h.2 next hnext) fun s' hs' => hrest s' ?_⟩
      exact Option.bind_eq_some_iff.mpr ⟨next, hnext, hs'⟩

theorem Steady.invariant (hstep : ∀ s m s', inv s → mild s m → step s m = some s' → inv s')
    {s s' : σ} {ms : List μ} (h : Steady step mild s ms) (hinv : inv s)
    (hrun : run step s ms = some s') : inv s' := by
  induction ms generalizing s with
  | nil => exact Option.some.inj hrun ▸ hinv
  | cons m ms ih =>
      obtain ⟨next, hnext, hrest⟩ := Option.bind_eq_some_iff.mp hrun
      exact ih (h.2 next hnext) (hstep s m next hinv h.1 hnext) hrest

/-- The rule for runs: the promise is kept exactly if all moves are mild. -/
theorem upheld_iff (hgood : ∀ s, inv s → good s)
    (hanswered : ∀ s m, inv s → mild s m → answered s m)
    (hstep : ∀ s m s', inv s → mild s m → step s m = some s' → inv s')
    (hwild : ∀ s m, inv s → answered s m → (∀ s', step s m = some s' → good s') → mild s m)
    {s : σ} (hinv : inv s) (ms : List μ) :
    Upheld step good answered s ms ↔ Steady step mild s ms := by
  refine ⟨?_, Steady.upheld hgood hanswered hstep hinv⟩
  intro h
  induction ms generalizing s with
  | nil => trivial
  | cons m ms ih =>
      have hmild := hwild s m hinv h.2.1 fun s' hs' => (h.2.2 s' hs').head
      refine ⟨hmild, ?_⟩
      intro s' hs'
      exact ih (hstep s m s' hinv hmild hs') (h.2.2 s' hs')

end Runs
