import Mathlib.Tactic.Common

/-!
# Outcomes of a call that can fail or panic

`Except` separates a value from an error.  A slice index out of range or an
inverted tree range is neither: the thread unwinds, and what the caller
observes is a panic.  `Outcome` keeps the three apart, and the lemmas below
are the inversion rules with which a sequence of steps is taken to pieces.
-/

universe u v

inductive Outcome (ε : Type u) (α : Type v) where
  | ok (value : α)
  | err (error : ε)
  | panic
  deriving DecidableEq

/-- The inversion rule for `Except`, where a call cannot panic. -/
theorem Except.bind_eq_ok {ε : Type u} {α β : Type v} {x : Except ε α} {f : α → Except ε β}
    {b : β} : (x >>= f) = .ok b ↔ ∃ a, x = .ok a ∧ f a = .ok b := by
  cases x <;> simp [bind, Except.bind]

namespace Outcome

variable {ε ε' : Type u} {α β : Type v}

protected def bind (x : Outcome ε α) (f : α → Outcome ε β) : Outcome ε β :=
  match x with
  | ok a => f a
  | err e => err e
  | panic => panic

instance : Monad (Outcome ε) where
  pure := ok
  bind := Outcome.bind

instance : MonadExceptOf ε (Outcome ε) where
  throw := err
  tryCatch x handler := match x with
    | err e => handler e
    | y => y

def ofExcept : Except ε α → Outcome ε α
  | .ok a => ok a
  | .error e => err e

instance : MonadLift (Except ε) (Outcome ε) := ⟨ofExcept⟩

@[simp] theorem pure_eq (a : α) : (pure a : Outcome ε α) = ok a := rfl

@[simp] theorem throw_eq (e : ε) : (throw e : Outcome ε α) = err e := rfl

@[simp] theorem ok_bind (a : α) (f : α → Outcome ε β) : (ok a >>= f) = f a := rfl

@[simp] theorem err_bind (e : ε) (f : α → Outcome ε β) : (err e >>= f) = err e := rfl

@[simp] theorem panic_bind (f : α → Outcome ε β) : ((panic : Outcome ε α) >>= f) = panic := rfl

@[simp] theorem monadLift_eq (x : Except ε α) :
    (monadLift x : Outcome ε α) = ofExcept x := rfl

@[simp] theorem liftM_eq (x : Except ε α) : (liftM x : Outcome ε α) = ofExcept x := rfl

theorem bind_eq_ok {x : Outcome ε α} {f : α → Outcome ε β} {b : β} :
    (x >>= f) = ok b ↔ ∃ a, x = ok a ∧ f a = ok b := by
  cases x <;> simp

theorem bind_eq_panic {x : Outcome ε α} {f : α → Outcome ε β} :
    (x >>= f) = panic ↔ x = panic ∨ ∃ a, x = ok a ∧ f a = panic := by
  cases x <;> simp

theorem except_mapError_eq_ok {f : ε → ε'} {x : Except ε α} {a : α} :
    x.mapError f = .ok a ↔ x = .ok a := by
  cases x <;> simp [Except.mapError]

/-- A loop that can fail keeps what each turn keeps. -/
theorem foldlM_invariant {f : β → α → Except ε β} {I : β → Prop} {l : List α}
    (hstep : ∀ b a b', a ∈ l → I b → f b a = .ok b' → I b') {b b' : β} (hb : I b)
    (h : l.foldlM f b = .ok b') : I b' := by
  induction l generalizing b with
  | nil =>
      cases h
      exact hb
  | cons a l ih =>
      rw [List.foldlM_cons] at h
      obtain ⟨next, hnext, h⟩ := Except.bind_eq_ok.mp h
      exact ih (fun b a b' ha => hstep b a b' (.tail _ ha))
        (hstep b a next (.head _) hb hnext) h

/-- The same for a loop that may end early, with what is left of the list in the invariant. -/
theorem option_foldlM_rule {f : β → α → Option β} {I : β → List α → Prop} {l : List α}
    (hstep : ∀ b a rest b', I b (a :: rest) → f b a = some b' → I b' rest) {b b' : β}
    (hb : I b l) (h : l.foldlM f b = some b') : I b' [] := by
  induction l generalizing b with
  | nil =>
      cases h
      exact hb
  | cons a l ih =>
      rw [List.foldlM_cons] at h
      obtain ⟨next, hnext, h⟩ := Option.bind_eq_some_iff.mp h
      exact ih (hstep b a l next hb hnext) h

/-- A loop none of whose turns fails is the loop without failure. -/
theorem foldlM_eq_foldl {f : β → α → Except ε β} {g : β → α → β} {l : List α}
    (hstep : ∀ b, ∀ a ∈ l, f b a = .ok (g b a)) (b : β) :
    l.foldlM f b = .ok (l.foldl g b) := by
  induction l generalizing b with
  | nil => rfl
  | cons a l ih =>
      rw [List.foldlM_cons, hstep b a List.mem_cons_self, List.foldl_cons]
      exact ih (fun b a ha => hstep b a (.tail _ ha)) (g b a)

/-- A loop that goes through has gone through every turn. -/
theorem exists_step_of_foldlM {f : β → α → Except ε β} {l : List α} {b b' : β}
    (h : l.foldlM f b = .ok b') : ∀ a ∈ l, ∃ c c', f c a = .ok c' := by
  induction l generalizing b with
  | nil => intro a ha; cases ha
  | cons a l ih =>
      rw [List.foldlM_cons] at h
      obtain ⟨next, hnext, h⟩ := Except.bind_eq_ok.mp h
      intro x hx
      rcases List.mem_cons.mp hx with rfl | hx
      · exact ⟨b, next, hnext⟩
      · exact ih h x hx

@[simp] theorem ofExcept_eq_ok {x : Except ε α} {a : α} :
    ofExcept x = ok a ↔ x = .ok a := by
  cases x <;> simp [ofExcept]

@[simp] theorem ofExcept_ne_panic (x : Except ε α) : ofExcept x ≠ panic := by
  cases x <;> simp [ofExcept]

def isPanic : Outcome ε α → Bool
  | panic => true
  | _ => false

theorem isPanic_iff {x : Outcome ε α} : x.isPanic = true ↔ x = panic := by
  cases x <;> simp [isPanic]

end Outcome
