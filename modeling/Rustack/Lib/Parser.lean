import Mathlib.Algebra.Order.Ring.Int

/-!
# Recursive descent over a token list

A parser takes the tokens that are left and returns a value with the tokens it
did not use, or an error.  Its loops and its recursion run under a bound, and
`none` says that the bound ran out; the rules for `Total` discharge it once the
bound is the number of tokens.  `Sound` relates the tokens a parser used to a
grammar.  The loop rules follow the shape of a left recursive production: what
has been read so far is extended by one round.
-/

universe u v w x

def Parser (τ : Type u) (ε : Type v) (α : Type w) :=
  List τ → Option (Except ε (α × List τ))

namespace Parser

variable {τ : Type u} {ε : Type v} {α : Type w} {β : Type x}

/-- The parser stops with this value and these tokens left. -/
def done (value : α) (rest : List τ) : Option (Except ε (α × List τ)) := some (.ok (value, rest))

def fail (error : ε) : Parser τ ε α := fun _ => some (.error error)

def ret (value : α) : Parser τ ε α := fun ts => done value ts

protected def andThen (p : Parser τ ε α) (f : α → Parser τ ε β) : Parser τ ε β := fun ts =>
  match p ts with
  | none => none
  | some (.error e) => some (.error e)
  | some (.ok (a, rest)) => f a rest

/-- Change the value of a parser that has already run. -/
def mapDone (f : α → β) (result : Option (Except ε (α × List τ))) :
    Option (Except ε (β × List τ)) :=
  match result with
  | none => none
  | some (.error e) => some (.error e)
  | some (.ok (a, rest)) => done (f a) rest

instance {τ : Type u} {ε : Type v} : Monad (Parser.{u, v, w} τ ε) where
  pure := ret
  bind := Parser.andThen

/-- As long as the next token satisfies `more`, use it up and run `body` on what follows. -/
def whileNext (more : τ → Bool) (body : α → τ → Parser τ ε α) : ℕ → α → Parser τ ε α
  | _, acc, [] => done acc []
  | fuel, acc, t :: ts =>
    if more t then
      match fuel with
      | 0 => none
      | fuel + 1 => (body acc t).andThen (whileNext more body fuel) ts
    else done acc (t :: ts)

/-- The loop with as many rounds as there are tokens. -/
def loop (more : τ → Bool) (body : α → τ → Parser τ ε α) (acc : α) : Parser τ ε α :=
  fun ts => whileNext more body ts.length acc ts

/-- The loop over `sep item sep item …`, each item combined into what is there. -/
def sepLoop [DecidableEq τ] (sep : τ) (item : Parser τ ε β) (combine : α → β → α) (acc : α) :
    Parser τ ε α :=
  loop (fun t => decide (t = sep)) (fun a _ => item.andThen fun b => ret (combine a b)) acc

/-- A parser that calls itself, with at most `n` calls inside each other. -/
def nest (step : Parser τ ε α → Parser τ ε α) : ℕ → Parser τ ε α
  | 0 => fun _ => none
  | n + 1 => step (nest step n)

/-- The recursion with as many levels as there are tokens. -/
def recursive (step : Parser τ ε α → Parser τ ε α) : Parser τ ε α :=
  fun ts => nest step (ts.length + 1) ts

@[simp] theorem done_inj {a b : α} {rest rest' : List τ} :
    (done a rest : Option (Except ε (α × List τ))) = done b rest' ↔ a = b ∧ rest = rest' := by
  simp [done]

@[simp] theorem done_ne_none {a : α} {rest : List τ} :
    (done a rest : Option (Except ε (α × List τ))) ≠ none := by
  simp [done]

@[simp] theorem fail_ne_done {e : ε} {ts : List τ} {a : α} {rest : List τ} :
    fail e ts ≠ done a rest := by
  simp [fail, done]

@[simp] theorem fail_ne_none {e : ε} {ts : List τ} : (fail e : Parser τ ε α) ts ≠ none := by
  simp [fail]

@[simp] theorem pure_apply {τ : Type u} {ε : Type v} {α : Type w} (a : α) (ts : List τ) :
    (pure a : Parser τ ε α) ts = done a ts := rfl

@[simp] theorem bind_eq {α β : Type w} (p : Parser τ ε α) (f : α → Parser τ ε β) :
    (p >>= f) = p.andThen f := rfl

@[simp] theorem seq_eq_andThen {α β : Type w} (f : α → β) (p : Parser τ ε α) :
    (f <$> p) = p.andThen fun a => ret (f a) := rfl

theorem andThen_done {p : Parser τ ε α} {f : α → Parser τ ε β} {ts mid : List τ} {a : α}
    (hp : p ts = done a mid) : p.andThen f ts = f a mid := by
  simp [Parser.andThen, hp, done]

theorem andThen_eq_done {p : Parser τ ε α} {f : α → Parser τ ε β} {ts rest : List τ} {b : β} :
    p.andThen f ts = done b rest ↔ ∃ a mid, p ts = done a mid ∧ f a mid = done b rest := by
  unfold Parser.andThen
  rcases hp : p ts with _ | _ | ⟨a, mid⟩
  · simp [done]
  · simp [done]
  · constructor
    · intro h
      exact ⟨a, mid, rfl, h⟩
    · rintro ⟨a', mid', h, hf⟩
      obtain ⟨rfl, rfl⟩ := done_inj.mp h
      exact hf

theorem andThen_ne_none {p : Parser τ ε α} {f : α → Parser τ ε β} {ts : List τ}
    (hp : p ts ≠ none) (hf : ∀ a mid, p ts = done a mid → f a mid ≠ none) :
    p.andThen f ts ≠ none := by
  unfold Parser.andThen
  rcases h : p ts with _ | _ | ⟨a, mid⟩
  · exact absurd h hp
  · simp
  · exact hf a mid h

theorem mapDone_eq_done {f : α → β} {result : Option (Except ε (α × List τ))} {b : β}
    {rest : List τ} : mapDone f result = done b rest ↔ ∃ a, result = done a rest ∧ f a = b := by
  rcases result with _ | _ | ⟨a, mid⟩ <;> simp [mapDone, done, eq_comm, and_comm]

theorem mapDone_ne_none {f : α → β} {result : Option (Except ε (α × List τ))}
    (h : result ≠ none) : mapDone f result ≠ none := by
  rcases result with _ | _ | ⟨a, mid⟩
  · exact absurd rfl h
  · simp [mapDone]
  · simp [mapDone]

/-! ### Soundness against a grammar -/

/-- Whatever the parser returns, the tokens it used derive it. -/
def Sound (p : Parser τ ε α) (derives : List τ → α → Prop) : Prop :=
  ∀ ts a rest, p ts = done a rest → ∃ used, ts = used ++ rest ∧ derives used a

theorem Sound.length_le {p : Parser τ ε α} {derives : List τ → α → Prop}
    (hp : p.Sound derives) {ts rest : List τ} {a : α} (h : p ts = done a rest) :
    rest.length ≤ ts.length := by
  obtain ⟨used, rfl, -⟩ := hp ts a rest h
  simp

theorem Sound.mono {p : Parser τ ε α} {derives derives' : List τ → α → Prop}
    (hp : p.Sound derives) (himp : ∀ ts a, derives ts a → derives' ts a) : p.Sound derives' := by
  intro ts a rest h
  obtain ⟨used, hts, hused⟩ := hp ts a rest h
  exact ⟨used, hts, himp used a hused⟩

theorem Sound.ret_andThen {p : Parser τ ε α} {f : α → β} {derives : List τ → α → Prop}
    {derives' : List τ → β → Prop} (hp : p.Sound derives)
    (himp : ∀ ts a, derives ts a → derives' ts (f a)) :
    (p.andThen fun a => ret (f a)).Sound derives' := by
  intro ts b rest h
  obtain ⟨a, mid, ha, hb⟩ := andThen_eq_done.mp h
  obtain ⟨rfl, rfl⟩ := done_inj.mp hb
  obtain ⟨used, hts, hused⟩ := hp ts a mid ha
  exact ⟨used, hts, himp used a hused⟩

/-- Loop rule: `derives` is the invariant, extended by the tokens of one round. -/
theorem whileNext_sound {more : τ → Bool} {body : α → τ → Parser τ ε α}
    {derives : List τ → α → Prop}
    (hbody : ∀ a t used ts b rest, more t = true → derives used a → body a t ts = done b rest →
      ∃ round, ts = round ++ rest ∧ derives (used ++ t :: round) b)
    {fuel : ℕ} {a b : α} {used ts rest : List τ} (ha : derives used a)
    (h : whileNext more body fuel a ts = done b rest) :
    ∃ read, ts = read ++ rest ∧ derives (used ++ read) b := by
  induction fuel generalizing a used ts with
  | zero =>
      cases ts with
      | nil =>
          obtain ⟨rfl, rfl⟩ := done_inj.mp h
          exact ⟨[], rfl, by simpa using ha⟩
      | cons t ts =>
          unfold whileNext at h
          split_ifs at h with hmore
          · simp [done] at h
          · obtain ⟨rfl, rfl⟩ := done_inj.mp h
            exact ⟨[], rfl, by simpa using ha⟩
  | succ fuel ih =>
      cases ts with
      | nil =>
          obtain ⟨rfl, rfl⟩ := done_inj.mp h
          exact ⟨[], rfl, by simpa using ha⟩
      | cons t ts =>
          unfold whileNext at h
          split_ifs at h with hmore
          · obtain ⟨c, mid, hc, hrest⟩ := andThen_eq_done.mp h
            obtain ⟨round, hround, hcRound⟩ := hbody a t used ts c mid hmore ha hc
            obtain ⟨read, rfl, hb⟩ := ih hcRound hrest
            exact ⟨t :: round ++ read, by simp [hround], by simpa using hb⟩
          · obtain ⟨rfl, rfl⟩ := done_inj.mp h
            exact ⟨[], rfl, by simpa using ha⟩

theorem sepLoop_sound [DecidableEq τ] {sep : τ} {item : Parser τ ε β} {combine : α → β → α}
    {derives : List τ → α → Prop} {derivesItem : List τ → β → Prop}
    (hitem : item.Sound derivesItem)
    (hround : ∀ us a vs b, derives us a → derivesItem vs b →
      derives (us ++ sep :: vs) (combine a b))
    {a b : α} {used ts rest : List τ} (ha : derives used a)
    (h : sepLoop sep item combine a ts = done b rest) :
    ∃ read, ts = read ++ rest ∧ derives (used ++ read) b := by
  refine whileNext_sound ?_ ha h
  intro a t used ts c rest hmore hused hc
  obtain ⟨b, mid, hb, hret⟩ := andThen_eq_done.mp hc
  obtain ⟨rfl, rfl⟩ := done_inj.mp hret
  obtain ⟨round, hts, hderives⟩ := hitem ts b mid hb
  obtain rfl : t = sep := by simpa using hmore
  exact ⟨round, hts, hround _ _ _ _ hused hderives⟩

theorem nest_sound {step : Parser τ ε α → Parser τ ε α} {derives : List τ → α → Prop}
    (hstep : ∀ p, p.Sound derives → (step p).Sound derives) (n : ℕ) :
    (nest step n).Sound derives := by
  induction n with
  | zero => intro ts a rest h; simp [nest, done] at h
  | succ n ih => exact hstep _ ih

theorem recursive_sound {step : Parser τ ε α → Parser τ ε α} {derives : List τ → α → Prop}
    (hstep : ∀ p, p.Sound derives → (step p).Sound derives) :
    (recursive step).Sound derives :=
  fun ts => nest_sound hstep (ts.length + 1) ts

/-- What is left over is a suffix of what there was. -/
def Forward (p : Parser τ ε α) : Prop := p.Sound fun _ _ => True

theorem Sound.forward {p : Parser τ ε α} {derives : List τ → α → Prop} (hp : p.Sound derives) :
    p.Forward :=
  hp.mono fun _ _ _ => trivial

/-! ### One round of a loop, and its end -/

theorem whileNext_stop {more : τ → Bool} {body : α → τ → Parser τ ε α} {rest : List τ}
    (hstop : ∀ t ts, rest = t :: ts → more t = false) (fuel : ℕ) (a : α) :
    whileNext more body fuel a rest = done a rest := by
  cases rest with
  | nil => cases fuel <;> rfl
  | cons t ts => cases fuel <;> simp [whileNext, hstop t ts rfl]

theorem whileNext_round {more : τ → Bool} {body : α → τ → Parser τ ε α} {t : τ}
    {ts mid : List τ} {a b : α} (hmore : more t = true) (hbody : body a t ts = done b mid)
    (fuel : ℕ) : whileNext more body (fuel + 1) a (t :: ts) = whileNext more body fuel b mid := by
  simp [whileNext, hmore, andThen_done hbody]

/-! ### The bounds suffice -/

/-- With fewer than `n` tokens the parser does not run out of its bound. -/
def Total (p : Parser τ ε α) (n : ℕ) : Prop := ∀ ts, ts.length < n → p ts ≠ none

theorem Total.ret (a : α) (n : ℕ) : (ret a : Parser τ ε α).Total n :=
  fun _ _ => done_ne_none

theorem Total.fail (e : ε) (n : ℕ) : (Parser.fail e : Parser τ ε α).Total n :=
  fun _ _ => fail_ne_none

theorem Total.andThen {p : Parser τ ε α} {f : α → Parser τ ε β} {n : ℕ}
    {derives : List τ → α → Prop} (hp : p.Total n) (hs : p.Sound derives)
    (hf : ∀ a, (f a).Total n) : (p.andThen f).Total n := by
  intro ts hts
  apply andThen_ne_none (hp ts hts)
  intro a mid hmid
  exact hf a mid (lt_of_le_of_lt (hs.length_le hmid) hts)

theorem whileNext_ne_none {more : τ → Bool} {body : α → τ → Parser τ ε α} {n : ℕ}
    (hbody : ∀ a t, (body a t).Total n)
    (hshorter : ∀ a t ts b rest, body a t ts = done b rest → rest.length ≤ ts.length)
    {fuel : ℕ} {a : α} {ts : List τ} (hfuel : ts.length ≤ fuel) (hts : ts.length < n) :
    whileNext more body fuel a ts ≠ none := by
  induction fuel generalizing a ts with
  | zero =>
      cases ts with
      | nil => simp [whileNext]
      | cons t ts => simp at hfuel
  | succ fuel ih =>
      cases ts with
      | nil => simp [whileNext]
      | cons t ts =>
          simp only [List.length_cons] at hfuel hts
          unfold whileNext
          split_ifs with hmore
          · apply andThen_ne_none (hbody a t ts (by omega))
            intro b mid hmid
            have hle := hshorter a t ts b mid hmid
            exact ih (by omega) (by omega)
          · exact done_ne_none

theorem Total.loop {more : τ → Bool} {body : α → τ → Parser τ ε α} {n : ℕ}
    (hbody : ∀ a t, (body a t).Total n)
    (hshorter : ∀ a t ts b rest, body a t ts = done b rest → rest.length ≤ ts.length) (a : α) :
    (loop more body a).Total n :=
  fun _ hts => whileNext_ne_none hbody hshorter le_rfl hts

theorem Total.sepLoop [DecidableEq τ] {sep : τ} {item : Parser τ ε β} {combine : α → β → α}
    {n : ℕ} {derivesItem : List τ → β → Prop} (hitem : item.Total n)
    (hs : item.Sound derivesItem) (a : α) : (sepLoop sep item combine a).Total n := by
  apply Total.loop
  · intro a t
    exact hitem.andThen hs fun b => Total.ret _ n
  · intro a t ts b rest h
    obtain ⟨c, mid, hc, hret⟩ := andThen_eq_done.mp h
    obtain ⟨-, rfl⟩ := done_inj.mp hret
    exact hs.length_le hc

theorem nest_total {step : Parser τ ε α → Parser τ ε α} {derives : List τ → α → Prop}
    (hsound : ∀ p, p.Sound derives → (step p).Sound derives)
    (hstep : ∀ p n, p.Sound derives → p.Total n → (step p).Total (n + 1)) (n : ℕ) :
    (nest step n).Total n := by
  induction n with
  | zero => intro ts hts; simp at hts
  | succ n ih => exact hstep _ n (nest_sound hsound n) ih

theorem recursive_total {step : Parser τ ε α → Parser τ ε α} {derives : List τ → α → Prop}
    (hsound : ∀ p, p.Sound derives → (step p).Sound derives)
    (hstep : ∀ p n, p.Sound derives → p.Total n → (step p).Total (n + 1)) (n : ℕ) :
    (recursive step).Total n :=
  fun ts _ => nest_total hsound hstep (ts.length + 1) ts (by omega)

end Parser
