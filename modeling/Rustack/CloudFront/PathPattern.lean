import Rustack.CloudFront.Plane
import Rustack.Lib.LetterGlob

/-!
# Path patterns

The loop over a pattern and a path goes back to the last star only.  It decides the language of
the pattern all the same: a star for any bytes, a question mark for one byte, and every other byte
for itself.
-/

namespace Rustack.CloudFront

open LetterGlob (Accepts Word accepts_letter accepts_star accepts_star_cons accepts_empty)
open List

def IsStar (c : UInt8) : Prop := c = 42

/-- What a byte of a pattern, other than a star, stands for. -/
def Takes (c b : UInt8) : Prop := c = 63 ∨ c = b

/-- The path is the pattern with bytes put in for its stars and question marks. -/
def Matches (pattern path : String) : Prop :=
  Accepts IsStar Takes (Utf8.encode pattern.toList) (Utf8.encode path.toList)

theorem isStar_star : IsStar 42 := rfl

section Loop

variable {pattern s : List UInt8} {p i lastMatch : ℕ}

/-- What the loop has still to find out. -/
def Goal (pattern s : List UInt8) (p i : ℕ) (star : Option ℕ) (lastMatch : ℕ) : Prop :=
  match star with
  | none => Accepts IsStar Takes (pattern.drop p) (s.drop i)
  | some sp => Accepts IsStar Takes (42 :: pattern.drop (sp + 1)) (s.drop lastMatch)

/-- Behind the last star a word of the pattern has been found. -/
def Reached (pattern s : List UInt8) (p i : ℕ) (star : Option ℕ) (lastMatch : ℕ) : Prop :=
  ∀ sp, star = some sp → ∃ word found, Word IsStar Takes word found ∧
    pattern.drop (sp + 1) = word ++ pattern.drop p ∧ s.drop lastMatch = found ++ s.drop i

theorem reached_star : Reached pattern s (p + 1) i (some p) i := by
  intro sp hsp
  cases hsp
  exact ⟨[], [], .nil, rfl, rfl⟩

theorem drop_of_getElem? {c : UInt8} (h : pattern[p]? = some c) :
    pattern.drop p = c :: pattern.drop (p + 1) := by
  obtain ⟨hlt, rfl⟩ := List.getElem?_eq_some_iff.mp h
  exact List.drop_eq_getElem_cons hlt

theorem goal_star {star : Option ℕ} (hreached : Reached pattern s p i star lastMatch)
    (hp : pattern[p]? = some 42) :
    Goal pattern s p i star lastMatch ↔ Goal pattern s (p + 1) i (some p) i := by
  have hdrop := drop_of_getElem? hp
  cases star with
  | none =>
      unfold Goal
      rw [hdrop]
  | some sp =>
      obtain ⟨word, found, hword, hpattern, hs⟩ := hreached sp rfl
      unfold Goal
      dsimp only
      rw [hpattern, hs, hdrop]
      exact hword.accepts_commit isStar_star isStar_star

/-- A byte that is taken. -/
theorem goal_takes {star : Option ℕ} {c b : UInt8} (hp : pattern[p]? = some c)
    (hs : s[i]? = some b) (hc : ¬IsStar c) (htakes : Takes c b) :
    Goal pattern s p i star lastMatch ↔ Goal pattern s (p + 1) (i + 1) star lastMatch := by
  cases star with
  | none =>
      unfold Goal
      dsimp only
      rw [drop_of_getElem? hp, drop_of_getElem? hs, accepts_letter hc]
      constructor
      · rintro ⟨b', rest, -, heq, hrest⟩
        rwa [(cons.inj heq).2]
      · exact fun hrest => ⟨_, _, htakes, rfl, hrest⟩
  | some sp => exact Iff.rfl

theorem Reached.takes {star : Option ℕ} {c b : UInt8}
    (hreached : Reached pattern s p i star lastMatch) (hp : pattern[p]? = some c)
    (hs : s[i]? = some b) (hc : ¬IsStar c) (htakes : Takes c b) :
    Reached pattern s (p + 1) (i + 1) star lastMatch := by
  intro sp hsp
  obtain ⟨word, found, hword, hpattern, hfound⟩ := hreached sp hsp
  refine ⟨word ++ [c], found ++ [b], hword.concat hc htakes, ?_, ?_⟩
  · rw [hpattern, drop_of_getElem? hp, append_assoc, singleton_append]
  · rw [hfound, drop_of_getElem? hs, append_assoc, singleton_append]

/-- What is left of the pattern does not take the next byte. -/
def Stuck (pattern s : List UInt8) (p i : ℕ) : Prop :=
  ¬Accepts IsStar Takes (pattern.drop p) (s.drop i)

theorem stuck_of_byte {c b : UInt8} (hp : pattern[p]? = some c) (hs : s[i]? = some b)
    (hc : ¬IsStar c) (htakes : ¬Takes c b) : Stuck pattern s p i := by
  unfold Stuck
  rw [drop_of_getElem? hp, drop_of_getElem? hs, accepts_letter hc]
  rintro ⟨b', rest, hb', heq, -⟩
  obtain rfl := (cons.inj heq).1
  exact htakes hb'

theorem stuck_of_end (hp : pattern[p]? = none) (hi : i < s.length) : Stuck pattern s p i := by
  unfold Stuck
  rw [drop_eq_nil_iff.mpr (getElem?_eq_none_iff.mp hp), LetterGlob.accepts_nil,
    drop_eq_nil_iff]
  omega

/-- The star takes one byte more. -/
theorem goal_retry {sp : ℕ} (hreached : Reached pattern s p i (some sp) lastMatch)
    (hstuck : Stuck pattern s p i) (hlt : lastMatch < s.length) :
    Goal pattern s p i (some sp) lastMatch ↔
      Goal pattern s (sp + 1) (lastMatch + 1) (some sp) (lastMatch + 1) := by
  obtain ⟨word, found, hword, hpattern, hs⟩ := hreached sp rfl
  have hnot : ¬Accepts IsStar Takes (pattern.drop (sp + 1)) (s.drop lastMatch) := by
    rw [hpattern, hs, hword.accepts_append]
    exact hstuck
  unfold Goal
  dsimp only
  rw [drop_eq_getElem_cons hlt] at hnot ⊢
  rw [accepts_star_cons isStar_star, or_iff_right hnot]

theorem reached_retry {sp : ℕ} :
    Reached pattern s (sp + 1) (lastMatch + 1) (some sp) (lastMatch + 1) := by
  intro sp' hsp
  cases hsp
  exact ⟨[], [], .nil, rfl, rfl⟩

/-- At the end of the path only stars may be left. -/
theorem goal_end {star : Option ℕ} (hreached : Reached pattern s p i star lastMatch)
    (hi : ¬i < s.length) :
    Goal pattern s p i star lastMatch ↔ (pattern.drop p).all (· == 42) = true := by
  have hs : s.drop i = [] := drop_eq_nil_iff.mpr (not_lt.mp hi)
  have hall : Accepts IsStar Takes (pattern.drop p) [] ↔
      (pattern.drop p).all (· == 42) = true := by
    rw [accepts_empty, all_eq_true]
    simp [IsStar]
  rw [← hall]
  cases star with
  | none =>
      unfold Goal
      dsimp only
      rw [hs]
  | some sp =>
      obtain ⟨word, found, hword, hpattern, hfound⟩ := hreached sp rfl
      unfold Goal
      dsimp only
      rw [hs, append_nil] at hfound
      rw [hfound, hpattern]
      exact hword.accepts_end isStar_star

theorem takes_of {c : UInt8} (hi : i < s.length) :
    (c = 63 ∨ s[i]? = some c) ↔ Takes c s[i] := by
  rw [getElem?_eq_getElem hi, Option.some.injEq, eq_comm (a := s[i])]
  exact Iff.rfl

/-- The loop finds out what it has to.  The cases are its branches, and behind a mismatch it goes
back to the last star. -/
theorem globLoop_iff {star : Option ℕ} {h : lastMatch ≤ i}
    (hreached : Reached pattern s p i star lastMatch) :
    globLoop pattern s p i star lastMatch h = true ↔ Goal pattern s p i star lastMatch := by
  fun_induction globLoop pattern s p i star lastMatch h with
  | case1 p i star lastMatch h hi hp ih =>
    exact (ih reached_star).trans (goal_star hreached hp).symm
  | case2 p i star lastMatch h hi c hp hc htakes ih =>
      have hs := getElem?_eq_getElem hi
      rw [takes_of hi] at htakes
      exact (ih (hreached.takes hp hs hc htakes)).trans (goal_takes hp hs hc htakes).symm
  | case3 p i lastMatch h hi c hp hc hnot sp ih =>
      rw [takes_of hi] at hnot
      have hstuck := stuck_of_byte hp (getElem?_eq_getElem hi) hc hnot
      exact (ih reached_retry).trans (goal_retry hreached hstuck (h.trans_lt hi)).symm
  | case4 p i lastMatch h hi c hp hc hnot =>
      rw [takes_of hi] at hnot
      exact iff_of_false Bool.false_ne_true
        (stuck_of_byte hp (getElem?_eq_getElem hi) hc hnot)
  | case5 p i lastMatch h hi hp sp ih =>
      have hstuck := stuck_of_end hp hi
      exact (ih reached_retry).trans (goal_retry hreached hstuck (h.trans_lt hi)).symm
  | case6 p i lastMatch h hi hp => exact iff_of_false Bool.false_ne_true (stuck_of_end hp hi)
  | case7 p i star lastMatch h hi => exact (goal_end hreached hi).symm

end Loop

theorem matchesPattern_iff (pattern path : String) :
    matchesPattern pattern path = true ↔ Matches pattern path := by
  have hreached : Reached (Utf8.encode pattern.toList) (Utf8.encode path.toList) 0 0 none 0 := by
    intro sp hsp
    cases hsp
  exact globLoop_iff hreached

/-- A behavior applies to a path. -/
def Applies (path : String) (cb : CacheBehavior) : Prop :=
  cb.pathPattern ≠ "" ∧ Matches cb.pathPattern path

/-- A pattern matches just the paths that it stands for, and of the behaviors the first that
applies is selected, or else the default one. -/
theorem pathPattern_exact :
    (∀ pattern path : String, matchesPattern pattern path = true ↔
      Accepts (fun c : UInt8 => c = 42) (fun c b : UInt8 => c = 63 ∨ c = b)
        (Utf8.encode pattern.toList) (Utf8.encode path.toList)) ∧
    ∀ (config : DistributionConfig) (path : String),
      (∃ front cb behind, config.cacheBehaviors = front ++ cb :: behind ∧
        (∀ other ∈ front, ¬Applies path other) ∧ Applies path cb ∧
        selectBehavior config path = cb) ∨
      (∀ cb ∈ config.cacheBehaviors, ¬Applies path cb) ∧
        selectBehavior config path = config.defaultCacheBehavior := by
  refine ⟨matchesPattern_iff, fun config path => ?_⟩
  have happlies : ∀ cb : CacheBehavior,
      (!cb.pathPattern.isEmpty && matchesPattern cb.pathPattern path) = true ↔ Applies path cb := by
    intro cb
    rw [Bool.and_eq_true, matchesPattern_iff, Bool.not_eq_true', Applies, ← Bool.not_eq_true,
      String.isEmpty_iff]
  unfold selectBehavior
  cases hfind : config.cacheBehaviors.find? fun cb =>
      !cb.pathPattern.isEmpty && matchesPattern cb.pathPattern path with
  | none =>
      refine .inr ⟨fun cb hcb => ?_, rfl⟩
      rw [← happlies]
      exact find?_eq_none.mp hfind cb hcb
  | some cb =>
      obtain ⟨hcb, front, behind, hsplit, hfront⟩ := find?_eq_some_iff_append.mp hfind
      refine .inl ⟨front, cb, behind, hsplit, fun other hother => ?_, (happlies cb).mp hcb, rfl⟩
      have hnot := hfront other hother
      rw [Bool.not_eq_true', ← Bool.not_eq_true] at hnot
      rwa [← happlies]

end Rustack.CloudFront
