import Rustack.Lib.Fields
import Rustack.Lib.FirstBest
import Rustack.Lib.SortedMap

/-!
# The choice of a route

A request goes to the route of the best of four classes.  Within a class the routes are not told
apart, and the first one that the map gives is taken.  A route key is read here as a list of
segments, and what a key takes and how two keys compare is said in terms of these.
-/

namespace Rustack.ApiGateway

open Text (splitOnce splitOnce_eq_some_iff splitOnce_eq_none_iff)
open List

/-- The route in the map of an API: its identifier and its key. -/
structure RouteRecord where
  routeId : String
  routeKey : String
  deriving DecidableEq

inductive MatchPriority where
  | exact | parameterized | greedy | default
  deriving DecidableEq

/-- The discriminant, by which the classes compare. -/
def MatchPriority.value : MatchPriority → ℕ
  | .exact => 0
  | .parameterized => 1
  | .greedy => 2
  | .default => 3

abbrev PathParams := SortedMap String String compare

structure RouteMatch where
  route : RouteRecord
  priority : MatchPriority
  pathParams : PathParams

def segments (path : List Char) : List (List Char) := (path.splitOn '/').filter (· ≠ [])

def joined (pathSegments : List (List Char)) : List Char := ['/'].intercalate pathSegments

/-- Starts with a brace, and ends with a plus sign and a brace. -/
def isGreedy (ps : List Char) : Bool := ['{'].isPrefixOf ps && ['+', '}'].isSuffixOf ps

def isParameter (ps : List Char) : Bool := ['{'].isPrefixOf ps && ['}'].isSuffixOf ps

/-- `ps[1..ps.len() - 2]` -/
def greedyName (ps : List Char) : List Char := (ps.take (ps.length - 2)).drop 1

/-- `ps[1..ps.len() - 1]` -/
def parameterName (ps : List Char) : List Char := (ps.take (ps.length - 1)).drop 1

/-- The loop over the segments of the pattern, with the segments of the path from there on. -/
def matchSegments : List (List Char) → List (List Char) → PathParams → Bool →
    Option (PathParams × MatchPriority)
  | [], pathSegments, params, hasParams =>
    if pathSegments ≠ [] then none
    else some (params, if hasParams then .parameterized else .exact)
  | ps :: pattern, pathSegments, params, hasParams =>
    if isGreedy ps then
      some (params.insert (.ofList (greedyName ps)) (.ofList (joined pathSegments)), .greedy)
    else match pathSegments with
      | [] => none
      | segment :: pathSegments =>
        if isParameter ps then
          matchSegments pattern pathSegments
            (params.insert (.ofList (parameterName ps)) (.ofList segment)) true
        else if ps ≠ segment then none
        else matchSegments pattern pathSegments params hasParams

def matchPath (pattern path : List Char) : Option (PathParams × MatchPriority) :=
  matchSegments (segments pattern) (segments path) .empty false

def anyMethod : List Char := "ANY".toList

def defaultKey : String := "$default"

def tryMatch (method path : String) (route : RouteRecord) : Option RouteMatch :=
  if route.routeKey = defaultKey then some ⟨route, .default, .empty⟩
  else match splitOnce ' ' route.routeKey.toList with
    | none => none
    | some (routeMethod, routePath) =>
      if routeMethod ≠ anyMethod ∧ routeMethod ≠ method.toList then none
      else (matchPath routePath path.toList).map fun found => ⟨route, found.2, found.1⟩

def isBetter (best : Option RouteMatch) (m : RouteMatch) : Bool :=
  match best with
  | none => true
  | some current => decide (m.priority.value < current.priority.value)

/-- The scan over the routes, in the order in which the map gives them. -/
def matchRoute (routes : List RouteRecord) (method path : String) :
    Option (RouteRecord × PathParams) :=
  (routes.foldl (fun best route =>
    match tryMatch method path route with
    | some m => if isBetter best m then some m else best
    | none => best) none).map fun m => (m.route, m.pathParams)

/-! ## Route keys -/

inductive Segment where
  | literal (text : List Char)
  | parameter (name : List Char)
  | greedy (name : List Char)
  deriving DecidableEq

namespace Segment

def ofText (ps : List Char) : Segment :=
  if isGreedy ps then greedy (greedyName ps)
  else if isParameter ps then parameter (parameterName ps)
  else literal ps

/-- The class of the patterns of such segments. -/
def kind : Segment → MatchPriority
  | literal _ => .exact
  | parameter _ => .parameterized
  | greedy _ => .greedy

end Segment

open Segment (literal parameter greedy)

def pattern (routePath : List Char) : List Segment := (segments routePath).map Segment.ofText

namespace RouteRecord

variable (r : RouteRecord)

/-- What stands before the blank of the key. -/
def method : List Char := ((splitOnce ' ' r.routeKey.toList).map Prod.fst).getD []

def path : List Segment := ((splitOnce ' ' r.routeKey.toList).map fun key => pattern key.2).getD []

/-- The method of the key takes the method. -/
def Takes (method : String) : Prop :=
  ' ' ∈ r.routeKey.toList ∧ (r.method = anyMethod ∨ r.method = method.toList)

end RouteRecord

/-- The segments of a path put in for the segments of a key, with what each parameter stands for.
A greedy parameter stands for the rest of the path, which has a segment at least. -/
inductive Binds : List Segment → List (List Char) → List (String × String) → Prop where
  | done : Binds [] [] []
  | literal {text : List Char} {ps : List Segment} {ss : List (List Char)}
      {b : List (String × String)} : Binds ps ss b → Binds (literal text :: ps) (text :: ss) b
  | parameter {name s : List Char} {ps : List Segment} {ss : List (List Char)}
      {b : List (String × String)} : Binds ps ss b →
        Binds (parameter name :: ps) (s :: ss) ((.ofList name, .ofList s) :: b)
  | greedy {name s : List Char} {ss : List (List Char)} :
      Binds [greedy name] (s :: ss) [(.ofList name, .ofList (joined (s :: ss)))]

/-- The key takes the request, and its parameters stand for these texts. -/
def Matches (r : RouteRecord) (method path : String) (b : List (String × String)) : Prop :=
  r.routeKey = defaultKey ∧ b = [] ∨
    r.Takes method ∧ Binds r.path (segments path.toList) b

def worse (p q : MatchPriority) : MatchPriority := if p.value < q.value then q else p

/-- A pattern is of the worst class of its segments. -/
def patternClass : List Segment → MatchPriority
  | [] => .exact
  | s :: ps => worse s.kind (patternClass ps)

namespace RouteRecord

variable (r : RouteRecord)

def priorityClass : MatchPriority :=
  if r.routeKey = defaultKey then .default else patternClass r.path

/-- The number of literal segments in front of the first parameter. -/
def leading : ℕ := (r.path.takeWhile fun s => s.kind = .exact).length

/-- A better class, and within a class more literal segments in front, or on the same path a
method in the place of any method. -/
def MoreSpecific (r r' : RouteRecord) : Prop :=
  r.priorityClass.value < r'.priorityClass.value ∨ r.priorityClass = r'.priorityClass ∧
    (r'.leading < r.leading ∨
      r.path = r'.path ∧ r.method ≠ anyMethod ∧ r'.method = anyMethod)

end RouteRecord

/-- What the choice is to be, in whatever order the map gives the routes. -/
structure Chooses (routes : List RouteRecord) (method path : String)
    (result : Option (RouteRecord × PathParams)) : Prop where
  everyOrder : ∀ order, order.Perm routes → matchRoute order method path = result
  none_iff : result = none ↔ ∀ r ∈ routes, ∀ b, ¬Matches r method path b
  bound : ∀ r params, result = some (r, params) → r ∈ routes ∧ ∃ b, Matches r method path b ∧
    ∀ name text, params.get? name = some text ↔ (name, text) ∈ b
  best : ∀ r params, result = some (r, params) → ∀ r' ∈ routes, ∀ b, Matches r' method path b →
    ¬r'.MoreSpecific r

/-! ## When the choice is right -/

/-- The segments up to the first greedy parameter fit those of the path. -/
def Fits : List Segment → List (List Char) → Prop
  | [], ss => ss = []
  | greedy _ :: _, _ => True
  | parameter _ :: _, [] => False
  | parameter _ :: ps, _ :: ss => Fits ps ss
  | literal _ :: _, [] => False
  | literal text :: ps, s :: ss => text = s ∧ Fits ps ss

/-- What the parameters stand for, up to the first greedy one. -/
def bindings : List Segment → List (List Char) → List (String × String)
  | greedy name :: _, ss => [(.ofList name, .ofList (joined ss))]
  | parameter name :: ps, s :: ss => (.ofList name, .ofList s) :: bindings ps ss
  | literal _ :: ps, _ :: ss => bindings ps ss
  | _, _ => []

/-- The route is in question: it is the default, or its method and its segments fit. -/
def Candidate (method path : String) (r : RouteRecord) : Prop :=
  r.routeKey = defaultKey ∨ r.Takes method ∧ Fits r.path (segments path.toList)

/-- A route in question of the best class. -/
def Foremost (routes : List RouteRecord) (method path : String) (r : RouteRecord) : Prop :=
  r ∈ routes ∧ Candidate method path r ∧
    ∀ r' ∈ routes, Candidate method path r' → r.priorityClass.value ≤ r'.priorityClass.value

/-- A greedy parameter is the last segment and has a segment of the path to stand for. -/
def GreedyEnds (ps : List Segment) (ss : List (List Char)) : Prop :=
  ∀ before name behind, ps = before ++ greedy name :: behind →
    behind = [] ∧ before.length < ss.length

/-- No name has two texts. -/
def Consistent (b : List (String × String)) : Prop := ∀ e ∈ b, ∀ e' ∈ b, e.1 = e'.1 → e.2 = e'.2

/-- The best class has one route at most, and that one has its greedy parameter at its end, with a
segment left for it, and no name twice with different segments. -/
structure Decided (routes : List RouteRecord) (method path : String) : Prop where
  alone : ∀ r r', Foremost routes method path r → Foremost routes method path r' → r = r'
  greedy : ∀ r, Foremost routes method path r → r.routeKey ≠ defaultKey →
    GreedyEnds r.path (segments path.toList)
  names : ∀ r, Foremost routes method path r → r.routeKey ≠ defaultKey →
    Consistent (bindings r.path (segments path.toList))

/-! ## One route -/

def put (params : PathParams) (b : List (String × String)) : PathParams :=
  b.foldl (fun m e => m.insert e.1 e.2) params

theorem get?_put {b : List (String × String)} (hb : Consistent b) (params : PathParams)
    (name text : String) : (put params b).get? name = some text ↔
      (name, text) ∈ b ∨ params.get? name = some text ∧ ∀ e ∈ b, e.1 ≠ name := by
  induction b generalizing params with
  | nil => simp [put]
  | cons e b ih =>
      have htail : Consistent b := fun x hx y hy =>
        hb x (.tail _ hx) y (.tail _ hy)
      have hput : put params (e :: b) = put (params.insert e.1 e.2) b := rfl
      rw [hput, ih htail, SortedMap.get?_insert_eq, mem_cons, forall_mem_cons]
      by_cases hname : e.1 = name
      · rw [if_pos hname]
        constructor
        · rintro (hmem | ⟨htext, -⟩)
          · exact .inl (.inr hmem)
          · exact .inl (.inl (Prod.ext hname.symm (Option.some.inj htext).symm))
        · rintro ((heq | hmem) | ⟨-, hne, -⟩)
          · by_cases hagain : ∃ x ∈ b, x.1 = name
            · obtain ⟨x, hx, hxname⟩ := hagain
              have hxe : x.1 = e.1 := hxname.trans hname.symm
              have hpair : x = (name, text) := (Prod.ext hxe
                (hb x (.tail _ hx) e (.head _) hxe)).trans heq.symm
              exact .inl (hpair ▸ hx)
            · refine .inr ⟨?_, fun x hx hxname => hagain ⟨x, hx, hxname⟩⟩
              rw [← heq]
          · exact .inl hmem
          · exact absurd hname hne
      · rw [if_neg hname]
        constructor
        · rintro (hmem | ⟨htext, hnone⟩)
          · exact .inl (.inr hmem)
          · exact .inr ⟨htext, hname, hnone⟩
        · rintro ((heq | hmem) | ⟨htext, -, hnone⟩)
          · exact absurd (congrArg Prod.fst heq).symm hname
          · exact .inl hmem
          · exact .inr ⟨htext, hnone⟩

theorem get?_put_empty {b : List (String × String)} (hb : Consistent b) (name text : String) :
    (put .empty b).get? name = some text ↔ (name, text) ∈ b := by
  rw [get?_put hb]
  exact or_iff_left fun h => Option.some_ne_none text h.1.symm

theorem patternClass_ne_default (ps : List Segment) : patternClass ps ≠ .default := by
  induction ps with
  | nil => decide
  | cons s ps ih =>
      unfold patternClass worse
      split
      · exact ih
      · cases s <;> nofun

theorem worse_greedy {p q : MatchPriority} (hp : p ≠ .default) (hq : q ≠ .default) :
    worse p (worse .greedy q) = .greedy := by
  revert hp hq
  cases p <;> cases q <;> decide

theorem worse_assoc (p q o : MatchPriority) : worse (worse p q) o = worse p (worse q o) := by
  cases p <;> cases q <;> cases o <;> rfl

/-- The class so far. -/
def flagged (hasParams : Bool) : MatchPriority := if hasParams then .parameterized else .exact

theorem worse_exact (p : MatchPriority) : worse (flagged false) p = p := by
  cases p <;> rfl

theorem flagged_ne_default (hasParams : Bool) : flagged hasParams ≠ .default := by
  cases hasParams <;> decide

theorem matchSegments_eq_some {ps ss : List (List Char)} {params found : PathParams}
    {hasParams : Bool} {priority : MatchPriority} :
    matchSegments ps ss params hasParams = some (found, priority) ↔
      Fits (ps.map Segment.ofText) ss ∧ found = put params (bindings (ps.map Segment.ofText) ss) ∧
        priority = worse (flagged hasParams) (patternClass (ps.map Segment.ofText)) := by
  induction ps generalizing ss params hasParams with
  | nil =>
      have hclass : worse (flagged hasParams) (patternClass []) = flagged hasParams := by
        cases hasParams <;> rfl
      rw [map_nil, hclass, matchSegments]
      unfold Fits bindings put
      by_cases hss : ss = []
      · rw [if_neg (not_not.mpr hss), Option.some_inj, Prod.mk.injEq]
        exact ⟨fun h => ⟨hss, h.1.symm, h.2.symm⟩, fun h => ⟨h.2.1.symm, h.2.2.symm⟩⟩
      · rw [if_pos hss]
        exact iff_of_false nofun fun h => hss h.1
  | cons p ps ih =>
      rw [map_cons, matchSegments.eq_def]
      dsimp only
      by_cases hgreedy : isGreedy p
      · have htext : Segment.ofText p = .greedy (greedyName p) := if_pos hgreedy
        rw [if_pos hgreedy, htext, Option.some_inj, Prod.mk.injEq]
        have hclass : worse (flagged hasParams) (patternClass
            (.greedy (greedyName p) :: ps.map Segment.ofText)) = .greedy :=
          worse_greedy (flagged_ne_default _) (patternClass_ne_default _)
        rw [hclass]
        exact ⟨fun h => ⟨trivial, h.1.symm, h.2.symm⟩, fun h => ⟨h.2.1.symm, h.2.2.symm⟩⟩
      · rw [if_neg hgreedy]
        by_cases hparameter : isParameter p
        · have htext : Segment.ofText p = .parameter (parameterName p) := by
            rw [Segment.ofText, if_neg hgreedy, if_pos hparameter]
          rw [htext]
          cases ss with
          | nil => exact iff_of_false nofun fun h => h.1
          | cons s ss =>
              have hclass : worse (flagged true) (patternClass (ps.map Segment.ofText)) =
                  worse (flagged hasParams) (patternClass
                    (.parameter (parameterName p) :: ps.map Segment.ofText)) := by
                rw [patternClass, ← worse_assoc]
                cases hasParams <;> rfl
              dsimp only
              rw [if_pos hparameter, ih, hclass]
              exact Iff.rfl
        · have htext : Segment.ofText p = .literal p := by
            rw [Segment.ofText, if_neg hgreedy, if_neg hparameter]
          rw [htext]
          cases ss with
          | nil => exact iff_of_false nofun fun h => h.1
          | cons s ss =>
              have hclass : worse (flagged hasParams) (patternClass (ps.map Segment.ofText)) =
                  worse (flagged hasParams)
                    (patternClass (.literal p :: ps.map Segment.ofText)) := by
                rw [patternClass, ← worse_assoc]
                cases hasParams <;> rfl
              dsimp only
              rw [if_neg hparameter]
              by_cases hps : p = s
              · rw [if_neg (not_not.mpr hps), ih, hclass]
                exact and_congr_left fun _ => (and_iff_right hps).symm
              · rw [if_pos hps]
                exact iff_of_false nofun fun h => hps h.1.1

theorem greedyEnds_cons {seg : Segment} {ps : List Segment} {s : List Char} {ss : List (List Char)}
    (hseg : ∀ name, seg ≠ greedy name) : GreedyEnds (seg :: ps) (s :: ss) ↔ GreedyEnds ps ss := by
  constructor
  · intro h before name behind hps
    obtain ⟨hbehind, hlt⟩ := h (seg :: before) name behind (congrArg (seg :: ·) hps)
    exact ⟨hbehind, Nat.lt_of_succ_lt_succ hlt⟩
  · intro h before name behind hps
    cases before with
    | nil =>
        obtain ⟨rfl, -⟩ := cons.inj hps
        exact absurd rfl (hseg name)
    | cons seg' before =>
        obtain ⟨hbehind, hlt⟩ := h before name behind (cons.inj hps).2
        exact ⟨hbehind, Nat.succ_lt_succ hlt⟩

theorem binds_iff {ps : List Segment} {ss : List (List Char)} {b : List (String × String)} :
    Binds ps ss b ↔ Fits ps ss ∧ b = bindings ps ss ∧ GreedyEnds ps ss := by
  constructor
  · intro h
    induction h with
    | done => exact ⟨rfl, rfl, fun before name behind hps => by simp at hps⟩
    | literal _ ih => exact ⟨⟨rfl, ih.1⟩, ih.2.1,
      (greedyEnds_cons fun _ h => Segment.noConfusion h).mpr ih.2.2⟩
    | parameter _ ih =>
        exact ⟨ih.1, congrArg (_ :: ·) ih.2.1,
          (greedyEnds_cons fun _ h => Segment.noConfusion h).mpr ih.2.2⟩
    | greedy =>
        refine ⟨trivial, rfl, fun before name behind hps => ?_⟩
        cases before with
        | nil => exact ⟨(cons.inj hps).2.symm, Nat.succ_pos _⟩
        | cons seg before => exact absurd (cons.inj hps).2 (by simp)
  · rintro ⟨hfits, rfl, hgreedy⟩
    induction ps generalizing ss with
    | nil =>
        obtain rfl : ss = [] := hfits
        exact .done
    | cons seg ps ih =>
        cases seg with
        | literal text =>
            cases ss with
            | nil => exact hfits.elim
            | cons s ss =>
                obtain ⟨rfl, hfits⟩ := hfits
                exact .literal (ih hfits
                  ((greedyEnds_cons fun _ h => Segment.noConfusion h).mp hgreedy))
        | parameter name =>
            cases ss with
            | nil => exact hfits.elim
            | cons s ss => exact .parameter (ih hfits
                ((greedyEnds_cons fun _ h => Segment.noConfusion h).mp hgreedy))
        | greedy name =>
            obtain ⟨rfl, hlt⟩ := hgreedy [] name ps rfl
            cases ss with
            | nil => exact absurd hlt (lt_irrefl 0)
            | cons s ss => exact .greedy

/-- What the parameters of a route stand for. -/
def RouteRecord.bound (r : RouteRecord) (path : String) : List (String × String) :=
  if r.routeKey = defaultKey then [] else bindings r.path (segments path.toList)

/-- The match of a route in question. -/
def found (path : String) (r : RouteRecord) : RouteMatch :=
  ⟨r, r.priorityClass, put .empty (r.bound path)⟩

variable {routes order : List RouteRecord} {method path : String} {r r' : RouteRecord}

theorem tryMatch_eq_some {m : RouteMatch} :
    tryMatch method path r = some m ↔ Candidate method path r ∧ m = found path r := by
  unfold tryMatch Candidate found RouteRecord.priorityClass RouteRecord.bound
  by_cases hkey : r.routeKey = defaultKey
  · rw [if_pos hkey, if_pos hkey, if_pos hkey, Option.some_inj]
    exact ⟨fun h => ⟨.inl hkey, h.symm⟩, fun h => h.2.symm⟩
  · rw [if_neg hkey, if_neg hkey, if_neg hkey, or_iff_right hkey]
    unfold RouteRecord.Takes RouteRecord.method RouteRecord.path
    cases hsplit : splitOnce ' ' r.routeKey.toList with
    | none => exact iff_of_false nofun fun h => splitOnce_eq_none_iff.mp hsplit h.1.1.1
    | some key =>
        obtain ⟨routeMethod, routePath⟩ := key
        have hblank : ' ' ∈ r.routeKey.toList := by
          rw [(splitOnce_eq_some_iff.mp hsplit).1]
          exact mem_append_right _ (.head _)
        dsimp only [Option.map_some, Option.getD_some]
        rw [and_iff_right hblank]
        by_cases hmethod : routeMethod = anyMethod ∨ routeMethod = method.toList
        · rw [if_neg (by rwa [← not_or, not_not]), and_iff_right hmethod, Option.map_eq_some_iff]
          constructor
          · rintro ⟨⟨params, priority⟩, hpath, rfl⟩
            obtain ⟨hfits, rfl, rfl⟩ := matchSegments_eq_some.mp hpath
            exact ⟨hfits, by rw [worse_exact]; rfl⟩
          · rintro ⟨hfits, rfl⟩
            refine ⟨_, matchSegments_eq_some.mpr ⟨hfits, rfl, rfl⟩, ?_⟩
            rw [worse_exact]
            rfl
        · rw [if_pos (by rwa [← not_or])]
          exact iff_of_false nofun fun h => hmethod h.1.1

/-! ## All routes -/

def rank (m : RouteMatch) : ℕ := m.priority.value

theorem matchRoute_eq (routes : List RouteRecord) (method path : String) :
    matchRoute routes method path = (FirstBest.firstBest rank
      (routes.filterMap (tryMatch method path))).map fun m => (m.route, m.pathParams) := by
  unfold matchRoute FirstBest.firstBest
  rw [foldl_filterMap]
  congr 2
  funext best route
  cases tryMatch method path route with
  | none => rfl
  | some m =>
      cases best with
      | none => rfl
      | some current =>
          by_cases hlt : m.priority.value < current.priority.value
          · simp [isBetter, FirstBest.keep, rank, hlt]
          · simp [isBetter, FirstBest.keep, rank, hlt]

theorem mem_filterMap_iff {m : RouteMatch} : m ∈ routes.filterMap (tryMatch method path) ↔
    ∃ r ∈ routes, Candidate method path r ∧ m = found path r := by
  simp only [mem_filterMap, tryMatch_eq_some]

theorem least_iff {m : RouteMatch} :
    FirstBest.Least rank (routes.filterMap (tryMatch method path)) m ↔
      Foremost routes method path m.route ∧ m = found path m.route := by
  unfold FirstBest.Least Foremost
  rw [mem_filterMap_iff]
  constructor
  · rintro ⟨⟨r, hr, hcandidate, rfl⟩, hleast⟩
    refine ⟨⟨hr, hcandidate, fun r' hr' hcandidate' => ?_⟩, rfl⟩
    exact hleast (found path r') (mem_filterMap_iff.mpr ⟨r', hr', hcandidate', rfl⟩)
  · rintro ⟨⟨hr, hcandidate, hleast⟩, hm⟩
    refine ⟨⟨m.route, hr, hcandidate, hm⟩, fun m' hm' => ?_⟩
    obtain ⟨r', hr', hcandidate', rfl⟩ := mem_filterMap_iff.mp hm'
    rw [hm]
    exact hleast r' hr' hcandidate'

theorem foremost_of_matchRoute {params : PathParams}
    (h : matchRoute routes method path = some (r, params)) :
    Foremost routes method path r ∧ params = put .empty (r.bound path) := by
  rw [matchRoute_eq, Option.map_eq_some_iff] at h
  obtain ⟨m, hbest, hm⟩ := h
  obtain ⟨rfl, rfl⟩ := Prod.mk.inj hm
  obtain ⟨hforemost, hfound⟩ := least_iff.mp (FirstBest.least_of_firstBest hbest)
  exact ⟨hforemost, congrArg RouteMatch.pathParams hfound⟩

theorem matchRoute_eq_none :
    matchRoute routes method path = none ↔ ∀ r ∈ routes, ¬Candidate method path r := by
  rw [matchRoute_eq, Option.map_eq_none_iff, FirstBest.firstBest_eq_none,
    eq_nil_iff_forall_not_mem]
  constructor
  · intro h r hr hcandidate
    exact h _ (mem_filterMap_iff.mpr ⟨r, hr, hcandidate, rfl⟩)
  · intro h m hm
    obtain ⟨r, hr, hcandidate, -⟩ := mem_filterMap_iff.mp hm
    exact h r hr hcandidate

/-- In some order each of the foremost routes is chosen. -/
theorem exists_matchRoute_of_foremost (h : Foremost routes method path r) :
    ∃ order, order.Perm routes ∧
      matchRoute order method path = some (r, put .empty (r.bound path)) := by
  have hperm : (r :: routes.erase r).Perm routes := (perm_cons_erase h.1).symm
  refine ⟨r :: routes.erase r, hperm, ?_⟩
  have hmatch : tryMatch method path r = some (found path r) :=
    tryMatch_eq_some.mpr ⟨h.2.1, rfl⟩
  rw [matchRoute_eq, filterMap_cons_some hmatch, FirstBest.firstBest_cons]
  · rfl
  · intro m hm
    obtain ⟨r', hr', hcandidate, rfl⟩ := mem_filterMap_iff.mp hm
    exact h.2.2 r' (mem_of_mem_erase hr') hcandidate

theorem Foremost.perm (hperm : order.Perm routes) (h : Foremost order method path r) :
    Foremost routes method path r :=
  ⟨hperm.mem_iff.mp h.1, h.2.1, fun r' hr' => h.2.2 r' (hperm.mem_iff.mpr hr')⟩

theorem Matches.candidate {b : List (String × String)} (h : Matches r method path b) :
    Candidate method path r := by
  obtain ⟨hkey, -⟩ | ⟨htakes, hbinds⟩ := h
  · exact .inl hkey
  · exact .inr ⟨htakes, (binds_iff.mp hbinds).1⟩

theorem Decided.consistent (h : Decided routes method path)
    (hr : Foremost routes method path r) : Consistent (r.bound path) := by
  unfold RouteRecord.bound
  split
  · exact fun e he => absurd he not_mem_nil
  · next hkey => exact h.names r hr hkey

theorem Decided.matches (h : Decided routes method path) (hr : Foremost routes method path r) :
    Matches r method path (r.bound path) := by
  unfold RouteRecord.bound
  split
  · next hkey => exact .inl ⟨hkey, rfl⟩
  · next hkey =>
      obtain ⟨htakes, hfits⟩ := hr.2.1.resolve_left hkey
      exact .inr ⟨htakes, binds_iff.mpr ⟨hfits, rfl, h.greedy r hr hkey⟩⟩

theorem Decided.chooses (h : Decided routes method path) :
    Chooses routes method path (matchRoute routes method path) where
  everyOrder order hperm := by
    cases hroutes : matchRoute routes method path with
    | none =>
        have hnone := matchRoute_eq_none.mp hroutes
        exact matchRoute_eq_none.mpr fun r hr => hnone r (hperm.mem_iff.mp hr)
    | some chosen =>
        obtain ⟨hforemost, hparams⟩ := foremost_of_matchRoute hroutes
        cases horder : matchRoute order method path with
        | none =>
            have hnone := matchRoute_eq_none.mp horder
            exact absurd hforemost.2.1 (hnone _ (hperm.mem_iff.mpr hforemost.1))
        | some chosen' =>
            obtain ⟨hforemost', hparams'⟩ := foremost_of_matchRoute horder
            have hroute := h.alone _ _ (hforemost'.perm hperm) hforemost
            refine congrArg some (Prod.ext hroute ?_)
            rw [hparams', hparams, hroute]
  none_iff := by
    rw [matchRoute_eq_none]
    constructor
    · exact fun hnone r hr b hb => hnone r hr hb.candidate
    · intro hnone r hr hcandidate
      cases hroutes : matchRoute routes method path with
      | none => exact matchRoute_eq_none.mp hroutes r hr hcandidate
      | some chosen =>
          obtain ⟨hforemost, -⟩ := foremost_of_matchRoute hroutes
          exact hnone _ hforemost.1 _ (h.matches hforemost)
  bound r params hresult := by
    obtain ⟨hforemost, rfl⟩ := foremost_of_matchRoute hresult
    exact ⟨hforemost.1, _, h.matches hforemost, get?_put_empty (h.consistent hforemost)⟩
  best r params hresult r' hr' b hb hspecific := by
    obtain ⟨hforemost, -⟩ := foremost_of_matchRoute hresult
    obtain hlt | ⟨hclass, hwithin⟩ := hspecific
    · exact absurd (hforemost.2.2 r' hr' hb.candidate) (not_le.mpr hlt)
    · have hforemost' : Foremost routes method path r' :=
        ⟨hr', hb.candidate, fun o ho hcandidate => hclass ▸ hforemost.2.2 o ho hcandidate⟩
      obtain rfl := h.alone r r' hforemost hforemost'
      obtain hleading | ⟨-, hnamed, hany⟩ := hwithin
      · exact lt_irrefl _ hleading
      · exact hnamed hany

/-- The choice does not depend on the order and is the most specific route, with its parameters, if
and only if the best class has one route and that route has its greedy parameter at its end, with
a segment left for it, and no name for two segments. -/
theorem matchRoute_chooses_iff (routes : List RouteRecord) (method path : String) :
    (∃ result, Chooses routes method path result) ↔ Decided routes method path := by
  constructor
  · rintro ⟨result, h⟩
    have hchosen : ∀ r, Foremost routes method path r →
        result = some (r, put .empty (r.bound path)) := by
      intro r hr
      obtain ⟨order, hperm, hmatch⟩ := exists_matchRoute_of_foremost hr
      exact (h.everyOrder order hperm).symm.trans hmatch
    have hbinds : ∀ r, Foremost routes method path r → r.routeKey ≠ defaultKey →
        GreedyEnds r.path (segments path.toList) ∧
          Consistent (bindings r.path (segments path.toList)) := by
      intro r hr hkey
      obtain ⟨-, b, hmatches, hparams⟩ := h.bound r _ (hchosen r hr)
      obtain ⟨hdefault, -⟩ | ⟨-, hbinds⟩ := hmatches
      · exact absurd hdefault hkey
      · obtain ⟨-, rfl, hgreedy⟩ := binds_iff.mp hbinds
        refine ⟨hgreedy, fun e he e' he' hname => ?_⟩
        have htext := (hparams e.1 e.2).mpr he
        rw [hname, (hparams e'.1 e'.2).mpr he'] at htext
        exact (Option.some.inj htext).symm
    refine ⟨fun r r' hr hr' => ?_, fun r hr hkey => (hbinds r hr hkey).1,
      fun r hr hkey => (hbinds r hr hkey).2⟩
    have hsame := (hchosen r hr).symm.trans (hchosen r' hr')
    exact congrArg Prod.fst (Option.some.inj hsame)
  · exact fun h => ⟨_, h.chooses⟩

/-! ## Two routes of one class -/

/-- A route for any method is found before the one for the method, if the map gives it first. -/
theorem matchRoute_any_first : ¬∀ (routes : List RouteRecord) (method path : String),
    (routes.map RouteRecord.routeKey).Nodup → ∃ result, Chooses routes method path result := by
  intro h
  obtain ⟨result, hchooses⟩ := h [⟨"1", "GET /a"⟩, ⟨"2", "ANY /a"⟩] "GET" "/a" (by decide)
  have hfirst := hchooses.everyOrder [⟨"1", "GET /a"⟩, ⟨"2", "ANY /a"⟩] (List.Perm.refl _)
  have hsecond := hchooses.everyOrder [⟨"2", "ANY /a"⟩, ⟨"1", "GET /a"⟩] (List.Perm.swap _ _ _)
  have hids : (matchRoute [⟨"1", "GET /a"⟩, ⟨"2", "ANY /a"⟩] "GET" "/a").map (·.1.routeId) =
      (matchRoute [⟨"2", "ANY /a"⟩, ⟨"1", "GET /a"⟩] "GET" "/a").map (·.1.routeId) := by
    rw [hfirst, hsecond]
  revert hids
  decide

end Rustack.ApiGateway
