import Rustack.CloudFront.Plane

/-!
# Is a hit like a miss?

Over whole runs of requests from an empty cache, each answer is compared with the one that the same
request would have got with nothing stored.  What is stored was made for the viewer who came
first, so the two agree in every run exactly if the answers that are stored do not depend on that
viewer, survive being kept as text, and are found under keys of their own.
-/

namespace Rustack.CloudFront

open Http List SortedMap HeaderMap

variable {name : String} {r : Response} {cache : ResponseCache} {t u : Target} {q q' : Request}
  {v : Visit}

/-! ## The promise -/

/-- The informational headers of the plane, which differ between a hit and a miss. -/
def INFORMATIONAL : List String :=
  ["x-cache", "via", "x-amz-cf-id"]

def isEndToEnd (name : String) : Bool :=
  !HOP_BY_HOP.contains name && !INFORMATIONAL.contains name

/-- Two answers that a viewer cannot tell apart. -/
structure Agree (r r' : Response) : Prop where
  status : r.status = r'.status
  body : r.body = r'.body
  headers : ∀ name, isEndToEnd name = true → r.headers.values name = r'.headers.values name

/-- The same distribution, method, path and query. -/
structure Target.Same (t u : Target) : Prop where
  distribution : t.distribution.id = u.distribution.id
  method : t.method = u.method
  path : t.effectivePath = u.effectivePath
  query : t.query.getD "" = u.query.getD ""

/-- The answer of the origin to this target is stored. -/
structure DataPlane.Stores (plane : DataPlane) (t : Target) (r : Response) : Prop where
  cacheable : t.cacheable = true
  ttl : (plane.cacheTtl t.behavior).isSome = true
  fetched : plane.fetch t = .ok r
  status : r.status = 200

namespace DataPlane

variable (plane : DataPlane)

def run : ResponseCache → List Visit → List (Visit × Response)
  | _, [] => []
  | cache, v :: vs =>
    (v, (plane.handleRequest cache v).2) :: run (plane.handleRequest cache v).1 vs

/-- Every answer is the one that a miss would have given, and different targets have entries of
their own. -/
structure Upheld (vs : List Visit) : Prop where
  transparent : ∀ e ∈ plane.run SortedMap.empty vs,
    Agree e.2 (plane.handleRequest SortedMap.empty e.1).2
  apart : ∀ v ∈ vs, ∀ w ∈ vs, ∀ t u r, plane.route v.request = .ok t →
    plane.route w.request = .ok u → plane.Stores t r → u.cacheable = true → t.key = u.key →
    t.Same u

/-- Nothing is left of what the CORS part of the policy sets, when its other parts are done. -/
def Uncrossed (t : Target) (r : Response) : Prop :=
  ∀ policy cors, t.behavior.responseHeadersPolicyId.isEmpty = false →
    plane.responseHeadersPolicies t.behavior.responseHeadersPolicyId = some policy →
    policy.corsConfig = some cors → ∀ name, isEndToEnd name = true →
    (applyResponseHeadersPolicy (cors.apply r.headers) { policy with corsConfig := none }
      none).values name =
    (applyResponseHeadersPolicy r.headers { policy with corsConfig := none } none).values name

/-- What is stored is text, does not depend on the viewer, and does not spell another target. -/
structure Steady : Prop where
  text : ∀ q t r, plane.route q = .ok t → plane.Stores t r → ∀ origin,
    ∀ h ∈ (plane.applyPolicy t origin r).headers, isEndToEnd h.1.text = true → h.2.isText = true
  viewer : ∀ q t r, plane.route q = .ok t → plane.Stores t r → plane.Uncrossed t r
  spelling : ∀ q q' t u r, plane.route q = .ok t → plane.route q' = .ok u → plane.Stores t r →
    u.cacheable = true → t.distribution.id = u.distribution.id → t.method = u.method →
    spelled t.effectivePath t.query = spelled u.effectivePath u.query →
    t.effectivePath = u.effectivePath

/-! ## Answers and what is stored of them -/

theorem isDropped_of_isEndToEnd (h : isEndToEnd name = true) : isDropped name = false := by
  simp only [isEndToEnd, INFORMATIONAL, Bool.and_eq_true, Bool.not_eq_true', contains_cons,
    Bool.or_eq_false_iff] at h
  obtain ⟨hhop, hcache, hvia, hid, -⟩ := h
  unfold isDropped
  rw [hhop, hid, hcache, hvia]
  rfl

theorem Agree.rfl : Agree r r :=
  ⟨Eq.refl _, Eq.refl _, fun _ _ => Eq.refl _⟩

theorem values_addCloudfrontResponseHeaders (headers : HeaderMap) (id : String)
    (result : CacheResult) (h : isEndToEnd name = true) :
    (addCloudfrontResponseHeaders headers id result).values name = headers.values name := by
  have hne : name ≠ "x-amz-cf-id" ∧ name ≠ "x-cache" ∧ name ≠ "via" := by
    refine ⟨?_, ?_, ?_⟩ <;> (rintro rfl; revert h; decide)
  have hlower : ∀ text : String, String.ofList (text.toList.map Char.toLower) = text →
      name ≠ text → name ≠ String.ofList (text.toList.map Char.toLower) := by
    intro text heq hne
    rwa [heq]
  unfold addCloudfrontResponseHeaders
  rw [values_insertText_of_ne _ _ (hlower _ (by decide) hne.2.2),
    values_insertText_of_ne _ _ (hlower _ (by decide) hne.2.1),
    values_insertText_of_ne _ _ (hlower _ (by decide) hne.1)]

@[simp] theorem applyPolicy_status (t : Target) (origin : Option HeaderValue) (r : Response) :
    (plane.applyPolicy t origin r).status = r.status := by
  unfold applyPolicy
  split
  · rfl
  · split <;> rfl

@[simp] theorem applyPolicy_body (t : Target) (origin : Option HeaderValue) (r : Response) :
    (plane.applyPolicy t origin r).body = r.body := by
  unfold applyPolicy
  split
  · rfl
  · split <;> rfl

/-- Then it does not matter where a viewer comes from. -/
theorem uncrossed_iff (t : Target) (r : Response) : plane.Uncrossed t r ↔
    ∀ origin origin' name, isEndToEnd name = true →
      (plane.applyPolicy t origin r).headers.values name =
        (plane.applyPolicy t origin' r).headers.values name := by
  unfold Uncrossed applyPolicy
  split_ifs with hempty
  · exact iff_of_true (fun _ _ hnot => absurd (hnot.symm.trans hempty) Bool.false_ne_true)
      fun _ _ _ _ => .refl _
  rw [Bool.not_eq_true] at hempty
  cases hpolicy : plane.responseHeadersPolicies t.behavior.responseHeadersPolicyId with
  | none => exact iff_of_true (fun _ _ _ h => by cases h) fun _ _ _ _ => .refl _
  | some policy =>
      obtain ⟨_ | cors, security, custom, removed⟩ := policy
      · exact iff_of_true (fun _ _ _ h hcors => by cases h; cases hcors) fun _ _ _ _ => .refl _
      · constructor
        · intro h origin origin' name hname
          have hsame := h _ cors hempty (.refl _) (.refl _) name hname
          cases origin <;> cases origin'
          · exact .refl _
          · exact hsame.symm
          · exact hsame
          · exact .refl _
        · rintro h _ _ - ⟨⟩ ⟨⟩ name hname
          exact h (some ⟨[], by decide⟩) none name hname

/-- The entry that is stored for a viewer. -/
def entry (t : Target) (r : Response) (origin : Option HeaderValue) (expires : ℕ) :
    CachedResponse :=
  ⟨r.status, snapshotHeaders (plane.applyPolicy t origin r).headers, r.body, expires⟩

/-- The answer to a viewer when nothing is stored. -/
def missed (t : Target) (r : Response) (v : Visit) : Response :=
  { plane.applyPolicy t (v.request.headers.get "origin") r with
    headers := addCloudfrontResponseHeaders
      (plane.applyPolicy t (v.request.headers.get "origin") r).headers v.id .miss }

/-- The answer to a viewer from an entry. -/
def served (t : Target) (r : Response) (origin : Option HeaderValue) (v : Visit) : Response :=
  ⟨r.status, addCloudfrontResponseHeaders
    ((plane.applyPolicy t origin r).headers.filter isKept) v.id .hit, r.body⟩

theorem cacheTtl_lt {behavior : CacheBehavior} {ttl : ℕ} (h : plane.cacheTtl behavior = some ttl) :
    0 < ttl ∧ ttl < 9223372036854775808 := by
  simp only [cacheTtl, Option.ite_none_right_eq_some, Option.some.injEq] at h
  obtain ⟨hpos, rfl⟩ := h
  refine ⟨by omega, ?_⟩
  have hlt := Int64.toInt_lt (if (!behavior.cachePolicyId.isEmpty) = true then
      (plane.cachePolicies behavior.cachePolicyId).getD behavior.defaultTtl
    else if behavior.defaultTtl.toInt > 0 then behavior.defaultTtl else behavior.minTtl)
  omega

theorem get_eq_of_entry {key : String} {origin : Option HeaderValue} {expires now : ℕ}
    (hstatus : r.status = 200) (hget : cache.get? key = some (plane.entry t r origin expires))
    (hnow : now < expires) :
    cache.get now key = (cache, some
      ⟨r.status, (plane.applyPolicy t origin r).headers.filter isKept, r.body⟩) := by
  have hok : (plane.applyPolicy t origin r).status = 200 := by rw [applyPolicy_status, hstatus]
  have hbuild := buildResponse_snapshot hok expires
  rw [applyPolicy_status, applyPolicy_body] at hbuild
  have hnot : ¬(plane.entry t r origin expires).expiresAtEpochSecs ≤ now := Nat.not_le.mpr hnow
  simp only [ResponseCache.get, hget, if_neg hnot]
  unfold entry
  rw [hbuild]

/-! ## One request -/

theorem route_ok (h : plane.route q = .ok t) :
    plane.getDistribution t.distribution.id = some t.distribution ∧
      t.behavior = selectBehavior t.distribution.config t.effectivePath ∧ t.method = q.method ∧
        t.query = q.query ∧ ∃ id objectPath, plane.resolveRequest q = some (id, objectPath) ∧
          t.effectivePath =
            applyDefaultRootObject objectPath t.distribution.config.defaultRootObject := by
  unfold route at h
  split at h
  · cases h
  · next id objectPath hresolve =>
    split at h
    · cases h
    · next dist hdist =>
      split at h
      · cases h
      · dsimp only at h
        split at h
        · cases h
        · split at h
          · cases h
          · cases h
            have hid : dist.id = id := by simpa using find?_some hdist
            exact ⟨hid ▸ hdist, rfl, rfl, rfl, id, objectPath, hresolve, rfl⟩

theorem handleRequest_empty (h : plane.route v.request = .ok t) :
    plane.handleRequest empty v = plane.serveFromOrigin empty v t := by
  unfold handleRequest
  rw [h]
  dsimp only
  split
  · rfl
  · rfl

/-- What the origin's answer becomes does not depend on what is stored. -/
theorem serveFromOrigin_snd (cache cache' : ResponseCache) (v : Visit) (t : Target) :
    (plane.serveFromOrigin cache v t).2 = (plane.serveFromOrigin cache' v t).2 := by
  unfold serveFromOrigin
  split
  · rfl
  · rfl

theorem serveFromOrigin_ok (cache : ResponseCache) (h : plane.fetch t = .ok r) :
    plane.serveFromOrigin cache v t =
      (plane.store cache v.storedAt t
        (plane.applyPolicy t (v.request.headers.get "origin") r), plane.missed t r v) := by
  unfold serveFromOrigin
  rw [h]
  rfl

theorem store_get? {now : ℕ} {origin : Option HeaderValue} {key : String} {e : CachedResponse}
    (h : (plane.store cache now t (plane.applyPolicy t origin r)).get? key = some e) :
    cache.get? key = some e ∨
      (t.key = key ∧ t.cacheable = true ∧ (plane.cacheTtl t.behavior).isSome = true ∧
        r.status = 200 ∧ ∃ expires, e = plane.entry t r origin expires) := by
  unfold store at h
  split at h
  · next hcacheable =>
    split at h
    · next ttl httl =>
      unfold ResponseCache.insertResponse at h
      split at h
      · exact Or.inl h
      · next hkept =>
        split at h
        · exact Or.inl h
        · rw [not_or, not_not, applyPolicy_status] at hkept
          rw [get?_insert_eq] at h
          split at h
          · next hkey =>
            refine Or.inr ⟨hkey, hcacheable, by rw [httl]; rfl, hkept.2, now + ttl, ?_⟩
            rw [← Option.some.inj h, applyPolicy_status, applyPolicy_body]
            rfl
          · exact Or.inl h
    · exact Or.inl h
  · exact Or.inl h

theorem store_get?_self {plane : DataPlane} (cache : ResponseCache) {ttl : ℕ}
    (hstores : plane.Stores t r) (httl : plane.cacheTtl t.behavior = some ttl)
    (origin : Option HeaderValue) :
    (plane.store cache 0 t (plane.applyPolicy t origin r)).get? t.key =
      some (plane.entry t r origin ttl) := by
  obtain ⟨hpos, hlt⟩ := plane.cacheTtl_lt httl
  have hrange : ¬(0 + ttl ≥ U64_RANGE) := by
    unfold U64_RANGE
    omega
  have hkept : ¬(ttl = 0 ∨ (plane.applyPolicy t origin r).status ≠ 200) := by
    rw [applyPolicy_status, not_or, not_not]
    exact ⟨Nat.ne_of_gt hpos, hstores.status⟩
  unfold store
  rw [if_pos hstores.cacheable, httl]
  dsimp only
  unfold ResponseCache.insertResponse
  rw [if_neg hkept, if_neg hrange, get?_insert_eq, if_pos rfl, applyPolicy_status,
    applyPolicy_body, Nat.zero_add]
  rfl

/-! ## The invariant -/

/-- Every entry was stored for a request that the plane routes to its key. -/
def Filled (cache : ResponseCache) : Prop :=
  ∀ key e, cache.get? key = some e → ∃ q t r origin expires, plane.route q = .ok t ∧
    plane.Stores t r ∧ t.key = key ∧ e = plane.entry t r origin expires

variable {plane}

theorem filled_empty : plane.Filled empty := by
  intro key e h
  cases h

theorem Filled.get (h : plane.Filled cache) (now : ℕ) (key : String) :
    plane.Filled (cache.get now key).1 := by
  unfold ResponseCache.get
  split
  · exact h
  · split
    · intro probe e hget
      rw [get?_erase_eq] at hget
      split at hget
      · cases hget
      · exact h probe e hget
    · exact h

theorem Filled.serveFromOrigin (h : plane.Filled cache) (hroute : plane.route v.request = .ok t) :
    plane.Filled (plane.serveFromOrigin cache v t).1 := by
  cases hfetch : plane.fetch t with
  | error failure =>
    unfold DataPlane.serveFromOrigin
    rw [hfetch]
    exact h
  | ok r =>
    rw [serveFromOrigin_ok plane cache hfetch]
    intro key e hget
    rcases store_get? plane hget with hold | ⟨hkey, hcacheable, httl, hstatus, expires, he⟩
    · exact h key e hold
    · exact ⟨v.request, t, r, _, expires, hroute, ⟨hcacheable, httl, hfetch, hstatus⟩, hkey, he⟩

theorem Filled.handleRequest (h : plane.Filled cache) (v : Visit) :
    plane.Filled (plane.handleRequest cache v).1 := by
  unfold DataPlane.handleRequest
  split
  · exact h
  · next t hroute =>
    split
    · have hgot := h.get v.lookedUpAt t.key
      split
      · next cache' response hget =>
        rw [hget] at hgot
        exact hgot
      · next cache' hget =>
        rw [hget] at hgot
        exact hgot.serveFromOrigin hroute
    · exact h.serveFromOrigin hroute

/-! ## Hits under the condition -/

theorem key_eq_iff (ht : plane.route q = .ok t) (hu : plane.route q' = .ok u) :
    t.key = u.key ↔ t.distribution.id = u.distribution.id ∧ t.method = u.method ∧
      spelled t.effectivePath t.query = spelled u.effectivePath u.query := by
  obtain ⟨-, -, hmethod, -⟩ := route_ok plane ht
  obtain ⟨-, -, hmethod', -⟩ := route_ok plane hu
  exact cacheKey_inj t.distribution.id_valid u.distribution.id_valid
    (hmethod ▸ q.method_valid) (hmethod' ▸ q'.method_valid)

theorem splitOnce_subset (text : String) :
    ((splitOnce text '/').getD (text, "")).2.toList ⊆ text.toList := by
  unfold splitOnce
  rw [span_eq_takeWhile_dropWhile]
  cases hdrop : text.toList.dropWhile (· != '/') with
  | nil => exact nil_subset _
  | cons c after =>
      change (String.ofList after).toList ⊆ text.toList
      rw [String.toList_ofList]
      exact ((suffix_cons c after).trans (hdrop ▸ dropWhile_suffix _)).subset

theorem parsePathBased_plain {path id objectPath : String} (hpath : '?' ∉ path.toList)
    (h : parsePathBased path = some (id, objectPath)) : '?' ∉ objectPath.toList := by
  unfold parsePathBased at h
  split at h
  · cases h
  · next rest hrest =>
      obtain ⟨-, hrest⟩ := Option.ite_none_right_eq_some.mp hrest
      obtain ⟨-, h⟩ := Option.ite_none_left_eq_some.mp h
      obtain rfl := Option.some.inj hrest
      rw [← (Prod.mk.inj (Option.some.inj h)).2]
      split_ifs
      · decide
      · intro hmem
        rw [String.toList_append] at hmem
        have hrest := splitOnce_subset _ ((mem_append.mp hmem).resolve_left (by decide))
        rw [String.toList_ofList] at hrest
        exact hpath (mem_of_mem_drop hrest)

/-- A question mark in the path of a target comes from the root object. -/
theorem effectivePath_plain (h : plane.route q = .ok t)
    (hroot : '?' ∉ t.distribution.config.defaultRootObject.toList) :
    '?' ∉ t.effectivePath.toList := by
  obtain ⟨-, -, -, -, id, objectPath, hresolve, hpath⟩ := route_ok plane h
  have hobject : '?' ∉ objectPath.toList := by
    unfold resolveRequest at hresolve
    split at hresolve
    · next hparsed => exact parsePathBased_plain q.path_valid (hparsed.trans hresolve)
    · split at hresolve
      · cases hresolve
      · obtain ⟨found, -, heq⟩ := Option.map_eq_some_iff.mp hresolve
        cases heq
        exact q.path_valid
  rw [hpath, applyDefaultRootObject]
  split_ifs
  · intro hmem
    rw [String.toList_append] at hmem
    have hrest := (mem_append.mp hmem).resolve_left (by decide)
    rw [String.toList_ofList] at hrest
    exact hroot ((dropWhile_suffix _).subset hrest)
  · exact hobject

theorem spelled_path {path : String} (hpath : '?' ∉ path.toList) (query : Option String) :
    (spelled path query).takeWhile (· ≠ '?') = path.toList := by
  unfold spelled
  rw [takeWhile_append_of_pos fun c hc => decide_eq_true (ne_of_mem_of_not_mem hc hpath)]
  split_ifs <;> simp

theorem distribution_eq (ht : plane.route q = .ok t) (hu : plane.route q' = .ok u)
    (hid : t.distribution.id = u.distribution.id) : t.distribution = u.distribution := by
  have hfound := (route_ok plane ht).1
  rw [hid, (route_ok plane hu).1] at hfound
  exact (Option.some.inj hfound).symm

/-- Without question marks in root objects no target spells another. -/
theorem path_of_spelled (ht : plane.route q = .ok t) (hu : plane.route q' = .ok u)
    (hid : t.distribution.id = u.distribution.id)
    (hroot : '?' ∉ t.distribution.config.defaultRootObject.toList)
    (hspelled : spelled t.effectivePath t.query = spelled u.effectivePath u.query) :
    t.effectivePath = u.effectivePath := by
  have hdist := distribution_eq ht hu hid
  rw [← String.toList_inj, ← spelled_path (effectivePath_plain ht hroot) t.query, hspelled,
    spelled_path (effectivePath_plain hu (hdist ▸ hroot))]

theorem Steady.same (hsteady : plane.Steady) (ht : plane.route q = .ok t)
    (hu : plane.route q' = .ok u) (hstores : plane.Stores t r) (hcacheable : u.cacheable = true)
    (hkey : t.key = u.key) : t.Same u := by
  obtain ⟨hid, hmethod, hspelled⟩ := (key_eq_iff ht hu).mp hkey
  have hpath := hsteady.spelling q q' t u r ht hu hstores hcacheable hid hmethod hspelled
  rw [hpath] at hspelled
  exact ⟨hid, hmethod, hpath, spelled_right_inj hspelled⟩

/-- The same target is the same but for an empty query. -/
theorem eq_of_same (ht : plane.route q = .ok t) (hu : plane.route q' = .ok u) (hsame : t.Same u) :
    u = { t with query := u.query } := by
  obtain ⟨-, hbehavior, -⟩ := route_ok plane ht
  obtain ⟨-, hbehavior', -⟩ := route_ok plane hu
  have hd := distribution_eq ht hu hsame.distribution
  have hb : t.behavior = u.behavior := by
    rw [hbehavior, hbehavior', hd, hsame.path]
  cases u
  rw [Target.mk.injEq]
  exact ⟨hd.symm, hb.symm, hsame.method.symm, hsame.path.symm, rfl⟩

theorem filter_isText_values {headers : HeaderMap}
    (h : ∀ e ∈ headers, e.1.text = name → e.2.isText = true) :
    (headers.values name).filter HeaderValue.isText = headers.values name := by
  apply filter_eq_self.mpr
  intro value hvalue
  obtain ⟨e, he, rfl⟩ := mem_map.mp hvalue
  rw [mem_filter, beq_iff_eq] at he
  exact h e he.1 he.2

theorem values_served {origin : Option HeaderValue} (hname : isEndToEnd name = true) :
    (plane.served t r origin v).headers.values name =
      ((plane.applyPolicy t origin r).headers.values name).filter HeaderValue.isText := by
  unfold served
  rw [values_addCloudfrontResponseHeaders _ _ _ hname,
    values_filter_isKept _ (isDropped_of_isEndToEnd hname)]

theorem values_missed (hname : isEndToEnd name = true) :
    (plane.missed t r v).headers.values name =
      (plane.applyPolicy t (v.request.headers.get "origin") r).headers.values name := by
  unfold missed
  rw [values_addCloudfrontResponseHeaders _ _ _ hname]

theorem Steady.agree (hsteady : plane.Steady) (ht : plane.route q = .ok t)
    (hstores : plane.Stores t r) (origin : Option HeaderValue) (v : Visit) :
    Agree (plane.served t r origin v) (plane.missed t r v) := by
  refine ⟨?_, ?_, ?_⟩
  · exact (plane.applyPolicy_status t _ r).symm
  · exact (plane.applyPolicy_body t _ r).symm
  · intro name hname
    rw [values_served hname, values_missed hname, filter_isText_values]
    · exact (uncrossed_iff plane t r).mp (hsteady.viewer q t r ht hstores) _ _ name hname
    · rintro e he rfl
      exact hsteady.text q t r ht hstores origin e he hname

theorem Filled.agree (h : plane.Filled cache) (hsteady : plane.Steady) (v : Visit) :
    Agree (plane.handleRequest cache v).2 (plane.handleRequest empty v).2 := by
  cases hroute : plane.route v.request with
  | error err =>
    unfold DataPlane.handleRequest
    rw [hroute]
    exact Agree.rfl
  | ok t =>
    rw [handleRequest_empty plane hroute]
    unfold DataPlane.handleRequest
    rw [hroute]
    dsimp only
    split
    · next hcacheable =>
      split
      · next cache' response hget =>
        obtain ⟨e, he, hnow⟩ := get_hit hget
        obtain ⟨q, t₀, r, origin, expires, ht₀, hstores, hkey, rfl⟩ := h t.key e he
        rw [get_eq_of_entry plane hstores.status he hnow] at hget
        cases hget
        have hsame := hsteady.same ht₀ hroute hstores hcacheable hkey
        have hfetch : plane.fetch t = .ok r := by
          rw [eq_of_same ht₀ hroute hsame]
          exact hstores.fetched
        rw [serveFromOrigin_ok plane _ hfetch, eq_of_same ht₀ hroute hsame]
        exact hsteady.agree ht₀ hstores origin v
      · rw [plane.serveFromOrigin_snd _ empty]
        exact Agree.rfl
    · rw [plane.serveFromOrigin_snd _ empty]
      exact Agree.rfl

theorem Filled.run (h : plane.Filled cache) (hsteady : plane.Steady) (vs : List Visit) :
    ∀ e ∈ plane.run cache vs,
      Agree e.2 (plane.handleRequest empty e.1).2 := by
  induction vs generalizing cache with
  | nil =>
      intro e he
      cases he
  | cons v vs ih =>
      intro e he
      rcases mem_cons.mp he with rfl | he
      · exact h.agree hsteady v
      · exact ih (h.handleRequest v) e he

theorem Steady.upheld (hsteady : plane.Steady) (vs : List Visit) : plane.Upheld vs := by
  refine ⟨filled_empty.run hsteady vs, ?_⟩
  intro v _ w _ t u r ht hu hstores hcacheable hkey
  exact hsteady.same ht hu hstores hcacheable hkey

end DataPlane

def ORIGIN : HeaderName := ⟨"origin", by decide⟩

/-- The same request with an Origin header or without one. -/
def Request.withOrigin (q : Request) (origin : Option HeaderValue) : Request :=
  { q with
    headers := q.headers.remove "origin" ++ (origin.map fun value => (ORIGIN, value)).toList }

theorem Request.get_withOrigin (q : Request) (origin : Option HeaderValue) :
    (q.withOrigin origin).headers.get "origin" = origin := by
  unfold withOrigin HeaderMap.get
  rw [values_append, values_remove_self]
  cases origin with
  | none => rfl
  | some value => rfl

/-- The visit of a request at time zero. -/
def Request.visit (q : Request) (origin : Option HeaderValue) : Visit :=
  ⟨q.withOrigin origin, 0, 0, ""⟩

namespace DataPlane

variable {plane : DataPlane}

theorem route_withOrigin (q : Request) (origin : Option HeaderValue) :
    plane.route (q.withOrigin origin) = plane.route q := by
  have hhost : (q.withOrigin origin).headers.get "host" = q.headers.get "host" := by
    unfold Request.withOrigin HeaderMap.get
    rw [values_append, values_remove_of_ne _ (by decide)]
    cases origin with
    | none => rw [Option.map_none, Option.toList_none, values_nil, append_nil]
    | some value =>
      rw [Option.map_some, Option.toList_some,
        values_singleton_of_ne (by decide), append_nil]
  have hresolve : plane.resolveRequest (q.withOrigin origin) = plane.resolveRequest q := by
    unfold resolveRequest
    rw [hhost]
    rfl
  unfold route
  rw [hresolve]
  rfl

/-- A second request for a stored answer is served from the entry of the first. -/
theorem run_twice (ht : plane.route q = .ok t) (hstores : plane.Stores t r)
    (origin origin' : Option HeaderValue) :
    (q.visit origin', plane.served t r origin (q.visit origin')) ∈
      plane.run empty [q.visit origin, q.visit origin'] := by
  obtain ⟨ttl, httl⟩ := Option.isSome_iff_exists.mp hstores.ttl
  obtain ⟨hpos, -⟩ := plane.cacheTtl_lt httl
  have hroute : ∀ o, plane.route (q.visit o).request = .ok t := fun o =>
    (route_withOrigin q o).trans ht
  have hfirst : (plane.handleRequest empty (q.visit origin)).1.get? t.key =
      some (plane.entry t r origin ttl) := by
    rw [handleRequest_empty plane (hroute origin), serveFromOrigin_ok plane _ hstores.fetched]
    have horigin : (q.visit origin).request.headers.get "origin" = origin :=
      q.get_withOrigin origin
    have hnow : (q.visit origin).storedAt = 0 := rfl
    rw [horigin, hnow]
    exact store_get?_self _ hstores httl origin
  have hsecond : (plane.handleRequest (plane.handleRequest empty (q.visit origin)).1
      (q.visit origin')).2 = plane.served t r origin (q.visit origin') := by
    have hget := plane.get_eq_of_entry  hstores.status hfirst hpos
    have hnow : (q.visit origin').lookedUpAt = 0 := rfl
    rw [DataPlane.handleRequest, hroute origin']
    dsimp only
    rw [if_pos hstores.cacheable, hnow, hget]
    rfl
  rw [← hsecond]
  exact .tail _ (.head _)

theorem values_of_upheld (h : ∀ vs, plane.Upheld vs) (ht : plane.route q = .ok t)
    (hstores : plane.Stores t r) (origin origin' : Option HeaderValue)
    (hname : isEndToEnd name = true) :
    ((plane.applyPolicy t origin r).headers.values name).filter HeaderValue.isText =
      (plane.applyPolicy t origin' r).headers.values name := by
  have hagree := (h _).transparent _ (run_twice ht hstores origin origin')
  have hroute : plane.route (q.visit origin').request = .ok t :=
    (route_withOrigin q origin').trans ht
  have horigin : (q.visit origin').request.headers.get "origin" = origin' :=
    q.get_withOrigin origin'
  rw [handleRequest_empty plane hroute, serveFromOrigin_ok plane _ hstores.fetched] at hagree
  have hvalues := hagree.headers name hname
  rw [values_served hname, values_missed hname, horigin] at hvalues
  exact hvalues

theorem steady_of_upheld (h : ∀ vs, plane.Upheld vs) : plane.Steady := by
  refine ⟨?_, ?_, ?_⟩
  · intro q t r ht hstores origin e he hname
    have hself := values_of_upheld h ht hstores origin origin hname
    have hmem : e.2 ∈ (plane.applyPolicy t origin r).headers.values e.1.text :=
      mem_map.mpr ⟨e, mem_filter.mpr ⟨he, beq_self_eq_true _⟩, rfl⟩
    rw [← hself] at hmem
    exact (mem_filter.mp hmem).2
  · intro q t r ht hstores
    refine (uncrossed_iff plane t r).mpr fun origin origin' name hname => ?_
    rw [← values_of_upheld h ht hstores origin origin hname]
    exact values_of_upheld h ht hstores origin origin' hname
  · intro q q' t u r ht hu hstores hcacheable hid hmethod hspelled
    have hapart := (h [q.visit none, q'.visit none]).apart (q.visit none) (.head _)
      (q'.visit none) (.tail _ (.head _)) t u r
      ((route_withOrigin q none).trans ht) ((route_withOrigin q' none).trans hu) hstores hcacheable
      ((key_eq_iff ht hu).mpr ⟨hid, hmethod, hspelled⟩)
    exact hapart.path

/-- Hits are like misses in every run exactly if what is stored is text and the same for every
viewer, and no root object spells another path. -/
theorem upheld_iff_steady (plane : DataPlane) : (∀ vs, plane.Upheld vs) ↔ plane.Steady := by
  constructor
  · exact steady_of_upheld
  · intro hsteady vs
    exact hsteady.upheld vs

/-- Without CORS, and without question marks in root objects, a plane that answers texts is
steady. -/
theorem steady_of_plain (htext : ∀ q t r, plane.route q = .ok t → plane.Stores t r → ∀ origin,
      ∀ h ∈ (plane.applyPolicy t origin r).headers, isEndToEnd h.1.text = true → h.2.isText = true)
    (hcors : ∀ id policy, plane.responseHeadersPolicies id = some policy →
      policy.corsConfig = none)
    (hroot : ∀ d ∈ plane.distributions, '?' ∉ d.config.defaultRootObject.toList) :
    plane.Steady where
  text := htext
  viewer _ _ _ _ _ policy cors _ hpolicy hsome := by
    cases hsome.symm.trans (hcors _ policy hpolicy)
  spelling _ _ _ _ _ ht hu _ _ hid _ hspelled :=
    path_of_spelled ht hu hid (hroot _ (mem_of_find?_eq_some (route_ok plane ht).1)) hspelled

/-! ## A viewer without an origin comes first -/

def corsPolicy : ResponseHeadersPolicyConfig :=
  ⟨some ⟨false, ["*"], [], [], [], 0⟩, none, [], []⟩

def corsBehavior : CacheBehavior :=
  ⟨"", "site", "", [], [], "", "cors", [], false, [], false, [], [], 0, 60⟩

def corsPlane : DataPlane where
  distributions := [⟨"E1", ⟨[], "", [⟨"site", "site.s3.amazonaws.com", ""⟩], corsBehavior, [], [],
    true⟩, by decide⟩]
  domainSuffix := ".cloudfront.net"
  responseHeadersPolicies := fun _ => some corsPolicy
  cachePolicies := fun _ => none
  failOnFunction := false
  dispatch := fun _ _ _ => .ok ⟨200, [], [104, 105]⟩

def page : Request :=
  ⟨"GET", "/_aws/cloudfront/E1/index.html", none, [], by decide, by decide⟩

theorem cors_not_upheld :
    ¬corsPlane.Upheld [page.visit none, page.visit (some ⟨[97], by decide⟩)] := by
  intro h
  have hagree := h.transparent _ (.tail _ (.head _))
  have hvalues := hagree.headers "access-control-allow-origin" (by decide)
  exact absurd hvalues (by decide +kernel)

def plainPlane : DataPlane := { corsPlane with responseHeadersPolicies := fun _ => none }

/-- Without the policy the plane is steady, and it stores an answer. -/
theorem plain_steady : plainPlane.Steady ∧
    ∃ t r, plainPlane.route page = .ok t ∧ plainPlane.Stores t r := by
  refine ⟨steady_of_plain (fun q t r _ hstores origin h hh => ?_) (fun _ _ h => by cases h)
    (by decide), ?_⟩
  · have hsame : plainPlane.applyPolicy t origin r = r := by
      unfold applyPolicy
      split <;> rfl
    have hfetched := hstores.fetched
    unfold fetch at hfetched
    split at hfetched
    · cases hfetched
    · cases hfetched
      rw [hsame] at hh
      cases hh
  · exact ⟨_, _, rfl, by decide +kernel, by decide +kernel, rfl, rfl⟩

end DataPlane

end Rustack.CloudFront
