import Rustack.Lib.Fields
import Rustack.Lib.SortedMap
import Rustack.CloudFront.Headers

/-!
# The response cache

A stored response keeps its headers as texts, without those that are for one connection and those
that the plane adds to every answer.  Its key joins the distribution, the method, the path and the
query.
-/

namespace Rustack.CloudFront

open Http List

/-! ## Stored responses -/

/-- Headers that are for one connection only. -/
def HOP_BY_HOP : List String :=
  ["connection", "keep-alive", "proxy-authenticate", "proxy-authorization", "te", "trailers",
    "transfer-encoding", "upgrade", "expect"]

/-- Headers that a stored response does not keep. -/
def isDropped (name : String) : Bool :=
  HOP_BY_HOP.contains name || name == "x-amz-cf-id" || name == "x-cache" || name == "via"

structure CachedResponse where
  status : ℕ
  headers : List (String × String)
  body : List UInt8
  expiresAtEpochSecs : ℕ
  deriving DecidableEq

abbrev ResponseCache := SortedMap String CachedResponse compare

/-- The headers of a response as texts. -/
def snapshotHeaders (headers : HeaderMap) : List (String × String) :=
  headers.filterMap fun h =>
    if isDropped h.1.text then none else h.2.toStr.map fun value => (h.1.text, value)

def buildHeader (headers : HeaderMap) (h : String × String) : HeaderMap :=
  match HeaderName.fromBytes h.1, HeaderValue.fromStr h.2 with
  | some name, some value => headers.append name value
  | _, _ => headers

def isStatus (status : ℕ) : Bool :=
  decide (100 ≤ status) && decide (status < 1000)

def buildResponse (entry : CachedResponse) : Option Response :=
  if isStatus entry.status then
    some ⟨entry.status, entry.headers.foldl buildHeader [], entry.body⟩
  else none

/-- Look a response up; an entry that has expired is removed. -/
def ResponseCache.get (cache : ResponseCache) (now : ℕ) (key : String) :
    ResponseCache × Option Response :=
  match cache.get? key with
  | none => (cache, none)
  | some entry =>
    if entry.expiresAtEpochSecs ≤ now then (cache.erase key, none)
    else (cache, buildResponse entry)

/-- The first number of seconds that the clock cannot hold. -/
def U64_RANGE : ℕ := 18446744073709551616

def ResponseCache.insertResponse (cache : ResponseCache) (now : ℕ) (key : String)
    (response : Response) (ttl : ℕ) : ResponseCache :=
  if ttl = 0 ∨ response.status ≠ 200 then cache
  else if now + ttl ≥ U64_RANGE then cache
  else SortedMap.insert cache key
    ⟨response.status, snapshotHeaders response.headers, response.body, now + ttl⟩

def cacheKey (distributionId method effectivePath : String) (query : Option String) : String :=
  match query with
  | some query =>
    if query.isEmpty then distributionId ++ ":" ++ method ++ ":" ++ effectivePath
    else distributionId ++ ":" ++ method ++ ":" ++ effectivePath ++ "?" ++ query
  | none => distributionId ++ ":" ++ method ++ ":" ++ effectivePath

/-! ## What a stored response keeps -/

/-- The headers of a stored response that come back from it. -/
def isKept (h : HeaderName × HeaderValue) : Bool :=
  !isDropped h.1.text && h.2.isText

theorem foldl_buildHeader (headers acc : HeaderMap) :
    (snapshotHeaders headers).foldl buildHeader acc = acc ++ headers.filter isKept := by
  induction headers generalizing acc with
  | nil => simp [snapshotHeaders]
  | cons h headers ih =>
      cases hdropped : isDropped h.1.text with
      | true =>
        have hsnap : snapshotHeaders (h :: headers) = snapshotHeaders headers := by
          simp [snapshotHeaders, hdropped]
        rw [hsnap, ih, filter_cons_of_neg (by simp [isKept, hdropped])]
      | false =>
        cases htext : h.2.isText with
        | false =>
          have hsnap : snapshotHeaders (h :: headers) = snapshotHeaders headers := by
            simp [snapshotHeaders, hdropped, HeaderValue.toStr, htext]
          rw [hsnap, ih, filter_cons_of_neg (by simp [isKept, htext])]
        | true =>
          obtain ⟨text, htoStr⟩ := HeaderValue.toStr_of_isText htext
          have hsnap : snapshotHeaders (h :: headers) =
              (h.1.text, text) :: snapshotHeaders headers := by
            simp [snapshotHeaders, hdropped, htoStr]
          have hbuild : buildHeader acc (h.1.text, text) = acc ++ [h] := by
            simp [buildHeader, HeaderName.fromBytes_self, HeaderValue.fromStr_toStr htoStr,
              HeaderMap.append]
          rw [hsnap, foldl_cons, hbuild, ih,
            filter_cons_of_pos (by simp [isKept, hdropped, htext])]
          simp

theorem buildResponse_snapshot {response : Response} (h : response.status = 200) (expires : ℕ) :
    buildResponse ⟨response.status, snapshotHeaders response.headers, response.body, expires⟩ =
      some { response with headers := response.headers.filter isKept } := by
  simp [buildResponse, isStatus, h, foldl_buildHeader]

theorem values_filter_isKept (headers : HeaderMap) {name : String}
    (hname : isDropped name = false) :
    HeaderMap.values (headers.filter isKept) name =
      (headers.values name).filter HeaderValue.isText := by
  unfold HeaderMap.values
  rw [filter_map, filter_filter, filter_filter]
  congr 1
  apply filter_congr
  intro h _
  cases hh : h.1.text == name with
  | false => simp
  | true =>
    rw [beq_iff_eq] at hh
    simp [isKept, hh, hname]

theorem get_hit {cache cache' : ResponseCache} {now : ℕ} {key : String} {response : Response}
    (h : cache.get now key = (cache', some response)) :
    ∃ e, cache.get? key = some e ∧ now < e.expiresAtEpochSecs := by
  unfold ResponseCache.get at h
  split at h
  · cases h
  · next e he =>
    split at h
    · cases h
    · next hlive => exact ⟨e, he, Nat.not_le.mp hlive⟩

/-! ## Keys -/

/-- The path and the query of a request as they stand in its key. -/
def spelled (effectivePath : String) (query : Option String) : List Char :=
  effectivePath.toList ++
    if query.getD "" = "" then [] else '?' :: (query.getD "").toList

theorem cacheKey_toList (id method path : String) (query : Option String) :
    (cacheKey id method path query).toList =
      id.toList ++ ':' :: (method.toList ++ ':' :: spelled path query) := by
  cases query with
  | none => simp [cacheKey, spelled]
  | some text =>
    by_cases ht : text = ""
    · simp [cacheKey, spelled, ht]
    · have hne : text.isEmpty = false := by simpa using ht
      simp [cacheKey, spelled, hne, ht]

/-- Identifiers and methods have no colon, so a key tells them apart. -/
theorem cacheKey_inj {id id' method method' path path' : String} {query query' : Option String}
    (hid : ':' ∉ id.toList) (hid' : ':' ∉ id'.toList) (hmethod : ':' ∉ method.toList)
    (hmethod' : ':' ∉ method'.toList) :
    cacheKey id method path query = cacheKey id' method' path' query' ↔
      id = id' ∧ method = method' ∧ spelled path query = spelled path' query' := by
  rw [← String.toList_inj, cacheKey_toList, cacheKey_toList, Text.field_inj hid hid',
    Text.field_inj hmethod hmethod', String.toList_inj, String.toList_inj]

theorem spelled_right_inj {path : String} {query query' : Option String}
    (h : spelled path query = spelled path query') : query.getD "" = query'.getD "" := by
  have htail := append_cancel_left h
  split at htail <;> split at htail <;> rename_i hq hq'
  · rw [hq, hq']
  · cases htail
  · cases htail
  · exact String.toList_inj.mp (cons_inj_right '?' |>.mp htail)

end Rustack.CloudFront
