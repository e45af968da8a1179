import Mathlib.Data.List.DropRight
import Rustack.Lib.Decimal
import Rustack.CloudFront.Cache

/-!
# The data plane

A request is resolved to a distribution and a path, checked against the cache behavior, and
answered from the cache or from the origin.  Answers of the origin with status 200 are kept for
as long as the cache policy says.

What an origin answers is a parameter of the method and the path: it is taken not to depend on
anything else of the request, and the plane does not hand it the query.  Distributions and policies
are looked up in the control plane, which is fixed here.
-/

namespace Rustack.CloudFront

open Http

/-! ## Distributions -/

structure CacheBehavior where
  pathPattern : String
  targetOriginId : String
  viewerProtocolPolicy : String
  allowedMethods : List String
  cachedMethods : List String
  cachePolicyId : String
  responseHeadersPolicyId : String
  trustedSigners : List String
  trustedSignersEnabled : Bool
  trustedKeyGroups : List String
  trustedKeyGroupsEnabled : Bool
  lambdaFunctionAssociations : List String
  functionAssociations : List String
  minTtl : Int64
  defaultTtl : Int64

structure CustomErrorResponse where
  errorCode : ℤ
  responsePagePath : String
  responseCode : String
  errorCachingMinTtl : ℤ

structure Origin where
  id : String
  domainName : String
  originPath : String

structure DistributionConfig where
  aliases : List String
  defaultRootObject : String
  origins : List Origin
  defaultCacheBehavior : CacheBehavior
  cacheBehaviors : List CacheBehavior
  customErrorResponses : List CustomErrorResponse
  enabled : Bool

/-- Glob match by bytes: `p` and `i` are read positions, and `star` is where to go on after the
last star when a byte does not match, and how far that star has been tried. -/
def globLoop (pattern s : List UInt8) (p i : ℕ) (star : Option ℕ) (lastMatch : ℕ)
    (h : lastMatch ≤ i) : Bool :=
  if _hi : i < s.length then
    match _hp : pattern[p]? with
    | some c =>
      if c = 42 then globLoop pattern s (p + 1) i (some p) i (Nat.le_refl i)
      else if c = 63 ∨ s[i]? = some c then
        globLoop pattern s (p + 1) (i + 1) star lastMatch (Nat.le_succ_of_le h)
      else
        match star with
        | some sp =>
          globLoop pattern s (sp + 1) (lastMatch + 1) star (lastMatch + 1) (Nat.le_refl _)
        | none => false
    | none =>
      match star with
      | some sp =>
        globLoop pattern s (sp + 1) (lastMatch + 1) star (lastMatch + 1) (Nat.le_refl _)
      | none => false
  else (pattern.drop p).all (· == 42)
termination_by (s.length - lastMatch, s.length - i, pattern.length - p)
decreasing_by
  · have hp := (List.getElem?_eq_some_iff.mp _hp).1
    rcases Nat.lt_or_eq_of_le h with hlt | rfl
    · exact Prod.Lex.left _ _ (by omega)
    · exact Prod.Lex.right _ (Prod.Lex.right _ (by omega))
  · exact Prod.Lex.right _ (Prod.Lex.left _ _ (by omega))
  · exact Prod.Lex.left _ _ (by omega)
  · exact Prod.Lex.left _ _ (by omega)

def matchesPattern (pattern path : String) : Bool :=
  globLoop (Utf8.encode pattern.toList) (Utf8.encode path.toList) 0 0 none 0 (Nat.le_refl 0)

/-- The first cache behavior whose pattern matches, else the default one. -/
def selectBehavior (config : DistributionConfig) (path : String) : CacheBehavior :=
  (config.cacheBehaviors.find? fun cb =>
    !cb.pathPattern.isEmpty && matchesPattern cb.pathPattern path).getD config.defaultCacheBehavior

def applyDefaultRootObject (path default : String) : String :=
  if path = "/" ∧ ¬default.isEmpty then
    "/" ++ String.ofList (default.toList.dropWhile (· == '/'))
  else path

def toAsciiUppercase (text : String) : String :=
  String.ofList (text.toList.map Char.toUpper)

def eqIgnoreAsciiCase (a b : String) : Bool :=
  toAsciiUppercase a == toAsciiUppercase b

def methodIsAllowed (behavior : CacheBehavior) (method : String) : Bool :=
  if behavior.allowedMethods.isEmpty then method == "GET" || method == "HEAD"
  else behavior.allowedMethods.any fun m => eqIgnoreAsciiCase m method

def methodIsCacheable (method : String) (cachedMethods : List String) : Bool :=
  if cachedMethods.isEmpty then method == "GET" || method == "HEAD"
  else cachedMethods.any fun candidate => eqIgnoreAsciiCase candidate method

/-! ## Errors -/

inductive DataPlaneError where
  | noSuchDistribution (detail : String)
  | distributionDisabled (detail : String)
  | methodNotAllowed (detail : String)
  | behaviorResolution (detail : String)
  | originClientError (status : ℕ) (message : String)
  | originServerError (status : ℕ) (message : String)
  | objectNotFound (detail : String)
  | functionExecutionSkipped (detail : String)
  | signedUrlRequired (detail : String)
  | payloadTooLarge (detail : String)
  | internal (detail : String)

namespace DataPlaneError

def httpStatus : DataPlaneError → ℕ
  | noSuchDistribution _ | objectNotFound _ => 404
  | distributionDisabled _ | signedUrlRequired _ => 403
  | methodNotAllowed _ => 405
  | behaviorResolution _ | internal _ | functionExecutionSkipped _ => 500
  | originClientError status _ | originServerError status _ => status
  | payloadTooLarge _ => 413

def errorType : DataPlaneError → String
  | noSuchDistribution _ => "NoSuchDistribution"
  | distributionDisabled _ => "DistributionDisabled"
  | methodNotAllowed _ => "MethodNotAllowed"
  | behaviorResolution _ => "BehaviorResolutionFailed"
  | originClientError _ _ => "OriginClientError"
  | originServerError _ _ => "OriginServerError"
  | objectNotFound _ => "NoSuchKey"
  | functionExecutionSkipped _ => "FunctionExecutionSkipped"
  | signedUrlRequired _ => "SignedUrlRequired"
  | payloadTooLarge _ => "PayloadTooLarge"
  | internal _ => "InternalError"

def message : DataPlaneError → String
  | noSuchDistribution detail => "NoSuchDistribution: " ++ detail
  | distributionDisabled detail => "DistributionDisabled: " ++ detail
  | methodNotAllowed detail => "MethodNotAllowed: " ++ detail
  | behaviorResolution detail => "BehaviorResolution: " ++ detail
  | originClientError status message =>
    "OriginClientError(" ++ toString status ++ "): " ++ message
  | originServerError status message =>
    "OriginServerError(" ++ toString status ++ "): " ++ message
  | objectNotFound detail => "ObjectNotFound: " ++ detail
  | functionExecutionSkipped detail => "FunctionExecutionSkipped: " ++ detail
  | signedUrlRequired detail => "SignedUrlRequired: " ++ detail
  | payloadTooLarge detail => "PayloadTooLarge: " ++ detail
  | internal detail => "Internal: " ++ detail

end DataPlaneError

inductive CacheResult where
  | hit
  | miss
  deriving DecidableEq

/-- The informational headers of every answer; `id` is a fresh one. -/
def addCloudfrontResponseHeaders (headers : HeaderMap) (id : String) (result : CacheResult) :
    HeaderMap :=
  let headers := headers.insertText "x-amz-cf-id" id
  let headers := headers.insertText "x-cache" <| match result with
    | .hit => "Hit from rustack-cloudfront"
    | .miss => "Miss from rustack-cloudfront"
  headers.insertText "via" "1.1 rustack.cloudfront.net (CloudFront)"

def xmlEscape (text : String) : String :=
  String.ofList (text.toList.flatMap fun c =>
    if c = '&' then "&amp;".toList else if c = '<' then "&lt;".toList
    else if c = '>' then "&gt;".toList else [c])

def errorResponse (err : DataPlaneError) (id : String) : Response :=
  let status := if isStatus err.httpStatus then err.httpStatus else 500
  let body := "<?xml version=\"1.0\"?>\n<Error><Code>" ++ err.errorType ++ "</Code><Message>" ++
    xmlEscape err.message ++ "</Message></Error>"
  let headers := HeaderMap.insertText [] "content-type" "application/xml"
  let headers := headers.insertText "x-amzn-errortype" err.errorType
  ⟨status, addCloudfrontResponseHeaders headers id .miss, Utf8.encode body.toList⟩

/-! ## The data plane -/

/-- A viewer's request.  The path of a URI has no question mark, and a method has no colon. -/
structure Request where
  method : String
  path : String
  query : Option String
  headers : HeaderMap
  method_valid : ':' ∉ method.toList
  path_valid : '?' ∉ path.toList

structure Distribution where
  id : String
  config : DistributionConfig
  id_valid : ':' ∉ id.toList

/-- How a request to an origin ends without an answer: the plane itself refuses it, or the origin
failed, and then a custom error response may stand in. -/
inductive Failure where
  | refused (err : DataPlaneError)
  | failed (err : DataPlaneError)

structure DataPlane where
  distributions : List Distribution
  domainSuffix : String
  responseHeadersPolicies : String → Option ResponseHeadersPolicyConfig
  /-- The default time to live of a cache policy. -/
  cachePolicies : String → Option Int64
  failOnFunction : Bool
  /-- What an origin answers to a method and a path. -/
  dispatch : Origin → String → String → Except Failure Response

def splitOnce (text : String) (sep : Char) : Option (String × String) :=
  match text.toList.span (· != sep) with
  | (_, []) => none
  | (before, _ :: after) => some (String.ofList before, String.ofList after)

def stripPrefix (text front : String) : Option String :=
  if front.toList.isPrefixOf text.toList then
    some (String.ofList (text.toList.drop front.toList.length))
  else none

def stripSuffix (text back : String) : Option String :=
  if back.toList.isSuffixOf text.toList then
    some (String.ofList (text.toList.take (text.toList.length - back.toList.length)))
  else none

/-- The path form `/_aws/cloudfront/id/…`. -/
def parsePathBased (path : String) : Option (String × String) :=
  match stripPrefix path "/_aws/cloudfront/" with
  | none => none
  | some rest =>
    let (id, rest) := (splitOnce rest '/').getD (rest, "")
    let id := toAsciiUppercase id
    if id.isEmpty then none
    else some (id, if rest.isEmpty then "/" else "/" ++ rest)

namespace DataPlane

variable (plane : DataPlane)

def getDistribution (id : String) : Option Distribution :=
  plane.distributions.find? fun d => d.id == id

def matchHost (host : String) : Option String :=
  let hostNoPort := ((splitOnce host ':').map Prod.fst).getD host
  let named := match stripSuffix hostNoPort plane.domainSuffix with
    | none => none
    | some sub =>
      let sub := String.ofList (sub.toList.rdropWhile (· == '.'))
      if sub.isEmpty || sub.toList.contains '.' then none
      else (plane.getDistribution (toAsciiUppercase sub)).map Distribution.id
  match named with
  | some id => some id
  | none =>
    (plane.distributions.find? fun d : Distribution =>
      d.config.aliases.any fun a => eqIgnoreAsciiCase a hostNoPort).map Distribution.id

/-- The distribution and the object path of a request. -/
def resolveRequest (request : Request) : Option (String × String) :=
  match parsePathBased request.path with
  | some result => some result
  | none =>
    match (request.headers.get "host").bind HeaderValue.toStr with
    | none => none
    | some host => (plane.matchHost host).map fun id => (id, request.path)

def checkDivergence (id : String) (behavior : CacheBehavior) : Except DataPlaneError Unit :=
  if !plane.failOnFunction then .ok ()
  else if !behavior.lambdaFunctionAssociations.isEmpty then
    .error (.functionExecutionSkipped
      ("Lambda@Edge would have executed but CLOUDFRONT_FAIL_ON_FUNCTION=true (" ++ id ++ ")"))
  else if !behavior.functionAssociations.isEmpty then
    .error (.functionExecutionSkipped
      ("CloudFront Function would have executed but CLOUDFRONT_FAIL_ON_FUNCTION=true (" ++
        id ++ ")"))
  else if (behavior.trustedKeyGroupsEnabled && !behavior.trustedKeyGroups.isEmpty) ||
      (behavior.trustedSignersEnabled && !behavior.trustedSigners.isEmpty) then
    .error (.signedUrlRequired
      ("Behavior requires signed URL but Rustack does not verify signatures (" ++ id ++ ")"))
  else if behavior.viewerProtocolPolicy = "https-only" then
    .error (.behaviorResolution
      ("ViewerProtocolPolicy is 'https-only' but Rustack is HTTP-only (" ++ id ++ ")"))
  else .ok ()

/-- How long an answer may be kept, in seconds. -/
def cacheTtl (behavior : CacheBehavior) : Option ℕ :=
  let ttl := if !behavior.cachePolicyId.isEmpty then
      (plane.cachePolicies behavior.cachePolicyId).getD behavior.defaultTtl
    else if behavior.defaultTtl.toInt > 0 then behavior.defaultTtl
    else behavior.minTtl
  if ttl.toInt > 0 then some ttl.toInt.toNat else none

end DataPlane

/-- What a request comes down to once it is routed. -/
structure Target where
  distribution : Distribution
  behavior : CacheBehavior
  method : String
  effectivePath : String
  query : Option String

namespace Target

def cacheable (t : Target) : Bool :=
  methodIsCacheable t.method t.behavior.cachedMethods

def key (t : Target) : String :=
  cacheKey t.distribution.id t.method t.effectivePath t.query

end Target

namespace DataPlane

variable (plane : DataPlane)

/-- The first part of a request, up to the cache. -/
def route (request : Request) : Except DataPlaneError Target :=
  match plane.resolveRequest request with
  | none => .error (.noSuchDistribution request.path)
  | some (id, objectPath) =>
    match plane.getDistribution id with
    | none => .error (.noSuchDistribution id)
    | some dist =>
      if !dist.config.enabled then .error (.distributionDisabled id)
      else
        let effectivePath := applyDefaultRootObject objectPath dist.config.defaultRootObject
        let behavior := selectBehavior dist.config effectivePath
        if !methodIsAllowed behavior request.method then
          .error (.methodNotAllowed
            (request.method ++ " is not in AllowedMethods for behavior " ++ behavior.pathPattern))
        else
          match plane.checkDivergence id behavior with
          | .error err => .error err
          | .ok () => .ok ⟨dist, behavior, request.method, effectivePath, request.query⟩

/-- Find the origin and ask it. -/
def fetch (t : Target) : Except Failure Response :=
  match t.distribution.config.origins.find? fun o => o.id == t.behavior.targetOriginId with
  | none => .error (.refused (.behaviorResolution
      ("TargetOriginId " ++ t.behavior.targetOriginId ++ " does not match any Origin")))
  | some origin => plane.dispatch origin t.method t.effectivePath

end DataPlane

def errorStatus (response : CustomErrorResponse) (status : ℕ) : ℕ :=
  match Decimal.parse 65536 response.responseCode with
  | .ok code => if isStatus code then code else if isStatus status then status else 404
  | .error _ => if isStatus status then status else 404

def handleOriginError (config : DistributionConfig) (err : DataPlaneError) (id : String) :
    Response :=
  match config.customErrorResponses.find? fun cer : CustomErrorResponse =>
      decide (cer.errorCode = (err.httpStatus : ℤ)) && !cer.responsePagePath.isEmpty with
  | some cer =>
    let headers := if cer.errorCachingMinTtl > 0 then
      HeaderMap.insertText [] "cache-control" ("max-age=" ++ toString cer.errorCachingMinTtl)
    else []
    ⟨errorStatus cer err.httpStatus, headers, []⟩
  | none => errorResponse err id

def Failure.response (failure : Failure) (config : DistributionConfig) (id : String) : Response :=
  match failure with
  | .refused err => errorResponse err id
  | .failed err => handleOriginError config err id

/-- A request as it reaches the plane: the clock when the cache is asked and when it is written,
and the fresh id of the answer. -/
structure Visit where
  request : Request
  lookedUpAt : ℕ
  storedAt : ℕ
  id : String

namespace DataPlane

variable (plane : DataPlane)

/-- Apply the response headers policy of the behavior. -/
def applyPolicy (t : Target) (origin : Option HeaderValue) (response : Response) : Response :=
  if t.behavior.responseHeadersPolicyId.isEmpty then response
  else
    match plane.responseHeadersPolicies t.behavior.responseHeadersPolicyId with
    | some policy =>
      { response with headers := applyResponseHeadersPolicy response.headers policy origin }
    | none => response

def store (cache : ResponseCache) (now : ℕ) (t : Target) (response : Response) : ResponseCache :=
  if t.cacheable then
    match plane.cacheTtl t.behavior with
    | some ttl => cache.insertResponse now t.key response ttl
    | none => cache
  else cache

/-- Ask the origin, and keep its answer. -/
def serveFromOrigin (cache : ResponseCache) (v : Visit) (t : Target) : ResponseCache × Response :=
  match plane.fetch t with
  | .error failure => (cache, failure.response t.distribution.config v.id)
  | .ok response =>
    let response := plane.applyPolicy t (v.request.headers.get "origin") response
    (plane.store cache v.storedAt t response,
      { response with headers := addCloudfrontResponseHeaders response.headers v.id .miss })

def handleRequest (cache : ResponseCache) (v : Visit) : ResponseCache × Response :=
  match plane.route v.request with
  | .error err => (cache, errorResponse err v.id)
  | .ok t =>
    if t.cacheable then
      match cache.get v.lookedUpAt t.key with
      | (cache, some response) =>
        (cache,
          { response with headers := addCloudfrontResponseHeaders response.headers v.id .hit })
      | (cache, none) => plane.serveFromOrigin cache v t
    else plane.serveFromOrigin cache v t

end DataPlane

end Rustack.CloudFront
