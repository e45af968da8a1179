import Rustack.Http.Headers

/-!
# The response headers policy

What a policy adds to the headers of a response, and what it takes from them.
-/

namespace Rustack.CloudFront

open Http

structure Response where
  status : ℕ
  headers : HeaderMap
  body : List UInt8
  deriving DecidableEq

/-! ## The response headers policy -/

structure CorsConfig where
  accessControlAllowCredentials : Bool
  accessControlAllowOrigins : List String
  accessControlAllowHeaders : List String
  accessControlAllowMethods : List String
  accessControlExposeHeaders : List String
  accessControlMaxAgeSec : ℤ

structure StrictTransportSecurity where
  includeSubdomains : Bool
  preload : Bool
  accessControlMaxAgeSec : ℤ

structure SecurityHeadersConfig where
  frameOptions : Option String
  referrerPolicy : Option String
  contentSecurityPolicy : Option String
  contentTypeOptions : Bool
  strictTransportSecurity : Option StrictTransportSecurity

structure ResponseHeaderOverride where
  header : String
  value : String
  overrideUpstream : Bool

structure ResponseHeadersPolicyConfig where
  corsConfig : Option CorsConfig
  securityHeadersConfig : Option SecurityHeadersConfig
  customHeadersConfig : List ResponseHeaderOverride
  removeHeadersConfig : List String

/-- The header of a list of a CORS configuration; an empty list sets none. -/
def insertList (headers : HeaderMap) (name : String) (values : List String) : HeaderMap :=
  if values.isEmpty then headers else headers.insertText name (",".intercalate values)

def CorsConfig.apply (cors : CorsConfig) (headers : HeaderMap) : HeaderMap :=
  let headers := if cors.accessControlAllowCredentials then
    headers.insertText "access-control-allow-credentials" "true" else headers
  let headers := insertList headers "access-control-allow-origin" cors.accessControlAllowOrigins
  let headers := insertList headers "access-control-allow-headers" cors.accessControlAllowHeaders
  let headers := insertList headers "access-control-allow-methods" cors.accessControlAllowMethods
  let headers := insertList headers "access-control-expose-headers" cors.accessControlExposeHeaders
  if cors.accessControlMaxAgeSec > 0 then
    headers.insertText "access-control-max-age" (toString cors.accessControlMaxAgeSec)
  else headers

def insertOption (headers : HeaderMap) (name : String) : Option String → HeaderMap
  | some value => headers.insertText name value
  | none => headers

def StrictTransportSecurity.value (sts : StrictTransportSecurity) : String :=
  "max-age=" ++ toString sts.accessControlMaxAgeSec ++
    (if sts.includeSubdomains then "; includeSubDomains" else "") ++
    (if sts.preload then "; preload" else "")

def SecurityHeadersConfig.apply (sec : SecurityHeadersConfig) (headers : HeaderMap) : HeaderMap :=
  let headers := insertOption headers "x-frame-options" sec.frameOptions
  let headers := insertOption headers "referrer-policy" sec.referrerPolicy
  let headers := insertOption headers "content-security-policy" sec.contentSecurityPolicy
  let headers := if sec.contentTypeOptions then
    headers.insertText "x-content-type-options" "nosniff" else headers
  insertOption headers "strict-transport-security"
    (sec.strictTransportSecurity.map StrictTransportSecurity.value)

def ResponseHeaderOverride.apply (headers : HeaderMap) (hdr : ResponseHeaderOverride) :
    HeaderMap :=
  match HeaderName.fromBytes hdr.header, HeaderValue.fromStr hdr.value with
  | some name, some value =>
    if hdr.overrideUpstream || !headers.containsKey name.text then headers.insert name value
    else headers
  | _, _ => headers

def removeHeader (headers : HeaderMap) (name : String) : HeaderMap :=
  match HeaderName.fromBytes name with
  | some name => headers.remove name.text
  | none => headers

/-- Apply a response headers policy to a response; the CORS part is for requests that say where
they come from. -/
def applyResponseHeadersPolicy (headers : HeaderMap) (policy : ResponseHeadersPolicyConfig)
    (requestOrigin : Option HeaderValue) : HeaderMap :=
  let headers := match policy.corsConfig with
    | some cors => if requestOrigin.isSome then cors.apply headers else headers
    | none => headers
  let headers := match policy.securityHeadersConfig with
    | some sec => sec.apply headers
    | none => headers
  let headers := policy.customHeadersConfig.foldl ResponseHeaderOverride.apply headers
  policy.removeHeadersConfig.foldl removeHeader headers

end Rustack.CloudFront
