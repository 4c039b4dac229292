import SippinSoda.Rules

/-!
# What one exchange computes

The parts of `handle`, `tunnel::establish`, `forward`, `forward_intercepted_https` and
`forward_with_sender` that read nothing shared: who a client is, which targets are refused
and with which answer, and what becomes of an upstream response.

* **accepts** — client authentication, over a Base64 decoder and a digest;
* **targets** — the checks made before anything is sent upstream;
* **draft** — the response while rules and decisions are applied to it.
-/

namespace SippinSoda

/-! ## Clients -/

/-- The functions of other crates that client authentication uses. -/
structure Crypto where
  /-- `base64::engine::general_purpose::STANDARD.decode`. -/
  base64Decode : Str → Option (List UInt8)
  /-- `Sha256::digest`. -/
  sha256 : List UInt8 → List UInt8

structure ProxyClientAuth where
  profileId : Str
  tokenSha256 : List UInt8
  deriving DecidableEq, Repr

/-- `ProxyClientAuth::accepts`. -/
def ProxyClientAuth.accepts (crypto : Crypto) (auth : ProxyClientAuth) (headers : HeaderMap) :
    Bool :=
  match (headers.get "proxy-authorization".toList).bind HeaderValue.toStr with
  | none => false
  | some value =>
    let scheme := value.takeWhile (· ≠ ' ')
    match value.drop scheme.length with
    | [] => false
    | _ :: rest =>
      if Str.toAsciiLowercase scheme != "basic".toList then false
      else match crypto.base64Decode (Str.trim rest) with
        | none => false
        | some decoded =>
          let profileId := decoded.takeWhile (· ≠ 58)
          match decoded.drop profileId.length with
          | [] => false
          | _ :: token =>
              profileId == utf8 auth.profileId && crypto.sha256 token == auth.tokenSha256

/-- `ProxyTlsInterception`; its issuer answers as the environment decides. -/
structure ProxyTlsInterception where
  profileId : Str
  deriving DecidableEq, Repr

/-- The check of `prepare`: is the leaf issuer called at all? -/
def prepares (tls : Option ProxyTlsInterception) (destination : DestinationClass)
    (clientProfileId : Option Str) : Bool :=
  match tls with
  | none => false
  | some tls => destination = .development && clientProfileId = some tls.profileId

/-- `TlsInterceptRoute`. -/
structure TlsInterceptRoute where
  host : Str
  deriving DecidableEq, Repr

/-! ## Targets -/

/-- `ForwardError`: the status and the message a client gets. -/
abbrev ForwardError := Nat × String

/-- `invalid` of `establish`. -/
def invalidConnect : ForwardError :=
  (400, "CONNECT requires an authority-only host:port target with no request body.")

/-- The checks of `establish`: the authority and the port to connect to. -/
def establishTarget (request : Request) : Except ForwardError (Authority × Nat) := do
  let authority ← match request.uri.authority with
    | some authority => .ok authority
    | none => .error invalidConnect
  if request.uri.scheme.isSome || request.uri.pathAndQuery.isSome ||
      authority.text.contains '@' then throw invalidConnect
  let port ← match authority.port with
    | some port => if port = 0 then .error invalidConnect else .ok port
    | none => .error invalidConnect
  let contentLength := request.headers.get "content-length".toList
  if request.headers.containsKey "transfer-encoding".toList ||
      request.headers.containsKey "upgrade".toList ||
      contentLength.any fun value =>
        (HeaderValue.toStr value).bind (Str.parseUnsigned (2 ^ 64)) != some 0 then
    throw invalidConnect
  return (authority, port)

/-- The checks of `forward`. -/
def forwardTarget (request : Request) : Except ForwardError (Authority × Nat) := do
  if request.headers.containsKey "upgrade".toList then
    throw (501, "HTTP protocol upgrades are not supported. Use CONNECT for opaque tunnels.")
  match request.uri.authority with
  | none => .error (400, "An absolute http:// target URL is required.")
  | some authority =>
      if request.uri.scheme != some "http".toList then
        .error (400, "An absolute http:// target URL is required.")
      else if authority.text.contains '@' then
        .error (400, "URL credentials are not supported.")
      else .ok (authority, authority.port.getD 80)

/-- `==` of authorities, which ignores the case of ASCII letters. -/
def Authority.eqIgnoreAsciiCase (a b : Authority) : Bool :=
  Str.toAsciiLowercase a.text == Str.toAsciiLowercase b.text

/-- The checks of `forward_intercepted_https`, in a tunnel to `authority`. -/
def interceptedTarget (http2 : Bool) (authority : Authority) (request : Request) :
    Except ForwardError Unit := do
  if request.headers.containsKey "upgrade".toList then
    throw (501, "HTTPS protocol upgrades are not supported.")
  let absoluteTargetIsValid := http2 && request.uri.scheme == some "https".toList &&
    request.uri.authority.any (·.eqIgnoreAsciiCase authority)
  if (request.uri.scheme.isSome || request.uri.authority.isSome) && !absoluteTargetIsValid then
    throw (400, "An origin-form HTTPS request target is required inside CONNECT.")

/-- The target a capture shows for an intercepted request. -/
def interceptedTargetText (authority : Authority) (request : Request) : Str :=
  hiddenQuery authority.text request.uri.path request.uri.query

/-- A socket address. -/
structure SocketAddr where
  ip : IpAddr
  port : Nat
  deriving DecidableEq, Repr

/-- `IpAddr::to_canonical`: an IPv4-mapped IPv6 address as IPv4. -/
def IpAddr.toCanonical : IpAddr → IpAddr
  | .v6 [0, 0, 0, 0, 0, 0xffff, a, b] => .v4 [a / 256, a % 256, b / 256, b % 256]
  | ip => ip

/-- `IpAddr::is_unspecified`. -/
def IpAddr.isUnspecified : IpAddr → Bool
  | .v4 octets => octets == [0, 0, 0, 0]
  | .v6 groups => groups == [0, 0, 0, 0, 0, 0, 0, 0]

/-- `connect_upstream`, given what the lookup of the host returned and whether one of the
addresses accepted. -/
def connectUpstream (proxy : SocketAddr) (lookup : Option (List SocketAddr)) (accepted : Bool) :
    Except ForwardError Unit :=
  match lookup with
  | none => .error (502, "Upstream DNS lookup failed.")
  | some addresses =>
    let addresses := addresses.take 16
    if addresses.isEmpty then .error (502, "No upstream address found.")
    else if addresses.any fun address => address.port = proxy.port &&
        (address.ip.toCanonical.isLoopback || address.ip.toCanonical.isUnspecified) then
      .error (508, "Routing a request back to this proxy is not allowed.")
    else if !accepted then .error (502, "Upstream connection failed.")
    else .ok ()

/-! ## The request sent upstream -/

/-- The request `forward_with_sender` sends on a connection to `authority`. -/
def upstreamRequest (http2 : Bool) (authority : Authority) (request : Request) : Request :=
  { request with
    uri :=
      { scheme := if http2 then some "https".toList else none
        authority := if http2 then some authority else none
        path := if request.uri.pathAndQuery.isSome then request.uri.path else ['/']
        query := if request.uri.pathAndQuery.isSome then request.uri.query else none }
    headers := HeaderMap.insert (stripHopHeaders request.headers) "host".toList authority.text }

/-- `request_content_type`. -/
def requestContentType (request : Request) : Str :=
  Str.toAsciiLowercase
    (((request.headers.get "content-type".toList).bind HeaderValue.toStr).getD [])

/-- `rule_host`. -/
def ruleHost (authority : Authority) : Str :=
  Str.toAsciiLowercase (Str.trimEndMatches (· == '.') (trimBrackets authority.host))

/-! ## The response on its way back -/

/-- The upstream's response: its head, whether its body has ended with it, and the bytes
that body will carry. -/
structure Upstream where
  status : Nat
  headers : HeaderMap
  bodyEnded : Bool
  content : List UInt8
  deriving DecidableEq

/-- `parts` and `replacement_body` of `forward_with_sender`. -/
structure Draft where
  status : Nat
  headers : HeaderMap
  replacement : Option (List UInt8 × Option HeaderValue)
  deriving DecidableEq

/-- The draft when the upstream has answered. -/
def Draft.ofUpstream (upstream : Upstream) : Draft where
  status := upstream.status
  headers := upstream.headers
  replacement := none

/-- What a matching rule does. -/
def Draft.applyRule (draft : Draft) : Option ResponseRule → Draft
  | none => draft
  | some rule =>
      { draft with
        status := rule.status
        replacement := rule.body.map fun body => (body, rule.contentType) }

/-- What a decision does; none when the pause ended without one. -/
def Draft.decide (draft : Draft) : Option BreakpointDecision → Draft
  | none => draft
  | some decision =>
      { draft with
        status := decision.status.getD draft.status
        replacement := match decision.body with
          | some body => some (body, decision.contentType)
          | none => draft.replacement }

/-- The headers that describe the body that is replaced. -/
def bodyHeaders : List Str :=
  ["content-encoding", "content-range", "etag", "content-md5", "accept-ranges"].map String.toList

/-- The headers of a response with a replacement body. -/
def replacedHeaders (http2 : Bool) (headers : HeaderMap) (body : List UInt8)
    (contentType : Option HeaderValue) : HeaderMap :=
  let headers := bodyHeaders.foldl HeaderMap.remove (stripHopHeaders headers)
  let headers := HeaderMap.insert headers "content-length".toList (Nat.toDigits 10 body.length)
  let headers := HeaderMap.insert headers "content-type".toList
    (contentType.getD defaultContentType)
  if http2 then headers
  else HeaderMap.insert headers "connection".toList "close".toList

/-- The response returned for a draft. -/
def Draft.response (http2 : Bool) (draft : Draft) : Response :=
  match draft.replacement with
  | some (body, contentType) =>
      { status := draft.status
        headers := replacedHeaders http2 draft.headers body contentType
        body := .full body }
  | none =>
      { status := draft.status, headers := stripHopHeaders draft.headers, body := .upstream }

/-- The response to an upstream response, a rule and a decision. -/
def shaped (http2 : Bool) (upstream : Upstream) (rule : Option ResponseRule)
    (decision : Option BreakpointDecision) : Response :=
  (((Draft.ofUpstream upstream).applyRule rule).decide decision).response http2

/-! ## Replay templates -/

/-- `ReplayTemplate`. -/
structure ReplayTemplate where
  method : Str
  uri : Uri
  headers : HeaderMap
  deriving DecidableEq

/-- `INTERNAL_REPLAY_HEADER`. -/
def internalReplayHeader : Str := "x-sippin-internal-replay".toList

/-- The headers a template leaves out besides the hop-by-hop ones. -/
def unreplayedHeaders : List Str :=
  ["host".toList, "authorization".toList, "cookie".toList, "x-api-key".toList,
    "content-length".toList, internalReplayHeader]

/-- `replay_template`. -/
def replayTemplate (request : Request) : Option ReplayTemplate :=
  if (request.method != "GET".toList && request.method != "HEAD".toList) ||
      !request.bodyEnded || request.uri.scheme != some "http".toList ||
      request.uri.authority.isNone then none
  else some {
    method := request.method
    uri := request.uri
    headers := unreplayedHeaders.foldl HeaderMap.remove (stripHopHeaders request.headers) }

end SippinSoda
