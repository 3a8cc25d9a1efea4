import StorageService.Actions.Delivery
import StorageService.Foundation.UrlSplit

/-!
# Where a webhook connects to

`ssrf.py`, and the host names that `webhook_transport.py` and the email service
use: a URL is resolved once, and the connection goes to the first address that
is public.
-/

namespace StorageService.Actions

open StorageService.Foundation
open StorageService.Storage (strip decimal)

structure AddrInfo where
  host : Text
  port : Nat
  address : IpAddress
  literal : IpAddress.parse host = some address

inductive Lookup where
  | answers (infos : List AddrInfo)
  | gaiError
  /-- The name cannot be encoded. -/
  | unicodeError

structure ResolverEnv where
  unicode : Unicode
  isGlobal : IpAddress → Bool
  getaddrinfo : Text → Nat → Lookup
  /-- `SSLContext.wrap_socket` takes the name: IDNA can encode it and no dot comes first. -/
  serverNameAccepted : Text → Bool

inductive ResolveError where
  /-- `SSRFError` -/
  | ssrf (message : Text)
  | valueError
  | unicodeError
  /-- `http.client.InvalidURL` -/
  | invalidUrl
  deriving DecidableEq, Repr

structure ResolvedWebhookEndpoint where
  originalUrl : Text
  scheme : Text
  connectHost : Text
  port : Nat
  hostHeader : Text
  path : Text
  deriving DecidableEq, Repr

/-! ## Addresses -/

/-- `ip in network`, for a network given by its first address -/
def inNetwork (n : Fin (2 ^ 128)) (first length : Nat) : Bool :=
  n.val >>> (128 - length) == first >>> (128 - length)

def nat64 : Nat := 0x64ff9b <<< 96

def six2Four : Nat := 0x2002 <<< 112

def ipv4Mapped : Nat := 0xffff <<< 32

def lowBits (n : Nat) : Fin (2 ^ 32) :=
  ⟨n &&& 0xFFFFFFFF, Nat.lt_of_le_of_lt Nat.and_le_right (by decide)⟩

def embeddedIpv4 (n : Fin (2 ^ 128)) : Option (Fin (2 ^ 32)) :=
  if n.val >>> 32 = 0xFFFF then some (lowBits n.val)
  else if inNetwork n nat64 96 then some (lowBits n.val)
  else if inNetwork n six2Four 16 then some (lowBits (n.val >>> 80))
  else if inNetwork n 0 96 ∧ ¬inNetwork n ipv4Mapped 96 then some (lowBits n.val)
  else none

def checkedAddress : IpAddress → IpAddress
  | .v4 n => .v4 n
  | .v6 n scope => (embeddedIpv4 n).elim (.v6 n scope) .v4

def validateIp (env : ResolverEnv) (ip : IpAddress) (allowPrivate : Bool) : Bool :=
  allowPrivate || env.isGlobal (checkedAddress ip)

/-! ## Resolution -/

def blockedHostnames : List Text := ["localhost", "metadata.google.internal"].map String.toList

def privateAddress : ResolveError :=
  .ssrf "Webhook URL resolves to a private or non-public address.".toList

def unresolved (hostname : Text) : ResolveError :=
  .ssrf ("Could not resolve webhook hostname: ".toList ++ hostname)

/-- `parsed.port or (443 if parsed.scheme == 'https' else 80)` -/
def portOrDefault (scheme : Text) (port : Option Nat) : Nat :=
  let default := if scheme = "https".toList then 443 else 80
  if port.getD 0 = 0 then default else port.getD 0

def firstAnswer (env : ResolverEnv) (allowPrivate : Bool) (port : Nat)
    (infos : List AddrInfo) : Option (Text × Nat) :=
  (infos.find? fun info => validateIp env info.address allowPrivate).map fun info =>
    (info.host, if info.port = 0 then port else info.port)

def resolveName (env : ResolverEnv) (allowPrivate : Bool) (hostname : Text) (port : Nat) :
    Except ResolveError (Text × Nat) :=
  match env.getaddrinfo hostname port with
  | .unicodeError => .error .unicodeError
  | .gaiError | .answers [] => .error (unresolved hostname)
  | .answers infos =>
      match firstAnswer env allowPrivate port infos with
      | some found => .ok found
      | none =>
          .error <| .ssrf
            "Webhook hostname resolves only to private or non-public addresses.".toList

def resolveHost (env : ResolverEnv) (allowPrivate : Bool) (parsed : ParseResult)
    (hostname : Text) : Except ResolveError (Text × Nat) :=
  match IpAddress.parse hostname, parsed.port with
  | some literal, port =>
      if ¬validateIp env literal allowPrivate then .error privateAddress
      else
        match port with
        | none => .error .valueError
        | some port => .ok (hostname, portOrDefault parsed.scheme port)
  | none, none => .error .valueError
  | none, some port =>
      resolveName env allowPrivate hostname (portOrDefault parsed.scheme port)

/-- The port is written where it is not one of the usual ones, whatever the scheme. -/
def hostHeader (hostname : Text) (port : Option Nat) : Text :=
  let port := port.getD 0
  if port = 0 ∨ port = 80 ∨ port = 443 then hostname else hostname ++ ':' :: decimal port

def urlHostname (env : ResolverEnv) (parsed : ParseResult) : Text :=
  env.unicode.lower (parsed.hostname env.unicode)

def resolveParsed (env : ResolverEnv) (url : Text) (allowPrivate : Bool) (parsed : ParseResult) :
    Except ResolveError ResolvedWebhookEndpoint :=
  let hostname := urlHostname env parsed
  let path := if parsed.path = [] then ['/'] else parsed.path
  if parsed.scheme ≠ "http".toList ∧ parsed.scheme ≠ "https".toList then
    .error (.ssrf "Webhook URL must use http or https.".toList)
  else if hostname = [] then .error (.ssrf "Webhook URL must include a hostname.".toList)
  else if blockedHostnames.contains hostname ∧ ¬allowPrivate then
    .error (.ssrf "Localhost webhook URLs are not allowed.".toList)
  else
    match resolveHost env allowPrivate parsed hostname with
    | .error error => .error error
    | .ok (connectHost, port) => .ok
        { originalUrl := strip url
          scheme := parsed.scheme
          connectHost := connectHost
          port := port
          hostHeader := hostHeader hostname (parsed.port.getD none)
          path := if parsed.query = [] then path else path ++ '?' :: parsed.query }

def resolveWebhookEndpoint (env : ResolverEnv) (url : Text) (allowPrivate : Bool) :
    Except ResolveError ResolvedWebhookEndpoint :=
  match urlparse env.unicode (strip url) with
  | none => .error .valueError
  | some parsed => resolveParsed env url allowPrivate parsed

/-! ## Transport -/

def splitPort (hostHeader : Text) : Option Text × Text :=
  let tail := afterLast ':' hostHeader
  (if hostHeader.contains ':' then
      some (hostHeader.take (hostHeader.length - tail.length - 1))
    else none, tail)

def serverNameOf (env : ResolverEnv) (hostHeader : Text) : Text :=
  if hostHeader.head? = some '[' then
    if hostHeader.contains ']' then (before ']' hostHeader).drop 1 else hostHeader
  else
    match splitPort hostHeader with
    | (some head, tail) =>
        if tail ≠ [] ∧ tail.all env.unicode.isDigit then head else hostHeader
    | (none, _) => hostHeader

def tlsServerName (env : ResolverEnv) (endpoint : ResolvedWebhookEndpoint) : Text :=
  serverNameOf env endpoint.hostHeader

def socketConnectHost (connectHost : Text) : Text :=
  match IpAddress.parse connectHost with
  | some (.v6 n scope) => IpAddress.compressed n scope
  | some (.v4 _) | none => connectHost

def isControl (c : Char) : Bool := decide (c.toNat ≤ 0x20 ∨ c.toNat = 0x7f)

/-- `\n(?![ \t])|\r(?![ \t\n])` is found in the text. -/
def illegalHeaderValue : Text → Bool
  | [] => false
  | c :: rest =>
      (decide (c = '\n') && !(rest.head?.any [' ', '\t'].contains)) ||
        (decide (c = '\r') && !(rest.head?.any [' ', '\t', '\n'].contains)) ||
        illegalHeaderValue rest

def clientHost (env : ResolverEnv) (endpoint : ResolvedWebhookEndpoint) : Text :=
  if endpoint.scheme = "https".toList then tlsServerName env endpoint
  else socketConnectHost endpoint.connectHost

/-- The checks of `http.client` while it builds the request: of the host, of the path, which
is sent as ASCII, and of the `Host` header, which is sent as Latin-1. -/
def buildRequest (env : ResolverEnv) (endpoint : ResolvedWebhookEndpoint) :
    Except ResolveError Unit :=
  if (clientHost env endpoint).any isControl then .error .invalidUrl
  else if endpoint.path.any isControl then .error .invalidUrl
  else if endpoint.path.any fun c => decide (128 ≤ c.toNat) then .error .unicodeError
  else if endpoint.hostHeader.any fun c => decide (256 ≤ c.toNat) then .error .unicodeError
  else if illegalHeaderValue endpoint.hostHeader then .error .valueError
  else .ok ()

def isUnicodeError : Lookup → Bool
  | .unicodeError => true
  | .answers _ | .gaiError => false

structure Network where
  /-- The `OSError` of a connection that is not opened. -/
  refused : Option Text
  /-- What comes of a request over a connection that is. -/
  sent : Exchange

def Network.outcome (network : Network) : Exchange :=
  (network.refused.map Exchange.osError).getD network.sent

/-- `post_resolved_webhook`, up to the answer -/
def postResolvedWebhook (env : ResolverEnv) (message : ResolveError → Text) (network : Network)
    (endpoint : ResolvedWebhookEndpoint) : Exchange :=
  match buildRequest env endpoint with
  | .error error => .raised (message error)
  | .ok () =>
      if isUnicodeError
          (env.getaddrinfo (socketConnectHost endpoint.connectHost) endpoint.port) then
        .raised (message .unicodeError)
      else if network.refused = none ∧ endpoint.scheme = "https".toList ∧
          ¬env.serverNameAccepted (tlsServerName env endpoint) then
        .raised (message .valueError)
      else network.outcome

def exchangeOf (env : ResolverEnv) (message : ResolveError → Text) (network : Network) :
    Except ResolveError ResolvedWebhookEndpoint → Exchange
  | .ok endpoint => postResolvedWebhook env message network endpoint
  | .error (.ssrf reason) => .blocked reason
  | .error error => .raised (message error)

def defaultOrigin : Text := "https://email.shellui.com".toList

def emailEventsUrl (setting : Text) : Text :=
  let origin := (strip setting).rdropWhile fun c => decide (c = '/')
  (if origin = [] then defaultOrigin else origin) ++ "/api/v1/events".toList

end StorageService.Actions
