import StorageService.Actions.Events
import StorageService.Foundation.Base64
import StorageService.Foundation.JsonText
import StorageService.Foundation.PercentEncoding

/-!
# Signed webhooks

`webhook_signing.py`: the body that is posted, the key a signing secret stands for,
and the headers that sign the body; and the verifier of the documentation,
`verify-shellui-webhook.mjs`, by which a receiver checks them.
-/

namespace StorageService.Actions

open StorageService.Foundation
open StorageService.Storage (decimal isSpace strip textLe)

structure SigningEnv where
  format : JsonText.FloatFormat
  /-- `hmac.new(key, content, hashlib.sha256).digest()` -/
  hmacSha256 : List UInt8 → List UInt8 → List UInt8

/-! ## What is sent -/

def whsecPrefix : Text := ['w', 'h', 's', 'e', 'c', '_']

def normalizeWebhookSigningSecret (secret : Text) : Except Text (List UInt8) :=
  let secret := strip secret
  if whsecPrefix <+: secret then
    let payload := strip (secret.drop whsecPrefix.length)
    if payload = [] then .error "Webhook signing secret is empty after whsec_ prefix.".toList
    else
      match Base64.decode payload with
      | none => .error "Webhook whsec_ secret is not valid base64.".toList
      | some key =>
          if key = [] then .error "Webhook whsec_ secret decoded to empty key.".toList
          else .ok key
  else .ok (utf8 secret)

def encodeWebhookEnvelope (env : SigningEnv) (envelope : List (Text × Json)) : List UInt8 :=
  utf8 (JsonText.dumps env.format textLe (.dict envelope))

structure WebhookHeaders where
  webhookId : Text
  webhookTimestamp : Text
  webhookSignature : Text
  deriving DecidableEq, Repr

def signedContent (webhookId timestamp : Text) (body : List UInt8) : List UInt8 :=
  utf8 (webhookId ++ ['.'] ++ timestamp ++ ['.']) ++ body

def signaturePrefix : Text := ['v', '1', ',']

def signWebhookBody (env : SigningEnv) (now : Nat) (secret : Text) (body : List UInt8)
    (webhookId : Text) : Except Text WebhookHeaders := do
  let key ← normalizeWebhookSigningSecret secret
  let ts := decimal now
  let digest := env.hmacSha256 key (signedContent webhookId ts body)
  .ok ⟨webhookId, ts, signaturePrefix ++ Base64.encode digest⟩

structure WebhookRequest where
  headers : WebhookHeaders
  body : List UInt8

/-- What `deliver_webhook_action` posts, without the headers that no one signs. -/
def signedWebhook (env : SigningEnv) (now : Nat) (secret webhookId : Text)
    (envelope : List (Text × Json)) : Except Text WebhookRequest :=
  let body := encodeWebhookEnvelope env envelope
  (signWebhookBody env now secret body webhookId).map fun headers => ⟨headers, body⟩

/-! ## What is received -/

def isJsSpace (c : Char) : Bool :=
  let n := c.toNat
  (9 ≤ n && n ≤ 13) || n == 32 || n == 160 || n == 5760 || (8192 ≤ n && n ≤ 8202) ||
    n == 8232 || n == 8233 || n == 8239 || n == 8287 || n == 12288 || n == 65279

/-- White space that is passed over in base64; U+202F and U+205F are read as '/' and '_'. -/
def isNodeBlank (c : Char) : Bool := isJsSpace c && c.toNat != 0x202f && c.toNat != 0x205f

/-- What the verifier takes from Node.js, as far as it relies on it. -/
structure NodeJs where
  /-- `Buffer.from(text, 'base64')` -/
  bufferFromBase64 : Text → List UInt8
  /-- `Number(text)`, where that is finite -/
  number : Text → Option ℚ
  valid : ∀ text bytes, Base64.decode text = some bytes → bufferFromBase64 text = bytes
  blank : ∀ text, bufferFromBase64 (text.dropWhile isNodeBlank) = bufferFromBase64 text
  /-- Integers up to `Number.MAX_SAFE_INTEGER` are read as they are. -/
  integer : ∀ n < 2 ^ 53, number (decimal n) = some (n : ℚ)

def signingKey (node : NodeJs) (secret : Text) : List UInt8 :=
  let trimmed := trim isJsSpace secret
  if whsecPrefix <+: trimmed then node.bufferFromBase64 (trimmed.drop whsecPrefix.length)
  else utf8 trimmed

def maxAgeSeconds : ℚ := 300

def verify (env : SigningEnv) (node : NodeJs) (now : ℤ) (secret : Text)
    (request : WebhookRequest) : Bool :=
  let headers := request.headers
  if ¬signaturePrefix <+: headers.webhookSignature then false
  else
    match node.number headers.webhookTimestamp with
    | none => false
    | some timestamp =>
        if maxAgeSeconds < |(now : ℚ) - timestamp| then false
        else
          let signed := signedContent headers.webhookId headers.webhookTimestamp request.body
          let expected := env.hmacSha256 (signingKey node secret) signed
          let got := node.bufferFromBase64
            (headers.webhookSignature.drop signaturePrefix.length)
          decide (got = expected)

def readBody (env : SigningEnv) (body : List UInt8) : Option Json :=
  JsonText.loads env.format (decodeUtf8 body)

end StorageService.Actions
