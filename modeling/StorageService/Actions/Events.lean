import StorageService.Actions.Outbox
import StorageService.Foundation.Pattern
import StorageService.Storage.Settings

/-!
# What an event looks like

The catalog of `registry.py` and `storage_events.py`, and the values that the
event log, the webhook envelope and the email service get of an event, without
anything that looks like a secret.
-/

namespace StorageService.Actions

open StorageService.Foundation
open StorageService.Storage (isSpace strip Time uuidText)

/-- Settings and library functions of the hooks, and those of the operations they follow. -/
structure HookEnv where
  storage : Storage.Env
  delivery : DeliveryEnv
  /-- The ids drawn by the hooks: the result of the n-th of their `uuid.uuid4` calls. -/
  uuid4 : Nat → Nat
  isoformat : Time → Text

/-! ## The catalog -/

structure DomainEventType where
  id : Text
  emitByDefault : Bool
  webhook : Bool
  staffOnly : Bool
  deriving DecidableEq, Repr

def bucketCreated : Text := "storage.bucket.created".toList

def objectUploaded : Text := "storage.object.uploaded".toList

def objectDeleted : Text := "storage.object.deleted".toList

def registry : List DomainEventType :=
  [⟨bucketCreated, true, true, false⟩, ⟨objectUploaded, true, true, false⟩,
    ⟨objectDeleted, true, true, false⟩,
    ⟨"storage.scheduled_job.succeeded".toList, true, false, true⟩,
    ⟨"storage.scheduled_job.failed".toList, true, false, true⟩]

def getEventType (env : HookEnv) (eventType : Text) :
    Except Storage.Failure DomainEventType :=
  match registry.find? fun event => decide (event.id = eventType) with
  | some event => .ok event
  | none => .error (.valueError s!"Unknown event type: {env.storage.repr eventType}")

theorem find?_registry {eventType : Text}
    (h : eventType = objectUploaded ∨ eventType = objectDeleted) :
    registry.find? (fun event => decide (event.id = eventType)) =
      some ⟨eventType, true, true, false⟩ := by
  rcases h with rfl | rfl <;> decide +kernel

theorem getEventType_object (env : HookEnv) {eventType : Text}
    (h : eventType = objectUploaded ∨ eventType = objectDeleted) :
    getEventType env eventType = .ok ⟨eventType, true, true, false⟩ := by
  rw [getEventType, find?_registry h]

/-! ## Secrets -/

def sensitiveKeys : List Text :=
  ["magic_link", "magic_link_url", "token", "raw_token", "access_token", "refresh_token",
    "id_token", "setup_token", "sign_in_url", "sign_in_link", "signin_url", "signin_link",
    "password", "passwd", "pwd", "secret", "client_secret", "api_key", "apikey",
    "authorization", "authorization_header", "credential", "credentials", "private_key",
    "signing_secret", "signed_url", "signedurl", "presigned_url", "presignedurl",
    "share_token", "share_url"].map String.toList

def sensitiveSuffixes : List Text :=
  ["_token", "_tokens", "_secret", "_password", "_api_key"].map String.toList

def sensitiveKey (env : HookEnv) (key : Text) : Bool :=
  let name := (env.storage.lower (strip key)).map fun c => if c = '-' then '_' else c
  sensitiveKeys.contains name || sensitiveSuffixes.any fun suffix => decide (suffix <:+ name)

section SignInUrl

open Pattern (seqs alts optional oneOf word)

def isParameterChar (c : Char) : Bool :=
  (ignoreCase c).isLower || c.isDigit || ['_', '.', '-'].contains c

def credentialParameter : Pattern :=
  seqs [oneOf "?&#".toList, .many isParameterChar,
    alts (word "token".toList) [word "secret".toList, word "password".toList,
      seqs [word "api".toList, optional (oneOf "_-".toList), word "key".toList],
      word "signature".toList, word "sig".toList],
    word "=".toList]

def signInUrl : Pattern :=
  alts (seqs [word "magic".toList, oneOf "-_".toList, word "link".toList])
    [seqs [word "/sign".toList, optional (word "-".toList), word "in".toList,
        alts (oneOf "/?#".toList) [.textEnd]],
      word "/share/link/".toList,
      credentialParameter,
      seqs [word "x-amz-".toList, alts (word "algorithm".toList)
        [word "credential".toList, word "signature".toList, word "security-token".toList]],
      word "awsaccesskeyid=".toList]

end SignInUrl

def sensitiveString (value : Text) : Bool :=
  decide ([':', '/', '/'] <:+: value) && signInUrl.search value

example : sensitiveString "https://x/?my-ACCESS_Token=1".toList = true := by decide +kernel

mutual

/-- `_without_secrets`; nothing where the source has `_DROP`. -/
def withoutSecrets (env : HookEnv) : Json → Option Json
  | .dict fields => some (.dict (fieldsWithoutSecrets env fields))
  | .list items => some (.list (itemsWithoutSecrets env items))
  | .text value => if sensitiveString value then none else some (.text value)
  | value => some value

def itemsWithoutSecrets (env : HookEnv) : List Json → List Json
  | [] => []
  | item :: items => (withoutSecrets env item).toList ++ itemsWithoutSecrets env items

def fieldsWithoutSecrets (env : HookEnv) : List (Text × Json) → List (Text × Json)
  | [] => []
  | (key, value) :: fields =>
      let rest := fieldsWithoutSecrets env fields
      if sensitiveKey env key then rest
      else ((withoutSecrets env value).map fun kept => (key, kept)).toList ++ rest

end

def redactSecrets (env : HookEnv) (value : Json) : Json :=
  (withoutSecrets env value).getD <|
    match value with
    | .dict _ => .dict []
    | .list _ => .list []
    | _ => .text []

/-! ## Who did it -/

structure Actor where
  userId : ℤ
  email : Text
  username : Text
  deriving DecidableEq, Repr

def Actor.fields (actor : Actor) : List (Text × Json) :=
  [("user_id".toList, .int actor.userId)] ++
    (if actor.email = [] then [] else [("email".toList, .text actor.email)]) ++
    (if actor.username = [] then [] else [("username".toList, .text actor.username)])

def actorUserId (actor : Option Actor) : Option Nat :=
  match actor with
  | none => none
  | some actor => if actor.userId ≤ 0 then none else some actor.userId.toNat

/-! ## The event log -/

structure EventRecord extends EventLog where
  data : List (Text × Json)

def emptyValue : Json → Bool
  | .null | .bool false | .text [] | .list [] | .dict [] => true
  | _ => false

def skippedKeys : List Text := ["company_id", "user_id"].map String.toList

def dictFields : Json → List (Text × Json)
  | .dict fields => fields
  | _ => []

def compactEventData (env : HookEnv) (payload : List (Text × Json)) (actor : Option Actor) :
    List (Text × Json) :=
  let raw := payload.filter fun field =>
    !(skippedKeys.contains field.1 || emptyValue field.2)
  let data := dictFields (redactSecrets env (.dict raw))
  let email := (actor.map Actor.email).getD []
  if email = [] then data else Json.set data "actor_email".toList (.text email)

/-! ## Webhooks and the email service -/

structure CompanyContext where
  id : ℤ
  slug : Text
  name : Text
  deriving DecidableEq, Repr

/-- `company_context_from_id`, of which this service leaves slug and name empty -/
def companyContextFromId (companyId : ℤ) (slug name : Text) : CompanyContext :=
  ⟨companyId, strip slug, strip name⟩

def buildEnvelope (env : HookEnv) (id : Nat) (time : Time) (eventType : Text)
    (company : CompanyContext) (data : List (Text × Json)) (actor : Option Actor) :
    List (Text × Json) :=
  [("id".toList, .text (uuidText id)), ("type".toList, .text eventType),
    ("time".toList, .text (env.isoformat time)),
    ("company".toList, .dict
      [("id".toList, .int company.id), ("slug".toList, .text company.slug),
        ("name".toList, .text company.name)]),
    ("data".toList, .dict (dictFields (redactSecrets env (.dict data))))] ++
  match actor.map fun actor => dictFields (redactSecrets env (.dict actor.fields)) with
  | none | some [] => []
  | some fields => [("actor".toList, .dict fields)]

def isEmailAddress (email : Text) : Bool :=
  match email.splitOn '@' with
  | [name, domain] =>
      !name.isEmpty && !email.any isSpace && ((domain.drop 1).dropLast).contains '.'
  | _ => false

def recipientHints (actor : Option Actor) : List Json :=
  match actor with
  | none => []
  | some actor =>
      let email := strip actor.email
      if isEmailAddress email then
        [.dict [("email".toList, .text email), ("user_id".toList, .int actor.userId)]]
      else []

def emailEventPayload (env : HookEnv) (payload : List (Text × Json)) : List (Text × Json) :=
  dictFields (redactSecrets env (.dict payload))

/-- `not str(value or '').strip()`; only a text can be blank and not empty. -/
def blank : Json → Bool
  | .text s => decide (strip s = [])
  | value => !value.truthy

def buildEmailEventBody (env : HookEnv) (eventType : Text) (companyId : ℤ)
    (payload : List (Text × Json)) (idempotencyKey : Text) (actor : Option Actor)
    (company : CompanyContext) : List (Text × Json) :=
  let data := emailEventPayload env payload
  let companyName := strip company.name
  let named := companyName ≠ [] ∧ blank (Json.get data "company_name".toList) = true
  [("service".toList, .text "storage".toList), ("event_type".toList, .text eventType),
    ("company_id".toList, .int companyId), ("idempotency_key".toList, .text idempotencyKey),
    ("payload".toList, .dict <|
      if named then Json.set data "company_name".toList (.text companyName) else data),
    ("recipients".toList, .list (recipientHints actor))]

end StorageService.Actions
