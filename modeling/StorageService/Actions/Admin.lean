import StorageService.Auth.Principal
import StorageService.Foundation.Table

/-!
# The admin API of a company

The gate of `admin_auth.py` and the views behind it: rules with their secrets,
the delivery log and the event log.  The gate hands every view one company id,
and the views look rows up by that id.
-/

namespace StorageService.Actions

open StorageService.Foundation
open StorageService.Storage (strip)
open StorageService.Auth

/-! ## The gate -/

structure Request where
  /-- `None` where no token was accepted. -/
  user : Option Principal
  companyIdParameter : Option Text
  data : Json

inductive Failure where
  | response (error : String) (status : Nat)
  /-- An exception no view catches. -/
  | uncaught
  deriving DecidableEq, Repr

def requestedCompany (request : Request) : Except Failure Json :=
  match request.companyIdParameter, request.data with
  | some raw, _ => .ok (.text raw)
  | none, .dict fields =>
      .ok (Json.get fields ['c', 'o', 'm', 'p', 'a', 'n', 'y', '_', 'i', 'd'])
  | none, _ => .error .uncaught

def companyIdFromRequest (request : Request) : Except Failure (Option ℤ) := do
  let raw ← requestedCompany request
  if raw.absent then pure (request.user.bind Principal.companyId)
  else
    match intOf raw with
    | .ok id => pure (some id)
    | .error .overflowError => throw .uncaught
    | .error _ => pure none

def requireStaffOrCompanyOwner (request : Request) : Except Failure (Principal × ℤ) :=
  match request.user with
  | none => .error (.response "Unauthorized" 401)
  | some user =>
      match companyIdFromRequest request with
      | .error failure => .error failure
      | .ok none => .error (.response "Missing company_id parameter." 400)
      | .ok (some companyId) =>
          if (∃ token ∈ user.companyId, token ≠ companyId) ∧ ¬user.isStaff then
            .error (.response "Requested company_id does not match token company_id." 403)
          else if user.isStaff ∨ user.isCompanyOwner then .ok (user, companyId)
          else .error (.response "Forbidden" 403)

/-! ## Rows -/

/-- `ActionRule.config`; a key that is not set is the empty text. -/
structure WebhookConfig where
  url : Text
  secret : Text
  authorizationHeader : Text
  allowPrivateUrls : Bool
  deriving DecidableEq, Repr

structure ActionRule where
  id : Nat
  companyId : ℤ
  name : Text
  description : Text
  eventType : Text
  enabled : Bool
  config : WebhookConfig
  deriving DecidableEq, Repr

inductive DeliveryKind where
  | webhook
  | email
  deriving DecidableEq, Repr

inductive DeliveryStatus where
  | pending
  | delivered
  | failed
  | dead
  deriving DecidableEq, Repr

structure ActionOutbox where
  id : Nat
  companyId : ℤ
  actionRule : Option Nat
  deliveryKind : DeliveryKind
  eventType : Text
  status : DeliveryStatus
  attemptCount : Nat
  nextAttemptAt : Option Nat
  lockedUntil : Option Nat
  lastError : Text
  createdAt : Nat
  deriving DecidableEq, Repr

structure EventLog where
  id : Nat
  companyId : Option ℤ
  userId : Option Nat
  eventType : Text
  createdAt : Nat
  deriving DecidableEq, Repr

def ActionRule.Clash (a b : ActionRule) : Prop := a.id = b.id

def ActionOutbox.Clash (a b : ActionOutbox) : Prop := a.id = b.id

instance : DecidableRel ActionRule.Clash := fun _ _ => inferInstanceAs (Decidable (_ = _))

instance : Std.Symm ActionRule.Clash := ⟨fun _ _ h => h.symm⟩

instance : Std.Symm ActionOutbox.Clash := ⟨fun _ _ h => h.symm⟩

/-- The tables of the app; a delivery belongs to the company of its rule. -/
structure Store where
  rules : Table ActionRule ActionRule.Clash
  outbox : Table ActionOutbox ActionOutbox.Clash
  events : List EventLog
  sameCompany : ∀ d ∈ outbox.rows, ∀ r ∈ rules.rows, d.actionRule = some r.id →
    r.companyId = d.companyId

/-! ## Rule configuration -/

structure ConfigEdit where
  url : Option Text
  secret : Option Text
  authorizationHeader : Option Text
  allowPrivateUrls : Option Bool

def urlRequired : Failure := .response "Webhook url is required." 400

/-- `build_webhook_config`; `generated` is the secret made up where one is missing. -/
def buildWebhookConfig (generated : Text) (existing : WebhookConfig) (edit : ConfigEdit)
    (isSuperuser update : Bool) : Except Failure WebhookConfig :=
  let newUrl := strip (edit.url.getD existing.url)
  let url := if edit.url.isSome ∨ ¬update then newUrl else existing.url
  let urlChanged := edit.url.isSome ∧ newUrl ≠ strip existing.url
  let kept := if existing.secret = [] ∧ ¬update then generated else existing.secret
  let secret := strip (edit.secret.getD [])
  if url = [] then .error urlRequired
  else .ok
    { url := url
      secret := if secret = [] then kept else secret
      authorizationHeader :=
        (edit.authorizationHeader.map strip).getD existing.authorizationHeader
      allowPrivateUrls :=
        if isSuperuser then edit.allowPrivateUrls.getD existing.allowPrivateUrls
        else if urlChanged then false
        else existing.allowPrivateUrls }

/-! ## Views -/

structure RuleData where
  name : Option Text
  description : Option Text
  eventType : Option Text
  enabled : Option Bool
  config : ConfigEdit

/-- A row a response shows; the secret of a rule only where it is revealed. -/
inductive Shown where
  | rule (row : ActionRule) (revealSecret : Bool)
  | delivery (row : ActionOutbox) (ruleOfRow : Option ActionRule)
  | event (row : EventLog)

/-- `narrow` is what the other query parameters leave of the rows. -/
inductive AdminCall where
  | listRules
  | createRule (pk : Nat) (generated : Text) (data : RuleData)
  | retrieveRule (pk : Nat)
  | updateRule (pk : Nat) (generated : Text) (data : RuleData)
  | deleteRule (pk : Nat)
  | rotateSecret (pk : Nat) (generated : Text)
  | sendTest (pk : Nat)
  | listDeliveries (narrow : ActionOutbox → Bool) (start pageSize : Nat)
  | retrieveDelivery (pk : Nat)
  | requeueDelivery (pk : Nat)
  | listEvents (platform : Bool) (narrow : EventLog → Bool) (start pageSize : Nat)
  | retrieveEvent (platform : Bool) (narrow : EventLog → Bool) (pk : Nat)

def notFound : Failure := .response "Not found." 404

def forbidden : Failure := .response "Forbidden" 403

namespace Store

def rule (store : Store) (companyId : ℤ) (pk : Nat) : Except Failure ActionRule :=
  match store.rules.rows.find? fun r => decide (r.id = pk ∧ r.companyId = companyId) with
  | some r => .ok r
  | none => .error notFound

def isDelivery (companyId : ℤ) (d : ActionOutbox) : Bool :=
  decide (d.companyId = companyId ∧ d.deliveryKind = .webhook)

def delivery (store : Store) (companyId : ℤ) (pk : Nat) : Except Failure ActionOutbox :=
  match store.outbox.rows.find? fun d => decide (d.id = pk) && isDelivery companyId d with
  | some d => .ok d
  | none => .error notFound

def shownDelivery (store : Store) (d : ActionOutbox) : Shown :=
  .delivery d (store.rules.rows.find? fun r => decide (d.actionRule = some r.id))

def saved (rule r : ActionRule) : ActionRule :=
  if r.id = rule.id then { rule with companyId := r.companyId } else r

theorem saved_spec (rule r : ActionRule) :
    (saved rule r).id = r.id ∧ (saved rule r).companyId = r.companyId := by
  unfold saved
  split
  · rename_i h
    exact ⟨h.symm, rfl⟩
  · exact ⟨rfl, rfl⟩

def saveRule (store : Store) (rule : ActionRule) : Store where
  rules := store.rules.rewrite (saved rule) <|
    store.rules.rewritable_of_clash_imp _ fun a b => by
      simp [ActionRule.Clash, saved_spec]
  outbox := store.outbox
  events := store.events
  sameCompany := by
    intro d hd r hr href
    obtain ⟨r₀, hr₀, rfl⟩ := List.mem_map.mp hr
    rw [(saved_spec rule r₀).1] at href
    rw [(saved_spec rule r₀).2]
    exact store.sameCompany d hd r₀ hr₀ href

def insertRule (store : Store) (rule : ActionRule) : Except Failure Store :=
  if h : store.rules.Free rule ∧ ∀ d ∈ store.outbox.rows, d.actionRule ≠ some rule.id then
    .ok
      { store with
        rules := store.rules.insert rule h.1
        sameCompany := by
          intro d hd r hr href
          rcases List.mem_append.mp hr with hr | hr
          · exact store.sameCompany d hd r hr href
          · rw [List.mem_singleton.mp hr] at href
            exact absurd href (h.2 d hd) }
  else .error .uncaught

def deleteRule (store : Store) (rule : ActionRule) : Store where
  rules := store.rules.delete fun r => decide (r.id = rule.id)
  outbox := store.outbox.delete fun d => decide (d.actionRule = some rule.id)
  events := store.events
  sameCompany := by
    intro d hd r hr
    exact store.sameCompany d (List.mem_filter.mp hd).1 r (List.mem_filter.mp hr).1

def requeued (d : ActionOutbox) : ActionOutbox :=
  { d with status := .pending, nextAttemptAt := none, lastError := [], lockedUntil := none }

def requeuedIf (pk : Nat) (d : ActionOutbox) : ActionOutbox :=
  if d.id = pk then requeued d else d

theorem requeuedIf_spec (pk : Nat) (d : ActionOutbox) :
    (requeuedIf pk d).id = d.id ∧ (requeuedIf pk d).companyId = d.companyId ∧
      (requeuedIf pk d).actionRule = d.actionRule := by
  unfold requeuedIf
  split <;> exact ⟨rfl, rfl, rfl⟩

def requeue (store : Store) (pk : Nat) : Store where
  rules := store.rules
  outbox := store.outbox.rewrite (requeuedIf pk) <|
    store.outbox.rewritable_of_clash_imp _ fun a b => by
      simp [ActionOutbox.Clash, requeuedIf_spec]
  events := store.events
  sameCompany := by
    intro d hd r hr href
    obtain ⟨d₀, hd₀, rfl⟩ := List.mem_map.mp hd
    rw [(requeuedIf_spec pk d₀).2.2] at href
    rw [(requeuedIf_spec pk d₀).2.1]
    exact store.sameCompany d₀ hd₀ r hr href

def visibleEvents (store : Store) (companyId : ℤ) (platform : Bool)
    (narrow : EventLog → Bool) : List EventLog :=
  store.events.filter fun e =>
    decide (e.companyId = if platform then none else some companyId) && narrow e

end Store

def newRule (companyId : ℤ) (pk : Nat) (data : RuleData) (config : WebhookConfig) :
    ActionRule where
  id := pk
  companyId := companyId
  name := data.name.getD []
  description := data.description.getD []
  eventType := data.eventType.getD []
  enabled := data.enabled.getD true
  config := config

def editedRule (rule : ActionRule) (data : RuleData) (config : WebhookConfig) : ActionRule :=
  { rule with
    name := data.name.getD rule.name
    description := data.description.getD rule.description
    eventType := data.eventType.getD rule.eventType
    enabled := data.enabled.getD rule.enabled
    config := config }

def emptyConfig : WebhookConfig where
  url := []
  secret := []
  authorizationHeader := []
  allowPrivateUrls := false

def AdminCall.view (actor : Principal) (companyId : ℤ) (store : Store) :
    AdminCall → Except Failure (List Shown × Store)
  | listRules =>
      .ok ((store.rules.rows.filter fun r => decide (r.companyId = companyId)).map
        (Shown.rule · false), store)
  | createRule pk generated data => do
      let config ← buildWebhookConfig generated emptyConfig data.config actor.isStaff false
      let rule := newRule companyId pk data config
      let store ← store.insertRule rule
      pure ([.rule rule true], store)
  | retrieveRule pk => do
      let rule ← store.rule companyId pk
      pure ([.rule rule false], store)
  | updateRule pk generated data => do
      let rule ← store.rule companyId pk
      let config ← buildWebhookConfig generated rule.config data.config actor.isStaff true
      let rule := editedRule rule data config
      pure ([.rule rule false], store.saveRule rule)
  | deleteRule pk => do
      let rule ← store.rule companyId pk
      pure ([], store.deleteRule rule)
  | rotateSecret pk generated => do
      let rule ← store.rule companyId pk
      let rule := { rule with config := { rule.config with secret := generated } }
      pure ([.rule rule true], store.saveRule rule)
  | sendTest pk => do
      let rule ← store.rule companyId pk
      if rule.enabled then pure ([.rule rule false], store)
      else throw (.response "Rule is disabled." 400)
  | listDeliveries narrow start pageSize =>
      let rows := store.outbox.rows.filter fun d => Store.isDelivery companyId d && narrow d
      .ok (((rows.drop start).take pageSize).map store.shownDelivery, store)
  | retrieveDelivery pk => do
      let d ← store.delivery companyId pk
      pure ([store.shownDelivery d], store)
  | requeueDelivery pk => do
      let d ← store.delivery companyId pk
      pure ([store.shownDelivery (Store.requeued d)], store.requeue d.id)
  | listEvents platform narrow start pageSize =>
      if platform ∧ ¬actor.isStaff then throw forbidden
      else
        let rows := store.visibleEvents companyId platform narrow
        pure (((rows.drop start).take pageSize).map Shown.event, store)
  | retrieveEvent platform narrow pk =>
      if platform ∧ ¬actor.isStaff then throw forbidden
      else
        match (store.visibleEvents companyId platform narrow).find? fun e =>
            decide (e.id = pk) with
        | some e => pure ([.event e], store)
        | none => throw notFound

def AdminCall.run (call : AdminCall) (request : Request) (store : Store) :
    Except Failure (List Shown × Store) := do
  let (actor, companyId) ← requireStaffOrCompanyOwner request
  call.view actor companyId store

end StorageService.Actions
