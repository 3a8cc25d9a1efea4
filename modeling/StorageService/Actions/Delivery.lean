import StorageService.Actions.Admin

/-!
# One delivery attempt

`delivery.py` with `webhook_retry.py`, the webhook handler and the email
service: what an outbox row is to be delivered by, what the HTTP call made of
it, and the row and the attempt that are written afterwards.  Times are in
microseconds.  A text is missing where the source has one that cannot be
encoded, which a lone surrogate in an answer of the email service leads to.
-/

namespace StorageService.Actions

open StorageService.Foundation
open StorageService.Storage (strip)

/-- Settings, and functions of the standard library that only pass values along. -/
structure DeliveryEnv where
  maxAttempts : Int
  leaseSeconds : Nat
  emailServiceApiKey : Text
  /-- `POSTGRES_DATABASE_URL` is set; otherwise the database is SQLite. -/
  postgres : Bool
  decodeUtf8 : List UInt8 → Text
  /-- Seconds until an HTTP date, or nothing where it does not parse. -/
  httpDate : Text → Option Int
  /-- The `error_code` of a JSON object, empty where there is none. -/
  errorCode : Text → Option Text
  /-- What `int` says of a text it refuses. -/
  intError : Text → Text
  /-- The key comes from an environment variable, which holds no NUL. -/
  keyPlain : Char.ofNat 0 ∉ emailServiceApiKey

def second : Nat := 1000000

structure OutboxRow extends ActionOutbox where
  envelope : List (Text × Json)
  deliveredAt : Option Nat

inductive Trigger where
  | dispatch
  | automaticRetry
  deriving DecidableEq, Repr

structure DeliveryAttempt where
  success : Bool
  httpStatus : Option Nat
  errorMessage : Text
  attemptNumber : Nat
  trigger : Trigger
  scheduledJobRunId : Option Nat
  createdAt : Nat
  deriving DecidableEq, Repr

/-! ## Retries -/

def permanentHttpStatuses : List Nat := [400, 401, 403, 405, 410, 413, 422]

def isPermanentHttpStatus (status : Option Nat) : Bool :=
  status.any permanentHttpStatuses.contains

def isDigit (c : Char) : Bool :=
  c.isDigit || [0xb2, 0xb3, 0xb9].contains c.toNat

/-- `int(raw)` on a text of digits; longer numerals than this are refused. -/
def intOfDigits (env : DeliveryEnv) (raw : Text) : Except Text Nat :=
  if raw.all Char.isDigit ∧ raw.length ≤ 4300 then .ok (Nat.ofDigitChars 10 raw 0)
  else .error (env.intError raw)

def latin1 (value : List UInt8) : Text := value.map fun b => Char.ofNat b.toNat

/-- `Retry-After` as seconds to wait; the error is a `ValueError` nobody expects. -/
def parseRetryAfterHeader (env : DeliveryEnv) (value : Option (List UInt8)) :
    Except Text (Option Nat) :=
  let raw := strip (latin1 (value.getD []))
  if raw = [] then .ok none
  else if raw.all isDigit then (intOfDigits env raw).map some
  else .ok ((env.httpDate raw).map Int.toNat)

def maxBackoffSeconds : Nat := 3600

def backoffSeconds (attemptNumber : Nat) : Nat :=
  min 3600 (30 * 2 ^ (attemptNumber - 1))

def computeRetryDelaySeconds (attemptNumber : Nat) (httpStatus retryAfterSeconds : Option Nat) :
    Nat :=
  let base := backoffSeconds attemptNumber
  let delay :=
    if httpStatus = some 429 ∨ httpStatus = some 503 then max base (retryAfterSeconds.getD 0)
    else base
  min maxBackoffSeconds (max 1 delay)

theorem computeRetryDelaySeconds_bounds (attemptNumber : Nat)
    (httpStatus retryAfterSeconds : Option Nat) :
    1 ≤ computeRetryDelaySeconds attemptNumber httpStatus retryAfterSeconds ∧
      computeRetryDelaySeconds attemptNumber httpStatus retryAfterSeconds ≤ 3600 := by
  simp only [computeRetryDelaySeconds, maxBackoffSeconds]
  omega

/-! ## The HTTP call -/

/-- An answer as it arrives; `rejected` is what `http.client` raises in its place. -/
structure Response where
  status : Nat
  retryAfter : Option (List UInt8)
  body : Option (List UInt8)
  /-- Too many or too long header lines, or a broken chunk. -/
  rejected : Option Text

inductive Exchange where
  | response (r : Response)
  | osError (message : Text)
  /-- `SSRFError` -/
  | blocked (message : Text)
  /-- Anything else raised before there is an answer. -/
  | raised (message : Text)

inductive PostError where
  /-- `WebhookHTTPError`, which is permanent. -/
  | httpError (message : Text)
  | osError (message : Text)
  | other (message : Text)

structure WebhookPostResult where
  status : Nat
  excerpt : Text
  retryAfterSeconds : Option Nat

def readResponseExcerpt (env : DeliveryEnv) (body : Option (List UInt8)) : Text :=
  match body with
  | none | some [] => []
  | some raw =>
      let text := env.decodeUtf8 (raw.take 512)
      strip (if 512 < raw.length then text ++ ['…'] else text)

def postResult (env : DeliveryEnv) (r : Response) : Except PostError WebhookPostResult :=
  match r.rejected, parseRetryAfterHeader env r.retryAfter with
  | some message, _ => .error (.other message)
  | none, .error message => .error (.other message)
  | none, .ok retryAfter =>
      .ok ⟨r.status, readResponseExcerpt env r.body, retryAfter⟩

def postWebhookUrl (env : DeliveryEnv) : Exchange → Except PostError WebhookPostResult
  | .response r => postResult env r
  | .osError message => .error (.osError message)
  | .blocked message => .error (.httpError message)
  | .raised message => .error (.other message)

/-! ## Webhooks -/

structure AttemptMeta where
  httpStatus : Option Nat
  responseExcerpt : Text
  errorMessage : Option Text
  permanent : Bool
  retryAfterSeconds : Option Nat

def failedCall (message : Text) (permanent : Bool) : AttemptMeta where
  httpStatus := none
  responseExcerpt := []
  errorMessage := some message
  permanent := permanent
  retryAfterSeconds := none

def succeededCall (httpStatus : Option Nat) : AttemptMeta where
  httpStatus := httpStatus
  responseExcerpt := []
  errorMessage := some []
  permanent := false
  retryAfterSeconds := none

def envelopeId (envelope : List (Text × Json)) : Json := Json.get envelope "id".toList

def deliverWebhookAction (env : DeliveryEnv) (config : WebhookConfig)
    (envelope : List (Text × Json)) (exchange : Exchange) : Except AttemptMeta Unit :=
  if strip config.url = [] then
    .error (failedCall "Webhook URL is not configured.".toList true)
  else if strip config.secret = [] then
    .error (failedCall "Webhook signing secret is not configured.".toList true)
  else if ¬(envelopeId envelope).truthy then
    .error (failedCall "Envelope id is required for webhook delivery.".toList true)
  else
    match postWebhookUrl env exchange with
    | .error (.httpError message) => .error (failedCall message true)
    | .error (.osError message) | .error (.other message) => .error (failedCall message false)
    | .ok result =>
        if 400 ≤ result.status then
          .error
            { httpStatus := some result.status
              responseExcerpt := result.excerpt
              errorMessage :=
                some ("Webhook returned HTTP ".toList ++ Storage.decimal result.status)
              permanent := isPermanentHttpStatus (some result.status)
              retryAfterSeconds := result.retryAfterSeconds }
        else .ok ()

def performHttpDelivery (env : DeliveryEnv) (rule : ActionRule)
    (envelope : List (Text × Json)) (exchange : Exchange) : Bool × AttemptMeta :=
  match deliverWebhookAction env rule.config envelope exchange with
  | .ok () => (true, succeededCall none)
  | .error attempt => (false, attempt)

/-! ## The email service -/

def emailServiceApiKey (env : DeliveryEnv) : Text := strip env.emailServiceApiKey

def emailServiceConfigured (env : DeliveryEnv) : Bool :=
  "esk_".toList.isPrefixOf (emailServiceApiKey env)

/-- `value.replace(old, new)`; `skip` characters of an occurrence are still to be passed. -/
def replaceInfix (old new : Text) : Nat → Text → Text
  | _, [] => []
  | skip + 1, _ :: s => replaceInfix old new skip s
  | 0, c :: s =>
      if old <+: c :: s then new ++ replaceInfix old new (old.length - 1) s
      else c :: replaceInfix old new 0 s

def redactEmailServiceSecret (env : DeliveryEnv) (value : Text) : Text :=
  let key := emailServiceApiKey env
  if key = [] then value else replaceInfix key "[redacted]".toList 0 value

def emailFailureIsPermanent (status : Option Nat) : Bool :=
  if status.any fun s => decide (200 ≤ s ∧ s < 300) then false
  else isPermanentHttpStatus status

def failureMessage (status : Nat) (errorCode : Text) : Text :=
  "Email event was not accepted (HTTP ".toList ++ Storage.decimal status ++
    (if errorCode = [] then [] else ", ".toList ++ errorCode) ++ ").".toList

def requestFailedMessage (detail : Text) : Text :=
  "Email event request failed".toList ++
    (if detail = [] then [] else " (".toList ++ detail ++ ")".toList) ++ ".".toList

def emailServiceErrorMessage (env : DeliveryEnv) (message : Text) : Text :=
  let message := redactEmailServiceSecret env message
  if "Webhook URL".toList <+: message then
    "Email service URL".toList ++ message.drop "Webhook URL".toList.length
  else message

/-- `deliver_email_event`; an exception that it does not catch is an error. -/
def deliverEmailEvent (env : DeliveryEnv) (exchange : Exchange) :
    Except Text (Bool × AttemptMeta) :=
  if ¬emailServiceConfigured env then
    .ok (false, failedCall "Email service is not configured.".toList true)
  else
    match postWebhookUrl env exchange with
    | .error (.httpError message) =>
        .ok (false, failedCall (emailServiceErrorMessage env message) true)
    | .error (.osError message) =>
        let detail := redactEmailServiceSecret env message
        .ok (false, failedCall (requestFailedMessage detail) false)
    | .error (.other message) => .error message
    | .ok result =>
        if 200 ≤ result.status ∧ result.status < 300 then
          .ok (true, succeededCall (some result.status))
        else
          .ok (false,
            { httpStatus := some result.status
              responseExcerpt := []
              errorMessage := (env.errorCode result.excerpt).map fun code =>
                redactEmailServiceSecret env (failureMessage result.status code)
              permanent := emailFailureIsPermanent (some result.status)
              retryAfterSeconds :=
                if result.status = 429 ∨ result.status = 503 then result.retryAfterSeconds
                else none })

/-! ## What is to be done about a row -/

inductive Work where
  /-- The row cannot be delivered at all. -/
  | terminal (error : Text)
  | webhook (rule : ActionRule)
  | email

inductive Verdict where
  | terminal (error : Text)
  | outcome (success : Bool) (attempt : AttemptMeta)

def loadRuleForDelivery (rules : Nat → Option ActionRule) (row : ActionOutbox) : Work :=
  match row.actionRule.bind rules with
  | none => .terminal "Action rule deleted.".toList
  | some rule =>
      if rule.enabled then .webhook rule else .terminal "Action rule disabled.".toList

def workOf (env : DeliveryEnv) (rules : Nat → Option ActionRule) (row : ActionOutbox) : Work :=
  match row.deliveryKind with
  | .email =>
      if emailServiceConfigured env then .email
      else .terminal "Email service is not configured.".toList
  | .webhook => loadRuleForDelivery rules row

def Work.perform (env : DeliveryEnv) (envelope : List (Text × Json)) (exchange : Exchange) :
    Work → Except Text Verdict
  | .terminal error => .ok (.terminal error)
  | .webhook rule =>
      let (success, attempt) := performHttpDelivery env rule envelope exchange
      .ok (.outcome success attempt)
  | .email => (deliverEmailEvent env exchange).map fun (success, attempt) =>
      .outcome success attempt

/-! ## What is written -/

def formatAttemptError (attempt : AttemptMeta) : Option Text :=
  attempt.errorMessage.map fun message =>
    let message := strip message
    List.intercalate " | ".toList
      ([if message = [] then "Delivery failed.".toList else message] ++
        (attempt.httpStatus.map fun status => "HTTP ".toList ++ Storage.decimal status).toList ++
        (if attempt.responseExcerpt = [] then []
          else ["body: ".toList ++ attempt.responseExcerpt.take 512]))

/-- PostgreSQL keeps no NUL in a text, and a text must have an encoding. -/
def storable (env : DeliveryEnv) (text : Option Text) : Bool :=
  text.any fun t => !(env.postgres && t.contains (Char.ofNat 0))

def Verdict.error (env : DeliveryEnv) : Verdict → Option Text
  | .terminal error => some (redactEmailServiceSecret env error)
  | .outcome _ attempt => (formatAttemptError attempt).map (redactEmailServiceSecret env)

def Verdict.success : Verdict → Bool
  | .terminal _ => false
  | .outcome success _ => success

def Verdict.permanent : Verdict → Bool
  | .terminal _ => true
  | .outcome _ attempt => attempt.permanent

def Verdict.httpStatus : Verdict → Option Nat
  | .terminal _ => none
  | .outcome _ attempt => attempt.httpStatus

def Verdict.retryAfterSeconds : Verdict → Option Nat
  | .terminal _ => none
  | .outcome _ attempt => attempt.retryAfterSeconds

/-- Why an attempt is made: `trigger` and `scheduled_job_run_id`. -/
structure Correlation where
  trigger : Trigger
  scheduledJobRunId : Option Nat
  deriving DecidableEq, Repr

def Verdict.storedError (env : DeliveryEnv) (verdict : Verdict) : Option Text :=
  if verdict.success then some [] else verdict.error env

def attemptsExhausted (env : DeliveryEnv) (attemptNumber : Nat) : Bool :=
  decide (env.maxAttempts ≤ attemptNumber)

def attemptedRow (env : DeliveryEnv) (now : Nat) (row : OutboxRow) (verdict : Verdict)
    (error : Text) : OutboxRow :=
  let attemptNumber := row.attemptCount + 1
  if verdict.success then
    { row with
      attemptCount := attemptNumber, lockedUntil := none, status := .delivered
      deliveredAt := some now, lastError := [], nextAttemptAt := none }
  else if verdict.permanent || attemptsExhausted env attemptNumber then
    { row with
      attemptCount := attemptNumber, lockedUntil := none, status := .dead
      lastError := error, nextAttemptAt := none }
  else
    let delay := computeRetryDelaySeconds attemptNumber verdict.httpStatus
      verdict.retryAfterSeconds
    { row with
      attemptCount := attemptNumber, lockedUntil := none, status := .failed
      lastError := error, nextAttemptAt := some (now + delay * second) }

def newAttempt (now : Nat) (correlation : Correlation) (row : OutboxRow) (verdict : Verdict)
    (error : Text) : DeliveryAttempt where
  success := verdict.success
  httpStatus := verdict.httpStatus
  errorMessage := error
  attemptNumber := row.attemptCount + 1
  trigger := correlation.trigger
  scheduledJobRunId := correlation.scheduledJobRunId
  createdAt := now

/-- `_apply_delivery_result`; nothing is written where the database refuses the error. -/
def applyDeliveryResult (env : DeliveryEnv) (now : Nat) (correlation : Correlation)
    (row : OutboxRow) (verdict : Verdict) : Option (OutboxRow × DeliveryAttempt) :=
  match verdict.storedError env with
  | none => none
  | some error =>
      if storable env (some error) then
        some (attemptedRow env now row verdict error,
          newAttempt now correlation row verdict error)
      else none

/-- `deliver_outbox_row` with nothing in between; nothing is returned where it raises. -/
def deliverOutboxRow (env : DeliveryEnv) (now : Nat) (rules : Nat → Option ActionRule)
    (correlation : Correlation) (exchange : Exchange) (row : OutboxRow) :
    Option (OutboxRow × List DeliveryAttempt) :=
  if row.status = .delivered ∨ row.status = .dead then some (row, [])
  else
    match (workOf env rules row.toActionOutbox).perform env row.envelope exchange with
    | .error _ => none
    | .ok verdict =>
        (applyDeliveryResult env now correlation row verdict).map fun (row', attempt) =>
          (row', [attempt])

/-! ## The states an attempt leads to -/

section Attempted

variable {env : DeliveryEnv} {now : Nat} {row : OutboxRow} {verdict : Verdict} {error : Text}

@[simp] theorem attemptedRow_id :
    (attemptedRow env now row verdict error).id = row.id := by
  simp only [attemptedRow]
  repeat' split
  all_goals rfl

@[simp] theorem attemptedRow_envelope :
    (attemptedRow env now row verdict error).envelope = row.envelope := by
  simp only [attemptedRow]
  repeat' split
  all_goals rfl

@[simp] theorem attemptedRow_attemptCount :
    (attemptedRow env now row verdict error).attemptCount = row.attemptCount + 1 := by
  simp only [attemptedRow]
  repeat' split
  all_goals rfl

@[simp] theorem attemptedRow_lockedUntil :
    (attemptedRow env now row verdict error).lockedUntil = none := by
  simp only [attemptedRow]
  repeat' split
  all_goals rfl

theorem attemptedRow_status :
    (attemptedRow env now row verdict error).status =
      if verdict.success then .delivered
      else if verdict.permanent || attemptsExhausted env (row.attemptCount + 1) then .dead
      else .failed := by
  simp only [attemptedRow]
  repeat' split
  all_goals rfl

theorem attemptedRow_nextAttemptAt :
    ((attemptedRow env now row verdict error).status ≠ .failed →
        (attemptedRow env now row verdict error).nextAttemptAt = none) ∧
      ((attemptedRow env now row verdict error).status = .failed →
        ∃ delay, 1 ≤ delay ∧ delay ≤ 3600 ∧
          (attemptedRow env now row verdict error).nextAttemptAt =
            some (now + delay * second)) := by
  have hbounds := computeRetryDelaySeconds_bounds (row.attemptCount + 1) verdict.httpStatus
    verdict.retryAfterSeconds
  simp only [attemptedRow]
  by_cases hsuccess : verdict.success = true
  · simp [hsuccess]
  · by_cases hdead : (verdict.permanent || attemptsExhausted env (row.attemptCount + 1)) = true
    · simp only [hsuccess, hdead, if_true]
      simp
    · simp only [hsuccess, hdead]
      exact ⟨fun h => absurd rfl h, fun _ => ⟨_, hbounds.1, hbounds.2, rfl⟩⟩

theorem applyDeliveryResult_eq_some {correlation : Correlation} {row' : OutboxRow}
    {attempt : DeliveryAttempt}
    (h : applyDeliveryResult env now correlation row verdict = some (row', attempt)) :
    ∃ error, row' = attemptedRow env now row verdict error ∧
      attempt = newAttempt now correlation row verdict error := by
  unfold applyDeliveryResult at h
  split at h
  · contradiction
  · split at h
    · cases h
      exact ⟨_, rfl, rfl⟩
    · contradiction

end Attempted

end StorageService.Actions
