import StorageService.Results.Outbox

/-!
# What an answer makes of a delivery

A call of `deliver_outbox_row` that meets no other: which answers leave the row
as the table of retries has it, and which do not.
-/

namespace StorageService.Results

open StorageService.Foundation
open StorageService.Actions
open StorageService.Storage (strip isSpace decimal)

section Verdict

/-! ## NUL in the texts of errors -/

abbrev nul : Char := Char.ofNat 0

theorem mem_replaceInfix {c : Char} {old new : Text} (hold : c ∉ old) (hne : old ≠ [])
    (hnew : c ∉ new) (skip : Nat) (s : Text) :
    c ∈ replaceInfix old new skip s ↔ c ∈ s.drop skip := by
  induction s generalizing skip with
  | nil => simp [replaceInfix]
  | cons a s ih =>
      cases skip with
      | succ skip => exact ih skip
      | zero =>
          simp only [replaceInfix]
          split
          · rename_i hprefix
            obtain ⟨t, ht⟩ := hprefix
            -- an occurrence is passed over, and what follows it is read on
            have hdrop : s.drop (old.length - 1) = t := by
              have hpos := List.length_pos_iff.mpr hne
              have hsucc : old.length - 1 + 1 = old.length := by omega
              rw [← List.drop_succ_cons (a := a), hsucc, ← ht, List.drop_left]
            rw [List.mem_append, ih, hdrop, List.drop_zero, ← ht, List.mem_append]
            simp [hold, hnew]
          · rw [List.mem_cons, ih]
            simp

theorem nul_mem_redact (env : DeliveryEnv) (value : Text) :
    nul ∈ redactEmailServiceSecret env value ↔ nul ∈ value := by
  have hspace : isSpace nul = false := by decide
  have hkey : nul ∉ emailServiceApiKey env := by
    rw [emailServiceApiKey, strip, mem_trim_iff hspace]
    exact env.keyPlain
  simp only [redactEmailServiceSecret]
  split
  · rfl
  · rename_i hne
    exact mem_replaceInfix hkey hne (by decide) 0 value

theorem nul_not_mem_decimal (n : Nat) : nul ∉ decimal n := by
  intro h
  have hdigit := Nat.isDigit_of_mem_toDigits (by decide) (by decide) h
  revert hdigit
  decide

theorem nul_mem_formatAttemptError {attempt : AttemptMeta} {message : Text}
    (hmessage : attempt.errorMessage = some message) :
    ∃ text, formatAttemptError attempt = some text ∧
      (nul ∈ text ↔ nul ∈ message ∨ nul ∈ attempt.responseExcerpt.take 512) := by
  have hspace : isSpace nul = false := by decide
  have hstrip : nul ∈ strip message ↔ nul ∈ message := mem_trim_iff hspace message
  have hfirst : nul ∈ (if strip message = [] then "Delivery failed.".toList else strip message) ↔
      nul ∈ message := by
    split
    · rename_i hnil
      rw [← hstrip, hnil]
      decide
    · exact hstrip
  refine ⟨_, by rw [formatAttemptError, hmessage]; rfl, ?_⟩
  have hstatus : ∀ part ∈ (attempt.httpStatus.map fun status =>
      "HTTP ".toList ++ decimal status).toList, nul ∉ part := by
    intro part hpart
    obtain ⟨status, -, rfl⟩ := Option.map_eq_some_iff.mp (Option.mem_toList.mp hpart)
    rw [List.mem_append, not_or]
    exact ⟨by decide, nul_not_mem_decimal status⟩
  have hexcerpt : (∃ part ∈ (if attempt.responseExcerpt = [] then []
      else ["body: ".toList ++ attempt.responseExcerpt.take 512]), nul ∈ part) ↔
      nul ∈ attempt.responseExcerpt.take 512 := by
    have hbody : nul ∉ "body: ".toList := by decide
    split
    · rename_i hnil
      simp [hnil]
    · simp only [List.mem_singleton, exists_eq_left, List.mem_append, hbody, false_or]
  rw [mem_intercalate_iff (by decide)]
  constructor
  · rintro ⟨part, hpart, hnul⟩
    rcases List.mem_append.mp hpart with hpart | hpart
    · rcases List.mem_append.mp hpart with hpart | hpart
      · rw [List.mem_singleton.mp hpart] at hnul
        exact .inl (hfirst.mp hnul)
      · exact absurd hnul (hstatus part hpart)
    · exact .inr (hexcerpt.mp ⟨part, hpart, hnul⟩)
  · rintro (hnul | hnul)
    · exact ⟨_, List.mem_append_left _ (List.mem_append_left _ (List.mem_singleton_self _)),
        hfirst.mpr hnul⟩
    · obtain ⟨part, hpart, hnul⟩ := hexcerpt.mpr hnul
      exact ⟨part, List.mem_append_right _ hpart, hnul⟩

theorem storable_iff {env : DeliveryEnv} {text : Text} :
    storable env (some text) = true ↔ (env.postgres = true → nul ∉ text) := by
  cases hpostgres : env.postgres <;> simp [storable, hpostgres]

theorem storedError_outcome (env : DeliveryEnv) {attempt : AttemptMeta} {message : Text}
    (hmessage : attempt.errorMessage = some message) :
    ∃ text, (Verdict.outcome false attempt).storedError env = some text ∧
      (storable env (some text) = true ↔
        storable env (some message) = true ∧
          storable env (some (attempt.responseExcerpt.take 512)) = true) := by
  obtain ⟨text, htext, hnul⟩ := nul_mem_formatAttemptError hmessage
  refine ⟨redactEmailServiceSecret env text, ?_, ?_⟩
  · simp [Verdict.storedError, Verdict.success, Verdict.error, htext]
  · simp only [storable_iff, nul_mem_redact, hnul, not_or]
    exact forall_and

/-! ## Answers -/

def Success (r : Response) : Prop := 200 ≤ r.status ∧ r.status < 300

instance (r : Response) : Decidable (Success r) := inferInstanceAs (Decidable (_ ∧ _))

def raisedBy (env : DeliveryEnv) (r : Response) : Option Text :=
  match r.rejected, parseRetryAfterHeader env r.retryAfter with
  | some message, _ => some message
  | none, .error message => some message
  | none, .ok _ => none

/-- The row is to be tried, and the request goes out. -/
inductive Live (env : DeliveryEnv) (rules : Nat → Option ActionRule) (row : OutboxRow) : Prop
  | webhook (rule : ActionRule) (hopen : row.status.Open)
      (hwork : workOf env rules row.toActionOutbox = .webhook rule)
      (hurl : strip rule.config.url ≠ []) (hsecret : strip rule.config.secret ≠ [])
      (hid : (envelopeId row.envelope).truthy = true)
  | email (hopen : row.status.Open) (hwork : workOf env rules row.toActionOutbox = .email)

def expectedStatus (env : DeliveryEnv) (row : OutboxRow) (r : Response) : DeliveryStatus :=
  if Success r then .delivered
  else if isPermanentHttpStatus (some r.status) || attemptsExhausted env (row.attemptCount + 1)
    then .dead
  else .failed

theorem expectedStatus_delivered_iff {env : DeliveryEnv} {row : OutboxRow} {r : Response} :
    expectedStatus env row r = .delivered ↔ Success r := by
  rw [expectedStatus]
  split
  · rename_i hsuccess
    exact iff_of_true rfl hsuccess
  · rename_i hsuccess
    refine iff_of_false ?_ hsuccess
    split <;> decide

def MeetsVerdict (env : DeliveryEnv) (now : Nat) (rules : Nat → Option ActionRule)
    (correlation : Correlation) (row : OutboxRow) (r : Response) : Prop :=
  ∃ row' attempt,
    deliverOutboxRow env now rules correlation (.response r) row = some (row', [attempt]) ∧
      row'.status = expectedStatus env row r

/-- The answers that are dealt with as the table of retries has it. -/
def VerdictHolds (env : DeliveryEnv) (row : OutboxRow) (r : Response) : Prop :=
  match row.deliveryKind, raisedBy env r with
  | .webhook, none =>
      200 ≤ r.status ∧ ¬(300 ≤ r.status ∧ r.status < 400) ∧
        (400 ≤ r.status →
          storable env (some ((readResponseExcerpt env r.body).take 512)) = true)
  | .webhook, some message =>
      ¬Success r ∧
        (isPermanentHttpStatus (some r.status) = true →
          attemptsExhausted env (row.attemptCount + 1) = true) ∧
        storable env (some message) = true
  | .email, none =>
      ¬Success r → storable env (env.errorCode (readResponseExcerpt env r.body)) = true
  | .email, some _ => False

/-! ## The three ways a call ends -/

section Ends

variable {env : DeliveryEnv} {now : Nat} {rules : Nat → Option ActionRule}
  {correlation : Correlation} {row : OutboxRow} {r : Response}

theorem deliverOutboxRow_open (hopen : row.status.Open) (exchange : Exchange) :
    deliverOutboxRow env now rules correlation exchange row =
      match (workOf env rules row.toActionOutbox).perform env row.envelope exchange with
      | .error _ => none
      | .ok verdict =>
          (applyDeliveryResult env now correlation row verdict).map fun (row', attempt) =>
            (row', [attempt]) := by
  have hfinal : ¬(row.status = .delivered ∨ row.status = .dead) := hopen.not_final
  exact if_neg hfinal

theorem meetsVerdict_raised (hopen : row.status.Open) {message : Text}
    (hperform : (workOf env rules row.toActionOutbox).perform env row.envelope (.response r) =
      .error message) :
    ¬MeetsVerdict env now rules correlation row r := by
  rintro ⟨row', attempt, h, -⟩
  rw [deliverOutboxRow_open hopen, hperform] at h
  contradiction

theorem meetsVerdict_succeeded (hopen : row.status.Open) {attempt : AttemptMeta}
    (hperform : (workOf env rules row.toActionOutbox).perform env row.envelope (.response r) =
      .ok (.outcome true attempt)) :
    MeetsVerdict env now rules correlation row r ↔ expectedStatus env row r = .delivered := by
  have happly : applyDeliveryResult env now correlation row (.outcome true attempt) =
      some (attemptedRow env now row (.outcome true attempt) [],
        newAttempt now correlation row (.outcome true attempt) []) := by
    have hstorable : storable env (some []) = true := by simp [storable]
    simp [applyDeliveryResult, Verdict.storedError, Verdict.success, hstorable]
  have hstatus : (attemptedRow env now row (.outcome true attempt) []).status = .delivered := by
    rw [attemptedRow_status]
    rfl
  simp only [MeetsVerdict, deliverOutboxRow_open hopen, hperform, happly, Option.map_some]
  constructor
  · rintro ⟨row', made, h, hexpected⟩
    cases h
    rw [← hexpected, hstatus]
  · intro hexpected
    exact ⟨_, _, rfl, by rw [hexpected, hstatus]⟩

theorem meetsVerdict_failed (hopen : row.status.Open) {attempt : AttemptMeta} {message : Text}
    (hmessage : attempt.errorMessage = some message)
    (hperform : (workOf env rules row.toActionOutbox).perform env row.envelope (.response r) =
      .ok (.outcome false attempt)) :
    MeetsVerdict env now rules correlation row r ↔
      (storable env (some message) = true ∧
        storable env (some (attempt.responseExcerpt.take 512)) = true) ∧
      expectedStatus env row r =
        if attempt.permanent || attemptsExhausted env (row.attemptCount + 1) then .dead
        else .failed := by
  obtain ⟨text, herror, hstorable⟩ := storedError_outcome env hmessage
  have hstatus : (attemptedRow env now row (.outcome false attempt) text).status =
      if attempt.permanent || attemptsExhausted env (row.attemptCount + 1) then .dead
      else .failed := by
    rw [attemptedRow_status]
    rfl
  rw [← hstorable]
  simp only [MeetsVerdict, deliverOutboxRow_open hopen, hperform, applyDeliveryResult, herror]
  constructor
  · rintro ⟨row', made, h, hexpected⟩
    split at h
    · rename_i hstored
      cases h
      exact ⟨hstored, by rw [← hexpected, hstatus]⟩
    · contradiction
  · rintro ⟨hstored, hexpected⟩
    rw [if_pos hstored]
    exact ⟨_, _, rfl, by rw [hexpected, hstatus]⟩

theorem deliveryKind_of_webhook {rule : ActionRule}
    (hwork : workOf env rules row.toActionOutbox = .webhook rule) :
    row.deliveryKind = .webhook := by
  cases hkind : row.deliveryKind with
  | webhook => rfl
  | email =>
      simp only [workOf, hkind] at hwork
      split at hwork <;> contradiction

theorem deliveryKind_of_email (hwork : workOf env rules row.toActionOutbox = .email) :
    row.deliveryKind = .email ∧ emailServiceConfigured env = true := by
  cases hkind : row.deliveryKind with
  | email =>
      simp only [workOf, hkind] at hwork
      split at hwork
      · rename_i hconfigured
        exact ⟨rfl, hconfigured⟩
      · contradiction
  | webhook =>
      simp only [workOf, hkind, loadRuleForDelivery] at hwork
      repeat' split at hwork
      all_goals contradiction

/-! ## The steps of the call -/

section Steps

variable {ι : Type} [DecidableEq ι] {s : OutboxState ι} {i : ι} {id : Nat} {row' : OutboxRow}
  {verdict : Actions.Verdict}

theorem step_record (hs : s.Sound env)
    (hcall : s.calls i = .answered id row.attemptCount verdict correlation)
    (hrow : s.rows id = some row) {attempt : DeliveryAttempt}
    (happly : applyDeliveryResult env s.now correlation row verdict = some (row', attempt)) :
    ∃ s', outboxStep env s (.record i) = some s' ∧ s'.rows id = some row' ∧
      s'.attempts id = s.attempts id ++ [attempt] := by
  have hid : row'.id = id := by
    obtain ⟨error, rfl, -⟩ := applyDeliveryResult_eq_some happly
    rw [attemptedRow_id, hs.keyed id row hrow]
  have hstep : outboxStep env s (.record i) =
      some (((s.setCall i .returned).setRow row').addAttempt id attempt) := by
    simp only [outboxStep, hcall, OutboxState.recordResult, hrow, happly, ne_eq,
      not_true_eq_false, if_false]
  refine ⟨_, hstep, ?_, ?_⟩
  · simp [OutboxState.addAttempt, OutboxState.setRow, hid]
  · simp [OutboxState.addAttempt, OutboxState.setRow, OutboxState.setCall]

theorem run_to_answered (hidle : s.calls i = .idle) (hrow : s.rows id = some row)
    (hfinal : ¬(row.status = .delivered ∨ row.status = .dead)) {exchange : Exchange}
    (hperform : (workOf env s.rules row.toActionOutbox).perform env row.envelope exchange =
      .ok verdict) :
    ∃ as s₁, (outbox env).run s as = some s₁ ∧
      s₁.calls i = .answered id row.attemptCount verdict correlation ∧
      s₁.rows id = some row ∧ s₁.attempts id = s.attempts id ∧ s₁.now = s.now := by
  have hdeliver : outboxStep env s (.deliver i id correlation) =
      some (s.startDelivery env i id correlation) := by
    simp only [outboxStep, hidle]
  cases hwork : workOf env s.rules row.toActionOutbox with
  | terminal error =>
      rw [hwork] at hperform
      cases hperform
      have hstart : s.startDelivery env i id correlation =
          s.setCall i (.answered id row.attemptCount (.terminal error) correlation) := by
        simp only [OutboxState.startDelivery, hrow, if_neg hfinal, hwork]
      refine ⟨[.deliver i id correlation], _, Machine.run_cons.mpr ⟨_, hdeliver, rfl⟩, ?_⟩
      rw [hstart]
      exact ⟨Function.update_self .., hrow, rfl, rfl⟩
  | webhook | email =>
      have hstart : ∃ work, s.startDelivery env i id correlation =
          s.setCall i (.calling id row.attemptCount work correlation) := by
        simp only [OutboxState.startDelivery, hrow, if_neg hfinal, hwork]
        exact ⟨_, rfl⟩
      obtain ⟨work, hstart⟩ := hstart
      rw [hstart] at hdeliver
      refine ⟨[.deliver i id correlation, .answer i verdict],
        (s.setCall i (.calling id row.attemptCount work correlation)).setCall i
          (.answered id row.attemptCount verdict correlation),
        Machine.run_cons.mpr ⟨_, hdeliver, Machine.run_cons.mpr ⟨_, ?_, rfl⟩⟩,
        Function.update_self .., hrow, rfl, rfl⟩
      simp only [outbox, outboxStep, OutboxState.setCall, Function.update_self]

/-- What a call returns is what its steps lead to. -/
theorem run_of_deliverOutboxRow (hs : s.Sound env) (hidle : s.calls i = .idle)
    (hrow : s.rows id = some row) {exchange : Exchange} {attempts : List DeliveryAttempt}
    (h : deliverOutboxRow env s.now s.rules correlation exchange row = some (row', attempts)) :
    ∃ as s', (outbox env).run s as = some s' ∧ s'.rows id = some row' ∧
      s'.attempts id = s.attempts id ++ attempts := by
  by_cases hfinal : row.status = .delivered ∨ row.status = .dead
  · rw [deliverOutboxRow, if_pos hfinal] at h
    cases h
    exact ⟨[], s, rfl, hrow, (List.append_nil _).symm⟩
  · have hopen := DeliveryStatus.open_of_not_final hfinal
    rw [deliverOutboxRow_open hopen] at h
    split at h
    · contradiction
    · rename_i verdict hperform
      obtain ⟨⟨new, attempt⟩, happly, heq⟩ := Option.map_eq_some_iff.mp h
      cases heq
      obtain ⟨as, s₁, hrun, hcall, hrows, hattempts, hnow⟩ :
          ∃ as s₁, (outbox env).run s as = some s₁ ∧
            s₁.calls i = .answered id row.attemptCount verdict correlation ∧
            s₁.rows id = some row ∧ s₁.attempts id = s.attempts id ∧ s₁.now = s.now :=
        run_to_answered hidle hrow hfinal hperform
      have hs₁ : s₁.Sound env :=
        Machine.invariant (fun hs hstep => hs.step hstep) hrun hs
      obtain ⟨s', hstep, hrow', hattempts'⟩ :=
        step_record hs₁ hcall hrows (hnow ▸ happly)
      refine ⟨as ++ [.record i], s', ?_, hrow', by rw [hattempts', hattempts]⟩
      exact Machine.run_append.mpr ⟨s₁, hrun, Machine.run_cons.mpr ⟨s', hstep, rfl⟩⟩

end Steps

theorem postResult_eq (env : DeliveryEnv) (r : Response) :
    (∃ message, raisedBy env r = some message ∧ postResult env r = .error (.other message)) ∨
      ∃ retryAfter, raisedBy env r = none ∧
        postResult env r = .ok ⟨r.status, readResponseExcerpt env r.body, retryAfter⟩ := by
  cases hrejected : r.rejected with
  | some message => exact .inl ⟨message, by simp [raisedBy, postResult, hrejected]⟩
  | none =>
      cases hretry : parseRetryAfterHeader env r.retryAfter with
      | error message => exact .inl ⟨message, by simp [raisedBy, postResult, hrejected, hretry]⟩
      | ok retryAfter =>
          exact .inr ⟨retryAfter, by simp [raisedBy, postResult, hrejected, hretry]⟩

theorem meetsVerdict_webhook_iff {rule : ActionRule} (hopen : row.status.Open)
    (hwork : workOf env rules row.toActionOutbox = .webhook rule)
    (hurl : strip rule.config.url ≠ []) (hsecret : strip rule.config.secret ≠ [])
    (hid : (envelopeId row.envelope).truthy = true) :
    MeetsVerdict env now rules correlation row r ↔ VerdictHolds env row r := by
  have hkind := deliveryKind_of_webhook hwork
  rcases postResult_eq env r with ⟨message, hraised, hpost⟩ | ⟨retryAfter, hraised, hpost⟩
  · have hcall : deliverWebhookAction env rule.config row.envelope (.response r) =
        .error (failedCall message false) := by
      rw [deliverWebhookAction, if_neg hurl, if_neg hsecret, if_neg (not_not.mpr hid)]
      simp only [postWebhookUrl, hpost]
    have hperform : (workOf env rules row.toActionOutbox).perform env row.envelope
        (.response r) = .ok (.outcome false (failedCall message false)) := by
      rw [hwork, Work.perform, performHttpDelivery, hcall]
    rw [meetsVerdict_failed hopen rfl hperform, VerdictHolds, hkind, hraised]
    have hnil : storable env (some []) = true := storable_iff.mpr fun _ => List.not_mem_nil
    simp only [failedCall, List.take_nil, hnil, Bool.false_or, and_true]
    rw [and_comm, ← and_assoc]
    refine and_congr ?_ Iff.rfl
    -- what is retried is dead only at the limit
    by_cases hsuccess : Success r
    · rw [expectedStatus, if_pos hsuccess]
      cases attemptsExhausted env (row.attemptCount + 1) <;> simp [hsuccess]
    · rw [expectedStatus, if_neg hsuccess]
      cases attemptsExhausted env (row.attemptCount + 1) <;>
        cases isPermanentHttpStatus (some r.status) <;> simp [hsuccess]
  · by_cases hstatus : 400 ≤ r.status
    · have hsuccess : ¬Success r := by
        rintro ⟨-, h⟩
        omega
      have hcall : deliverWebhookAction env rule.config row.envelope (.response r) =
          .error
            { httpStatus := some r.status
              responseExcerpt := readResponseExcerpt env r.body
              errorMessage := some ("Webhook returned HTTP ".toList ++ decimal r.status)
              permanent := isPermanentHttpStatus (some r.status)
              retryAfterSeconds := retryAfter } := by
        rw [deliverWebhookAction, if_neg hurl, if_neg hsecret, if_neg (not_not.mpr hid)]
        simp only [postWebhookUrl, hpost, if_pos hstatus]
      have hperform : (workOf env rules row.toActionOutbox).perform env row.envelope
          (.response r) = .ok (.outcome false
            { httpStatus := some r.status
              responseExcerpt := readResponseExcerpt env r.body
              errorMessage := some ("Webhook returned HTTP ".toList ++ decimal r.status)
              permanent := isPermanentHttpStatus (some r.status)
              retryAfterSeconds := retryAfter }) := by
        rw [hwork, Work.perform, performHttpDelivery, hcall]
      have hmessage : storable env (some ("Webhook returned HTTP ".toList ++ decimal r.status)) =
          true := by
        refine storable_iff.mpr fun _ h => ?_
        rcases List.mem_append.mp h with h | h
        · revert h
          decide
        · exact nul_not_mem_decimal _ h
      rw [meetsVerdict_failed hopen rfl hperform, VerdictHolds, hkind, hraised]
      simp only [hmessage, expectedStatus, if_neg hsuccess, and_true, true_and]
      constructor
      · intro hexcerpt
        exact ⟨by omega, by omega, fun _ => hexcerpt⟩
      · rintro ⟨-, -, hexcerpt⟩
        exact hexcerpt hstatus
    · have hcall : deliverWebhookAction env rule.config row.envelope (.response r) =
          .ok () := by
        rw [deliverWebhookAction, if_neg hurl, if_neg hsecret, if_neg (not_not.mpr hid)]
        simp only [postWebhookUrl, hpost, if_neg hstatus]
      have hperform : (workOf env rules row.toActionOutbox).perform env row.envelope
          (.response r) = .ok (.outcome true (succeededCall none)) := by
        rw [hwork, Work.perform, performHttpDelivery, hcall]
      rw [meetsVerdict_succeeded hopen hperform, VerdictHolds, hkind, hraised]
      -- below 400 everything counts as delivered
      rw [expectedStatus_delivered_iff, Success]
      constructor
      · rintro ⟨hlow, hhigh⟩
        exact ⟨hlow, by omega, fun h => absurd h hstatus⟩
      · rintro ⟨hlow, hredirect, -⟩
        exact ⟨hlow, by omega⟩

theorem nul_mem_failureMessage (status : Nat) (code : Text) :
    nul ∈ failureMessage status code ↔ nul ∈ code := by
  have hfirst : nul ∉ "Email event was not accepted (HTTP ".toList := by decide +kernel
  have hlast : nul ∉ ").".toList := by decide
  have hseparator : nul ∉ ", ".toList := by decide
  have hdecimal := nul_not_mem_decimal status
  have hcode : nul ∈ (if code = [] then [] else ", ".toList ++ code) ↔ nul ∈ code := by
    split
    · rename_i hnil
      rw [hnil]
    · rw [List.mem_append, or_iff_right hseparator]
  have hparts : ∀ a b c d : Text, nul ∉ a → nul ∉ b → nul ∉ d →
      (nul ∈ a ++ b ++ c ++ d ↔ nul ∈ c) := by
    intro a b c d ha hb hd
    simp [ha, hb, hd]
  exact (hparts _ _ _ _ hfirst hdecimal hlast).trans hcode

theorem meetsVerdict_email_iff (hopen : row.status.Open)
    (hwork : workOf env rules row.toActionOutbox = .email) :
    MeetsVerdict env now rules correlation row r ↔ VerdictHolds env row r := by
  obtain ⟨hkind, hconfigured⟩ := deliveryKind_of_email hwork
  have hpermanent : ¬Success r → emailFailureIsPermanent (some r.status) =
      isPermanentHttpStatus (some r.status) := by
    intro hsuccess
    have hfalse : decide (200 ≤ r.status ∧ r.status < 300) = false := decide_eq_false hsuccess
    simp only [emailFailureIsPermanent, Option.any_some, hfalse, Bool.false_eq_true, if_false]
  rcases postResult_eq env r with ⟨message, hraised, hpost⟩ | ⟨retryAfter, hraised, hpost⟩
  · have hcall : deliverEmailEvent env (.response r) = .error message := by
      simp only [deliverEmailEvent, hconfigured, postWebhookUrl, hpost, not_true_eq_false,
        if_false]
    have hperform : (workOf env rules row.toActionOutbox).perform env row.envelope
        (.response r) = .error message := by
      rw [hwork, Work.perform, hcall]
      rfl
    rw [VerdictHolds, hkind, hraised]
    exact iff_false_intro (meetsVerdict_raised hopen hperform)
  · rw [VerdictHolds, hkind, hraised]
    by_cases hsuccess : Success r
    · have hcall : deliverEmailEvent env (.response r) =
          .ok (true, succeededCall (some r.status)) := by
        simp only [deliverEmailEvent, hconfigured, postWebhookUrl, hpost, not_true_eq_false,
          if_false, if_pos (show 200 ≤ r.status ∧ r.status < 300 from hsuccess)]
      have hperform : (workOf env rules row.toActionOutbox).perform env row.envelope
          (.response r) = .ok (.outcome true (succeededCall (some r.status))) := by
        rw [hwork, Work.perform, hcall]
        rfl
      rw [meetsVerdict_succeeded hopen hperform, expectedStatus_delivered_iff]
      exact iff_of_true hsuccess fun h => absurd hsuccess h
    · have hcall : deliverEmailEvent env (.response r) =
          .ok (false,
            { httpStatus := some r.status
              responseExcerpt := []
              errorMessage := (env.errorCode (readResponseExcerpt env r.body)).map fun code =>
                redactEmailServiceSecret env (failureMessage r.status code)
              permanent := emailFailureIsPermanent (some r.status)
              retryAfterSeconds :=
                if r.status = 429 ∨ r.status = 503 then retryAfter else none }) := by
        simp only [deliverEmailEvent, hconfigured, postWebhookUrl, hpost, not_true_eq_false,
          if_false, if_neg (show ¬(200 ≤ r.status ∧ r.status < 300) from hsuccess)]
      have hperform : (workOf env rules row.toActionOutbox).perform env row.envelope
          (.response r) = .ok (.outcome false
            { httpStatus := some r.status
              responseExcerpt := []
              errorMessage := (env.errorCode (readResponseExcerpt env r.body)).map fun code =>
                redactEmailServiceSecret env (failureMessage r.status code)
              permanent := emailFailureIsPermanent (some r.status)
              retryAfterSeconds :=
                if r.status = 429 ∨ r.status = 503 then retryAfter else none }) := by
        rw [hwork, Work.perform, hcall]
        rfl
      cases hcode : env.errorCode (readResponseExcerpt env r.body) with
      | none =>
          -- the message has no encoding, so the attempt cannot be written
          have hfails : ¬MeetsVerdict env now rules correlation row r := by
            rintro ⟨row', attempt, h, -⟩
            rw [deliverOutboxRow_open hopen, hperform, hcode] at h
            contradiction
          refine iff_of_false hfails fun h => ?_
          exact absurd (h hsuccess) (by simp [storable])
      | some code =>
          rw [hcode] at hperform
          have hnil : storable env (some []) = true :=
            storable_iff.mpr fun _ => List.not_mem_nil
          rw [meetsVerdict_failed hopen rfl hperform]
          simp only [List.take_nil, hnil, and_true, hpermanent hsuccess, expectedStatus,
            if_neg hsuccess, storable_iff, nul_mem_redact, nul_mem_failureMessage]
          exact ⟨fun h _ => h, fun h => h hsuccess⟩

end Ends

/--
An answer to a live row is dealt with as the table of retries has it, by one
call that returns and makes one attempt, if and only if `VerdictHolds`.
-/
theorem meetsVerdict_iff (env : DeliveryEnv) (now : Nat) (rules : Nat → Option ActionRule)
    (correlation : Correlation) {row : OutboxRow} (hlive : Live env rules row) (r : Response) :
    MeetsVerdict env now rules correlation row r ↔ VerdictHolds env row r := by
  cases hlive with
  | webhook rule hopen hwork hurl hsecret hid =>
      exact meetsVerdict_webhook_iff hopen hwork hurl hsecret hid
  | email hopen hwork => exact meetsVerdict_email_iff hopen hwork

def sampleRules : Nat → Option ActionRule := fun id => if id = 1 then some sampleRule else none

def sampleOutboxRow : OutboxRow :=
  newOutboxRow 0 ⟨1, 1, some 1, .webhook, [], sampleEnvelope⟩

theorem sampleOutboxRow_live : Live sampleDelivery sampleRules sampleOutboxRow :=
  .webhook sampleRule (.inl rfl) rfl (by decide) (by decide) (by decide)

def emptyAnswer (status : Nat) : Response := ⟨status, none, some [], none⟩

theorem meetsVerdict_iff_answered :
    MeetsVerdict sampleDelivery 0 sampleRules ⟨.dispatch, none⟩ sampleOutboxRow
        (emptyAnswer 204) ∧
      ¬MeetsVerdict sampleDelivery 0 sampleRules ⟨.dispatch, none⟩ sampleOutboxRow
        ⟨500, none, some [0], none⟩ := by
  constructor
  · refine (meetsVerdict_iff _ _ _ _ sampleOutboxRow_live _).mpr ?_
    exact ⟨by decide, by decide, fun h => absurd h (by decide)⟩
  · rw [meetsVerdict_iff _ _ _ _ sampleOutboxRow_live]
    intro h
    exact absurd (h.2.2 (by decide)) (by decide)

/-- A redirect, which is not followed, counts as delivered. -/
theorem meetsVerdict_false :
    ¬MeetsVerdict sampleDelivery 0 sampleRules ⟨.dispatch, none⟩ sampleOutboxRow
      (emptyAnswer 304) := by
  have hwork : workOf sampleDelivery sampleRules sampleOutboxRow.toActionOutbox =
    .webhook sampleRule := rfl
  rw [meetsVerdict_webhook_iff (.inl rfl) hwork (by decide) (by decide) (by decide)]
  intro h
  exact h.2.1 (by decide)

end Verdict

end StorageService.Results
