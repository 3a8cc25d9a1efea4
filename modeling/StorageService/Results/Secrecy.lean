import StorageService.Results.Outbox

/-!
# The key of the email service is not stored

Every error that is written has been searched for the key last of all, and what
stands in the place of the key neither holds it nor takes part in another one.
-/

namespace StorageService.Results

open StorageService.Foundation
open StorageService.Actions
open StorageService.Storage (strip)

/-! ## Replaced texts -/

section Replaced

variable {old new s t : Text}

theorem infix_append_cons {α : Type} {l xs ys : List α} {b : α} (hb : b ∉ l)
    (h : l <:+: xs ++ b :: ys) : l <:+: xs ∨ l <:+: ys := by
  rcases List.infix_append_iff.mp h with hxs | hys | ⟨l₁, l₂, rfl, hl₁, hl₂⟩
  · exact .inl hxs
  · rcases List.infix_cons_iff.mp hys with hbegins | hinfix
    · cases l with
      | nil => exact .inl List.nil_infix
      | cons a l =>
          obtain ⟨rfl, -⟩ := List.cons_prefix_cons.mp hbegins
          exact absurd List.mem_cons_self hb
    · exact .inr hinfix
  · cases l₂ with
    | nil =>
        rw [List.append_nil]
        exact .inl hl₁.isInfix
    | cons a l₂ =>
        obtain ⟨rfl, -⟩ := List.cons_prefix_cons.mp hl₂
        exact absurd (List.mem_append_right _ List.mem_cons_self) hb

theorem replaceInfix_nil (skip : Nat) : replaceInfix old new skip [] = [] := by
  simp [replaceInfix]

theorem prefix_of_prefix_replaceInfix {a : Char} {rest : Text} (hnew : new = a :: rest)
    (ha : a ∉ t) (h : t <+: replaceInfix old new 0 s) : t <+: s := by
  induction s generalizing t with
  | nil =>
      rw [replaceInfix_nil] at h
      exact h
  | cons c s ih =>
      cases t with
      | nil => exact List.nil_prefix
      | cons d t =>
          rw [replaceInfix] at h
          split at h
          · rw [hnew, List.cons_append, List.cons_prefix_cons] at h
            exact absurd (h.1 ▸ List.mem_cons_self) ha
          · rw [List.cons_prefix_cons] at h ⊢
            exact ⟨h.1, ih (fun hmem => ha (List.mem_cons_of_mem d hmem)) h.2⟩

/--
Nothing is left of `old` where `new` is bracketed by characters that `old` does
not have, and does not hold it in between.
-/
theorem not_infix_replaceInfix {a b : Char} {mid : Text} (hnew : new = a :: mid ++ [b])
    (ha : a ∉ old) (hb : b ∉ old) (hmid : ¬old <:+: a :: mid) (skip : Nat) :
    ¬old <:+: replaceInfix old new skip s := by
  have hne : old ≠ [] := by
    rintro rfl
    exact hmid List.nil_infix
  induction s generalizing skip with
  | nil =>
      rw [replaceInfix_nil, List.infix_nil]
      exact hne
  | cons c s ih =>
      cases skip with
      | succ skip =>
          rw [replaceInfix]
          exact ih skip
      | zero =>
          rw [replaceInfix]
          split
          · intro h
            have hsplit : ∀ rest, new ++ rest = (a :: mid) ++ b :: rest := by
              intro rest
              rw [hnew, List.append_assoc, List.singleton_append]
            rw [hsplit] at h
            rcases infix_append_cons hb h with hinfix | hinfix
            · exact hmid hinfix
            · exact ih _ hinfix
          · rename_i hbegins
            intro h
            rcases List.infix_cons_iff.mp h with hhere | hlater
            · refine hbegins ?_
              cases old with
              | nil => exact List.nil_prefix
              | cons d old =>
                  rw [List.cons_prefix_cons] at hhere ⊢
                  exact ⟨hhere.1, prefix_of_prefix_replaceInfix hnew
                    (fun hmem => ha (List.mem_cons_of_mem d hmem)) hhere.2⟩
            · exact ih 0 hlater

end Replaced

/-! ## The key -/

structure KeyConfigured (env : DeliveryEnv) : Prop where
  configured : emailServiceConfigured env = true
  noBracket : '[' ∉ env.emailServiceApiKey ∧ ']' ∉ env.emailServiceApiKey

theorem mem_of_mem_emailServiceApiKey {env : DeliveryEnv} {c : Char}
    (h : c ∈ emailServiceApiKey env) : c ∈ env.emailServiceApiKey :=
  (trim_isInfix Storage.isSpace env.emailServiceApiKey).sublist.subset h

theorem key_of_configured {env : DeliveryEnv} (h : KeyConfigured env) :
    'k' ∈ emailServiceApiKey env ∧ '[' ∉ emailServiceApiKey env ∧
      ']' ∉ emailServiceApiKey env := by
  have hbegins : "esk_".toList <+: emailServiceApiKey env := by
    simpa [emailServiceConfigured, List.isPrefixOf_iff_prefix] using h.configured
  refine ⟨hbegins.sublist.subset (by decide), ?_, ?_⟩
  · exact fun hmem => h.noBracket.1 (mem_of_mem_emailServiceApiKey hmem)
  · exact fun hmem => h.noBracket.2 (mem_of_mem_emailServiceApiKey hmem)

def Redacted (env : DeliveryEnv) (text : Text) : Prop := ¬emailServiceApiKey env <:+: text

theorem redacted_redactEmailServiceSecret {env : DeliveryEnv} (h : KeyConfigured env)
    (value : Text) : Redacted env (redactEmailServiceSecret env value) := by
  obtain ⟨hk, hopen, hclose⟩ := key_of_configured h
  have hne : emailServiceApiKey env ≠ [] := List.ne_nil_of_mem hk
  rw [Redacted, redactEmailServiceSecret, if_neg hne]
  have hnew : "[redacted]".toList = '[' :: "redacted".toList ++ [']'] := by decide
  refine not_infix_replaceInfix hnew hopen hclose ?_ 0
  intro hinfix
  have hk' : 'k' ∈ '[' :: "redacted".toList := hinfix.sublist.subset hk
  revert hk'
  decide

theorem redacted_nil {env : DeliveryEnv} (h : KeyConfigured env) : Redacted env [] := by
  rw [Redacted, List.infix_nil]
  exact List.ne_nil_of_mem (key_of_configured h).1

/-! ## What an attempt writes -/

section Written

variable {env : DeliveryEnv} {now : Nat} {correlation : Correlation} {row row' : OutboxRow}
  {verdict : Actions.Verdict} {attempt : DeliveryAttempt}

theorem redacted_storedError (h : KeyConfigured env) {error : Text}
    (herror : verdict.storedError env = some error) : Redacted env error := by
  rw [Verdict.storedError] at herror
  split at herror
  · cases herror
    exact redacted_nil h
  · cases verdict with
    | terminal reason =>
        cases herror
        exact redacted_redactEmailServiceSecret h reason
    | outcome success attempt =>
        obtain ⟨message, -, rfl⟩ := Option.map_eq_some_iff.mp herror
        exact redacted_redactEmailServiceSecret h message

theorem attemptedRow_lastError {error : Text} :
    (attemptedRow env now row verdict error).lastError =
      if verdict.success then [] else error := by
  simp only [attemptedRow]
  repeat' split
  all_goals rfl

theorem redacted_of_applyDeliveryResult (h : KeyConfigured env)
    (happly : applyDeliveryResult env now correlation row verdict = some (row', attempt)) :
    Redacted env attempt.errorMessage ∧ Redacted env row'.lastError := by
  rw [applyDeliveryResult] at happly
  split at happly
  · contradiction
  · rename_i error herror
    have hredacted := redacted_storedError h herror
    split at happly
    · cases happly
      refine ⟨hredacted, ?_⟩
      rw [attemptedRow_lastError]
      split
      · exact redacted_nil h
      · exact hredacted
    · contradiction

theorem written_of_deliverOutboxRow {rules : Nat → Option ActionRule} {exchange : Exchange}
    {attempts : List DeliveryAttempt}
    (h : deliverOutboxRow env now rules correlation exchange row = some (row', attempts)) :
    (row' = row ∧ attempts = []) ∨ ∃ verdict attempt, attempts = [attempt] ∧
      applyDeliveryResult env now correlation row verdict = some (row', attempt) := by
  rw [deliverOutboxRow] at h
  split at h
  · cases h
    exact .inl ⟨rfl, rfl⟩
  · split at h
    · contradiction
    · rename_i verdict _
      obtain ⟨⟨written, attempt⟩, happly, heq⟩ := Option.map_eq_some_iff.mp h
      cases heq
      exact .inr ⟨verdict, attempt, rfl, happly⟩

end Written

/-! ## Every reachable state -/

structure KeyHidden {ι : Type} (env : DeliveryEnv) (s : OutboxState ι) : Prop where
  rows : ∀ id row, s.rows id = some row → Redacted env row.lastError
  attempts : ∀ id, ∀ a ∈ s.attempts id, Redacted env a.errorMessage

namespace KeyHidden

variable {ι : Type} {env : DeliveryEnv} {s s' : OutboxState ι}

theorem setRow (hs : KeyHidden env s) {row : OutboxRow} (h : Redacted env row.lastError) :
    KeyHidden env (s.setRow row) where
  rows := by
    intro id other hother
    simp only [OutboxState.setRow] at hother
    by_cases hid : id = row.id
    · rw [hid, Function.update_self] at hother
      cases hother
      exact h
    · rw [Function.update_of_ne hid] at hother
      exact hs.rows id other hother
  attempts := hs.attempts

theorem addAttempt (hs : KeyHidden env s) (outboxId : Nat) {attempt : DeliveryAttempt}
    (h : Redacted env attempt.errorMessage) : KeyHidden env (s.addAttempt outboxId attempt) where
  rows := hs.rows
  attempts := by
    intro id a ha
    simp only [OutboxState.addAttempt] at ha
    by_cases hid : id = outboxId
    · rw [hid, Function.update_self, List.mem_append, List.mem_singleton] at ha
      rcases ha with ha | rfl
      · exact hs.attempts outboxId a ha
      · exact h
    · rw [Function.update_of_ne hid] at ha
      exact hs.attempts id a ha

variable [DecidableEq ι]

theorem setCall (hs : KeyHidden env s) (i : ι) (call : Call) :
    KeyHidden env (s.setCall i call) := ⟨hs.rows, hs.attempts⟩

theorem recordResult (h : KeyConfigured env) (hs : KeyHidden env s) (i : ι)
    (outboxId snapshotAttempt : Nat) (verdict : Actions.Verdict) (correlation : Correlation) :
    KeyHidden env (s.recordResult env i outboxId snapshotAttempt verdict correlation) := by
  unfold OutboxState.recordResult
  split
  · exact hs.setCall i _
  · split
    · exact hs.setCall i _
    · split
      · exact hs.setCall i _
      · rename_i happly
        obtain ⟨hattempt, hrow⟩ := redacted_of_applyDeliveryResult h happly
        exact ((hs.setCall i _).setRow hrow).addAttempt outboxId hattempt

theorem step (h : KeyConfigured env) (hs : KeyHidden env s) {a : OutboxAction ι}
    (hstep : outboxStep env s a = some s') : KeyHidden env s' := by
  cases outboxChange_of_step hstep with
  | emitted row hfresh =>
      have hnew : KeyHidden env (s.setRow (newOutboxRow s.now row)) := hs.setRow (redacted_nil h)
      exact ⟨hnew.rows, hnew.attempts⟩
  | started i outboxId correlation hidle =>
      unfold OutboxState.startDelivery
      repeat' split
      all_goals exact hs.setCall i _
  | answered i verdict outboxId snapshotAttempt work correlation hcall => exact hs.setCall i _
  | recorded i outboxId snapshotAttempt verdict correlation hcall =>
      exact hs.recordResult h i outboxId snapshotAttempt verdict correlation
  | raised i => exact hs.setCall i _
  | claimed outboxId reference row hrow hpending => exact hs.setRow (hs.rows outboxId row hrow)
  | unclaimed outboxId row hrow => exact hs.setRow (hs.rows outboxId row hrow)
  | unclaimedNone outboxId hrow => exact hs
  | requeued companyId outboxId row hrow hdelivery =>
      have hnew : KeyHidden env
          (s.setRow { row with toActionOutbox := Store.requeued row.toActionOutbox }) :=
        hs.setRow (redacted_nil h)
      exact ⟨hnew.rows, hnew.attempts⟩
  | editedRules rules =>
      refine ⟨?_, ?_⟩
      · intro id row hrow
        exact hs.rows id row (Option.filter_eq_some_iff.mp hrow).1
      · intro id a ha
        dsimp only at ha
        split at ha
        · contradiction
        · exact hs.attempts id a ha
  | waited time => exact ⟨hs.rows, hs.attempts⟩

end KeyHidden

/--
Whatever a call of `deliver_outbox_row` meets, neither the attempt nor the row it
writes shows the key, and so nothing that is stored does in any interleaving of
calls.
-/
theorem key_not_stored {env : DeliveryEnv} (h : KeyConfigured env) :
    (∀ now rules correlation exchange row row' attempts,
      deliverOutboxRow env now rules correlation exchange row = some (row', attempts) →
      (row' = row ∧ attempts = []) ∨
        ¬emailServiceApiKey env <:+: row'.lastError ∧
          ∀ a ∈ attempts, ¬emailServiceApiKey env <:+: a.errorMessage) ∧
    ∀ (ι : Type) [DecidableEq ι] now (as : List (OutboxAction ι)) s,
      (outbox env).run (.initial ι now) as = some s →
      (∀ id row, s.rows id = some row → ¬emailServiceApiKey env <:+: row.lastError) ∧
        ∀ id, ∀ a ∈ s.attempts id, ¬emailServiceApiKey env <:+: a.errorMessage := by
  refine ⟨?_, ?_⟩
  · intro now rules correlation exchange row row' attempts hdeliver
    rcases written_of_deliverOutboxRow hdeliver with hsame | ⟨verdict, attempt, rfl, happly⟩
    · exact .inl hsame
    · obtain ⟨hattempt, hrow⟩ := redacted_of_applyDeliveryResult h happly
      refine .inr ⟨hrow, ?_⟩
      intro a ha
      rw [List.mem_singleton.mp ha]
      exact hattempt
  · intro ι _ now as s hrun
    have hinitial : KeyHidden env (OutboxState.initial ι now) := by
      refine ⟨?_, ?_⟩
      · intro id row hrow
        cases hrow
      · intro id a ha
        cases ha
    have hs := Machine.invariant (fun hs hstep => hs.step h hstep) hrun hinitial
    exact ⟨hs.rows, hs.attempts⟩

def echoed : Exchange :=
  .osError ("esk_k".toList ++ "esk_k".toList)

def emailRow : OutboxRow :=
  newOutboxRow 0 ⟨1, 1, none, .email, [], sampleEnvelope⟩

theorem key_not_stored_echoed :
    ∃ row' attempt, deliverOutboxRow sampleDelivery 0 (fun _ => none) ⟨.dispatch, none⟩ echoed
        emailRow = some (row', [attempt]) ∧
      row'.status = .failed ∧ ¬emailServiceApiKey sampleDelivery <:+: row'.lastError ∧
      ¬emailServiceApiKey sampleDelivery <:+: attempt.errorMessage := by
  have hconfigured : KeyConfigured sampleDelivery := ⟨by decide, by decide, by decide⟩
  obtain ⟨row', attempt, hdeliver, hstatus⟩ : ∃ row' attempt,
      deliverOutboxRow sampleDelivery 0 (fun _ => none) ⟨.dispatch, none⟩ echoed emailRow =
        some (row', [attempt]) ∧ row'.status = .failed := ⟨_, _, rfl, rfl⟩
  rcases (key_not_stored hconfigured).1 _ _ _ _ _ _ _ hdeliver with hsame | ⟨hrow, hattempt⟩
  · exact absurd hsame.2 (List.cons_ne_nil _ _)
  · exact ⟨row', attempt, hdeliver, hstatus, hrow, hattempt attempt List.mem_cons_self⟩

end StorageService.Results
