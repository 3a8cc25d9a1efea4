import StorageService.Actions.Outbox

/-!
# The outbox in every interleaving

Every row tells how its attempts went and has not had too many of them, and
what it is about never changes.
-/

namespace StorageService.Results

open StorageService.Foundation
open StorageService.Actions

section Outbox

variable {ι : Type} {env : DeliveryEnv} {s s' : OutboxState ι}

structure SameRows (s s' : OutboxState ι) : Prop where
  issued : ∀ id ∈ s.issued, id ∈ s'.issued
  rows : ∀ id ∈ s.issued, ∀ row', s'.rows id = some row' →
    ∃ row, s.rows id = some row ∧ row'.id = row.id ∧ row'.envelope = row.envelope

theorem SameRows.refl (s : OutboxState ι) : SameRows s s :=
  ⟨fun _ h => h, fun _ _ row h => ⟨row, h, rfl, rfl⟩⟩

theorem SameRows.trans {s₁ : OutboxState ι} (h : SameRows s s₁) (h' : SameRows s₁ s') :
    SameRows s s' where
  issued id hid := h'.issued id (h.issued id hid)
  rows id hid row' hrow' := by
    obtain ⟨row₁, hrow₁, hid₁, henvelope₁⟩ := h'.rows id (h.issued id hid) row' hrow'
    obtain ⟨row, hrow, hid₀, henvelope⟩ := h.rows id hid row₁ hrow₁
    exact ⟨row, hrow, hid₁.trans hid₀, henvelope₁.trans henvelope⟩

theorem rowChange_kept (hs : s.Sound env) {a : OutboxAction ι} {id : Nat} {row row' : OutboxRow}
    (hrow : s.rows id = some row) (h : RowChange env s a id row row') :
    row'.id = row.id ∧ row'.envelope = row.envelope ∧
      (row.status.Final → row'.status ≠ row.status →
        ∃ companyId, a = .requeue companyId id) := by
  cases h with
  | same h =>
      rw [h]
      exact ⟨rfl, rfl, fun _ hne => absurd rfl hne⟩
  | recorded i verdict correlation attempt ha hcall h =>
      -- the call has read the row at this count, so it is open
      have hopen : row.status.Open :=
        ((hs.snapshots i id row.attemptCount (by rw [hcall]; rfl)).2 row hrow).2 rfl
      obtain ⟨error, rfl, -⟩ := applyDeliveryResult_eq_some h
      exact ⟨attemptedRow_id, attemptedRow_envelope,
        fun hfinal => absurd hfinal hopen.not_final⟩
  | claimed reference ha hpending h =>
      rw [h]
      exact ⟨rfl, rfl, fun _ hne => absurd rfl hne⟩
  | unclaimed ha h =>
      rw [h]
      exact ⟨rfl, rfl, fun _ hne => absurd rfl hne⟩
  | requeued companyId ha h =>
      rw [h]
      exact ⟨rfl, rfl, fun _ _ => ⟨companyId, ha⟩⟩

variable [DecidableEq ι]

theorem sameRows_of_step (hs : s.Sound env) {a : OutboxAction ι}
    (h : outboxStep env s a = some s') : SameRows s s' where
  issued := (past_of_step h).2.1
  rows id hid row' hrow' := by
    obtain ⟨row, hrow, hchange⟩ := rowChange_of_step hs h hid hrow'
    obtain ⟨hidRow, henvelope, -⟩ := rowChange_kept hs hrow hchange
    exact ⟨row, hrow, hidRow, henvelope⟩

/-! ## Every reachable state -/

theorem sound_of_run {now : Nat} {as : List (OutboxAction ι)}
    (h : (outbox env).run (.initial ι now) as = some s) : s.Sound env :=
  Machine.invariant (fun hs hstep => hs.step hstep) h (outboxState_initial_sound env ι now)

/--
In every state reached, a row has the attempts it counts, numbered from 1, and
its status tells of the last one; there are no more than the limit and one for
each requeue.  A step takes a row out of delivered or dead only by a requeue,
and whatever runs afterwards, its id and envelope are the same.
-/
theorem outbox_of_run {now : Nat} {as : List (OutboxAction ι)}
    (h : (outbox env).run (.initial ι now) as = some s) :
    (∀ id row, s.rows id = some row →
      row.id = id ∧
      (s.attempts id).length = row.attemptCount ∧
      (s.attempts id).map DeliveryAttempt.attemptNumber = List.range' 1 row.attemptCount ∧
      (row.status = .delivered → row.nextAttemptAt = none ∧
        ∃ a, (s.attempts id).getLast? = some a ∧ a.success = true) ∧
      (row.status = .dead → row.nextAttemptAt = none ∧
        ∃ a, (s.attempts id).getLast? = some a ∧ a.success = false) ∧
      (row.status = .failed →
        ∃ a, (s.attempts id).getLast? = some a ∧ a.success = false ∧
          ∃ delay, 1 ≤ delay ∧ delay ≤ 3600 ∧
            row.nextAttemptAt = some (a.createdAt + delay * second)) ∧
      ((s.attempts id).length : Int) ≤ max 1 env.maxAttempts + s.requeues id) ∧
    (∀ a s', outboxStep env s a = some s' → ∀ id row row',
      s.rows id = some row → s'.rows id = some row' →
      row.status = .delivered ∨ row.status = .dead → row'.status ≠ row.status →
      ∃ companyId, a = .requeue companyId id) ∧
    ∀ bs s', (outbox env).run s bs = some s' → ∀ id row row',
      s.rows id = some row → s'.rows id = some row' →
      row'.id = row.id ∧ row'.envelope = row.envelope := by
  have hs := sound_of_run h
  refine ⟨?_, ?_, ?_⟩
  · intro id row hrow
    have hsound := hs.rows id row hrow
    have hlength : (s.attempts id).length = row.attemptCount := by
      have hmap := congrArg List.length hsound.numbered
      simpa using hmap
    refine ⟨hs.keyed id row hrow, hlength, hsound.numbered, hsound.delivered, hsound.dead,
      hsound.failed, ?_⟩
    rw [hlength]
    by_cases hfinal : row.status.Final
    · exact hsound.finalBound hfinal
    · have hbound := hsound.openBound (DeliveryStatus.open_of_not_final hfinal)
      simp only [attemptLimit] at hbound
      omega
  · intro a s' hstep id row row' hrow hrow' hfinal hne
    obtain ⟨old, hold, hchange⟩ := rowChange_of_step hs hstep (hs.issued id row hrow) hrow'
    rw [hrow] at hold
    cases hold
    exact (rowChange_kept hs hrow hchange).2.2 hfinal hne
  · intro bs s' hrun id row row' hrow hrow'
    have hsame : SameRows s s' :=
      Machine.relates SameRows.refl SameRows.trans (fun hs hstep => hs.step hstep)
        (fun hs hstep => sameRows_of_step hs hstep) hrun hs
    obtain ⟨old, hold, hid, henvelope⟩ := hsame.rows id (hs.issued id row hrow) row' hrow'
    rw [hrow] at hold
    cases hold
    exact ⟨hid, henvelope⟩

/-! ## A run -/

def sampleDelivery : DeliveryEnv where
  maxAttempts := 2
  leaseSeconds := 120
  emailServiceApiKey := ['e', 's', 'k', '_', 'k']
  postgres := true
  decodeUtf8 := latin1
  httpDate := fun _ => none
  errorCode := fun _ => some []
  intError := fun raw => raw
  keyPlain := by decide

def sampleConfig : WebhookConfig := ⟨['u'], ['s'], [], false⟩

def sampleRule : ActionRule := ⟨1, 1, ['n'], [], [], true, sampleConfig⟩

def sampleEnvelope : List (Text × Json) := [(['i', 'd'], .text ['e'])]

def overlapping : List (OutboxAction Nat) :=
  [.editRules fun id => if id = 1 then some sampleRule else none,
    .emit ⟨1, 1, some 1, .webhook, [], sampleEnvelope⟩,
    .deliver 0 1 ⟨.dispatch, none⟩, .claim 1 0, .deliver 1 1 ⟨.automaticRetry, some 1⟩,
    .answer 0 (.outcome true (succeededCall none)), .wait 5, .record 0,
    .answer 1 (.outcome false (failedCall ['t'] false)), .record 1, .requeue 1 1]

theorem outbox_of_run_overlapping :
    ∃ s row, (outbox sampleDelivery).run (.initial Nat 0) overlapping = some s ∧
      s.rows 1 = some row ∧ row.status = .pending ∧ row.attemptCount = 1 ∧
      (s.attempts 1).map DeliveryAttempt.attemptNumber = List.range' 1 row.attemptCount := by
  obtain ⟨s, hrun⟩ : ∃ s, (outbox sampleDelivery).run (.initial Nat 0) overlapping = some s :=
    ⟨_, rfl⟩
  obtain ⟨row, hrow, hstatus, hcount⟩ :
      ∃ row, s.rows 1 = some row ∧ row.status = .pending ∧ row.attemptCount = 1 := by
    have hs := hrun
    cases hs
    exact ⟨_, rfl, rfl, rfl⟩
  exact ⟨s, row, hrun, hrow, hstatus, hcount, ((outbox_of_run hrun).1 1 row hrow).2.2.1⟩

end Outbox

end StorageService.Results
