import StorageService.Actions.OutboxPurge
import StorageService.Results.Outbox

/-!
# Deliveries that a purge deletes

A batch was finished when it was selected.  It still is when it is deleted,
unless a row of it was requeued meanwhile.
-/

namespace StorageService.Results

open StorageService.Foundation
open StorageService.Actions

section Purging

variable {ι : Type} {env : DeliveryEnv} {s s' : RetentionState ι} {a : RetentionAction ι}

/-- No row of a batch is requeued between the statements that select and delete the batch. -/
def RequeuesElsewhere (s : RetentionState ι) (a : RetentionAction ι) : Prop :=
  ∀ companyId outboxId, a = .other (.requeue companyId outboxId) →
    ∀ kind call ids, s.phase = .deleting kind call ids → outboxId ∉ ids

structure BatchFinished (env : DeliveryEnv) (s : RetentionState ι) : Prop where
  outbox : s.outbox.Sound env
  batch : ∀ kind call ids, s.phase = .deleting kind call ids → ∀ id ∈ ids,
    id ∈ s.outbox.issued ∧ ∀ row, s.outbox.rows id = some row → row.status.Final

theorem batchFinished_initial (now : Nat) : BatchFinished env (RetentionState.initial ι now) where
  outbox := outboxState_initial_sound env ι now
  batch kind call ids hphase := by cases hphase

variable [DecidableEq ι]

theorem BatchFinished.other (hs : BatchFinished env s) {a : OutboxAction ι}
    {outbox : OutboxState ι} (helsewhere : RequeuesElsewhere s (.other a))
    (hstep : outboxStep env s.outbox a = some outbox) :
    BatchFinished env { s with outbox := outbox } where
  outbox := hs.outbox.step hstep
  batch := by
    intro kind call ids hphase id hid
    obtain ⟨hissued, hfinal⟩ := hs.batch kind call ids hphase id hid
    refine ⟨(past_of_step hstep).2.1 id hissued, ?_⟩
    intro row' hrow'
    obtain ⟨row, hrow, hchange⟩ := rowChange_of_step hs.outbox hstep hissued hrow'
    by_cases hsame : row'.status = row.status
    · rw [hsame]
      exact hfinal row hrow
    · -- only a requeue takes a finished row back
      obtain ⟨companyId, rfl⟩ := (rowChange_kept hs.outbox hrow hchange).2.2 (hfinal row hrow) hsame
      exact absurd hid (helsewhere companyId id rfl kind call ids hphase)

theorem BatchFinished.step (hs : BatchFinished env s) (helsewhere : RequeuesElsewhere s a)
    (h : retentionStep env s a = some s') : BatchFinished env s' := by
  cases retentionChange_of_step h with
  | other a outbox hstep => exact hs.other helsewhere hstep
  | started call hidle =>
      refine ⟨hs.outbox, ?_⟩
      intro kind call ids hphase
      cases hphase
  | selected kind call ids hphase hbatch =>
      refine ⟨hs.outbox, ?_⟩
      intro kind' call' ids' hphase' id hid
      have hids : ids' = ids := by
        dsimp only at hphase'
        split at hphase'
        · cases kind <;> cases hphase'
        · cases hphase'
          rfl
      rw [hids] at hid
      obtain ⟨row, hrow, hfinal⟩ := finished_of_isBatch hbatch hid
      refine ⟨hs.outbox.issued id row hrow, ?_⟩
      intro row' hrow'
      rw [hrow] at hrow'
      cases hrow'
      exact hfinal
  | deleted kind call ids hphase =>
      refine ⟨hs.outbox.deleteRows ids, ?_⟩
      intro kind' call' ids' hphase'
      cases hphase'
  | stopped =>
      refine ⟨hs.outbox, ?_⟩
      intro kind call ids hphase
      cases hphase

/-- The rows that a delete statement takes away are those of its batch. -/
theorem mem_batch_of_delete (h : retentionStep env s .delete = some s') {id : Nat}
    {row : OutboxRow} (hrow : s.outbox.rows id = some row) (hgone : s'.outbox.rows id = none) :
    ∃ kind call ids, s.phase = .deleting kind call ids ∧ id ∈ ids := by
  cases retentionChange_of_step h with
  | deleted kind call ids hphase =>
      refine ⟨kind, call, ids, hphase, ?_⟩
      by_contra hid
      simp [OutboxState.deleteRows, hid, hrow] at hgone

/--
In every run in which no row of a batch is requeued between its selection and
its deletion, whatever else is delivered and requeued meanwhile, a row that a
delete statement takes away is neither pending nor failed at this moment.
-/
theorem finished_of_purge {now : Nat} {as : List (RetentionAction ι)}
    (hrun : (retention env).run (.initial ι now) as = some s)
    (helsewhere : (retention env).Meets RequeuesElsewhere (.initial ι now) as)
    (hdelete : retentionStep env s .delete = some s') {id : Nat} {row : OutboxRow}
    (hrow : s.outbox.rows id = some row) (hgone : s'.outbox.rows id = none) :
    row.status ≠ .pending ∧ row.status ≠ .failed := by
  have hs : BatchFinished env s := Machine.invariant_of_meets
    (fun hs helsewhere hstep => hs.step helsewhere hstep) helsewhere hrun
    (batchFinished_initial now)
  obtain ⟨kind, call, ids, hphase, hid⟩ := mem_batch_of_delete hdelete hrow hgone
  rcases (hs.batch kind call ids hphase id hid).2 row hrow with hstatus | hstatus <;>
    rw [hstatus] <;> decide

end Purging

/-! ## Runs -/

def latePurge : PurgeCall := ⟨⟨30, 40 * day⟩, 2000⟩

def deliveredRow : List (RetentionAction Nat) :=
  [.other (.editRules fun id => if id = 1 then some sampleRule else none),
    .other (.emit ⟨1, 1, some 1, .webhook, [], sampleEnvelope⟩),
    .other (.deliver 0 1 ⟨.dispatch, none⟩),
    .other (.answer 0 (.outcome true (succeededCall none))), .other (.record 0)]

/-- A row is delivered, selected, requeued and deleted. -/
theorem pending_of_purge :
    ∃ s s' row, (retention sampleDelivery).run (.initial Nat 0)
        (deliveredRow ++ [.start latePurge, .select [1], .other (.requeue 1 1)]) = some s ∧
      retentionStep sampleDelivery s .delete = some s' ∧
      s.outbox.rows 1 = some row ∧ row.status = .pending ∧ s'.outbox.rows 1 = none := by
  exact ⟨_, _, _, rfl, rfl, rfl, rfl, rfl⟩

theorem finished_of_purge_delivered :
    ∃ s row, (retention sampleDelivery).run (.initial Nat 0)
        (deliveredRow ++ [.start latePurge, .select [1]]) = some s ∧
      s.outbox.rows 1 = some row ∧ row.status ≠ .pending ∧ row.status ≠ .failed := by
  obtain ⟨s, s', row, hrun, hdelete, hrow, hgone⟩ :
      ∃ s s' row, (retention sampleDelivery).run (.initial Nat 0)
          (deliveredRow ++ [.start latePurge, .select [1]]) = some s ∧
        retentionStep sampleDelivery s .delete = some s' ∧
        s.outbox.rows 1 = some row ∧ s'.outbox.rows 1 = none :=
    ⟨_, _, _, rfl, rfl, rfl, rfl⟩
  refine ⟨s, row, hrun, hrow, finished_of_purge hrun ?_ hdelete hrow hgone⟩
  apply Machine.meets_of_forall
  intro b hb s₁ companyId outboxId hrequeue
  subst hrequeue
  simp [deliveredRow] at hb

end StorageService.Results
