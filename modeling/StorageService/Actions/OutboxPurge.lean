import StorageService.Actions.Recording
import StorageService.Actions.Retention

/-!
# A purge among deliveries

The part of `purge_expired_data` that is about the outbox, while deliveries,
retries and requeues go on.  A batch is selected by one statement and deleted by
another, and anything may happen between them.
-/

namespace StorageService.Actions

open StorageService.Foundation

structure PurgeCall where
  env : RetentionEnv
  batchSize : Nat

inductive RetentionPhase where
  | idle
  | selecting (kind : DeliveryKind) (call : PurgeCall)
  | deleting (kind : DeliveryKind) (call : PurgeCall) (ids : List Nat)

structure RetentionState (ι : Type) where
  outbox : OutboxState ι
  phase : RetentionPhase

def RetentionState.initial (ι : Type) (now : Nat) : RetentionState ι := ⟨.initial ι now, .idle⟩

inductive RetentionAction (ι : Type) where
  | other (a : OutboxAction ι)
  | start (call : PurgeCall)
  | select (ids : List Nat)
  | delete
  | stop

namespace OutboxState

variable {ι : Type}

def isExpired (s : OutboxState ι) (kind : DeliveryKind) (cutoff : ℤ) (id : Nat) : Bool :=
  (s.rows id).any fun row => expiredDelivery kind cutoff row.toActionOutbox

/-- What a target's query may return: as many of its rows as a batch holds. -/
def isBatch (s : OutboxState ι) (kind : DeliveryKind) (call : PurgeCall) (ids : List Nat) : Bool :=
  decide ids.Nodup && decide (ids.length ≤ call.batchSize) &&
    ids.all (s.isExpired kind (cutoff call.env)) &&
    (decide (ids.length = call.batchSize) ||
      s.issued.all fun id => !s.isExpired kind (cutoff call.env) id || ids.contains id)

end OutboxState

theorem finished_of_isBatch {ι : Type} {outbox : OutboxState ι} {kind : DeliveryKind}
    {call : PurgeCall} {ids : List Nat} (h : outbox.isBatch kind call ids = true) {id : Nat}
    (hid : id ∈ ids) : ∃ row, outbox.rows id = some row ∧ row.status.Final := by
  simp only [OutboxState.isBatch, Bool.and_eq_true] at h
  have hexpired := List.all_eq_true.mp h.1.2 id hid
  unfold OutboxState.isExpired at hexpired
  cases hrow : outbox.rows id with
  | none =>
      rw [hrow] at hexpired
      contradiction
  | some row =>
      refine ⟨row, rfl, ?_⟩
      rw [hrow, Option.any_some] at hexpired
      simp only [expiredDelivery, ActionOutbox.isFinished, Bool.and_eq_true,
        decide_eq_true_eq] at hexpired
      exact hexpired.1.1

def nextTarget (call : PurgeCall) : DeliveryKind → RetentionPhase
  | .webhook => .selecting .email call
  | .email => .idle

section Machine

variable {ι : Type} [DecidableEq ι]

/-- A batch is deleted by its keys alone; the status of a row is not asked for again. -/
def retentionStep (env : DeliveryEnv) (s : RetentionState ι) :
    RetentionAction ι → Option (RetentionState ι)
  | .other a => (outboxStep env s.outbox a).map fun outbox => { s with outbox := outbox }
  | .start call =>
      match s.phase with
      | .idle => some { s with phase := .selecting .webhook call }
      | _ => none
  | .select ids =>
      match s.phase with
      | .selecting kind call =>
          if s.outbox.isBatch kind call ids then
            some { s with
              phase := if ids = [] then nextTarget call kind else .deleting kind call ids }
          else none
      | _ => none
  | .delete =>
      match s.phase with
      | .deleting kind call ids => some ⟨s.outbox.deleteRows ids, .selecting kind call⟩
      | _ => none
  | .stop => some { s with phase := .idle }

def retention (env : DeliveryEnv) : Machine (RetentionState ι) (RetentionAction ι) :=
  ⟨retentionStep env⟩

end Machine

section Steps

variable {ι : Type} [DecidableEq ι] {env : DeliveryEnv} {s s' : RetentionState ι}
  {a : RetentionAction ι}

inductive RetentionChange (env : DeliveryEnv) (s : RetentionState ι) :
    RetentionAction ι → RetentionState ι → Prop where
  | other (a : OutboxAction ι) (outbox : OutboxState ι)
      (h : outboxStep env s.outbox a = some outbox) :
      RetentionChange env s (.other a) { s with outbox := outbox }
  | started (call : PurgeCall) (hidle : s.phase = .idle) :
      RetentionChange env s (.start call) { s with phase := .selecting .webhook call }
  | selected (kind : DeliveryKind) (call : PurgeCall) (ids : List Nat)
      (hphase : s.phase = .selecting kind call) (hbatch : s.outbox.isBatch kind call ids = true) :
      RetentionChange env s (.select ids)
        { s with phase := if ids = [] then nextTarget call kind else .deleting kind call ids }
  | deleted (kind : DeliveryKind) (call : PurgeCall) (ids : List Nat)
      (hphase : s.phase = .deleting kind call ids) :
      RetentionChange env s .delete ⟨s.outbox.deleteRows ids, .selecting kind call⟩
  | stopped : RetentionChange env s .stop { s with phase := .idle }

theorem retentionChange_of_step (h : retentionStep env s a = some s') :
    RetentionChange env s a s' := by
  cases a with
  | other a =>
      obtain ⟨outbox, hstep, rfl⟩ := Option.map_eq_some_iff.mp h
      exact .other a outbox hstep
  | start call =>
      simp only [retentionStep] at h
      split at h
      · rename_i hidle
        cases h
        exact .started call hidle
      · contradiction
  | select ids =>
      simp only [retentionStep] at h
      split at h
      · rename_i kind call hphase
        split at h
        · rename_i hbatch
          cases h
          exact .selected kind call ids hphase hbatch
        · contradiction
      · contradiction
  | delete =>
      simp only [retentionStep] at h
      split at h
      · rename_i kind call ids hphase
        cases h
        exact .deleted kind call ids hphase
      · contradiction
  | stop =>
      cases h
      exact .stopped

end Steps

end StorageService.Actions
