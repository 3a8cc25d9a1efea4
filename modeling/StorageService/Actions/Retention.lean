import StorageService.Actions.Outbox
import StorageService.Foundation.Removal
import Mathlib.Data.Rat.Lemmas

/-!
# Retention

`purge_expired_data` with the purge of job runs, on tables nobody else writes
meanwhile.  The clock is read before every batch, and the database finds the rows
of a query in any order.
-/

namespace StorageService.Actions

open StorageService.Foundation

def day : ℤ := 86400 * second

def EventLog.Clash (a b : EventLog) : Prop := a.id = b.id

instance : DecidableRel EventLog.Clash := fun _ _ => inferInstanceAs (Decidable (_ = _))

structure ScheduledJobRun where
  id : Nat
  startedAt : Nat

def ScheduledJobRun.Clash (a b : ScheduledJobRun) : Prop := a.id = b.id

structure RetentionTables where
  eventLog : Table EventLog EventLog.Clash
  outbox : Table ActionOutbox ActionOutbox.Clash
  attempts : List (Nat × DeliveryAttempt)
  jobRuns : Table ScheduledJobRun ScheduledJobRun.Clash
  owned : ∀ a ∈ attempts, ∃ row ∈ outbox.rows, row.id = a.1

/-! ## What has expired -/

inductive PurgeLabel where
  | events
  | webhookDeliveries
  | emailEvents
  | scheduledJobRuns
  deriving DecidableEq, Repr

structure RetentionEnv where
  eventLogRetentionDays : ℤ
  now : ℤ

def retentionDays (env : RetentionEnv) : ℤ := max 1 env.eventLogRetentionDays

def runRetentionDays : ℤ := 7

def cutoff (env : RetentionEnv) : ℤ := env.now - retentionDays env * day

def runCutoff (env : RetentionEnv) : ℤ := env.now - runRetentionDays * day

/-- `_FINISHED_DELIVERY` -/
def ActionOutbox.isFinished (row : ActionOutbox) : Bool :=
  decide (row.status = .delivered ∨ row.status = .dead)

def expiredEvent (cutoff : ℤ) (row : EventLog) : Bool := decide ((row.createdAt : ℤ) < cutoff)

def expiredDelivery (kind : DeliveryKind) (cutoff : ℤ) (row : ActionOutbox) : Bool :=
  row.isFinished && decide (row.deliveryKind = kind) && decide ((row.createdAt : ℤ) < cutoff)

def oldRun (cutoff : ℤ) (run : ScheduledJobRun) : Bool := decide ((run.startedAt : ℤ) < cutoff)

def expiredIds (env : RetentionEnv) (t : RetentionTables) : PurgeLabel → List Nat
  | .events => (t.eventLog.rows.filter (expiredEvent (cutoff env))).map EventLog.id
  | .webhookDeliveries =>
      (t.outbox.rows.filter (expiredDelivery .webhook (cutoff env))).map ActionOutbox.id
  | .emailEvents =>
      (t.outbox.rows.filter (expiredDelivery .email (cutoff env))).map ActionOutbox.id
  | .scheduledJobRuns => (t.jobRuns.rows.filter (oldRun (runCutoff env))).map ScheduledJobRun.id

/-! ## Deleting by primary key -/

namespace RetentionTables

def deleteEvents (t : RetentionTables) (ids : List Nat) : RetentionTables :=
  { t with eventLog := t.eventLog.delete fun row => ids.contains row.id }

def deleteOutbox (t : RetentionTables) (ids : List Nat) : RetentionTables where
  eventLog := t.eventLog
  outbox := t.outbox.delete fun row => ids.contains row.id
  attempts := t.attempts.filter fun a => !ids.contains a.1
  jobRuns := t.jobRuns
  owned := by
    intro a ha
    obtain ⟨hmem, hkept⟩ := List.mem_filter.mp ha
    obtain ⟨row, hrow, hid⟩ := t.owned a hmem
    refine ⟨row, ?_, hid⟩
    rw [Table.rows_delete, List.mem_filter, hid]
    exact ⟨hrow, hkept⟩

def deleteRuns (t : RetentionTables) (ids : List Nat) : RetentionTables :=
  { t with jobRuns := t.jobRuns.delete fun run => ids.contains run.id }

def deleteIds (t : RetentionTables) (ids : List Nat) : PurgeLabel → RetentionTables
  | .events => t.deleteEvents ids
  | .webhookDeliveries | .emailEvents => t.deleteOutbox ids
  | .scheduledJobRuns => t.deleteRuns ids

end RetentionTables

theorem expiredIds_deleteIds (env : RetentionEnv) (t : RetentionTables) (ids : List Nat)
    (label : PurgeLabel) :
    expiredIds env (t.deleteIds ids label) label =
      (expiredIds env t label).filter fun id => !ids.contains id := by
  cases label <;>
    simp only [expiredIds, RetentionTables.deleteIds, RetentionTables.deleteEvents,
      RetentionTables.deleteOutbox, RetentionTables.deleteRuns, Table.rows_delete,
      List.filter_map, List.filter_filter, Function.comp_def, Bool.and_comm]

/-! ## The loops -/

/-- The readings of the clock, and the order in which the rows of a query come. -/
structure BatchEnv where
  monotonic : Nat → ℚ
  scan : Nat → List Nat → List Nat
  scan_perm : ∀ n ids, (scan n ids).Perm ids

structure BatchResult where
  deleted : Nat
  finished : Bool
  tables : RetentionTables
  readings : Nat

def batchIds (w : BatchEnv) (env : RetentionEnv) (label : PurgeLabel) (batchSize : Nat)
    (t : RetentionTables) (readings : Nat) : List Nat :=
  (w.scan readings (expiredIds env t label)).take batchSize

theorem mem_of_mem_batchIds {w : BatchEnv} {env : RetentionEnv} {label : PurgeLabel}
    {batchSize : Nat} {t : RetentionTables} {readings id : Nat}
    (h : id ∈ batchIds w env label batchSize t readings) : id ∈ expiredIds env t label :=
  (w.scan_perm readings (expiredIds env t label)).mem_iff.mp (List.mem_of_mem_take h)

/-- `_delete_in_batches`, and `purge_old_runs` for the runs. -/
def deleteInBatches (w : BatchEnv) (env : RetentionEnv) (label : PurgeLabel) (batchSize : Nat)
    (deadline : Option ℚ) (t : RetentionTables) (readings deleted : Nat) : BatchResult :=
  if deadline.any fun limit => decide (limit ≤ w.monotonic readings) then
    ⟨deleted, false, t, readings + 1⟩
  else if hids : batchIds w env label batchSize t readings = [] then
    ⟨deleted, true, t, readings + 1⟩
  else
    deleteInBatches w env label batchSize deadline
      (t.deleteIds (batchIds w env label batchSize t readings) label) (readings + 1)
      (deleted + (batchIds w env label batchSize t readings).length)
termination_by (expiredIds env t label).length
decreasing_by
  rw [expiredIds_deleteIds]
  apply List.length_filter_lt_length_iff_exists.mpr
  obtain ⟨id, hid⟩ := List.exists_mem_of_ne_nil _ hids
  exact ⟨id, mem_of_mem_batchIds hid, by simpa using hid⟩

structure PurgeStats where
  counts : PurgeLabel → Nat
  complete : Bool

structure PurgeResult where
  stats : PurgeStats
  tables : RetentionTables

def purgeTargets (w : BatchEnv) (env : RetentionEnv) (batchSize : Nat) (deadline : Option ℚ) :
    List PurgeLabel → (PurgeLabel → Nat) → RetentionTables → Nat → PurgeResult
  | [], counts, t, _ => ⟨⟨counts, true⟩, t⟩
  | label :: labels, counts, t, readings =>
      let result := deleteInBatches w env label batchSize deadline t readings 0
      let counts := Function.update counts label result.deleted
      if result.finished then
        purgeTargets w env batchSize deadline labels counts result.tables result.readings
      else ⟨⟨counts, false⟩, result.tables⟩

/-- The targets of `_PURGE_TARGETS`, and the job runs, which come last. -/
def purgeLabels : List PurgeLabel := [.events, .webhookDeliveries, .emailEvents, .scheduledJobRuns]

def purgeExpiredData (w : BatchEnv) (env : RetentionEnv) (batchSize : Nat)
    (maxSeconds : Option ℚ) (dryRun : Bool) (t : RetentionTables) : PurgeResult :=
  -- no limit and a limit of 0 are the same
  let deadline := (maxSeconds.filter fun limit => decide (limit ≠ 0)).map (w.monotonic 0 + ·)
  if dryRun then ⟨⟨fun label => (expiredIds env t label).length, true⟩, t⟩
  else purgeTargets w env batchSize deadline purgeLabels (fun _ => 0) t 1

end StorageService.Actions
