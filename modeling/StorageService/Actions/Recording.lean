import StorageService.Actions.Retries

/-!
# The totals of retry runs

What `retry_pending_webhooks` counts while runs go on beside each other: the
results its workers bring back are merged into its totals until it returns
them, and the attempts that were made are in a table of their own.  An attempt
is kept here with the row as the attempt left it and the call that made it.
-/

namespace StorageService.Actions

open StorageService.Foundation

/-! ## The totals of a run -/

inductive Total where
  | processed
  | delivered
  | retried
  | dead
  deriving DecidableEq, Repr

structure StatKey where
  total : Total
  email : Bool
  deriving DecidableEq, Repr

abbrev RetryStats := StatKey → Nat

def emptyRetryStats : RetryStats := fun _ => 0

def Total.counts (before after : DeliveryStatus) : Total → Bool
  | .processed => true
  | .delivered => decide (after = .delivered)
  | .dead => decide (after = .dead)
  | .retried =>
      decide (after = .failed) ||
        (decide (after = .pending) && decide (before = .pending ∨ before = .failed))

def StatKey.counts (key : StatKey) (before : DeliveryStatus) (after : OutboxRow) : Bool :=
  key.total.counts before after.status && (!key.email || decide (after.deliveryKind = .email))

def summarizeDeliveryResult (before : DeliveryStatus) : Option OutboxRow → RetryStats
  | none, _ => 0
  | some after, key => if key.counts before after then 1 else 0

/-! ## The state -/

structure StoredAttempt (ι : Type) where
  call : ι
  left : OutboxRow
  attempt : DeliveryAttempt

structure RecordedState (ι ρ : Type) where
  retry : RetryState ι ρ
  /-- The ids of the runs that were recorded. -/
  jobRuns : List Nat
  beforeStatus : ι → DeliveryStatus
  /-- What `deliver_outbox_row` has returned; nothing while it runs or where it raised. -/
  results : ι → Option (Option OutboxRow)
  stored : List (StoredAttempt ι)
  stats : ρ → RetryStats
  returned : ρ → Bool

inductive RecordedAction (ι ρ : Type) where
  | retry (a : RetryAction ι ρ)
  | finish (r : ρ)
  /-- Rows are deleted with their attempts, as expired or with their company. -/
  | delete (outboxIds : List Nat)

def Call.isReturned : Call → Bool
  | .returned => true
  | _ => false

def OutboxState.deleteRows {ι : Type} (s : OutboxState ι) (outboxIds : List Nat) :
    OutboxState ι :=
  { s with
    rows := fun id => if id ∈ outboxIds then none else s.rows id
    attempts := fun id => if id ∈ outboxIds then [] else s.attempts id }

namespace RecordedState

variable {ι ρ : Type}

def initial (ι ρ : Type) (now : Nat) : RecordedState ι ρ where
  retry := .initial ι ρ now
  jobRuns := []
  beforeStatus := fun _ => .pending
  results := fun _ => none
  stored := []
  stats := fun _ => emptyRetryStats
  returned := fun _ => false

def dropAttempts (s : RecordedState ι ρ) (gone : Nat → Bool) : RecordedState ι ρ :=
  { s with stored := s.stored.filter fun e => !gone e.left.id }

def goesWith (s : RecordedState ι ρ) (rules : Nat → Option ActionRule) (outboxId : Nat) : Bool :=
  (s.retry.outbox.rows outboxId).any fun row => row.toActionOutbox.orphaned rules

/--
A recorded run has an id of its own and is no dry run; merging takes a result,
which counts where there is a row; a dispatched delivery has no run.
-/
def permits (s : RecordedState ι ρ) : RetryAction ι ρ → Bool
  | .start _ parameters =>
      parameters.scheduledJobRunId.all fun id =>
        !parameters.dryRun && !s.jobRuns.contains id
  | .merge r worker counted =>
      !s.returned r && decide ((s.results worker).map Option.isSome = some counted)
  | .other (.deliver _ _ correlation) => decide (correlation = ⟨.dispatch, none⟩)
  | _ => true

/-- The loop was left, and the pool is shut down; a lone worker is always waited for. -/
def mayReturn (s : RecordedState ι ρ) (r : ρ) : Bool :=
  match (s.retry.runs r).phase with
  | .stopped =>
      !s.returned r &&
        (s.retry.runs r).inFlight.all (fun i => (s.retry.outbox.calls i).isReturned) &&
        ((s.retry.runs r).inFlight.isEmpty ||
          (decide (1 < (s.retry.runs r).workers) &&
            decide ((s.retry.runs r).deadline ≤ s.retry.outbox.now)))
  | _ => false

variable [DecidableEq ι]

def setResult (s : RecordedState ι ρ) (i : ι) (result : Option OutboxRow) :
    RecordedState ι ρ :=
  { s with results := Function.update s.results i (some result) }

/-- The first transaction of a call, which returns a row that is finished or has gone. -/
def startDelivery (s : RecordedState ι ρ) (i : ι) (outboxId : Nat) : RecordedState ι ρ :=
  match s.retry.outbox.rows outboxId with
  | none => s.setResult i none
  | some row =>
      if row.status = .delivered ∨ row.status = .dead then s.setResult i (some row) else s

/-- The second transaction of a call, which returns a row that has moved on as it is. -/
def recordResult (env : DeliveryEnv) (s : RecordedState ι ρ) (i : ι) : RecordedState ι ρ :=
  match s.retry.outbox.calls i with
  | .answered outboxId snapshotAttempt verdict correlation =>
      match s.retry.outbox.rows outboxId with
      | none => s
      | some row =>
          if row.attemptCount ≠ snapshotAttempt then s.setResult i (some row)
          else
            match applyDeliveryResult env s.retry.outbox.now correlation row verdict with
            | none => s
            | some (row', attempt) =>
                { s.setResult i (some row') with stored := s.stored ++ [⟨i, row', attempt⟩] }
  | _ => s

variable [DecidableEq ρ]

def addStats (s : RecordedState ι ρ) (r : ρ) (delta : RetryStats) : RecordedState ι ρ :=
  { s with stats := Function.update s.stats r fun key => s.stats r key + delta key }

def dryDelta (row : OutboxRow) : RetryStats := fun key =>
  if key.total = .processed ∧ (key.email = true → row.deliveryKind = .email) then 1 else 0

def claimRow (s : RecordedState ι ρ) (r : ρ) (worker : ι) (outboxId : Nat) :
    RecordedState ι ρ :=
  match s.retry.outbox.rows outboxId with
  | none => s
  | some row =>
      let s := { s with beforeStatus := Function.update s.beforeStatus worker row.status }
      if (s.retry.runs r).dryRun then s.addStats r (dryDelta row) else s

def follow (env : DeliveryEnv) (s : RecordedState ι ρ) :
    RetryAction ι ρ → RecordedState ι ρ
  | .start r parameters =>
      { s with
        jobRuns := parameters.scheduledJobRunId.toList ++ s.jobRuns
        stats := Function.update s.stats r emptyRetryStats }
  | .claim r worker outboxId => s.claimRow r worker outboxId
  | .work worker =>
      match s.retry.claims.find? fun c => decide (c.worker = worker) && !c.dryRun with
      | some c => s.startDelivery worker c.outboxId
      | none => s
  | .merge r worker _ =>
      match s.results worker with
      | some after => s.addStats r (summarizeDeliveryResult (s.beforeStatus worker) after)
      | none => s
  | .other (.record i) => s.recordResult env i
  | .other (.editRules rules) => s.dropAttempts (s.goesWith rules)
  | _ => s

def withRetry (s : RecordedState ι ρ) (retry : RetryState ι ρ) : RecordedState ι ρ :=
  { s with retry := retry }

end RecordedState

section Machine

variable {ι ρ : Type} [DecidableEq ι] [DecidableEq ρ]

def recordedStep (env : DeliveryEnv) (s : RecordedState ι ρ) :
    RecordedAction ι ρ → Option (RecordedState ι ρ)
  | .retry a =>
      if s.permits a then (retryStep env s.retry a).map (s.follow env a).withRetry else none
  | .finish r =>
      if s.mayReturn r then some { s with returned := Function.update s.returned r true }
      else none
  | .delete outboxIds =>
      some ((s.dropAttempts outboxIds.contains).withRetry
        { s.retry with outbox := s.retry.outbox.deleteRows outboxIds })

def recordedRetries (env : DeliveryEnv) : Machine (RecordedState ι ρ) (RecordedAction ι ρ) :=
  ⟨recordedStep env⟩

end Machine

theorem OutboxState.Sound.deleteRows {ι : Type} {env : DeliveryEnv} {s : OutboxState ι}
    (hs : s.Sound env) (outboxIds : List Nat) : (s.deleteRows outboxIds).Sound env := by
  have hkept : ∀ {id : Nat} {row : OutboxRow}, (s.deleteRows outboxIds).rows id = some row →
      id ∉ outboxIds ∧ s.rows id = some row := by
    intro id row h
    simp only [OutboxState.deleteRows] at h
    split at h
    · contradiction
    · rename_i hid
      exact ⟨hid, h⟩
  refine ⟨?_, ?_, ?_, ?_, ?_⟩
  · intro id row h
    exact hs.keyed id row (hkept h).2
  · intro id row h
    obtain ⟨hid, hrow⟩ := hkept h
    simp only [OutboxState.deleteRows, if_neg hid]
    exact hs.rows id row hrow
  · intro id row h
    exact hs.issued id row (hkept h).2
  · intro id h
    obtain ⟨hattempts, hrequeues⟩ := hs.unissued id h
    refine ⟨?_, hrequeues⟩
    simp only [OutboxState.deleteRows, hattempts, ite_self]
  · intro i id snapshotAttempt h
    obtain ⟨hissued, hrows⟩ := hs.snapshots i id snapshotAttempt h
    exact ⟨hissued, fun row hrow => hrows row (hkept hrow).2⟩

/-! ## What an action leaves as it is -/

namespace RecordedState

variable {ι ρ : Type} [DecidableEq ι] {env : DeliveryEnv} {s : RecordedState ι ρ}

theorem startDelivery_kept (i : ι) (outboxId : Nat) :
    (s.startDelivery i outboxId).returned = s.returned ∧
      (s.startDelivery i outboxId).jobRuns = s.jobRuns := by
  simp only [startDelivery]
  repeat' split
  all_goals exact ⟨rfl, rfl⟩

theorem recordResult_kept (i : ι) :
    (s.recordResult env i).returned = s.returned ∧
      (s.recordResult env i).jobRuns = s.jobRuns := by
  simp only [recordResult]
  repeat' split
  all_goals exact ⟨rfl, rfl⟩

variable [DecidableEq ρ]

theorem claimRow_kept (r : ρ) (worker : ι) (outboxId : Nat) :
    (s.claimRow r worker outboxId).returned = s.returned ∧
      (s.claimRow r worker outboxId).jobRuns = s.jobRuns ∧
      (s.claimRow r worker outboxId).stored = s.stored ∧
      (s.claimRow r worker outboxId).results = s.results := by
  simp only [claimRow]
  repeat' split
  all_goals exact ⟨rfl, rfl, rfl, rfl⟩

theorem claimRow_stats {r r' : ρ} (h : r' = r → (s.retry.runs r).dryRun = false) (worker : ι)
    (outboxId : Nat) : (s.claimRow r worker outboxId).stats r' = s.stats r' := by
  simp only [claimRow]
  split
  · rfl
  · split
    · rename_i hdryRun
      refine Function.update_of_ne ?_ _ _
      intro hsame
      simp only [h hsame, Bool.false_eq_true] at hdryRun
    · rfl

theorem follow_returned (a : RetryAction ι ρ) : (s.follow env a).returned = s.returned := by
  cases a with
  | claim r worker outboxId => exact (s.claimRow_kept r worker outboxId).1
  | work worker =>
      simp only [follow]
      split
      · exact (s.startDelivery_kept worker _).1
      · rfl
  | merge r worker counted =>
      simp only [follow]
      split <;> rfl
  | other a =>
      cases a with
      | record i => exact (s.recordResult_kept i).1
      | _ => rfl
  | _ => rfl

theorem follow_jobRuns {a : RetryAction ι ρ} (h : ∀ r parameters, a ≠ .start r parameters) :
    (s.follow env a).jobRuns = s.jobRuns := by
  cases a with
  | start r parameters => exact absurd rfl (h r parameters)
  | claim r worker outboxId => exact (s.claimRow_kept r worker outboxId).2.1
  | work worker =>
      simp only [follow]
      split
      · exact (s.startDelivery_kept worker _).2
      · rfl
  | merge r worker counted =>
      simp only [follow]
      split <;> rfl
  | other a =>
      cases a with
      | record i => exact (s.recordResult_kept i).2
      | _ => rfl
  | _ => rfl

theorem follow_stored {a : RetryAction ι ρ} (hrecord : ∀ i, a ≠ .other (.record i))
    (hrules : ∀ rules, a ≠ .other (.editRules rules)) :
    (s.follow env a).stored = s.stored := by
  cases a with
  | claim r worker outboxId => exact (s.claimRow_kept r worker outboxId).2.2.1
  | work worker =>
      simp only [follow, startDelivery]
      repeat' split
      all_goals rfl
  | merge r worker counted =>
      simp only [follow]
      split <;> rfl
  | other a =>
      cases a with
      | record i => exact absurd rfl (hrecord i)
      | editRules rules => exact absurd rfl (hrules rules)
      | _ => rfl
  | _ => rfl

end RecordedState

/-- Attempts are made by records, and deleted with rules. -/
theorem attempts_of_step {ι : Type} [DecidableEq ι] {env : DeliveryEnv} {s s' : OutboxState ι}
    {a : OutboxAction ι} (h : outboxStep env s a = some s') (hrecord : ∀ i, a ≠ .record i)
    (hrules : ∀ rules, a ≠ .editRules rules) : s'.attempts = s.attempts := by
  cases outboxChange_of_step h with
  | started i outboxId correlation hidle =>
      simp only [OutboxState.startDelivery]
      repeat' split
      all_goals rfl
  | recorded i => exact absurd rfl (hrecord i)
  | editedRules rules => exact absurd rfl (hrules rules)
  | emitted | answered | raised | claimed | unclaimed | unclaimedNone | requeued | waited => rfl

/-! ## What a step does to a call -/

def Call.correlation? : Call → Option Correlation
  | .calling _ _ _ correlation | .answered _ _ _ correlation => some correlation
  | .idle | .returned => none

section Calls

variable {ι : Type} [DecidableEq ι] {env : DeliveryEnv} {s s' : OutboxState ι}

theorem correlation_setCall {i j : ι} {call : Call} {correlation : Correlation}
    (h : ((s.setCall j call).calls i).correlation? = some correlation) :
    (s.calls i).correlation? = some correlation ∨
      i = j ∧ call.correlation? = some correlation := by
  by_cases hsame : i = j
  · subst hsame
    simp only [OutboxState.setCall, Function.update_self] at h
    exact .inr ⟨rfl, h⟩
  · simp only [OutboxState.setCall, Function.update_of_ne hsame] at h
    exact .inl h

theorem correlation_of_step {a : OutboxAction ι} (h : outboxStep env s a = some s') {i : ι}
    {correlation : Correlation} (hcall : (s'.calls i).correlation? = some correlation) :
    (s.calls i).correlation? = some correlation ∨
      ∃ outboxId, a = .deliver i outboxId correlation := by
  cases outboxChange_of_step h with
  | started j outboxId started hidle =>
      have hset : (s.calls i).correlation? = some correlation ∨
          i = j ∧ correlation = started := by
        simp only [OutboxState.startDelivery] at hcall
        repeat' split at hcall
        all_goals
          rcases correlation_setCall hcall with hold | ⟨hsame, hnew⟩
          · exact .inl hold
          · simp only [Call.correlation?, Option.some.injEq, reduceCtorEq] at hnew
            try exact .inr ⟨hsame, hnew.symm⟩
      rcases hset with hold | ⟨rfl, rfl⟩
      · exact .inl hold
      · exact .inr ⟨outboxId, rfl⟩
  | answered j verdict outboxId snapshotAttempt work answered hanswered =>
      rcases correlation_setCall hcall with hold | ⟨rfl, hnew⟩
      · exact .inl hold
      · exact .inl (by rw [hanswered]; exact hnew)
  | recorded j outboxId snapshotAttempt verdict recorded hrecorded =>
      simp only [OutboxState.recordResult] at hcall
      repeat' split at hcall
      all_goals
        rcases correlation_setCall hcall with hold | ⟨-, hnew⟩
        · exact .inl hold
        · cases hnew
  | raised j =>
      rcases correlation_setCall hcall with hold | ⟨-, hnew⟩
      · exact .inl hold
      · cases hnew
  | emitted | claimed | unclaimed | unclaimedNone | requeued | editedRules | waited =>
      exact .inl hcall

end Calls

end StorageService.Actions
