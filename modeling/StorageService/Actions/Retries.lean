import StorageService.Actions.Outbox

/-!
# Overlapping retry runs

`retry_pending_webhooks` over the outbox: a run keeps the time at which it
started, claims one row after the other while its loop goes on, and hands each
to a worker.  Any number of runs go on at once, beside the other uses of the
outbox.
-/

namespace StorageService.Actions

open StorageService.Foundation

def DeliveryEnv.lease (env : DeliveryEnv) : Nat := env.leaseSeconds * second

structure RetryParameters where
  batchSize : Int
  /-- `max_seconds`, in microseconds. -/
  maxMicroseconds : Int
  concurrency : Int
  dryRun : Bool
  now : Option Nat
  scheduledJobRunId : Option Nat

inductive RunPhase (ι : Type) where
  | idle
  | looping
  /-- The loop's conditions held; the next row is to be claimed. -/
  | claiming
  /-- A dry run is to give its row back. -/
  | resetting (worker : ι) (outboxId : Nat)
  | stopped

structure RetryRun (ι : Type) where
  phase : RunPhase ι
  reference : Nat
  deadline : Nat
  batchSize : Int
  workers : Nat
  dryRun : Bool
  scheduledJobRunId : Option Nat
  processed : Nat
  inFlight : List ι

namespace RetryRun

def idle (ι : Type) : RetryRun ι := ⟨.idle, 0, 0, 0, 0, false, none, 0, []⟩

def begin (ι : Type) (now : Nat) (parameters : RetryParameters) : RetryRun ι where
  phase := .looping
  reference := parameters.now.getD now
  deadline := now + (max 100000 parameters.maxMicroseconds).toNat
  batchSize := parameters.batchSize
  workers := (max 1 parameters.concurrency).toNat
  dryRun := parameters.dryRun
  scheduledJobRunId := parameters.scheduledJobRunId
  processed := 0
  inFlight := []

def goesOn {ι : Type} (run : RetryRun ι) (now : Nat) : Bool :=
  decide ((run.processed : Int) < run.batchSize) && decide (now < run.deadline) &&
    decide (run.inFlight.length < run.workers)

end RetryRun

/-- A claim that was made; in a dry run its worker is none that delivers. -/
structure Claim (ι : Type) where
  worker : ι
  outboxId : Nat
  reference : Nat
  claimedAt : Nat
  dryRun : Bool
  scheduledJobRunId : Option Nat

structure RetryState (ι ρ : Type) where
  outbox : OutboxState ι
  runs : ρ → RetryRun ι
  claims : List (Claim ι)

inductive RetryAction (ι ρ : Type) where
  | start (r : ρ) (parameters : RetryParameters)
  | check (r : ρ)
  | claim (r : ρ) (worker : ι) (outboxId : Nat)
  /-- There was no row to claim. -/
  | claimNone (r : ρ)
  /-- A worker starts on the row that was claimed for it. -/
  | work (worker : ι)
  /-- The result of a worker is merged; it does not count where the row has gone. -/
  | merge (r : ρ) (worker : ι) (counted : Bool)
  | reset (r : ρ)
  /-- The loop is left, or an exception leaves it. -/
  | stop (r : ρ)
  | other (a : OutboxAction ι)

namespace RetryState

variable {ι ρ : Type}

def initial (ι ρ : Type) (now : Nat) : RetryState ι ρ where
  outbox := .initial ι now
  runs := fun _ => .idle ι
  claims := []

/-- The worker has not come back from its delivery, nor a dry run from giving the row back. -/
def Unfinished (s : RetryState ι ρ) (c : Claim ι) : Prop := s.outbox.calls c.worker ≠ .returned

variable [DecidableEq ι]

def isWorker (s : RetryState ι ρ) (i : ι) : Bool := s.claims.any fun c => decide (c.worker = i)

theorem isWorker_iff {s : RetryState ι ρ} {i : ι} :
    s.isWorker i = true ↔ ∃ c ∈ s.claims, c.worker = i := by
  simp only [isWorker, List.any_eq_true, decide_eq_true_eq]

theorem isWorker_eq_false_iff {s : RetryState ι ρ} {i : ι} :
    s.isWorker i = false ↔ ∀ c ∈ s.claims, c.worker ≠ i := by
  simp only [isWorker, List.any_eq_false, decide_eq_true_eq, ne_eq]

/-- What goes on beside the runs; rows are claimed by runs only. -/
def foreign (s : RetryState ι ρ) : OutboxAction ι → Bool
  | .deliver i _ _ => !s.isWorker i
  | .claim _ _ | .unclaim _ => false
  | _ => true

variable [DecidableEq ρ]

def setRun (s : RetryState ι ρ) (r : ρ) (run : RetryRun ι) : RetryState ι ρ :=
  { s with runs := Function.update s.runs r run }

omit [DecidableEq ι] in
@[simp] theorem setRun_runs_self (s : RetryState ι ρ) (r : ρ) (run : RetryRun ι) :
    (s.setRun r run).runs r = run :=
  Function.update_self _ _ _

omit [DecidableEq ι] in
theorem setRun_runs_of_ne (s : RetryState ι ρ) {r r' : ρ} (h : r' ≠ r) (run : RetryRun ι) :
    (s.setRun r run).runs r' = s.runs r' :=
  Function.update_of_ne h _ _

omit [DecidableEq ι] in
theorem setRun_scheduledJobRunId (s : RetryState ι ρ) {r : ρ} {run : RetryRun ι}
    (h : run.scheduledJobRunId = (s.runs r).scheduledJobRunId) (r' : ρ) :
    ((s.setRun r run).runs r').scheduledJobRunId = (s.runs r').scheduledJobRunId := by
  by_cases hsame : r' = r
  · subst hsame
    rwa [setRun_runs_self]
  · rw [setRun_runs_of_ne s hsame]

omit [DecidableEq ι] in
theorem setRun_dryRun (s : RetryState ι ρ) {r : ρ} {run : RetryRun ι}
    (h : run.dryRun = (s.runs r).dryRun) (r' : ρ) :
    ((s.setRun r run).runs r').dryRun = (s.runs r').dryRun := by
  by_cases hsame : r' = r
  · subst hsame
    rwa [setRun_runs_self]
  · rw [setRun_runs_of_ne s hsame]

def claimed (s : RetryState ι ρ) (r : ρ) (worker : ι) (outboxId : Nat)
    (outbox : OutboxState ι) : RetryState ι ρ :=
  let run := s.runs r
  { outbox := outbox
    runs := Function.update s.runs r <|
      if run.dryRun then
        { run with phase := .resetting worker outboxId, processed := run.processed + 1 }
      else { run with phase := .looping, inFlight := worker :: run.inFlight }
    claims :=
      ⟨worker, outboxId, run.reference, s.outbox.now, run.dryRun, run.scheduledJobRunId⟩ ::
        s.claims }

section Claimed

variable (s : RetryState ι ρ) (r r' : ρ) (worker : ι) (outboxId : Nat) (outbox : OutboxState ι)

omit [DecidableEq ι] in
@[simp] theorem claimed_scheduledJobRunId :
    ((s.claimed r worker outboxId outbox).runs r').scheduledJobRunId =
      (s.runs r').scheduledJobRunId := by
  by_cases hsame : r' = r
  · subst hsame
    simp only [claimed, Function.update_self]
    split <;> rfl
  · simp only [claimed, Function.update_of_ne hsame]

omit [DecidableEq ι] in
@[simp] theorem claimed_dryRun :
    ((s.claimed r worker outboxId outbox).runs r').dryRun = (s.runs r').dryRun := by
  by_cases hsame : r' = r
  · subst hsame
    simp only [claimed, Function.update_self]
    split <;> rfl
  · simp only [claimed, Function.update_of_ne hsame]

omit [DecidableEq ι] in
theorem claimed_inFlight :
    ((s.claimed r worker outboxId outbox).runs r').inFlight =
      if r' = r ∧ (s.runs r').dryRun = false then worker :: (s.runs r').inFlight
      else (s.runs r').inFlight := by
  by_cases hsame : r' = r
  · subst hsame
    cases hdry : (s.runs r').dryRun <;> simp [claimed, hdry]
  · simp [claimed, hsame]

variable {r r' worker outboxId outbox} in
omit [DecidableEq ι] in
theorem mem_claimed_inFlight {i : ι} (hi : i ∈ (s.runs r').inFlight) :
    i ∈ ((s.claimed r worker outboxId outbox).runs r').inFlight := by
  rw [claimed_inFlight]
  split
  · exact List.mem_cons_of_mem _ hi
  · exact hi

end Claimed

end RetryState

section Machine

variable {ι ρ : Type} [DecidableEq ι] [DecidableEq ρ]

def retryStep (env : DeliveryEnv) (s : RetryState ι ρ) :
    RetryAction ι ρ → Option (RetryState ι ρ)
  | .start r parameters =>
      match (s.runs r).phase with
      | .idle => some (s.setRun r (.begin ι s.outbox.now parameters))
      | _ => none
  | .check r =>
      match (s.runs r).phase with
      | .looping =>
          if (s.runs r).goesOn s.outbox.now then
            some (s.setRun r { s.runs r with phase := .claiming })
          else none
      | _ => none
  | .claim r worker outboxId =>
      match (s.runs r).phase, s.outbox.calls worker, s.isWorker worker with
      | .claiming, .idle, false =>
          (outboxStep env s.outbox (.claim outboxId (s.runs r).reference)).map
            (s.claimed r worker outboxId)
      | _, _, _ => none
  | .claimNone r =>
      match (s.runs r).phase with
      | .claiming =>
          some (s.setRun r { s.runs r with
            phase := if (s.runs r).inFlight.isEmpty then .stopped else .looping })
      | _ => none
  | .work worker =>
      match s.claims.find? fun c => decide (c.worker = worker) && !c.dryRun with
      | some c =>
          (outboxStep env s.outbox
            (.deliver worker c.outboxId ⟨.automaticRetry, c.scheduledJobRunId⟩)).map
            fun outbox => { s with outbox := outbox }
      | none => none
  | .merge r worker counted =>
      match s.outbox.calls worker with
      | .returned =>
          if worker ∈ (s.runs r).inFlight then
            some (s.setRun r { s.runs r with
              inFlight := (s.runs r).inFlight.erase worker
              processed := (s.runs r).processed + if counted then 1 else 0 })
          else none
      | _ => none
  | .reset r =>
      match (s.runs r).phase with
      | .resetting worker outboxId =>
          (outboxStep env s.outbox (.unclaim outboxId)).map fun outbox =>
            { s with outbox := outbox.setCall worker .returned }.setRun r
              { s.runs r with phase := .looping }
      | _ => none
  | .stop r => some (s.setRun r { s.runs r with phase := .stopped })
  | .other a =>
      if s.foreign a then
        (outboxStep env s.outbox a).map fun outbox => { s with outbox := outbox }
      else none

def retries (env : DeliveryEnv) : Machine (RetryState ι ρ) (RetryAction ι ρ) := ⟨retryStep env⟩

end Machine

/-! ## What a step does -/

section Steps

variable {ι ρ : Type} [DecidableEq ι] [DecidableEq ρ]

inductive RetryChange (env : DeliveryEnv) (s : RetryState ι ρ) :
    RetryAction ι ρ → RetryState ι ρ → Prop where
  | started (r : ρ) (parameters : RetryParameters) (hidle : (s.runs r).phase = .idle) :
      RetryChange env s (.start r parameters) (s.setRun r (.begin ι s.outbox.now parameters))
  | checked (r : ρ) (hphase : (s.runs r).phase = .looping)
      (hgoesOn : (s.runs r).goesOn s.outbox.now = true) :
      RetryChange env s (.check r) (s.setRun r { s.runs r with phase := .claiming })
  | claimed (r : ρ) (worker : ι) (outboxId : Nat) (outbox : OutboxState ι)
      (hphase : (s.runs r).phase = .claiming) (hidle : s.outbox.calls worker = .idle)
      (hworker : s.isWorker worker = false)
      (houtbox : outboxStep env s.outbox (.claim outboxId (s.runs r).reference) =
        some outbox) :
      RetryChange env s (.claim r worker outboxId) (s.claimed r worker outboxId outbox)
  | claimedNone (r : ρ) (hphase : (s.runs r).phase = .claiming) :
      RetryChange env s (.claimNone r)
        (s.setRun r { s.runs r with
          phase := if (s.runs r).inFlight.isEmpty then .stopped else .looping })
  | worked (c : Claim ι) (hclaim : c ∈ s.claims) (hdryRun : c.dryRun = false)
      (outbox : OutboxState ι)
      (houtbox : outboxStep env s.outbox
        (.deliver c.worker c.outboxId ⟨.automaticRetry, c.scheduledJobRunId⟩) = some outbox) :
      RetryChange env s (.work c.worker) { s with outbox := outbox }
  | merged (r : ρ) (worker : ι) (counted : Bool) (hreturned : s.outbox.calls worker = .returned)
      (hmem : worker ∈ (s.runs r).inFlight) :
      RetryChange env s (.merge r worker counted)
        (s.setRun r { s.runs r with
          inFlight := (s.runs r).inFlight.erase worker
          processed := (s.runs r).processed + if counted then 1 else 0 })
  | reset (r : ρ) (worker : ι) (outboxId : Nat) (outbox : OutboxState ι)
      (hphase : (s.runs r).phase = .resetting worker outboxId)
      (houtbox : outboxStep env s.outbox (.unclaim outboxId) = some outbox) :
      RetryChange env s (.reset r)
        ({ s with outbox := outbox.setCall worker .returned }.setRun r
          { s.runs r with phase := .looping })
  | stopped (r : ρ) :
      RetryChange env s (.stop r) (s.setRun r { s.runs r with phase := .stopped })
  | other (a : OutboxAction ι) (outbox : OutboxState ι) (hforeign : s.foreign a = true)
      (houtbox : outboxStep env s.outbox a = some outbox) :
      RetryChange env s (.other a) { s with outbox := outbox }

theorem retryChange_of_step {env : DeliveryEnv} {s s' : RetryState ι ρ} {a : RetryAction ι ρ}
    (h : retryStep env s a = some s') : RetryChange env s a s' := by
  cases a with
  | start r parameters =>
      simp only [retryStep] at h
      split at h
      · rename_i hidle
        cases h
        exact .started r parameters hidle
      · contradiction
  | check r =>
      simp only [retryStep] at h
      split at h
      · rename_i hphase
        split at h
        · rename_i hgoesOn
          cases h
          exact .checked r hphase hgoesOn
        · contradiction
      · contradiction
  | claim r worker outboxId =>
      simp only [retryStep] at h
      split at h
      · rename_i hphase hidle hworker
        obtain ⟨outbox, houtbox, rfl⟩ := Option.map_eq_some_iff.mp h
        exact .claimed r worker outboxId outbox hphase hidle hworker houtbox
      · contradiction
  | claimNone r =>
      simp only [retryStep] at h
      split at h
      · rename_i hphase
        cases h
        exact .claimedNone r hphase
      · contradiction
  | work worker =>
      simp only [retryStep] at h
      split at h
      · rename_i c hfind
        obtain ⟨outbox, houtbox, rfl⟩ := Option.map_eq_some_iff.mp h
        have hfound := List.find?_some hfind
        simp only [Bool.and_eq_true, decide_eq_true_eq, Bool.not_eq_true'] at hfound
        obtain ⟨rfl, hdryRun⟩ := hfound
        exact .worked c (List.mem_of_find?_eq_some hfind) hdryRun outbox houtbox
      · contradiction
  | merge r worker counted =>
      simp only [retryStep] at h
      split at h
      · rename_i hreturned
        split at h
        · rename_i hmem
          cases h
          exact .merged r worker counted hreturned hmem
        · contradiction
      · contradiction
  | reset r =>
      simp only [retryStep] at h
      split at h
      · rename_i worker outboxId hphase
        obtain ⟨outbox, houtbox, rfl⟩ := Option.map_eq_some_iff.mp h
        exact .reset r worker outboxId outbox hphase houtbox
      · contradiction
  | stop r =>
      cases h
      exact .stopped r
  | other a =>
      simp only [retryStep] at h
      split at h
      · rename_i hforeign
        obtain ⟨outbox, houtbox, rfl⟩ := Option.map_eq_some_iff.mp h
        exact .other a outbox hforeign houtbox
      · contradiction

end Steps

/-! ## What a step does to the lease of a row -/

section Lease

variable {ι : Type} {env : DeliveryEnv} {s s' : OutboxState ι}

/-- The step ends the lease of the row, whoever holds it. -/
def OutboxState.Unlocks (env : DeliveryEnv) (s : OutboxState ι) (outboxId : Nat) :
    OutboxAction ι → Prop
  | .record i =>
      ∃ verdict correlation row, s.rows outboxId = some row ∧
        s.calls i = .answered outboxId row.attemptCount verdict correlation ∧
        (applyDeliveryResult env s.now correlation row verdict).isSome
  | .unclaim id => id = outboxId
  | .requeue _ id => id = outboxId
  | _ => False

end Lease

end StorageService.Actions
