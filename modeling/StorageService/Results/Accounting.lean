import StorageService.Actions.Recording
import StorageService.Results.Retries

/-!
# The account of a recorded run

What a recorded run returns tells of the attempts that were stored under its id,
as long as every delivery that stored one is merged before the run returns, no
call finds its row finished or attempted by somebody else, and attempts stay
where they are.
-/

namespace StorageService.Results

open StorageService.Foundation
open StorageService.Actions

section Statement

variable {ι ρ : Type}

def attemptsOf (s : RecordedState ι ρ) (jobRun : Nat) (p : OutboxRow → Bool) : Nat :=
  s.stored.countP fun e => decide (e.attempt.scheduledJobRunId = some jobRun) && p e.left

def leftFor : Total → DeliveryStatus → Bool
  | .processed, _ => true
  | .delivered, status => decide (status = .delivered)
  | .retried, status => decide (status = .failed)
  | .dead, status => decide (status = .dead)

structure TotalsMatch (stats : RetryStats) (s : RecordedState ι ρ) (jobRun : Nat) : Prop where
  totals : ∀ total, stats ⟨total, false⟩ =
    attemptsOf s jobRun fun row => leftFor total row.status
  sum : stats ⟨.delivered, false⟩ + stats ⟨.retried, false⟩ + stats ⟨.dead, false⟩ =
    stats ⟨.processed, false⟩
  emailTotals : ∀ total, stats ⟨total, true⟩ =
    attemptsOf s jobRun fun row =>
      leftFor total row.status && decide (row.deliveryKind = .email)

def Recording (s : RecordedState ι ρ) (r : ρ) (jobRun : Nat) : Prop :=
  (s.retry.runs r).scheduledJobRunId = some jobRun ∧ s.returned r = false

def AttemptsStay (s : RecordedState ι ρ) (gone : Nat → Bool) : Prop :=
  ∀ e ∈ s.stored, ∀ r jobRun, Recording s r jobRun →
    e.attempt.scheduledJobRunId = some jobRun → gone e.left.id = false

def ReturnsItsAccount [DecidableEq ι] [DecidableEq ρ] (env : DeliveryEnv)
    (s : RecordedState ι ρ) : RecordedAction ι ρ → Prop
  | .finish r =>
      (recordedStep env s (.finish r)).isSome → ∀ jobRun,
        (s.retry.runs r).scheduledJobRunId = some jobRun → TotalsMatch (s.stats r) s jobRun
  | _ => True

/--
A delivery of a recorded run finds its row open, and not attempted by anybody
else when it writes; what is still in flight when the run returns has stored
nothing, and no attempt is deleted before.
-/
def EveryAttemptMerged (s : RecordedState ι ρ) : RecordedAction ι ρ → Prop
  | .retry (.work worker) =>
      ∀ c ∈ s.retry.claims, c.worker = worker → c.scheduledJobRunId ≠ none →
        ∀ row, s.retry.outbox.rows c.outboxId = some row → row.status.Open
  | .retry (.other (.record i)) =>
      ∀ outboxId snapshotAttempt verdict correlation,
        s.retry.outbox.calls i = .answered outboxId snapshotAttempt verdict correlation →
        correlation.scheduledJobRunId ≠ none →
        ∀ row, s.retry.outbox.rows outboxId = some row → row.attemptCount = snapshotAttempt
  | .retry (.other (.editRules rules)) => AttemptsStay s (s.goesWith rules)
  | .delete outboxIds => AttemptsStay s outboxIds.contains
  | .finish r =>
      (s.retry.runs r).scheduledJobRunId ≠ none →
        ∀ worker ∈ (s.retry.runs r).inFlight, ∀ row, s.results worker ≠ some (some row)
  | _ => True

end Statement

/-! ## The table of attempts -/

section Stored

variable {ι ρ : Type} {env : DeliveryEnv} {s s' : RecordedState ι ρ}

structure Mirrored (env : DeliveryEnv) (s : RecordedState ι ρ) : Prop where
  sound : s.retry.outbox.Sound env
  attempts : ∀ outboxId, s.retry.outbox.attempts outboxId =
    (s.stored.filter fun e => decide (e.left.id = outboxId)).map StoredAttempt.attempt

theorem Mirrored.kept (h : Mirrored env s) (hsound : s'.retry.outbox.Sound env)
    (hattempts : s'.retry.outbox.attempts = s.retry.outbox.attempts)
    (hstored : s'.stored = s.stored) : Mirrored env s' := by
  refine ⟨hsound, fun outboxId => ?_⟩
  rw [hattempts, hstored]
  exact h.attempts outboxId

theorem Mirrored.drop (h : Mirrored env s) {gone : Nat → Bool}
    (hsound : s'.retry.outbox.Sound env)
    (hattempts : ∀ outboxId, s'.retry.outbox.attempts outboxId =
      if gone outboxId then [] else s.retry.outbox.attempts outboxId)
    (hstored : s'.stored = (s.dropAttempts gone).stored) : Mirrored env s' := by
  refine ⟨hsound, fun outboxId => ?_⟩
  rw [hattempts, hstored, RecordedState.dropAttempts, List.filter_filter]
  cases hgone : gone outboxId with
  | true =>
      rw [if_pos rfl, eq_comm, List.map_eq_nil_iff, List.filter_eq_nil_iff]
      intro e _ hkept
      simp only [Bool.and_eq_true, decide_eq_true_eq, Bool.not_eq_true'] at hkept
      rw [hkept.1, hgone] at hkept
      exact absurd hkept.2 (by decide)
  | false =>
      rw [if_neg Bool.false_ne_true, h.attempts outboxId]
      refine congrArg _ (List.filter_congr fun e _ => ?_)
      by_cases hid : e.left.id = outboxId
      · simp [hid, hgone]
      · simp [hid]

variable [DecidableEq ι]

theorem Mirrored.record (h : Mirrored env s) {i : ι} {outbox : OutboxState ι}
    (hstep : outboxStep env s.retry.outbox (.record i) = some outbox) :
    Mirrored env ((s.recordResult env i).withRetry { s.retry with outbox := outbox }) := by
  have hsound := h.sound.step hstep
  cases outboxChange_of_step hstep with
  | recorded _ outboxId snapshotAttempt verdict correlation hcall =>
      refine ⟨hsound, fun id => ?_⟩
      have hold := h.attempts id
      cases hrow : s.retry.outbox.rows outboxId with
      | none =>
          simp only [RecordedState.recordResult, OutboxState.recordResult, hcall, hrow]
          exact hold
      | some row =>
          by_cases hmoved : row.attemptCount ≠ snapshotAttempt
          · simp only [RecordedState.recordResult, OutboxState.recordResult, hcall, hrow,
              if_pos hmoved]
            exact hold
          · cases happly : applyDeliveryResult env s.retry.outbox.now correlation row verdict with
            | none =>
                simp only [RecordedState.recordResult, OutboxState.recordResult, hcall, hrow,
                  if_neg hmoved, happly]
                exact hold
            | some result =>
                obtain ⟨row', attempt⟩ := result
                have hid : row'.id = outboxId := by
                  obtain ⟨error, rfl, -⟩ := applyDeliveryResult_eq_some happly
                  rw [attemptedRow_id, h.sound.keyed outboxId row hrow]
                simp only [RecordedState.recordResult, OutboxState.recordResult, hcall, hrow,
                  if_neg hmoved, happly, RecordedState.withRetry, OutboxState.addAttempt,
                  List.filter_append, List.map_append, ← hold]
                by_cases hsame : id = outboxId
                · subst hsame
                  simp [hid, OutboxState.setRow, OutboxState.setCall, hold]
                · have hne : ¬outboxId = id := fun heq => hsame heq.symm
                  simp [hid, hsame, hne, OutboxState.setRow, OutboxState.setCall, hold]

variable [DecidableEq ρ]

theorem Mirrored.step (h : Mirrored env s) {a : RecordedAction ι ρ}
    (hstep : recordedStep env s a = some s') : Mirrored env s' := by
  cases a with
  | finish r =>
      simp only [recordedStep] at hstep
      split at hstep
      · cases hstep
        exact h.kept h.sound rfl rfl
      · contradiction
  | delete outboxIds =>
      cases hstep
      refine h.drop (h.sound.deleteRows outboxIds) (fun outboxId => ?_) rfl
      simp [RecordedState.withRetry, OutboxState.deleteRows]
  | retry a =>
      simp only [recordedStep] at hstep
      split at hstep
      · obtain ⟨retry, hretry, rfl⟩ := Option.map_eq_some_iff.mp hstep
        cases retryChange_of_step hretry with
        | started | checked | claimedNone | stopped => exact h.kept h.sound rfl rfl
        | claimed r worker outboxId outbox hphase hidle hworker houtbox =>
            exact h.kept (h.sound.step houtbox) (attempts_of_step houtbox (by simp) (by simp))
              (s.follow_stored (by simp) (by simp))
        | worked c hclaim hdryRun outbox houtbox =>
            exact h.kept (h.sound.step houtbox) (attempts_of_step houtbox (by simp) (by simp))
              (s.follow_stored (by simp) (by simp))
        | merged r worker counted hreturned hmem =>
            exact h.kept h.sound rfl (s.follow_stored (by simp) (by simp))
        | reset r worker outboxId outbox hphase houtbox =>
            have hattempts := attempts_of_step houtbox (by simp) (by simp)
            exact h.kept ((h.sound.step houtbox).setReturned worker) hattempts rfl
        | other a outbox hforeign houtbox =>
            cases a with
            | record i => exact h.record houtbox
            | editRules rules =>
                have hsound := h.sound.step houtbox
                cases houtbox
                exact h.drop hsound (fun _ => rfl) rfl
            | _ =>
                exact h.kept (h.sound.step houtbox)
                  (attempts_of_step houtbox (by simp) (by simp)) rfl
      · contradiction

/-- Whatever runs, what is stored for a row are its attempts, in their order. -/
theorem stored_of_run {now : Nat} {as : List (RecordedAction ι ρ)}
    (h : (recordedRetries env).run (.initial ι ρ now) as = some s) (outboxId : Nat) :
    (s.stored.filter fun e => decide (e.left.id = outboxId)).map StoredAttempt.attempt =
      s.retry.outbox.attempts outboxId := by
  have hmirrored : Mirrored env s :=
    Machine.invariant (fun hs hstep => hs.step hstep) h
      ⟨outboxState_initial_sound env ι now, fun _ => rfl⟩
  exact (hmirrored.attempts outboxId).symm

end Stored

/-! ## Runs and their workers -/

/-- Every call under way for a recorded run is that of a worker the run waits for. -/
structure Wired {ι ρ : Type} [DecidableEq ι] (s : RetryState ι ρ) (jobRuns : List Nat)
    (returned : ρ → Bool) : Prop where
  runKnown : ∀ r jobRun, (s.runs r).scheduledJobRunId = some jobRun → jobRun ∈ jobRuns
  claimKnown : ∀ c ∈ s.claims, ∀ jobRun, c.scheduledJobRunId = some jobRun → jobRun ∈ jobRuns
  apart : ∀ r r' jobRun, (s.runs r).scheduledJobRunId = some jobRun →
    (s.runs r').scheduledJobRunId = some jobRun → r = r'
  delivers : ∀ r, (s.runs r).dryRun = true → (s.runs r).scheduledJobRunId = none
  workers : ∀ c ∈ s.claims, ∀ c' ∈ s.claims, c.worker = c'.worker → c = c'
  ownCalls : ∀ c ∈ s.claims, ∀ correlation,
    (s.outbox.calls c.worker).correlation? = some correlation →
      correlation.scheduledJobRunId = c.scheduledJobRunId
  otherCalls : ∀ i, s.isWorker i = false → ∀ correlation,
    (s.outbox.calls i).correlation? = some correlation → correlation.scheduledJobRunId = none
  awaited : ∀ c ∈ s.claims, ∀ r jobRun, c.scheduledJobRunId = some jobRun →
    (s.runs r).scheduledJobRunId = some jobRun → returned r = false →
    s.outbox.calls c.worker ≠ .returned → c.worker ∈ (s.runs r).inFlight
  claimed : ∀ r, ∀ worker ∈ (s.runs r).inFlight, ∃ c ∈ s.claims, c.worker = worker ∧
    c.scheduledJobRunId = (s.runs r).scheduledJobRunId
  nodup : ∀ r, (s.runs r).inFlight.Nodup

namespace Wired

variable {ι ρ : Type} [DecidableEq ι] {env : DeliveryEnv} {s s' : RetryState ι ρ}
  {jobRuns : List Nat} {returned : ρ → Bool}

theorem initial (ι ρ : Type) [DecidableEq ι] (now : Nat) :
    Wired (.initial ι ρ now) [] fun _ => false where
  runKnown := by
    intro r jobRun h
    cases h
  claimKnown := by
    intro c hc
    cases hc
  apart := by
    intro r r' jobRun h
    cases h
  delivers _ _ := rfl
  workers := by
    intro c hc
    cases hc
  ownCalls := by
    intro c hc
    cases hc
  otherCalls := by
    intro i _ correlation h
    cases h
  awaited := by
    intro c hc
    cases hc
  claimed := by
    intro r worker hworker
    cases hworker
  nodup _ := List.nodup_nil

theorem dryRun_eq_false (h : Wired s jobRuns returned) {r : ρ} {jobRun : Nat}
    (hrun : (s.runs r).scheduledJobRunId = some jobRun) : (s.runs r).dryRun = false := by
  cases hdry : (s.runs r).dryRun with
  | false => rfl
  | true =>
      rw [h.delivers r hdry] at hrun
      cases hrun

theorem mem_inFlight (h : Wired s jobRuns returned) {i : ι} {correlation : Correlation}
    (hcall : (s.outbox.calls i).correlation? = some correlation) {r : ρ} {jobRun : Nat}
    (hjob : correlation.scheduledJobRunId = some jobRun)
    (hrun : (s.runs r).scheduledJobRunId = some jobRun) (hreturned : returned r = false) :
    i ∈ (s.runs r).inFlight := by
  cases hworker : s.isWorker i with
  | false =>
      rw [h.otherCalls i hworker correlation hcall] at hjob
      cases hjob
  | true =>
      obtain ⟨c, hc, rfl⟩ := RetryState.isWorker_iff.mp hworker
      have hown := h.ownCalls c hc correlation hcall
      refine h.awaited c hc r jobRun (by rw [← hown, hjob]) hrun hreturned ?_
      intro hdone
      rw [hdone] at hcall
      cases hcall

theorem known_of_correlation (h : Wired s jobRuns returned) {i : ι} {correlation : Correlation}
    (hcall : (s.outbox.calls i).correlation? = some correlation) {jobRun : Nat}
    (hjob : correlation.scheduledJobRunId = some jobRun) : jobRun ∈ jobRuns := by
  cases hworker : s.isWorker i with
  | false =>
      rw [h.otherCalls i hworker correlation hcall] at hjob
      cases hjob
  | true =>
      obtain ⟨c, hc, rfl⟩ := RetryState.isWorker_iff.mp hworker
      exact h.claimKnown c hc jobRun (by rw [← h.ownCalls c hc correlation hcall, hjob])

theorem find?_claims (h : Wired s jobRuns returned) {c : Claim ι} (hc : c ∈ s.claims)
    (hdryRun : c.dryRun = false) :
    (s.claims.find? fun c' => decide (c'.worker = c.worker) && !c'.dryRun) = some c := by
  cases hfind : s.claims.find? fun c' => decide (c'.worker = c.worker) && !c'.dryRun with
  | none =>
      have hnot := List.find?_eq_none.mp hfind c hc
      simp [hdryRun] at hnot
  | some c' =>
      have hfound := List.find?_some hfind
      simp only [Bool.and_eq_true, decide_eq_true_eq] at hfound
      rw [h.workers c' (List.mem_of_find?_eq_some hfind) c hc hfound.1]

theorem correlation_of_inFlight (h : Wired s jobRuns returned) {r : ρ} {worker : ι}
    (hworker : worker ∈ (s.runs r).inFlight) {correlation : Correlation}
    (hcall : (s.outbox.calls worker).correlation? = some correlation) :
    correlation.scheduledJobRunId = (s.runs r).scheduledJobRunId := by
  obtain ⟨c, hc, rfl, hjob⟩ := h.claimed r worker hworker
  rw [h.ownCalls c hc correlation hcall, hjob]

theorem outboxStep (h : Wired s jobRuns returned) {a : OutboxAction ι}
    {outbox : OutboxState ι} (hstep : Actions.outboxStep env s.outbox a = some outbox)
    (hdeliver : ∀ i outboxId correlation, a = .deliver i outboxId correlation →
      (∃ c ∈ s.claims, c.worker = i ∧
        correlation.scheduledJobRunId = c.scheduledJobRunId) ∨
      (s.isWorker i = false ∧ correlation.scheduledJobRunId = none)) :
    Wired { s with outbox := outbox } jobRuns returned where
  runKnown := h.runKnown
  claimKnown := h.claimKnown
  apart := h.apart
  delivers := h.delivers
  workers := h.workers
  ownCalls := by
    intro c hc correlation hcall
    rcases correlation_of_step hstep hcall with hold | ⟨outboxId, rfl⟩
    · exact h.ownCalls c hc correlation hold
    · rcases hdeliver _ _ _ rfl with ⟨c', hc', hsame, hjob⟩ | ⟨hworker, -⟩
      · rw [hjob, h.workers c' hc' c hc hsame]
      · exact absurd rfl (RetryState.isWorker_eq_false_iff.mp hworker c hc)
  otherCalls := by
    intro i hworker correlation hcall
    rcases correlation_of_step hstep hcall with hold | ⟨outboxId, rfl⟩
    · exact h.otherCalls i hworker correlation hold
    · rcases hdeliver _ _ _ rfl with ⟨c, hc, rfl, -⟩ | ⟨-, hjob⟩
      · exact absurd rfl (RetryState.isWorker_eq_false_iff.mp hworker c hc)
      · exact hjob
  awaited := by
    intro c hc r jobRun hjob hrun hreturned hcall
    refine h.awaited c hc r jobRun hjob hrun hreturned fun hold => hcall ?_
    exact (past_of_step hstep).2.2 c.worker hold
  claimed := h.claimed
  nodup := h.nodup

theorem ofCalls (h : Wired s jobRuns returned) {outbox : OutboxState ι}
    (hcalls : outbox.calls = s.outbox.calls) :
    Wired { s with outbox := outbox } jobRuns returned where
  runKnown := h.runKnown
  claimKnown := h.claimKnown
  apart := h.apart
  delivers := h.delivers
  workers := h.workers
  ownCalls := by
    simp only [hcalls]
    exact h.ownCalls
  otherCalls i hworker := by
    simp only [hcalls]
    exact h.otherCalls i hworker
  awaited := by
    simp only [hcalls]
    exact h.awaited
  claimed := h.claimed
  nodup := h.nodup

theorem setReturned (h : Wired s jobRuns returned) (worker : ι) :
    Wired { s with outbox := s.outbox.setCall worker .returned } jobRuns returned where
  runKnown := h.runKnown
  claimKnown := h.claimKnown
  apart := h.apart
  delivers := h.delivers
  workers := h.workers
  ownCalls := by
    intro c hc correlation hcall
    rcases correlation_setCall hcall with hold | ⟨-, hnew⟩
    · exact h.ownCalls c hc correlation hold
    · cases hnew
  otherCalls := by
    intro i hworker correlation hcall
    rcases correlation_setCall hcall with hold | ⟨-, hnew⟩
    · exact h.otherCalls i hworker correlation hold
    · cases hnew
  awaited := by
    intro c hc r jobRun hjob hrun hreturned hcall
    refine h.awaited c hc r jobRun hjob hrun hreturned fun hold => hcall ?_
    by_cases hsame : c.worker = worker
    · simp [OutboxState.setCall, hsame]
    · simpa only [OutboxState.setCall, Function.update_of_ne hsame] using hold
  claimed := h.claimed
  nodup := h.nodup

theorem finish (h : Wired s jobRuns returned) {returned' : ρ → Bool}
    (hle : ∀ r, returned' r = false → returned r = false) : Wired s jobRuns returned' where
  runKnown := h.runKnown
  claimKnown := h.claimKnown
  apart := h.apart
  delivers := h.delivers
  workers := h.workers
  ownCalls := h.ownCalls
  otherCalls := h.otherCalls
  awaited c hc r jobRun hjob hrun hreturned := h.awaited c hc r jobRun hjob hrun (hle r hreturned)
  claimed := h.claimed
  nodup := h.nodup

variable [DecidableEq ρ]

theorem setRun (h : Wired s jobRuns returned) (r : ρ) {run : RetryRun ι}
    (hjob : run.scheduledJobRunId = (s.runs r).scheduledJobRunId)
    (hdryRun : run.dryRun = (s.runs r).dryRun)
    (hfewer : ∀ worker ∈ run.inFlight, worker ∈ (s.runs r).inFlight)
    (hwaits : ∀ worker ∈ (s.runs r).inFlight, s.outbox.calls worker ≠ .returned →
      worker ∈ run.inFlight)
    (hnodup : run.inFlight.Nodup) : Wired (s.setRun r run) jobRuns returned where
  runKnown := by
    intro r' jobRun hrun
    rw [s.setRun_scheduledJobRunId hjob] at hrun
    exact h.runKnown r' jobRun hrun
  claimKnown := h.claimKnown
  apart := by
    intro r₁ r₂ jobRun h₁ h₂
    rw [s.setRun_scheduledJobRunId hjob] at h₁ h₂
    exact h.apart r₁ r₂ jobRun h₁ h₂
  delivers := by
    intro r' hdry
    rw [s.setRun_dryRun hdryRun] at hdry
    rw [s.setRun_scheduledJobRunId hjob]
    exact h.delivers r' hdry
  workers := h.workers
  ownCalls := h.ownCalls
  otherCalls := h.otherCalls
  awaited := by
    intro c hc r' jobRun hclaim hrun hreturned hcall
    rw [s.setRun_scheduledJobRunId hjob] at hrun
    have hold := h.awaited c hc r' jobRun hclaim hrun hreturned hcall
    by_cases hsame : r' = r
    · subst hsame
      rw [RetryState.setRun_runs_self]
      exact hwaits c.worker hold hcall
    · rwa [RetryState.setRun_runs_of_ne s hsame]
  claimed := by
    intro r' worker hworker
    rw [s.setRun_scheduledJobRunId hjob]
    apply h.claimed
    by_cases hsame : r' = r
    · subst hsame
      rw [RetryState.setRun_runs_self] at hworker
      exact hfewer worker hworker
    · rwa [RetryState.setRun_runs_of_ne s hsame] at hworker
  nodup := by
    intro r'
    by_cases hsame : r' = r
    · subst hsame
      rwa [RetryState.setRun_runs_self]
    · rw [RetryState.setRun_runs_of_ne s hsame]
      exact h.nodup r'

theorem setPhase (h : Wired s jobRuns returned) (r : ρ) (phase : RunPhase ι) :
    Wired (s.setRun r { s.runs r with phase := phase }) jobRuns returned :=
  h.setRun r rfl rfl (fun _ hworker => hworker) (fun _ hworker _ => hworker) (h.nodup r)

theorem merge (h : Wired s jobRuns returned) (r : ρ) {worker : ι} (processed : Nat)
    (hreturned : s.outbox.calls worker = .returned) :
    Wired (s.setRun r { s.runs r with
      inFlight := (s.runs r).inFlight.erase worker, processed := processed })
      jobRuns returned := by
  refine h.setRun r rfl rfl (fun _ hmem => List.mem_of_mem_erase hmem) ?_
    ((h.nodup r).erase worker)
  intro other hother hcall
  refine (List.mem_erase_of_ne ?_).mpr hother
  rintro rfl
  exact hcall hreturned

theorem fresh_of_start (h : Wired s jobRuns returned) (r : ρ) {run : RetryRun ι}
    (hrecorded : ∀ jobRun, run.scheduledJobRunId = some jobRun → jobRun ∉ jobRuns) {r' : ρ}
    (hne : r' ≠ r) {jobRun : Nat} (hjob : run.scheduledJobRunId = some jobRun) :
    ((s.setRun r run).runs r').scheduledJobRunId ≠ some jobRun := by
  intro hrun
  rw [RetryState.setRun_runs_of_ne s hne] at hrun
  exact hrecorded jobRun hjob (h.runKnown r' jobRun hrun)

theorem start (h : Wired s jobRuns returned) (r : ρ) {run : RetryRun ι}
    (hrecorded : ∀ jobRun, run.scheduledJobRunId = some jobRun → jobRun ∉ jobRuns)
    (hdelivers : run.dryRun = true → run.scheduledJobRunId = none) (hempty : run.inFlight = []) :
    Wired (s.setRun r run) (run.scheduledJobRunId.toList ++ jobRuns) returned where
  runKnown := by
    intro r' jobRun hrun
    by_cases hsame : r' = r
    · subst hsame
      rw [RetryState.setRun_runs_self] at hrun
      exact List.mem_append_left _ (Option.mem_toList.mpr hrun)
    · rw [RetryState.setRun_runs_of_ne s hsame] at hrun
      exact List.mem_append_right _ (h.runKnown r' jobRun hrun)
  claimKnown c hc jobRun hjob := List.mem_append_right _ (h.claimKnown c hc jobRun hjob)
  apart := by
    intro r₁ r₂ jobRun h₁ h₂
    by_cases hsame₁ : r₁ = r
    · subst hsame₁
      rw [RetryState.setRun_runs_self] at h₁
      by_contra hne
      exact h.fresh_of_start r₁ hrecorded (Ne.symm hne) h₁ h₂
    · by_cases hsame₂ : r₂ = r
      · subst hsame₂
        rw [RetryState.setRun_runs_self] at h₂
        exact absurd h₁ (h.fresh_of_start r₂ hrecorded hsame₁ h₂)
      · rw [RetryState.setRun_runs_of_ne s hsame₁] at h₁
        rw [RetryState.setRun_runs_of_ne s hsame₂] at h₂
        exact h.apart r₁ r₂ jobRun h₁ h₂
  delivers := by
    intro r' hdry
    by_cases hsame : r' = r
    · subst hsame
      rw [RetryState.setRun_runs_self] at hdry ⊢
      exact hdelivers hdry
    · rw [RetryState.setRun_runs_of_ne s hsame] at hdry ⊢
      exact h.delivers r' hdry
  workers := h.workers
  ownCalls := h.ownCalls
  otherCalls := h.otherCalls
  awaited := by
    intro c hc r' jobRun hclaim hrun hreturned hcall
    by_cases hsame : r' = r
    · subst hsame
      rw [RetryState.setRun_runs_self] at hrun
      exact absurd (h.claimKnown c hc jobRun hclaim) (hrecorded jobRun hrun)
    · rw [RetryState.setRun_runs_of_ne s hsame] at hrun ⊢
      exact h.awaited c hc r' jobRun hclaim hrun hreturned hcall
  claimed := by
    intro r' worker hworker
    by_cases hsame : r' = r
    · subst hsame
      rw [RetryState.setRun_runs_self, hempty] at hworker
      cases hworker
    · rw [RetryState.setRun_runs_of_ne s hsame] at hworker ⊢
      exact h.claimed r' worker hworker
  nodup := by
    intro r'
    by_cases hsame : r' = r
    · subst hsame
      rw [RetryState.setRun_runs_self, hempty]
      exact List.nodup_nil
    · rw [RetryState.setRun_runs_of_ne s hsame]
      exact h.nodup r'

theorem claim (h : Wired s jobRuns returned) (r : ρ) {worker : ι} (outboxId : Nat)
    {outbox : OutboxState ι} (hidle : s.outbox.calls worker = .idle)
    (hworker : s.isWorker worker = false) (hcalls : outbox.calls = s.outbox.calls) :
    Wired (s.claimed r worker outboxId outbox) jobRuns returned where
  runKnown := by
    intro r' jobRun hrun
    rw [RetryState.claimed_scheduledJobRunId] at hrun
    exact h.runKnown r' jobRun hrun
  claimKnown := by
    intro c hc jobRun hjob
    rcases List.mem_cons.mp hc with rfl | hc
    · exact h.runKnown r jobRun hjob
    · exact h.claimKnown c hc jobRun hjob
  apart := by
    intro r₁ r₂ jobRun h₁ h₂
    rw [RetryState.claimed_scheduledJobRunId] at h₁ h₂
    exact h.apart r₁ r₂ jobRun h₁ h₂
  delivers := by
    intro r' hdry
    rw [RetryState.claimed_dryRun] at hdry
    rw [RetryState.claimed_scheduledJobRunId]
    exact h.delivers r' hdry
  workers := by
    have hnew := RetryState.isWorker_eq_false_iff.mp hworker
    intro c hc c' hc' heq
    rcases List.mem_cons.mp hc with rfl | hc
    · rcases List.mem_cons.mp hc' with rfl | hc'
      · rfl
      · exact absurd heq.symm (hnew c' hc')
    · rcases List.mem_cons.mp hc' with rfl | hc'
      · exact absurd heq (hnew c hc)
      · exact h.workers c hc c' hc' heq
  ownCalls := by
    intro c hc correlation hcall
    simp only [RetryState.claimed, hcalls] at hcall
    rcases List.mem_cons.mp hc with rfl | hc
    · rw [hidle] at hcall
      cases hcall
    · exact h.ownCalls c hc correlation hcall
  otherCalls := by
    intro i hi correlation hcall
    simp only [RetryState.claimed, hcalls] at hcall
    simp only [RetryState.isWorker, RetryState.claimed, List.any_cons, Bool.or_eq_false_iff]
      at hi
    exact h.otherCalls i hi.2 correlation hcall
  awaited := by
    intro c hc r' jobRun hjob hrun hreturned hcall
    rw [RetryState.claimed_scheduledJobRunId] at hrun
    rcases List.mem_cons.mp hc with rfl | hc
    · -- the run that claims is the one with this id, and it delivers
      have hsame : r' = r := h.apart r' r jobRun hrun hjob
      subst hsame
      rw [RetryState.claimed_inFlight, if_pos ⟨rfl, h.dryRun_eq_false hrun⟩]
      exact List.mem_cons_self
    · simp only [RetryState.claimed, hcalls] at hcall
      exact s.mem_claimed_inFlight (h.awaited c hc r' jobRun hjob hrun hreturned hcall)
  claimed := by
    intro r' i hi
    rw [RetryState.claimed_scheduledJobRunId]
    rw [RetryState.claimed_inFlight] at hi
    have hold : ∀ j ∈ (s.runs r').inFlight,
        ∃ c ∈ (s.claimed r worker outboxId outbox).claims, c.worker = j ∧
          c.scheduledJobRunId = (s.runs r').scheduledJobRunId := by
      intro j hj
      obtain ⟨c, hc, hc'⟩ := h.claimed r' j hj
      exact ⟨c, List.mem_cons_of_mem _ hc, hc'⟩
    split at hi
    · rename_i hself
      obtain ⟨rfl, -⟩ := hself
      rcases List.mem_cons.mp hi with rfl | hi
      · exact ⟨_, List.mem_cons_self, rfl, rfl⟩
      · exact hold i hi
    · exact hold i hi
  nodup := by
    intro r'
    rw [RetryState.claimed_inFlight]
    split
    · refine List.nodup_cons.mpr ⟨?_, h.nodup r'⟩
      intro hmem
      obtain ⟨c, hc, heq, -⟩ := h.claimed r' worker hmem
      exact RetryState.isWorker_eq_false_iff.mp hworker c hc heq
    · exact h.nodup r'

theorem step {s s' : RecordedState ι ρ} (h : Wired s.retry s.jobRuns s.returned)
    {a : RecordedAction ι ρ} (hstep : recordedStep env s a = some s') :
    Wired s'.retry s'.jobRuns s'.returned := by
  cases a with
  | finish r =>
      simp only [recordedStep] at hstep
      split at hstep
      · cases hstep
        refine h.finish fun r' hr' => ?_
        by_cases hsame : r' = r
        · subst hsame
          simp at hr'
        · simpa only [Function.update_of_ne hsame] using hr'
      · contradiction
  | delete outboxIds =>
      cases hstep
      exact h.ofCalls rfl
  | retry a =>
      simp only [recordedStep] at hstep
      split at hstep
      · rename_i hpermits
        obtain ⟨retry, hretry, rfl⟩ := Option.map_eq_some_iff.mp hstep
        have hfinished : ((s.follow env a).withRetry retry).returned = s.returned :=
          s.follow_returned a
        rw [hfinished]
        by_cases hstart : ∃ r parameters, a = .start r parameters
        · obtain ⟨r, parameters, rfl⟩ := hstart
          cases retryChange_of_step hretry with
          | started _ _ hidle =>
              have hrecorded : ∀ jobRun, parameters.scheduledJobRunId = some jobRun →
                  parameters.dryRun = false ∧ jobRun ∉ s.jobRuns := by
                intro jobRun hjob
                simpa [RecordedState.permits, hjob] using hpermits
              refine h.start r (fun jobRun hjob => (hrecorded jobRun hjob).2) ?_ rfl
              intro hdry
              cases hjob : parameters.scheduledJobRunId with
              | none => exact hjob
              | some jobRun =>
                  have hfalse := (hrecorded jobRun hjob).1
                  exact absurd (hdry.symm.trans hfalse) (by decide)
        · have hjobRuns : ((s.follow env a).withRetry retry).jobRuns = s.jobRuns :=
            s.follow_jobRuns fun r parameters ha => hstart ⟨r, parameters, ha⟩
          rw [hjobRuns]
          cases retryChange_of_step hretry with
          | started r parameters hidle => exact absurd ⟨r, parameters, rfl⟩ hstart
          | checked r hphase hgoesOn => exact h.setPhase r _
          | claimed r worker outboxId outbox hphase hidle hworker houtbox =>
              obtain ⟨row, -, -, rfl⟩ := claim_eq_some houtbox
              exact h.claim r outboxId hidle hworker rfl
          | claimedNone r hphase => exact h.setPhase r _
          | worked c hclaim hdryRun outbox houtbox =>
              refine h.outboxStep houtbox ?_
              rintro i outboxId correlation ⟨⟩
              exact .inl ⟨c, hclaim, rfl, rfl⟩
          | merged r worker counted hreturned hmem => exact h.merge r _ hreturned
          | reset r worker outboxId outbox hphase houtbox =>
              have hunclaimed := h.outboxStep houtbox (by simp)
              exact (hunclaimed.setReturned worker).setPhase r _
          | stopped r => exact h.setPhase r _
          | other a outbox hforeign houtbox =>
              refine h.outboxStep houtbox ?_
              rintro i outboxId correlation rfl
              right
              simp only [RecordedState.permits, decide_eq_true_eq] at hpermits
              subst hpermits
              simpa [RetryState.foreign] using hforeign
      · contradiction

end Wired

/-! ## What was stored and what was counted -/

theorem countP_add {α : Type} {p q r : α → Bool} {l : List α}
    (h : ∀ a ∈ l, (p a).toNat = (q a).toNat + (r a).toNat) :
    l.countP p = l.countP q + l.countP r := by
  induction l with
  | nil => rfl
  | cons a l ih =>
      have hhead := h a List.mem_cons_self
      have htail := ih fun b hb => h b (List.mem_cons_of_mem a hb)
      rw [List.countP_cons, List.countP_cons, List.countP_cons, htail]
      cases hp : p a <;> cases hq : q a <;> cases hr : r a <;>
        simp_all <;> omega

def countsLeft (key : StatKey) (row : OutboxRow) : Bool := key.counts .failed row

theorem counts_eq_countsLeft {row : OutboxRow} (h : row.status ≠ .pending) (key : StatKey)
    (before : DeliveryStatus) : key.counts before row = countsLeft key row := by
  obtain ⟨total, email⟩ := key
  cases total with
  | retried => simp [countsLeft, StatKey.counts, Total.counts, h]
  | processed | delivered | dead => rfl

def countedUnder {ι : Type} [DecidableEq ι] (inFlight : List ι) (jobRun : Nat) (key : StatKey)
    (e : StoredAttempt ι) : Bool :=
  (decide (e.attempt.scheduledJobRunId = some jobRun) && countsLeft key e.left) &&
    decide (e.call ∉ inFlight)

/-- What the calls have stored and brought back, and what the runs have counted of it. -/
structure Accounts {ι ρ : Type} [DecidableEq ι] (s : RecordedState ι ρ) : Prop where
  known : ∀ e ∈ s.stored, ∀ jobRun, e.attempt.scheduledJobRunId = some jobRun →
    jobRun ∈ s.jobRuns
  storedBy : ∀ e ∈ s.stored, s.retry.outbox.calls e.call = .returned
  resulted : ∀ i, s.results i ≠ none → s.retry.outbox.calls i = .returned
  left : ∀ e ∈ s.stored, e.left.status ≠ .pending
  brought : ∀ r jobRun, Recording s r jobRun → ∀ worker ∈ (s.retry.runs r).inFlight,
    (s.stored.filter fun e => decide (e.call = worker)).map
        (fun e => (e.left, e.attempt.scheduledJobRunId)) =
      ((s.results worker).join.map fun row => (row, some jobRun)).toList
  totals : ∀ r jobRun, Recording s r jobRun → ∀ key,
    s.stats r key = s.stored.countP (countedUnder (s.retry.runs r).inFlight jobRun key)

theorem filter_call_eq_nil {ι : Type} [DecidableEq ι] {stored : List (StoredAttempt ι)} {i : ι}
    (h : ∀ e ∈ stored, e.call ≠ i) : (stored.filter fun e => decide (e.call = i)) = [] := by
  apply List.filter_eq_nil_iff.mpr
  intro e he heq
  exact h e he (of_decide_eq_true heq)

namespace Accounts

variable {ι ρ : Type} [DecidableEq ι] {s s' : RecordedState ι ρ}

theorem initial (ι ρ : Type) [DecidableEq ι] (now : Nat) : Accounts (.initial ι ρ now) where
  known := by
    intro e he
    cases he
  storedBy := by
    intro e he
    cases he
  resulted i h := absurd rfl h
  left := by
    intro e he
    cases he
  brought := by
    rintro r jobRun ⟨hjob, -⟩
    cases hjob
  totals := by
    rintro r jobRun ⟨hjob, -⟩
    cases hjob

theorem nothing_of_not_returned (h : Accounts s) {i : ι}
    (hcall : s.retry.outbox.calls i ≠ .returned) :
    s.results i = none ∧ ∀ e ∈ s.stored, e.call ≠ i := by
  constructor
  · by_contra hresult
    exact hcall (h.resulted i hresult)
  · rintro e he rfl
    exact hcall (h.storedBy e he)

/--
Nothing is stored or brought back, and a run that is going on has counted what
it had, waits for what it waited for, and starts to wait for new calls only.
-/
theorem frame (h : Accounts s) (hstored : s'.stored = s.stored)
    (hresults : s'.results = s.results) (hjobRuns : ∀ jobRun ∈ s.jobRuns, jobRun ∈ s'.jobRuns)
    (hcalls : ∀ i, s.retry.outbox.calls i = .returned → s'.retry.outbox.calls i = .returned)
    (hruns : ∀ r jobRun, Recording s' r jobRun →
      (Recording s r jobRun ∧ s'.stats r = s.stats r ∧
        (∀ worker ∈ (s.retry.runs r).inFlight, worker ∈ (s'.retry.runs r).inFlight) ∧
        ∀ worker ∈ (s'.retry.runs r).inFlight, worker ∈ (s.retry.runs r).inFlight ∨
          s.retry.outbox.calls worker ≠ .returned) ∨
      ((s'.retry.runs r).inFlight = [] ∧ s'.stats r = emptyRetryStats ∧
        jobRun ∉ s.jobRuns)) : Accounts s' where
  known := by
    intro e he jobRun hjob
    rw [hstored] at he
    exact hjobRuns jobRun (h.known e he jobRun hjob)
  storedBy := by
    intro e he
    rw [hstored] at he
    exact hcalls e.call (h.storedBy e he)
  resulted := by
    intro i hresult
    rw [hresults] at hresult
    exact hcalls i (h.resulted i hresult)
  left := by
    rw [hstored]
    exact h.left
  brought := by
    intro r jobRun hrecording worker hworker
    rw [hstored, hresults]
    rcases hruns r jobRun hrecording with ⟨hold, -, -, hnew⟩ | ⟨hempty, -, -⟩
    · rcases hnew worker hworker with hwaited | hcall
      · exact h.brought r jobRun hold worker hwaited
      · obtain ⟨hresult, hnone⟩ := h.nothing_of_not_returned hcall
        rw [hresult, filter_call_eq_nil hnone]
        rfl
    · rw [hempty] at hworker
      cases hworker
  totals := by
    intro r jobRun hrecording key
    rw [hstored]
    rcases hruns r jobRun hrecording with ⟨hold, hstats, hmore, hnew⟩ | ⟨-, hstats, hfresh⟩
    · rw [hstats, h.totals r jobRun hold key]
      apply List.countP_congr
      intro e he
      have hsame : e.call ∉ (s.retry.runs r).inFlight ↔ e.call ∉ (s'.retry.runs r).inFlight := by
        refine not_congr ⟨hmore e.call, fun hmem => ?_⟩
        rcases hnew e.call hmem with hwaited | hcall
        · exact hwaited
        · exact absurd (h.storedBy e he) hcall
      simp only [countedUnder, hsame]
    · rw [hstats, eq_comm, emptyRetryStats, List.countP_eq_zero]
      intro e he hcounted
      simp only [countedUnder, Bool.and_eq_true, decide_eq_true_eq] at hcounted
      exact hfresh (h.known e he jobRun hcounted.1.1)

theorem setResult (h : Accounts s) {i : ι} {result : Option OutboxRow}
    (hcall : s.retry.outbox.calls i = .returned) (hnone : ∀ e ∈ s.stored, e.call ≠ i)
    (hresult : result = none ∨
      ∀ r jobRun, Recording s r jobRun → i ∉ (s.retry.runs r).inFlight) :
    Accounts (s.setResult i result) where
  known := h.known
  storedBy := h.storedBy
  resulted := by
    intro j hj
    by_cases hsame : j = i
    · rw [hsame]
      exact hcall
    · simp only [RecordedState.setResult, Function.update_of_ne hsame] at hj
      exact h.resulted j hj
  left := h.left
  brought := by
    intro r jobRun hrecording worker hworker
    by_cases hsame : worker = i
    · subst hsame
      rcases hresult with rfl | habsent
      · simp [RecordedState.setResult, filter_call_eq_nil hnone]
      · exact absurd hworker (habsent r jobRun hrecording)
    · simp only [RecordedState.setResult, Function.update_of_ne hsame]
      exact h.brought r jobRun hrecording worker hworker
  totals := h.totals

theorem store (h : Accounts s) {i : ι} {left : OutboxRow} {attempt : DeliveryAttempt}
    (hcall : s.retry.outbox.calls i = .returned) (hnone : ∀ e ∈ s.stored, e.call ≠ i)
    (hleft : left.status ≠ .pending)
    (hknown : ∀ jobRun, attempt.scheduledJobRunId = some jobRun → jobRun ∈ s.jobRuns)
    (hwaited : ∀ r jobRun, Recording s r jobRun → attempt.scheduledJobRunId = some jobRun →
      i ∈ (s.retry.runs r).inFlight)
    (hown : ∀ r jobRun, Recording s r jobRun → i ∈ (s.retry.runs r).inFlight →
      attempt.scheduledJobRunId = some jobRun) :
    Accounts { s.setResult i (some left) with stored := s.stored ++ [⟨i, left, attempt⟩] } where
  known := by
    intro e he jobRun hjob
    rcases List.mem_append.mp he with he | he
    · exact h.known e he jobRun hjob
    · obtain rfl := List.mem_singleton.mp he
      exact hknown jobRun hjob
  storedBy := by
    intro e he
    rcases List.mem_append.mp he with he | he
    · exact h.storedBy e he
    · obtain rfl := List.mem_singleton.mp he
      exact hcall
  resulted := by
    intro j hj
    by_cases hsame : j = i
    · rw [hsame]
      exact hcall
    · simp only [RecordedState.setResult, Function.update_of_ne hsame] at hj
      exact h.resulted j hj
  left := by
    intro e he
    rcases List.mem_append.mp he with he | he
    · exact h.left e he
    · obtain rfl := List.mem_singleton.mp he
      exact hleft
  brought := by
    intro r jobRun hrecording worker hworker
    simp only [List.filter_append, List.map_append]
    by_cases hsame : worker = i
    · subst hsame
      have hjob := hown r jobRun hrecording hworker
      simp [RecordedState.setResult, filter_call_eq_nil hnone, hjob]
    · have hold := h.brought r jobRun hrecording worker hworker
      simpa [RecordedState.setResult, Function.update_of_ne hsame, Ne.symm hsame] using hold
  totals := by
    intro r jobRun hrecording key
    have hmine : countedUnder (s.retry.runs r).inFlight jobRun key ⟨i, left, attempt⟩ =
        false := by
      apply Bool.eq_false_iff.mpr
      intro hcounted
      simp only [countedUnder, Bool.and_eq_true, decide_eq_true_eq] at hcounted
      exact hcounted.2 (hwaited r jobRun hrecording hcounted.1.1)
    change s.stats r key = List.countP (countedUnder (s.retry.runs r).inFlight jobRun key)
      (s.stored ++ [⟨i, left, attempt⟩])
    rw [List.countP_append, List.countP_singleton, hmine]
    exact h.totals r jobRun hrecording key

theorem drop (h : Accounts s) {gone : Nat → Bool} (hstay : AttemptsStay s gone) :
    Accounts (s.dropAttempts gone) where
  known e he := h.known e (List.mem_filter.mp he).1
  storedBy e he := h.storedBy e (List.mem_filter.mp he).1
  resulted := h.resulted
  left e he := h.left e (List.mem_filter.mp he).1
  brought := by
    intro r jobRun hrecording worker hworker
    have hold := h.brought r jobRun hrecording worker hworker
    refine Eq.trans (congrArg _ ?_) hold
    simp only [RecordedState.dropAttempts, List.filter_filter]
    apply List.filter_congr
    intro e he
    by_cases hcall : e.call = worker
    · -- whatever the worker has stored is an attempt of this run
      have hmem : (e.left, e.attempt.scheduledJobRunId) ∈
          ((s.results worker).join.map fun row => (row, some jobRun)).toList := by
        rw [← hold]
        exact List.mem_map.mpr ⟨e, List.mem_filter.mpr ⟨he, decide_eq_true hcall⟩, rfl⟩
      obtain ⟨row, -, heq⟩ := Option.map_eq_some_iff.mp (Option.mem_toList.mp hmem)
      have hkept := hstay e he r jobRun hrecording (Prod.ext_iff.mp heq).2.symm
      simp [hkept]
    · simp [hcall]
  totals := by
    intro r jobRun hrecording key
    refine (h.totals r jobRun hrecording key).trans ?_
    simp only [RecordedState.dropAttempts, List.countP_filter]
    apply List.countP_congr
    intro e he
    by_cases hjob : e.attempt.scheduledJobRunId = some jobRun
    · have hkept := hstay e he r jobRun hrecording hjob
      simp [hkept]
    · simp [countedUnder, hjob]

theorem summarize_eq_countP (h : Accounts s) {r : ρ} {jobRun : Nat}
    (hrecording : Recording s r jobRun) {worker : ι} {after : Option OutboxRow}
    (hmem : worker ∈ (s.retry.runs r).inFlight) (hresult : s.results worker = some after)
    (before : DeliveryStatus) (key : StatKey) :
    summarizeDeliveryResult before after key = s.stored.countP fun e =>
      (decide (e.attempt.scheduledJobRunId = some jobRun) && countsLeft key e.left) &&
        decide (e.call = worker) := by
  have hbrought := h.brought r jobRun hrecording worker hmem
  rw [hresult] at hbrought
  rw [← List.countP_filter]
  have hmap : ((s.stored.filter fun e => decide (e.call = worker)).countP fun e =>
      decide (e.attempt.scheduledJobRunId = some jobRun) && countsLeft key e.left) =
      ((s.stored.filter fun e => decide (e.call = worker)).map
        (fun e => (e.left, e.attempt.scheduledJobRunId))).countP fun pair =>
          decide (pair.2 = some jobRun) && countsLeft key pair.1 := by
    rw [List.countP_map]
    rfl
  rw [hmap, hbrought]
  cases after with
  | none => rfl
  | some row =>
      obtain ⟨e, he, heq⟩ : ∃ e ∈ s.stored, e.left = row := by
        have hone : (row, some jobRun) ∈ (s.stored.filter fun e =>
            decide (e.call = worker)).map (fun e => (e.left, e.attempt.scheduledJobRunId)) := by
          rw [hbrought]
          exact List.mem_singleton.mpr rfl
        obtain ⟨e, he, heq⟩ := List.mem_map.mp hone
        exact ⟨e, (List.mem_filter.mp he).1, (Prod.ext_iff.mp heq).1⟩
      have hleft : row.status ≠ .pending := by
        rw [← heq]
        exact h.left e he
      simp [summarizeDeliveryResult, counts_eq_countsLeft hleft]

theorem totals_erase (h : Accounts s) {r : ρ} {jobRun : Nat}
    (hrecording : Recording s r jobRun) {worker : ι} {after : Option OutboxRow}
    (hmem : worker ∈ (s.retry.runs r).inFlight) (hnodup : (s.retry.runs r).inFlight.Nodup)
    (hresult : s.results worker = some after) (before : DeliveryStatus) (key : StatKey) :
    s.stats r key + summarizeDeliveryResult before after key =
      s.stored.countP (countedUnder ((s.retry.runs r).inFlight.erase worker) jobRun key) := by
  rw [h.totals r jobRun hrecording key,
    h.summarize_eq_countP hrecording hmem hresult before key]
  refine (countP_add fun e he => ?_).symm
  simp only [countedUnder, hnodup.mem_erase_iff]
  by_cases hcall : e.call = worker
  · simp [hcall, hmem]
  · simp [hcall]

variable [DecidableEq ρ]

theorem merge (h : Accounts s) {r : ρ} {worker : ι} {after : Option OutboxRow} {processed : Nat}
    (hmem : worker ∈ (s.retry.runs r).inFlight) (hnodup : (s.retry.runs r).inFlight.Nodup)
    (hresult : s.results worker = some after) (before : DeliveryStatus) :
    Accounts ((s.addStats r (summarizeDeliveryResult before after)).withRetry
      (s.retry.setRun r { s.retry.runs r with
        inFlight := (s.retry.runs r).inFlight.erase worker, processed := processed })) where
  known := h.known
  storedBy := h.storedBy
  resulted := h.resulted
  left := h.left
  brought := by
    intro r' jobRun hrecording other hother
    by_cases hsame : r' = r
    · subst hsame
      simp only [RecordedState.withRetry, Recording, RetryState.setRun_runs_self] at *
      exact h.brought r' jobRun hrecording other (List.mem_of_mem_erase hother)
    · simp only [RecordedState.withRetry, Recording, RetryState.setRun_runs_of_ne _ hsame] at *
      exact h.brought r' jobRun hrecording other hother
  totals := by
    intro r' jobRun hrecording key
    by_cases hsame : r' = r
    · subst hsame
      simp only [RecordedState.withRetry, Recording, RetryState.setRun_runs_self,
        RecordedState.addStats, Function.update_self] at *
      exact h.totals_erase hrecording hmem hnodup hresult before key
    · simp only [RecordedState.withRetry, Recording, RetryState.setRun_runs_of_ne _ hsame,
        RecordedState.addStats, Function.update_of_ne hsame] at *
      exact h.totals r' jobRun hrecording key

omit [DecidableEq ρ] in
theorem withOutbox (h : Accounts s) {outbox : OutboxState ι}
    (hcalls : ∀ i, s.retry.outbox.calls i = .returned → outbox.calls i = .returned) :
    Accounts (s.withRetry { s.retry with outbox := outbox }) :=
  h.frame rfl rfl (fun _ hknown => hknown) hcalls fun _ _ hrecording =>
    .inl ⟨hrecording, rfl, fun _ hmem => hmem, fun _ hmem => .inl hmem⟩

theorem setPhase (h : Accounts s) (r : ρ) (phase : RunPhase ι) :
    Accounts (s.withRetry (s.retry.setRun r { s.retry.runs r with phase := phase })) := by
  refine h.frame rfl rfl (fun _ hknown => hknown) (fun _ hcall => hcall) ?_
  intro r' jobRun hrecording
  left
  by_cases hsame : r' = r
  · subst hsame
    simp only [RecordedState.withRetry, Recording, RetryState.setRun_runs_self] at *
    exact ⟨hrecording, trivial, fun _ hmem => hmem, fun _ hmem => .inl hmem⟩
  · simp only [RecordedState.withRetry, Recording, RetryState.setRun_runs_of_ne _ hsame] at *
    exact ⟨hrecording, trivial, fun _ hmem => hmem, fun _ hmem => .inl hmem⟩

theorem start (h : Accounts s) {env : DeliveryEnv} {r : ρ} {now : Nat}
    {parameters : RetryParameters} (hpermits : s.permits (.start r parameters) = true) :
    Accounts ((s.follow env (.start r parameters)).withRetry
      (s.retry.setRun r (.begin ι now parameters))) := by
  refine h.frame rfl rfl (fun _ => List.mem_append_right _) (fun _ hcall => hcall) ?_
  intro r' jobRun hrecording
  by_cases hsame : r' = r
  · subst hsame
    right
    simp only [RecordedState.withRetry, RecordedState.follow, Recording,
      RetryState.setRun_runs_self, Function.update_self] at *
    refine ⟨rfl, trivial, ?_⟩
    have hjob : parameters.scheduledJobRunId = some jobRun := hrecording.1
    simp only [RecordedState.permits, hjob, Option.all_some, Bool.and_eq_true,
      Bool.not_eq_true', List.contains_eq_mem, decide_eq_false_iff_not] at hpermits
    exact hpermits.2
  · left
    simp only [RecordedState.withRetry, RecordedState.follow, Recording,
      RetryState.setRun_runs_of_ne _ hsame, Function.update_of_ne hsame] at *
    exact ⟨hrecording, trivial, fun _ hmem => hmem, fun _ hmem => .inl hmem⟩

theorem claim (h : Accounts s) (hwired : Wired s.retry s.jobRuns s.returned) (r : ρ)
    {worker : ι} (outboxId : Nat) {outbox : OutboxState ι}
    (hidle : s.retry.outbox.calls worker = .idle)
    (hcalls : outbox.calls = s.retry.outbox.calls) :
    Accounts ((s.claimRow r worker outboxId).withRetry
      (s.retry.claimed r worker outboxId outbox)) := by
  obtain ⟨hreturned, hjobRuns, hstored, hresults⟩ := s.claimRow_kept r worker outboxId
  refine h.frame hstored hresults (fun _ hknown => hjobRuns ▸ hknown) ?_ ?_
  · intro i hcall
    exact (congrFun hcalls i).trans hcall
  · rintro r' jobRun ⟨hclaimed, hgoing⟩
    left
    have hjob : (s.retry.runs r').scheduledJobRunId = some jobRun :=
      (s.retry.claimed_scheduledJobRunId r r' worker outboxId outbox).symm.trans hclaimed
    have hdryRun : r' = r → (s.retry.runs r).dryRun = false := by
      rintro rfl
      exact hwired.dryRun_eq_false hjob
    have hinFlight := s.retry.claimed_inFlight r r' worker outboxId outbox
    refine ⟨⟨hjob, (congrFun hreturned r').symm.trans hgoing⟩,
      s.claimRow_stats hdryRun worker outboxId, ?_, ?_⟩
    · intro i hi
      exact s.retry.mem_claimed_inFlight hi
    · intro i hi
      simp only [RecordedState.withRetry, hinFlight] at hi
      split at hi
      · rcases List.mem_cons.mp hi with rfl | hi
        · exact .inr (by simp [hidle])
        · exact .inl hi
      · exact .inl hi

theorem work (h : Accounts s) (hwired : Wired s.retry s.jobRuns s.returned) {env : DeliveryEnv}
    {c : Claim ι} (hc : c ∈ s.retry.claims) (hdryRun : c.dryRun = false)
    (hmerged : EveryAttemptMerged s (.retry (.work c.worker))) {outbox : OutboxState ι}
    (hstep : outboxStep env s.retry.outbox
      (.deliver c.worker c.outboxId ⟨.automaticRetry, c.scheduledJobRunId⟩) = some outbox) :
    Accounts ((s.follow env (.work c.worker)).withRetry { s.retry with outbox := outbox }) := by
  have hcalls := (past_of_step hstep).2.2
  have houtbox := h.withOutbox hcalls
  simp only [RecordedState.follow, hwired.find?_claims hc hdryRun]
  cases outboxChange_of_step hstep with
  | started _ _ _ hidle =>
      have hnone := (h.nothing_of_not_returned (i := c.worker) (by simp [hidle])).2
      simp only [RecordedState.startDelivery]
      split
      · rename_i hrow
        refine houtbox.setResult ?_ hnone (.inl rfl)
        simp [RecordedState.withRetry, OutboxState.startDelivery, hrow, OutboxState.setCall]
      · rename_i row hrow
        split
        · rename_i hfinal
          refine houtbox.setResult ?_ hnone (.inr ?_)
          · simp [RecordedState.withRetry, OutboxState.startDelivery, hrow, hfinal,
              OutboxState.setCall]
          · rintro r jobRun ⟨hjob, -⟩ hmem
            obtain ⟨c', hc', hsame, hclaim⟩ := hwired.claimed r c.worker hmem
            rw [hwired.workers c' hc' c hc hsame] at hclaim
            have hrecorded : c.scheduledJobRunId ≠ none := by
              rw [hclaim]
              simp only [RecordedState.withRetry] at hjob
              simp [hjob]
            exact (hmerged c hc rfl hrecorded row hrow).not_final hfinal
        · exact houtbox

omit [DecidableEq ρ] in
theorem record (h : Accounts s) (hwired : Wired s.retry s.jobRuns s.returned)
    {env : DeliveryEnv} {i : ι} (hmerged : EveryAttemptMerged s (.retry (.other (.record i))))
    {outbox : OutboxState ι} (hstep : outboxStep env s.retry.outbox (.record i) = some outbox) :
    Accounts ((s.recordResult env i).withRetry { s.retry with outbox := outbox }) := by
  have houtbox := h.withOutbox (past_of_step hstep).2.2
  have hreturned := returned_of_record hstep
  cases outboxChange_of_step hstep with
  | recorded _ outboxId snapshotAttempt verdict correlation hcall =>
      have hcorrelation : (s.retry.outbox.calls i).correlation? = some correlation := by
        rw [hcall]
        rfl
      have hnone := (h.nothing_of_not_returned (i := i) (by simp [hcall])).2
      simp only [RecordedState.recordResult, hcall]
      split
      · exact houtbox
      · rename_i row hrow
        split
        · rename_i hmoved
          refine houtbox.setResult hreturned hnone (.inr ?_)
          rintro r jobRun ⟨hjob, -⟩ hmem
          have hown := hwired.correlation_of_inFlight hmem hcorrelation
          have hrecorded : correlation.scheduledJobRunId ≠ none := by
            rw [hown]
            simp only [RecordedState.withRetry] at hjob
            simp [hjob]
          exact hmoved (hmerged _ _ _ _ hcall hrecorded row hrow)
        · split
          · exact houtbox
          · rename_i row' attempt happly
            obtain ⟨error, rfl, rfl⟩ := applyDeliveryResult_eq_some happly
            refine houtbox.store hreturned hnone ?_ ?_ ?_ ?_
            · rw [attemptedRow_status]
              split
              · simp
              · split <;> simp
            · intro jobRun hjob
              exact hwired.known_of_correlation hcorrelation hjob
            · rintro r jobRun ⟨hrun, hgoing⟩ hjob
              exact hwired.mem_inFlight hcorrelation hjob hrun hgoing
            · rintro r jobRun ⟨hrun, -⟩ hmem
              exact (hwired.correlation_of_inFlight hmem hcorrelation).trans hrun

theorem step {env : DeliveryEnv} (h : Accounts s)
    (hwired : Wired s.retry s.jobRuns s.returned) {a : RecordedAction ι ρ}
    (hmerged : EveryAttemptMerged s a) (hstep : recordedStep env s a = some s') :
    Accounts s' := by
  cases a with
  | finish r =>
      simp only [recordedStep] at hstep
      split at hstep
      · cases hstep
        refine h.frame rfl rfl (fun _ hknown => hknown) (fun _ hcall => hcall) ?_
        rintro r' jobRun ⟨hjob, hgoing⟩
        refine .inl ⟨⟨hjob, ?_⟩, rfl, fun _ hmem => hmem, fun _ hmem => .inl hmem⟩
        by_cases hsame : r' = r
        · subst hsame
          simp at hgoing
        · simpa only [Function.update_of_ne hsame] using hgoing
      · contradiction
  | delete outboxIds =>
      cases hstep
      exact (h.drop hmerged).withOutbox fun _ hcall => hcall
  | retry a =>
      simp only [recordedStep] at hstep
      split at hstep
      · rename_i hpermits
        obtain ⟨retry, hretry, rfl⟩ := Option.map_eq_some_iff.mp hstep
        cases retryChange_of_step hretry with
        | started r parameters hidle => exact h.start hpermits
        | checked r hphase hgoesOn => exact h.setPhase r _
        | claimed r worker outboxId outbox hphase hidle hworker houtbox =>
            obtain ⟨row, -, -, rfl⟩ := claim_eq_some houtbox
            exact h.claim hwired r outboxId hidle rfl
        | claimedNone r hphase => exact h.setPhase r _
        | worked c hclaim hdryRun outbox houtbox =>
            exact h.work hwired hclaim hdryRun hmerged houtbox
        | merged r worker counted hreturned hmem =>
            simp only [RecordedState.permits, Bool.and_eq_true, decide_eq_true_eq,
              Option.map_eq_some_iff] at hpermits
            obtain ⟨-, after, hresult, -⟩ := hpermits
            simp only [RecordedState.follow, hresult]
            exact h.merge hmem (hwired.nodup r) hresult _
        | reset r worker outboxId outbox hphase houtbox =>
            refine (h.withOutbox fun i hcall => ?_).setPhase r .looping
            have hold := (past_of_step houtbox).2.2 i hcall
            by_cases hsame : i = worker
            · simp [OutboxState.setCall, hsame]
            · simpa only [OutboxState.setCall, Function.update_of_ne hsame] using hold
        | stopped r => exact h.setPhase r _
        | other a outbox hforeign houtbox =>
            have hcalls := (past_of_step houtbox).2.2
            cases a with
            | record i => exact h.record hwired hmerged houtbox
            | editRules rules => exact (h.drop hmerged).withOutbox hcalls
            | _ => exact h.withOutbox hcalls
      · contradiction

end Accounts

/-! ## The totals that are returned -/

section Returned

variable {ι ρ : Type} [DecidableEq ι] {env : DeliveryEnv} {s s' : RecordedState ι ρ}

omit [DecidableEq ι] in
theorem attemptsOf_congr {jobRun : Nat} {p q : OutboxRow → Bool}
    (h : ∀ e ∈ s.stored, p e.left = q e.left) : attemptsOf s jobRun p = attemptsOf s jobRun q := by
  apply List.countP_congr
  intro e he
  rw [h e he]

theorem stats_eq_attemptsOf (h : Accounts s) {r : ρ} {jobRun : Nat}
    (hrecording : Recording s r jobRun)
    (hmerged : ∀ worker ∈ (s.retry.runs r).inFlight, ∀ row, s.results worker ≠ some (some row))
    (key : StatKey) : s.stats r key = attemptsOf s jobRun (countsLeft key) := by
  rw [h.totals r jobRun hrecording key]
  apply List.countP_congr
  intro e he
  have hcall : e.call ∉ (s.retry.runs r).inFlight := by
    intro hmem
    have hbrought := h.brought r jobRun hrecording e.call hmem
    have hnothing : (s.results e.call).join = none := by
      cases hresult : s.results e.call with
      | none => rfl
      | some after =>
          cases after with
          | none => rfl
          | some row => exact absurd hresult (hmerged e.call hmem row)
    rw [hnothing] at hbrought
    have hnone := List.map_eq_nil_iff.mp hbrought
    exact List.filter_eq_nil_iff.mp hnone e he (decide_eq_true rfl)
  simp [countedUnder, hcall]

theorem attemptsOf_sum (h : Accounts s) (jobRun : Nat) :
    (attemptsOf s jobRun fun row => leftFor .delivered row.status) +
        (attemptsOf s jobRun fun row => leftFor .retried row.status) +
        (attemptsOf s jobRun fun row => leftFor .dead row.status) =
      attemptsOf s jobRun fun row => leftFor .processed row.status := by
  have hsplit : ∀ {p q r : OutboxRow → Bool},
      (∀ e ∈ s.stored, (p e.left).toNat = (q e.left).toNat + (r e.left).toNat) →
      attemptsOf s jobRun p = attemptsOf s jobRun q + attemptsOf s jobRun r := by
    intro p q r hparts
    refine countP_add fun e he => ?_
    have hpart := hparts e he
    cases hjob : decide (e.attempt.scheduledJobRunId = some jobRun) <;> simp [hpart]
  have hnot : (attemptsOf s jobRun fun row => !leftFor .dead row.status) =
      (attemptsOf s jobRun fun row => leftFor .delivered row.status) +
        attemptsOf s jobRun fun row => leftFor .retried row.status := by
    refine hsplit fun e he => ?_
    have hleft := h.left e he
    cases hstatus : e.left.status with
    | pending => exact absurd hstatus hleft
    | delivered | failed | dead => rfl
  rw [← hnot]
  refine (hsplit fun e _ => ?_).symm
  cases hstatus : e.left.status <;> rfl

theorem countsLeft_eq {row : OutboxRow} (h : row.status ≠ .pending) (key : StatKey) :
    countsLeft key row = (leftFor key.total row.status &&
      (!key.email || decide (row.deliveryKind = .email))) := by
  obtain ⟨total, email⟩ := key
  cases total with
  | retried => simp [countsLeft, StatKey.counts, Total.counts, leftFor, h]
  | processed | delivered | dead => rfl

theorem Accounts.totalsMatch (h : Accounts s) {r : ρ} {jobRun : Nat}
    (hrecording : Recording s r jobRun)
    (hmerged : ∀ worker ∈ (s.retry.runs r).inFlight, ∀ row, s.results worker ≠ some (some row)) :
    TotalsMatch (s.stats r) s jobRun := by
  have htotals : ∀ total, s.stats r ⟨total, false⟩ =
      attemptsOf s jobRun fun row => leftFor total row.status := by
    intro total
    rw [stats_eq_attemptsOf h hrecording hmerged]
    exact attemptsOf_congr fun e he => by simp [countsLeft_eq (h.left e he)]
  refine ⟨htotals, ?_, ?_⟩
  · rw [htotals, htotals, htotals, htotals]
    exact attemptsOf_sum h jobRun
  · intro total
    rw [stats_eq_attemptsOf h hrecording hmerged]
    exact attemptsOf_congr fun e he => by simp [countsLeft_eq (h.left e he)]

variable [DecidableEq ρ]

/--
In a run of runs and deliveries in any order, where what a recorded run has
stored is merged before it returns, no call finds its row finished or attempted
by somebody else, and no attempt is deleted before, the totals that a recorded
run returns are those of the attempts stored with its id.
-/
theorem returnsItsAccount_of_run {now : Nat} {as : List (RecordedAction ι ρ)}
    (h : (recordedRetries env).Meets EveryAttemptMerged (.initial ι ρ now) as) :
    (recordedRetries env).Meets (ReturnsItsAccount env) (.initial ι ρ now) as := by
  refine Machine.meets_of_invariant
    (I := fun s => Wired s.retry s.jobRuns s.returned ∧ Accounts s) ?_ ?_ h
    ⟨.initial ι ρ now, .initial ι ρ now⟩
  · rintro s a s' ⟨hwired, haccounts⟩ hmerged hstep
    exact ⟨hwired.step hstep, haccounts.step hwired hmerged hstep⟩
  · rintro s a ⟨hwired, haccounts⟩ hmerged
    cases a with
    | finish r =>
        intro hsome jobRun hjob
        refine haccounts.totalsMatch ⟨hjob, ?_⟩ (hmerged (by simp [hjob]))
        simp only [recordedStep] at hsome
        split at hsome
        · rename_i hmay
          simp only [RecordedState.mayReturn] at hmay
          split at hmay
          · simp only [Bool.and_eq_true, Bool.not_eq_true'] at hmay
            exact hmay.1.1
          · contradiction
        · contradiction
    | retry a => trivial
    | delete outboxIds => trivial

/-! ## Runs with one row -/

def oneClaimed : List (RetryAction Nat Nat) :=
  [.other (.editRules fun id => if id = 1 then some sampleRule else none),
    .other (.emit ⟨1, 1, some 1, .webhook, [], sampleEnvelope⟩),
    .other (.deliver 9 1 ⟨.dispatch, none⟩), .start 0 (defaultRun 1), .check 0, .claim 0 0 1]

def delivery (i : Nat) : List (RetryAction Nat Nat) :=
  [.other (.answer i (.outcome true (succeededCall none))), .other (.record i)]

def mergedInTime : List (RetryAction Nat Nat) :=
  oneClaimed ++ .work 0 :: delivery 0 ++ [.merge 0 0 true, .check 0, .claimNone 0]

/-- The worker is still at it at the deadline, and the run does not look at it again. -/
def mergedTooLate : List (RetryAction Nat Nat) :=
  oneClaimed ++ [.work 0, .other (.wait (50 * second)), .stop 0] ++ delivery 0

def dispatchedFirst : List (RetryAction Nat Nat) :=
  oneClaimed ++ delivery 9 ++ [.work 0, .merge 0 0 true, .check 0, .claimNone 0]

theorem returnsItsAccount_of_run_inTime :
    (∃ s, (recordedRetries sampleDelivery).run (.initial Nat Nat 0)
        ((mergedInTime.map .retry) ++ [.finish 0]) = some s ∧
      s.stats 0 ⟨.processed, false⟩ = 1 ∧ s.returned 0 = true) ∧
    (recordedRetries sampleDelivery).Meets (ReturnsItsAccount sampleDelivery)
      (.initial Nat Nat 0) ((mergedInTime.map .retry) ++ [.finish 0]) := by
  refine ⟨⟨_, rfl, rfl, rfl⟩, returnsItsAccount_of_run ?_⟩
  refine Machine.meets_cons ?_ rfl ?_
  · rintro e ⟨⟩
  refine Machine.meets_cons trivial rfl ?_
  refine Machine.meets_cons trivial rfl ?_
  refine Machine.meets_cons trivial rfl ?_
  refine Machine.meets_cons trivial rfl ?_
  refine Machine.meets_cons trivial rfl ?_
  refine Machine.meets_cons ?_ rfl ?_
  · intro c hc _ _ row hrow
    cases List.mem_singleton.mp hc
    cases hrow
    exact .inl rfl
  refine Machine.meets_cons trivial rfl ?_
  refine Machine.meets_cons ?_ rfl ?_
  · rintro outboxId snapshotAttempt verdict correlation ⟨⟩ - row ⟨⟩
    rfl
  refine Machine.meets_cons trivial rfl ?_
  refine Machine.meets_cons trivial rfl ?_
  refine Machine.meets_cons trivial rfl ?_
  refine Machine.meets_cons ?_ rfl trivial
  rintro - worker ⟨⟩

/--
A delivery that ends after the deadline has stored its attempt and is not
counted; a row that was delivered before the worker read it is counted as an
attempt that nobody has stored.
-/
theorem returnsItsAccount_false :
    (∃ s, (recordedRetries sampleDelivery).run (.initial Nat Nat 0)
        (mergedTooLate.map .retry) = some s ∧ s.stats 0 ⟨.processed, false⟩ = 0 ∧
      (attemptsOf s 1 fun _ => true) = 1 ∧
      ¬ReturnsItsAccount sampleDelivery s (.finish 0)) ∧
    ∃ s, (recordedRetries sampleDelivery).run (.initial Nat Nat 0)
        (dispatchedFirst.map .retry) = some s ∧ s.stats 0 ⟨.processed, false⟩ = 1 ∧
      (attemptsOf s 1 fun _ => true) = 0 ∧
      ¬ReturnsItsAccount sampleDelivery s (.finish 0) := by
  constructor
  · refine ⟨_, rfl, rfl, rfl, fun haccount => ?_⟩
    exact absurd ((haccount rfl 1 rfl).totals .processed) (by decide)
  · refine ⟨_, rfl, rfl, rfl, fun haccount => ?_⟩
    exact absurd ((haccount rfl 1 rfl).totals .processed) (by decide)

end Returned

end StorageService.Results
