import StorageService.Actions.Retries
import StorageService.Results.Outbox

/-!
# Leases of overlapping retry runs

A lease is counted from the start of the run that claims, and the end of any
delivery clears it.  Where neither matters, no row is claimed beside a worker
whose lease has not elapsed.
-/

namespace StorageService.Results

open StorageService.Foundation
open StorageService.Actions

section Retries

variable {ι ρ : Type} {env : DeliveryEnv} {s s' : RetryState ι ρ}

def HoldsRow (env : DeliveryEnv) (s : RetryState ι ρ) (c : Claim ι) (outboxId : Nat) : Prop :=
  c ∈ s.claims ∧ c.outboxId = outboxId ∧ s.Unfinished c ∧
    s.outbox.now < c.claimedAt + env.lease

def EndsOthersLease (env : DeliveryEnv) (s : RetryState ι ρ) (i : Option ι)
    (a : OutboxAction ι) : Prop :=
  ∃ c outboxId, HoldsRow env s c outboxId ∧ some c.worker ≠ i ∧ s.outbox.Unlocks env outboxId a

def writer : OutboxAction ι → Option ι
  | .record i => some i
  | _ => none

/-- No lease is passed over because of another run's start, and none is ended by others. -/
def LeaseRespected (env : DeliveryEnv) (s : RetryState ι ρ) : RetryAction ι ρ → Prop
  | .claim r _ outboxId =>
      ∀ c, HoldsRow env s c outboxId → (s.runs r).reference < c.reference + env.lease
  | .reset r =>
      ∀ worker outboxId, (s.runs r).phase = .resetting worker outboxId →
        ¬EndsOthersLease env s (some worker) (.unclaim outboxId)
  | .other a => ¬EndsOthersLease env s (writer a) a
  | _ => True

def ClaimedAlone [DecidableEq ι] [DecidableEq ρ] (env : DeliveryEnv) (s : RetryState ι ρ) :
    RetryAction ι ρ → Prop
  | .claim r worker outboxId =>
      (retryStep env s (.claim r worker outboxId)).isSome → ∀ c, ¬HoldsRow env s c outboxId
  | _ => True

/-- Who holds a row finds it locked for the lease counted from the start of the run. -/
structure Leased (env : DeliveryEnv) (s : RetryState ι ρ) : Prop where
  sound : s.outbox.Sound env
  issued : ∀ c ∈ s.claims, c.outboxId ∈ s.outbox.issued
  locked : ∀ c outboxId, HoldsRow env s c outboxId → ∀ row, s.outbox.rows outboxId = some row →
    ∃ lockedUntil, row.lockedUntil = some lockedUntil ∧
      c.reference + env.lease ≤ lockedUntil

theorem leased_initial (env : DeliveryEnv) (now : Nat) :
    Leased env (.initial ι ρ now) where
  sound := outboxState_initial_sound env ι now
  issued := by
    intro c hc
    cases hc
  locked := by
    rintro c outboxId ⟨hc, -⟩
    cases hc

theorem Leased.runs (h : Leased env s) (runs : ρ → RetryRun ι) :
    Leased env { s with runs := runs } :=
  ⟨h.sound, h.issued, h.locked⟩

variable [DecidableEq ι]

theorem Leased.outboxStep (h : Leased env s) {a : OutboxAction ι} {outbox : OutboxState ι}
    (hstep : outboxStep env s.outbox a = some outbox)
    (hends : ¬EndsOthersLease env s (writer a) a)
    (hclaim : ∀ outboxId reference, a ≠ .claim outboxId reference) :
    Leased env { s with outbox := outbox } where
  sound := h.sound.step hstep
  issued c hc := (past_of_step hstep).2.1 _ (h.issued c hc)
  locked := by
    rintro c outboxId ⟨hc, rfl, hunfinished, hnow⟩ row' hrow'
    obtain ⟨hle, -, hreturned⟩ := past_of_step hstep
    have hold : HoldsRow env s c c.outboxId :=
      ⟨hc, rfl, fun h => hunfinished (hreturned _ h), Nat.lt_of_le_of_lt hle hnow⟩
    obtain ⟨row, hrow, hchange⟩ :=
      rowChange_of_step h.sound hstep (h.issued c hc) hrow'
    cases hchange with
    | same hsame =>
        rw [hsame]
        exact h.locked c _ hold row hrow
    | recorded i verdict correlation attempt ha hcall happly =>
        subst ha
        exfalso
        by_cases hi : c.worker = i
        · -- the worker itself has recorded its result and returned
          subst hi
          exact hunfinished (returned_of_record hstep)
        · exact hends ⟨c, _, hold, by simpa [writer] using hi,
            verdict, correlation, row, hrow, hcall, by rw [happly]; rfl⟩
    | claimed reference ha =>
        exact absurd ha (hclaim _ reference)
    | unclaimed ha =>
        subst ha
        exact absurd ⟨c, _, hold, by simp [writer], rfl⟩ hends
    | requeued companyId ha =>
        subst ha
        exact absurd ⟨c, _, hold, by simp [writer], rfl⟩ hends

theorem not_holdsRow_of_claim (h : Leased env s) {outboxId reference : Nat}
    {outbox : OutboxState ι}
    (hstep : Actions.outboxStep env s.outbox (.claim outboxId reference) = some outbox)
    (hstarts : ∀ c, HoldsRow env s c outboxId → reference < c.reference + env.lease) :
    ∀ c, ¬HoldsRow env s c outboxId := by
  intro c hc
  obtain ⟨row, hrow, hpending, -⟩ := claim_eq_some hstep
  -- the row is locked until after the reference of the run that claims it
  obtain ⟨lockedUntil, hlocked, hle⟩ := h.locked c outboxId hc row hrow
  have hunlocked : lockedUntil ≤ reference := by
    have hall := (Bool.and_eq_true_iff.mp hpending).2
    simpa [hlocked] using hall
  have hlt := hstarts c hc
  omega

theorem Leased.claim [DecidableEq ρ] (h : Leased env s) {r : ρ} {worker : ι} {outboxId : Nat}
    {outbox : OutboxState ι}
    (hstep : Actions.outboxStep env s.outbox (.claim outboxId (s.runs r).reference) =
      some outbox)
    (halone : ∀ c, ¬HoldsRow env s c outboxId) :
    Leased env (s.claimed r worker outboxId outbox) where
  sound := h.sound.step hstep
  issued := by
    intro c hc
    rcases List.mem_cons.mp hc with rfl | hc
    · obtain ⟨row, hrow, -, rfl⟩ := claim_eq_some hstep
      exact h.sound.issued _ row hrow
    · exact (past_of_step hstep).2.1 _ (h.issued c hc)
  locked := by
    rintro c id ⟨hc, rfl, hunfinished, hnow⟩ row' hrow'
    obtain ⟨row, hrow, -, rfl⟩ := claim_eq_some hstep
    have hkeyed := h.sound.keyed outboxId row hrow
    simp only [RetryState.claimed, OutboxState.setRow, hkeyed] at hrow'
    rcases List.mem_cons.mp hc with rfl | hc
    · rw [Function.update_self] at hrow'
      cases hrow'
      exact ⟨_, rfl, Nat.le_refl _⟩
    · have hold : HoldsRow env s c c.outboxId := ⟨hc, rfl, hunfinished, hnow⟩
      have hne : c.outboxId ≠ outboxId := by
        intro heq
        exact halone c (heq ▸ hold)
      rw [Function.update_of_ne hne] at hrow'
      exact h.locked c _ hold row' hrow'

theorem Leased.reset (h : Leased env s) {worker : ι} {outboxId : Nat} {outbox : OutboxState ι}
    (hstep : Actions.outboxStep env s.outbox (.unclaim outboxId) = some outbox)
    (hends : ¬EndsOthersLease env s (some worker) (.unclaim outboxId)) :
    Leased env { s with outbox := outbox.setCall worker .returned } where
  sound := (h.sound.step hstep).setReturned worker
  issued c hc := (past_of_step hstep).2.1 _ (h.issued c hc)
  locked := by
    rintro c id ⟨hc, rfl, hunfinished, hnow⟩ row' hrow'
    have hne : c.worker ≠ worker := by
      intro heq
      apply hunfinished
      simp [OutboxState.setCall, heq]
    obtain ⟨hle, -, hreturned⟩ := past_of_step hstep
    have hold : HoldsRow env s c c.outboxId := by
      refine ⟨hc, rfl, fun h => hunfinished ?_, Nat.lt_of_le_of_lt hle hnow⟩
      simpa [OutboxState.setCall, Function.update_of_ne hne] using hreturned _ h
    obtain ⟨row, hrow, hchange⟩ := rowChange_of_step h.sound hstep (h.issued c hc) hrow'
    cases hchange with
    | same hsame =>
        rw [hsame]
        exact h.locked c _ hold row hrow
    | unclaimed ha =>
        cases ha
        exact absurd ⟨c, _, hold, by simpa using hne, rfl⟩ hends
    | recorded i verdict correlation attempt ha => cases ha
    | claimed reference ha => cases ha
    | requeued companyId ha => cases ha

variable [DecidableEq ρ]

theorem Leased.step (h : Leased env s) {a : RetryAction ι ρ} (hrespected : LeaseRespected env s a)
    (hstep : retryStep env s a = some s') : Leased env s' := by
  cases retryChange_of_step hstep with
  | started | checked | claimedNone | merged | stopped => exact h.runs _
  | claimed r worker outboxId outbox hphase hidle hworker houtbox =>
      exact h.claim houtbox (not_holdsRow_of_claim h houtbox hrespected)
  | worked c hclaim hdryRun outbox houtbox =>
      refine h.outboxStep houtbox ?_ (by simp)
      rintro ⟨c, outboxId, -, -, hunlocks⟩
      exact hunlocks
  | reset r worker outboxId outbox hphase houtbox =>
      exact (h.reset houtbox (hrespected worker outboxId hphase)).runs _
  | other a outbox hforeign houtbox =>
      refine h.outboxStep houtbox hrespected ?_
      rintro outboxId reference rfl
      simp [RetryState.foreign] at hforeign

theorem Leased.claimedAlone (h : Leased env s) {a : RetryAction ι ρ}
    (hrespected : LeaseRespected env s a) : ClaimedAlone env s a := by
  cases a with
  | claim r worker outboxId =>
      intro hsome
      obtain ⟨s₁, hstep⟩ := Option.isSome_iff_exists.mp hsome
      cases retryChange_of_step hstep with
      | claimed _ _ _ outbox hphase hidle hworker houtbox =>
          exact not_holdsRow_of_claim h houtbox hrespected
  | _ => trivial

/--
In a run whose steps respect the leases, no row is claimed while another worker
that claimed it less than a lease ago is not finished with it.
-/
theorem claimedAlone_of_run {now : Nat} {as : List (RetryAction ι ρ)}
    (h : (retries env).Meets (LeaseRespected env) (.initial ι ρ now) as) :
    (retries env).Meets (ClaimedAlone env) (.initial ι ρ now) as :=
  Machine.meets_of_invariant (fun hs hrespected hstep => hs.step hrespected hstep)
    (fun hs hrespected => hs.claimedAlone hrespected) h (leased_initial env now)

def defaultRun (scheduledJobRunId : Nat) : RetryParameters where
  batchSize := 50
  maxMicroseconds := 50 * second
  concurrency := 4
  dryRun := false
  now := none
  scheduledJobRunId := some scheduledJobRunId

def twoRuns (late : Nat) : List (RetryAction Nat Nat) :=
  [.other (.editRules fun id => if id = 1 then some sampleRule else none),
    .other (.emit ⟨1, 1, some 1, .webhook, [], sampleEnvelope⟩),
    .start 0 (defaultRun 1), .other (.wait (late * second)), .check 0, .claim 0 0 1, .work 0,
    .other (.wait ((120 - late) * second)), .start 1 (defaultRun 2), .check 1]

theorem claimedAlone_of_run_full :
    (∃ s, (retries sampleDelivery).run (.initial Nat Nat 0) (twoRuns 0 ++ [.claim 1 1 1]) =
      some s ∧ s.claims.length = 2) ∧
    (retries sampleDelivery).Meets (ClaimedAlone sampleDelivery) (.initial Nat Nat 0)
      (twoRuns 0 ++ [.claim 1 1 1]) := by
  refine ⟨⟨_, rfl, rfl⟩, claimedAlone_of_run ?_⟩
  have hnobody : ∀ (s : RetryState Nat Nat) (i : Option Nat) (a : OutboxAction Nat),
      s.claims = [] → ¬EndsOthersLease sampleDelivery s i a := by
    rintro s i a hclaims ⟨c, outboxId, ⟨hc, -⟩, -⟩
    rw [hclaims] at hc
    cases hc
  refine Machine.meets_cons (hnobody _ _ _ rfl) rfl ?_
  refine Machine.meets_cons (hnobody _ _ _ rfl) rfl ?_
  refine Machine.meets_cons trivial rfl ?_
  refine Machine.meets_cons (hnobody _ _ _ rfl) rfl ?_
  refine Machine.meets_cons trivial rfl ?_
  refine Machine.meets_cons ?_ rfl ?_
  · rintro c ⟨hc, -⟩
    cases hc
  refine Machine.meets_cons trivial rfl ?_
  refine Machine.meets_cons ?_ rfl ?_
  · rintro ⟨c, outboxId, -, -, hunlocks⟩
    exact hunlocks
  refine Machine.meets_cons trivial rfl ?_
  refine Machine.meets_cons trivial rfl ?_
  refine Machine.meets_cons ?_ rfl trivial
  rintro c ⟨hc, -, -, hnow⟩
  -- the one claim is as old as the lease
  cases List.mem_singleton.mp hc
  exact absurd hnow (by decide)

/-- The lease of a row claimed at 49 seconds is over at 120, since its run started at 0. -/
theorem claimedAlone_false :
    ∃ s, (retries sampleDelivery).run (.initial Nat Nat 0) (twoRuns 49) = some s ∧
      ¬ClaimedAlone sampleDelivery s (.claim 1 1 1) := by
  obtain ⟨s, hrun⟩ : ∃ s, (retries sampleDelivery).run (.initial Nat Nat 0) (twoRuns 49) =
    some s := ⟨_, rfl⟩
  refine ⟨s, hrun, fun halone => ?_⟩
  cases hrun
  refine halone rfl ⟨0, 1, 0, 49 * second, false, some 1⟩ ⟨?_, rfl, ?_, ?_⟩
  · exact List.mem_cons_self
  · rintro ⟨⟩
  · decide

end Retries

end StorageService.Results
