import StorageService.Results.Retries

/-!
# The batch of a retry run

The loop of `retry_pending_webhooks` compares `batch_size` with the results that
were merged, while more rows are in flight, and a dry run gives every row back
at once.  Where rows in flight are counted and rows are not given back, a run
takes up no more rows than its batch and none twice.
-/

namespace StorageService.Results

open StorageService.Foundation
open StorageService.Actions

/-! ## What the runs take up -/

structure BatchState (ι ρ : Type) where
  retry : RetryState ι ρ
  taken : ρ → List Nat

namespace BatchState

variable {ι ρ : Type}

def initial (ι ρ : Type) (now : Nat) : BatchState ι ρ where
  retry := .initial ι ρ now
  taken := fun _ => []

def Keeps (s : BatchState ι ρ) (r : ρ) (outboxId : Nat) : Prop :=
  (s.retry.runs r).phase ≠ .stopped ∧ (s.retry.runs r).dryRun = false ∧ outboxId ∈ s.taken r

variable [DecidableEq ρ]

def takenAfter (s : BatchState ι ρ) : RetryAction ι ρ → ρ → List Nat
  | .claim r _ outboxId => Function.update s.taken r (outboxId :: s.taken r)
  | _ => s.taken

end BatchState

section Machine

variable {ι ρ : Type} [DecidableEq ι] [DecidableEq ρ]

def batchStep (env : DeliveryEnv) (s : BatchState ι ρ) (a : RetryAction ι ρ) :
    Option (BatchState ι ρ) :=
  (retryStep env s.retry a).map fun retry => ⟨retry, s.takenAfter a⟩

def batches (env : DeliveryEnv) : Machine (BatchState ι ρ) (RetryAction ι ρ) := ⟨batchStep env⟩

/-- The runs are those of `retries`. -/
theorem retries_of_batches {env : DeliveryEnv} {s s' : BatchState ι ρ}
    {as : List (RetryAction ι ρ)} (h : (batches env).run s as = some s') :
    (retries env).run s.retry as = some s'.retry := by
  induction as generalizing s with
  | nil =>
      cases h
      rfl
  | cons a as ih =>
      obtain ⟨s₁, ha, has⟩ := Machine.run_cons.mp h
      obtain ⟨retry, hretry, rfl⟩ := Option.map_eq_some_iff.mp ha
      exact Machine.run_cons.mpr ⟨retry, hretry, ih has⟩

end Machine

/--
The rows in flight count towards the batch, a dry run takes one row, leases
have a length, and no row is given back to a run that has it already.
-/
def WithinBatch {ι ρ : Type} (env : DeliveryEnv) (s : BatchState ι ρ) : RetryAction ι ρ → Prop
  | .start _ parameters => ∀ now, parameters.now = some now → now ≤ s.retry.outbox.now
  | .claim r _ _ =>
      (((s.retry.runs r).processed + (s.retry.runs r).inFlight.length : Nat) : Int) <
          (s.retry.runs r).batchSize ∧
        0 < env.leaseSeconds ∧
        ((s.retry.runs r).dryRun = true → (s.retry.runs r).processed = 0)
  -- a row that has gone is not counted
  | .merge _ _ counted => counted = true
  | .reset r =>
      ∀ worker outboxId, (s.retry.runs r).phase = .resetting worker outboxId →
        ∀ r', s.Keeps r' outboxId → ∀ row, s.retry.outbox.rows outboxId = some row →
          ({ row.toActionOutbox with lockedUntil := none }).isPending
            (s.retry.runs r').reference = false
  | .other (.requeue _ outboxId) => ∀ r, ¬s.Keeps r outboxId
  | _ => True

/-! ## Rows that are not due -/

section Due

variable {env : DeliveryEnv} {row : ActionOutbox} {reference : Nat}

theorem isPending_iff : row.isPending reference = true ↔
    row.status.Open ∧ (∀ time, row.nextAttemptAt = some time → time ≤ reference) ∧
      ∀ time, row.lockedUntil = some time → time ≤ reference := by
  simp only [ActionOutbox.isPending, DeliveryStatus.Open, Bool.and_eq_true, decide_eq_true_eq,
    Option.all_eq_true, and_assoc]

theorem not_isPending_of_locked {time : Nat} (hlocked : row.lockedUntil = some time)
    (htime : reference < time) : row.isPending reference = false := by
  apply Bool.eq_false_iff.mpr
  intro hpending
  have hle := (isPending_iff.mp hpending).2.2 time hlocked
  omega

theorem not_isPending_claimed {claimant lease : Nat} (hlease : 0 < lease)
    (hclaimed : row.isPending claimant = true) (hdue : row.isPending reference = false) :
    ({ row with lockedUntil := some (claimant + lease) }).isPending reference = false := by
  apply Bool.eq_false_iff.mpr
  intro hpending
  obtain ⟨hopen, hnext, hlocked⟩ := isPending_iff.mp hpending
  have hle : claimant + lease ≤ reference := hlocked _ rfl
  -- the claimant started earlier, so what was due for it is due for the other run
  obtain ⟨-, -, hunlocked⟩ := isPending_iff.mp hclaimed
  have hall : row.isPending reference = true := by
    refine isPending_iff.mpr ⟨hopen, hnext, fun time htime => ?_⟩
    have hearlier := hunlocked time htime
    omega
  rw [hall] at hdue
  contradiction

theorem not_isPending_attemptedRow {now : Nat} {row : OutboxRow}
    {verdict : Actions.Verdict} {error : Text} (hreference : reference ≤ now) :
    (attemptedRow env now row verdict error).isPending reference = false := by
  apply Bool.eq_false_iff.mpr
  intro hpending
  obtain ⟨hopen, hnext, -⟩ := isPending_iff.mp hpending
  rcases hopen with hstatus | hstatus
  · have hattempted := @attemptedRow_status env now row verdict error
    rw [hstatus] at hattempted
    split at hattempted
    · contradiction
    · split at hattempted <;> contradiction
  · obtain ⟨delay, hdelay, -, hat⟩ := attemptedRow_nextAttemptAt.2 hstatus
    have hle := hnext _ hat
    have hsecond : second = 1000000 := rfl
    have hpositive : 0 < delay * second := Nat.mul_pos hdelay (by omega)
    omega

end Due

/-! ## One run -/

/-- What a run has taken is merged or in flight, and nothing of it is due for the run. -/
structure Batched {ι : Type} (outbox : OutboxState ι) (run : RetryRun ι) (taken : List Nat) :
    Prop where
  idle : run.phase = .idle → taken = []
  reference : run.reference ≤ outbox.now
  dryRun : run.dryRun = true → run.inFlight = []
  counted : taken.length = run.processed + run.inFlight.length
  bounded : taken.length ≤ run.batchSize.toNat
  nodup : taken.Nodup
  issued : ∀ outboxId ∈ taken, outboxId ∈ outbox.issued
  notDue : run.phase ≠ .stopped → run.dryRun = false → ∀ outboxId ∈ taken, ∀ row,
    outbox.rows outboxId = some row → row.isPending run.reference = false

namespace Batched

variable {ι : Type} {outbox outbox' : OutboxState ι} {run : RetryRun ι} {taken : List Nat}

theorem initial (ι : Type) (now : Nat) : Batched (.initial ι now) (.idle ι) [] where
  idle _ := rfl
  reference := Nat.zero_le _
  dryRun _ := rfl
  counted := rfl
  bounded := Nat.zero_le _
  nodup := List.nodup_nil
  issued := by
    intro outboxId h
    cases h
  notDue := by
    intro _ _ outboxId h
    cases h

theorem begin (h : Batched outbox run taken) (hidle : run.phase = .idle)
    {parameters : RetryParameters}
    (hnow : ∀ now, parameters.now = some now → now ≤ outbox.now) :
    Batched outbox (.begin ι outbox.now parameters) taken := by
  obtain rfl := h.idle hidle
  refine ⟨fun _ => rfl, ?_, fun _ => rfl, rfl, Nat.zero_le _, List.nodup_nil, ?_, ?_⟩
  · cases hgiven : parameters.now with
    | none => simp [RetryRun.begin, hgiven]
    | some now => simpa [RetryRun.begin, hgiven] using hnow now hgiven
  · intro outboxId hid
    cases hid
  · intro _ _ outboxId hid
    cases hid

theorem setPhase (h : Batched outbox run taken) {phase : RunPhase ι} (hidle : phase ≠ .idle)
    (hstopped : phase ≠ .stopped → run.phase ≠ .stopped) :
    Batched outbox { run with phase := phase } taken where
  idle hphase := absurd hphase hidle
  reference := h.reference
  dryRun := h.dryRun
  counted := h.counted
  bounded := h.bounded
  nodup := h.nodup
  issued := h.issued
  notDue hphase := h.notDue (hstopped hphase)

variable [DecidableEq ι]

theorem merge (h : Batched outbox run taken) {worker : ι} (hmem : worker ∈ run.inFlight) :
    Batched outbox
      { run with inFlight := run.inFlight.erase worker, processed := run.processed + 1 }
      taken where
  idle := h.idle
  reference := h.reference
  dryRun hdryRun := by
    rw [h.dryRun hdryRun] at hmem
    cases hmem
  counted := by
    have hlength := List.length_erase_add_one hmem
    have hcounted := h.counted
    simp only
    omega
  bounded := h.bounded
  nodup := h.nodup
  issued := h.issued
  notDue := h.notDue

theorem outboxStep (h : Batched outbox run taken) {env : DeliveryEnv} (hs : outbox.Sound env)
    {a : OutboxAction ι} (hstep : Actions.outboxStep env outbox a = some outbox')
    (hclaim : ∀ outboxId reference, a = .claim outboxId reference → 0 < env.leaseSeconds)
    (hunclaim : ∀ outboxId ∈ taken, a = .unclaim outboxId → run.phase ≠ .stopped →
      run.dryRun = false → ∀ row, outbox.rows outboxId = some row →
        ({ row.toActionOutbox with lockedUntil := none }).isPending run.reference = false)
    (hrequeue : ∀ outboxId ∈ taken, ∀ companyId, a = .requeue companyId outboxId →
      run.phase ≠ .stopped → run.dryRun = false → False) :
    Batched outbox' run taken where
  idle := h.idle
  reference := Nat.le_trans h.reference (past_of_step hstep).1
  dryRun := h.dryRun
  counted := h.counted
  bounded := h.bounded
  nodup := h.nodup
  issued outboxId hid := (past_of_step hstep).2.1 outboxId (h.issued outboxId hid)
  notDue := by
    intro hphase hdryRun outboxId hid row' hrow'
    obtain ⟨row, hrow, hchange⟩ := rowChange_of_step hs hstep (h.issued outboxId hid) hrow'
    have hdue := h.notDue hphase hdryRun outboxId hid row hrow
    cases hchange with
    | same hsame =>
        rw [hsame]
        exact hdue
    | recorded i verdict correlation attempt ha hcall happly =>
        obtain ⟨error, rfl, -⟩ := applyDeliveryResult_eq_some happly
        exact not_isPending_attemptedRow h.reference
    | claimed claimant ha hpending hlocked =>
        subst hlocked
        have hlease : 0 < env.leaseSeconds * second :=
          Nat.mul_pos (hclaim outboxId claimant ha) (by decide)
        exact not_isPending_claimed hlease hpending hdue
    | unclaimed ha hunlocked =>
        subst hunlocked
        exact hunclaim outboxId hid ha hphase hdryRun row hrow
    | requeued companyId ha =>
        exact (hrequeue outboxId hid companyId ha hphase hdryRun).elim

theorem not_mem_of_claim (h : Batched outbox run taken) {env : DeliveryEnv} {outboxId : Nat}
    (hphase : run.phase = .claiming) (hdryRun : run.dryRun = true → run.processed = 0)
    (hstep : Actions.outboxStep env outbox (.claim outboxId run.reference) = some outbox') :
    outboxId ∉ taken := by
  intro hid
  cases hdry : run.dryRun with
  | true =>
      -- a dry run has nothing in flight, so it has taken nothing
      have hcounted := h.counted
      rw [h.dryRun hdry, hdryRun hdry] at hcounted
      rw [List.length_eq_zero_iff.mp hcounted] at hid
      cases hid
  | false =>
      obtain ⟨row, hrow, hpending, -⟩ := claim_eq_some hstep
      have hdue := h.notDue (by simp [hphase]) hdry outboxId hid row hrow
      rw [hdue] at hpending
      contradiction

theorem claim (h : Batched outbox run taken) {env : DeliveryEnv} (hs : outbox.Sound env)
    {worker : ι} {outboxId : Nat} (hphase : run.phase = .claiming)
    (hbatch : ((run.processed + run.inFlight.length : Nat) : Int) < run.batchSize)
    (hlease : 0 < env.leaseSeconds) (hdryRun : run.dryRun = true → run.processed = 0)
    (hstep : Actions.outboxStep env outbox (.claim outboxId run.reference) = some outbox') :
    Batched outbox'
      (if run.dryRun then
        { run with phase := .resetting worker outboxId, processed := run.processed + 1 }
      else { run with phase := .looping, inFlight := worker :: run.inFlight })
      (outboxId :: taken) := by
  have hold := h.outboxStep hs hstep (fun _ _ _ => hlease) (by simp) (by simp)
  have hnodup : (outboxId :: taken).Nodup :=
    List.nodup_cons.mpr ⟨h.not_mem_of_claim hphase hdryRun hstep, h.nodup⟩
  have hcounted := h.counted
  obtain ⟨row, hrow, -, rfl⟩ := claim_eq_some hstep
  have hissued : ∀ id ∈ outboxId :: taken, id ∈ outbox.issued := by
    intro id hid
    rcases List.mem_cons.mp hid with rfl | hid
    · exact hs.issued id row hrow
    · exact h.issued id hid
  cases hdry : run.dryRun with
  | true =>
      refine ⟨by simp, hold.reference, fun _ => h.dryRun hdry, ?_, ?_, hnodup, hissued, ?_⟩
      · simp only [if_true, List.length_cons]
        omega
      · simp only [if_true, List.length_cons]
        omega
      · intro _ hfalse
        simp at hfalse
  | false =>
      refine ⟨by simp, hold.reference, by simp, ?_, ?_, hnodup, hissued, ?_⟩
      · simp only [Bool.false_eq_true, if_false, List.length_cons]
        omega
      · simp only [Bool.false_eq_true, if_false, List.length_cons]
        omega
      · intro _ _ id hid row' hrow'
        rcases List.mem_cons.mp hid with rfl | hid
        · -- the lease ends after the start of the run
          have hkeyed := hs.keyed id row hrow
          simp only [OutboxState.setRow, hkeyed, Function.update_self, Option.some.injEq]
            at hrow'
          subst hrow'
          refine not_isPending_of_locked rfl (Nat.lt_add_of_pos_right ?_)
          exact Nat.mul_pos hlease (by decide)
        · exact hold.notDue (by simp [hphase]) hdry id hid row' hrow'

theorem setCall (h : Batched outbox run taken) (i : ι) (call : Call) :
    Batched (outbox.setCall i call) run taken :=
  ⟨h.idle, h.reference, h.dryRun, h.counted, h.bounded, h.nodup, h.issued, h.notDue⟩

end Batched

/-! ## All runs -/

section Runs

variable {ι ρ : Type} {env : DeliveryEnv} {s s' : BatchState ι ρ}

structure AllBatched (env : DeliveryEnv) (s : BatchState ι ρ) : Prop where
  sound : s.retry.outbox.Sound env
  runs : ∀ r, Batched s.retry.outbox (s.retry.runs r) (s.taken r)

theorem allBatched_initial (env : DeliveryEnv) (now : Nat) :
    AllBatched env (.initial ι ρ now) where
  sound := outboxState_initial_sound env ι now
  runs _ := .initial ι now

variable [DecidableEq ρ]

theorem AllBatched.setRun (h : AllBatched env s) (r : ρ) {run : RetryRun ι}
    (hrun : Batched s.retry.outbox run (s.taken r)) :
    AllBatched env ⟨s.retry.setRun r run, s.taken⟩ where
  sound := h.sound
  runs r' := by
    by_cases hsame : r' = r
    · subst hsame
      simpa only [RetryState.setRun, Function.update_self] using hrun
    · simpa only [RetryState.setRun, Function.update_of_ne hsame] using h.runs r'

variable [DecidableEq ι]

theorem AllBatched.claim (h : AllBatched env s) {r : ρ} {worker : ι} {outboxId : Nat}
    {outbox : OutboxState ι} (hphase : (s.retry.runs r).phase = .claiming)
    (hwithin : WithinBatch env s (.claim r worker outboxId))
    (hstep : outboxStep env s.retry.outbox (.claim outboxId (s.retry.runs r).reference) =
      some outbox) :
    AllBatched env
      ⟨s.retry.claimed r worker outboxId outbox, s.takenAfter (.claim r worker outboxId)⟩ where
  sound := h.sound.step hstep
  runs r' := by
    obtain ⟨hbatch, hlease, hdryRun⟩ := hwithin
    by_cases hsame : r' = r
    · subst hsame
      simpa only [RetryState.claimed, BatchState.takenAfter, Function.update_self] using
        (h.runs r').claim h.sound hphase hbatch hlease hdryRun hstep
    · simpa only [RetryState.claimed, BatchState.takenAfter, Function.update_of_ne hsame] using
        (h.runs r').outboxStep h.sound hstep (fun _ _ _ => hlease) (by simp) (by simp)

theorem AllBatched.step (h : AllBatched env s) {a : RetryAction ι ρ}
    (hwithin : WithinBatch env s a) (hstep : batchStep env s a = some s') :
    AllBatched env s' := by
  obtain ⟨retry, hretry, rfl⟩ := Option.map_eq_some_iff.mp hstep
  cases retryChange_of_step hretry with
  | started r parameters hidle => exact h.setRun r ((h.runs r).begin hidle hwithin)
  | checked r hphase hgoesOn =>
      exact h.setRun r ((h.runs r).setPhase (by simp) (by simp [hphase]))
  | claimed r worker outboxId outbox hphase hidle hworker houtbox =>
      exact h.claim hphase hwithin houtbox
  | claimedNone r hphase =>
      refine h.setRun r ((h.runs r).setPhase ?_ (by simp [hphase]))
      split <;> simp
  | worked c hclaim hdryRun outbox houtbox =>
      exact ⟨h.sound.step houtbox, fun r =>
        (h.runs r).outboxStep h.sound houtbox (by simp) (by simp) (by simp)⟩
  | merged r worker counted hreturned hmem =>
      obtain rfl : counted = true := hwithin
      exact h.setRun r ((h.runs r).merge hmem)
  | reset r worker outboxId outbox hphase houtbox =>
      have hold : AllBatched env
          ⟨{ s.retry with outbox := outbox.setCall worker .returned }, s.taken⟩ := by
        refine ⟨(h.sound.step houtbox).setReturned worker, fun r' => ?_⟩
        refine ((h.runs r').outboxStep h.sound houtbox (by simp) ?_ (by simp)).setCall _ _
        intro id hid ha hgoing hdryRun row hrow
        cases ha
        exact hwithin worker outboxId hphase r' ⟨hgoing, hdryRun, hid⟩ row hrow
      exact hold.setRun r ((hold.runs r).setPhase (by simp) (by simp [hphase]))
  | stopped r => exact h.setRun r ((h.runs r).setPhase (by simp) (by simp))
  | other a outbox hforeign houtbox =>
      refine ⟨h.sound.step houtbox, fun r =>
        (h.runs r).outboxStep h.sound houtbox ?_ ?_ ?_⟩
      · rintro outboxId reference rfl
        simp [RetryState.foreign] at hforeign
      · rintro outboxId - rfl
        simp [RetryState.foreign] at hforeign
      · rintro outboxId hid companyId rfl hgoing hdryRun
        exact hwithin r ⟨hgoing, hdryRun, hid⟩

/--
Where every step counts what is in flight and gives no row back to a run that
has it, a run has taken up no more rows than its batch and none of them twice.
-/
theorem takesItsBatch_of_run {now : Nat} {as : List (RetryAction ι ρ)}
    (h : (batches env).Meets (WithinBatch env) (.initial ι ρ now) as)
    (hrun : (batches env).run (.initial ι ρ now) as = some s) (r : ρ) :
    (s.taken r).length ≤ (s.retry.runs r).batchSize.toNat ∧ (s.taken r).Nodup := by
  have hall : AllBatched env s :=
    Machine.invariant_of_meets (fun hs hwithin hstep => hs.step hwithin hstep) h hrun
      (allBatched_initial env now)
  exact ⟨(hall.runs r).bounded, (hall.runs r).nodup⟩

/-! ## Runs of one and of two rows -/

def batchRun (batchSize : Int) (dryRun : Bool) : RetryParameters where
  batchSize := batchSize
  maxMicroseconds := 50 * second
  concurrency := 4
  dryRun := dryRun
  now := none
  scheduledJobRunId := if dryRun then none else some 1

def twoDue (parameters : RetryParameters) : List (RetryAction Nat Nat) :=
  [.other (.editRules fun id => if id = 1 then some sampleRule else none),
    .other (.emit ⟨1, 1, some 1, .webhook, [], sampleEnvelope⟩),
    .other (.wait second), .other (.emit ⟨2, 1, some 1, .webhook, [], sampleEnvelope⟩),
    .start 0 parameters, .check 0, .claim 0 0 1]

def oneAfterTheOther : List (RetryAction Nat Nat) :=
  twoDue (batchRun 2 false) ++
    [.work 0, .other (.answer 0 (.outcome true (succeededCall none))), .other (.record 0),
      .merge 0 0 true, .check 0, .claim 0 1 2]

theorem takesItsBatch_of_run_full :
    ∃ s, (batches sampleDelivery).run (.initial Nat Nat 0) oneAfterTheOther = some s ∧
      s.taken 0 = [2, 1] ∧
      ((s.taken 0).length ≤ (s.retry.runs 0).batchSize.toNat ∧ (s.taken 0).Nodup) := by
  obtain ⟨s, hrun, htaken⟩ : ∃ s, (batches sampleDelivery).run (.initial Nat Nat 0)
      oneAfterTheOther = some s ∧ s.taken 0 = [2, 1] := ⟨_, rfl, rfl⟩
  refine ⟨s, hrun, htaken, takesItsBatch_of_run ?_ hrun 0⟩
  refine Machine.meets_cons trivial rfl ?_
  refine Machine.meets_cons trivial rfl ?_
  refine Machine.meets_cons trivial rfl ?_
  refine Machine.meets_cons trivial rfl ?_
  refine Machine.meets_cons (by rintro now ⟨⟩) rfl ?_
  refine Machine.meets_cons trivial rfl ?_
  refine Machine.meets_cons ⟨by decide, by decide, by rintro ⟨⟩⟩ rfl ?_
  refine Machine.meets_cons trivial rfl ?_
  refine Machine.meets_cons trivial rfl ?_
  refine Machine.meets_cons trivial rfl ?_
  refine Machine.meets_cons rfl rfl ?_
  refine Machine.meets_cons trivial rfl ?_
  exact Machine.meets_cons ⟨by decide, by decide, by rintro ⟨⟩⟩ rfl trivial

/--
A batch of one takes up both rows, since the first is not merged when the second
is claimed; a dry run claims the row again that it has just given back.
-/
theorem takesItsBatch_false :
    (∃ s, (batches sampleDelivery).run (.initial Nat Nat 0)
        (twoDue (batchRun 1 false) ++ [.check 0, .claim 0 1 2]) = some s ∧
      (s.retry.runs 0).batchSize = 1 ∧ (s.taken 0).length = 2) ∧
    ∃ s, (batches sampleDelivery).run (.initial Nat Nat 0)
        (twoDue (batchRun 2 true) ++ [.reset 0, .check 0, .claim 0 1 1]) = some s ∧
      (s.retry.runs 0).batchSize = 2 ∧ s.taken 0 = [1, 1] ∧ ¬(s.taken 0).Nodup :=
  ⟨⟨_, rfl, rfl, rfl⟩, _, rfl, rfl, rfl, by decide⟩

end Runs

end StorageService.Results
