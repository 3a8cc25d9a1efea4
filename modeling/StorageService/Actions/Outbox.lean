import Mathlib.Logic.Function.Basic
import StorageService.Actions.Delivery
import StorageService.Foundation.StateMachine

/-!
# The outbox under concurrent delivery

Any number of `deliver_outbox_row` calls on shared rows: each reads its row in
one transaction, makes its HTTP call outside of any, and writes in a second
transaction.  Between these steps rows are emitted, claimed for a retry and
requeued, rules are edited, and time passes.  Tables are keyed by their primary
key; the attempts of a row are kept in the order in which they were made.
-/

namespace StorageService.Actions

open StorageService.Foundation

inductive Call where
  | idle
  | calling (outboxId snapshotAttempt : Nat) (work : Work) (correlation : Correlation)
  | answered (outboxId snapshotAttempt : Nat) (verdict : Verdict) (correlation : Correlation)
  | returned

def Call.snapshot? : Call → Option (Nat × Nat)
  | .calling outboxId snapshotAttempt _ _ | .answered outboxId snapshotAttempt _ _ =>
      some (outboxId, snapshotAttempt)
  | .idle | .returned => none

/-- `issued` keeps the ids of rows that were ever there, `requeues` how often each was requeued. -/
structure OutboxState (ι : Type) where
  now : Nat
  rules : Nat → Option ActionRule
  rows : Nat → Option OutboxRow
  attempts : Nat → List DeliveryAttempt
  calls : ι → Call
  issued : List Nat
  requeues : Nat → Nat

namespace OutboxState

def initial (ι : Type) (now : Nat) : OutboxState ι where
  now := now
  rules := fun _ => none
  rows := fun _ => none
  attempts := fun _ => []
  calls := fun _ => .idle
  issued := []
  requeues := fun _ => 0

end OutboxState

structure NewRow where
  id : Nat
  companyId : ℤ
  actionRule : Option Nat
  deliveryKind : DeliveryKind
  eventType : Text
  envelope : List (Text × Json)

inductive OutboxAction (ι : Type) where
  | emit (row : NewRow)
  | deliver (i : ι) (outboxId : Nat) (correlation : Correlation)
  | answer (i : ι) (verdict : Verdict)
  | record (i : ι)
  | raise (i : ι)
  /-- `claim_next_pending_outbox`, where `reference` is its `now`. -/
  | claim (outboxId reference : Nat)
  | unclaim (outboxId : Nat)
  | requeue (companyId : ℤ) (outboxId : Nat)
  | editRules (rules : Nat → Option ActionRule)
  | wait (time : Nat)

def newOutboxRow (now : Nat) (row : NewRow) : OutboxRow where
  id := row.id
  companyId := row.companyId
  actionRule := row.actionRule
  deliveryKind := row.deliveryKind
  eventType := row.eventType
  status := .pending
  attemptCount := 0
  nextAttemptAt := none
  lockedUntil := none
  lastError := []
  createdAt := now
  envelope := row.envelope
  deliveredAt := none

def ActionOutbox.isPending (reference : Nat) (row : ActionOutbox) : Bool :=
  decide (row.status = .pending ∨ row.status = .failed) &&
    row.nextAttemptAt.all (· ≤ reference) && row.lockedUntil.all (· ≤ reference)

/-- A row whose rule is gone is deleted with it. -/
def ActionOutbox.orphaned (rules : Nat → Option ActionRule) (row : ActionOutbox) : Bool :=
  row.actionRule.any fun rule => (rules rule).isNone

section Machine

variable {ι : Type} [DecidableEq ι]

namespace OutboxState

def setCall (s : OutboxState ι) (i : ι) (call : Call) : OutboxState ι :=
  { s with calls := Function.update s.calls i call }

def setRow (s : OutboxState ι) (row : OutboxRow) : OutboxState ι :=
  { s with rows := Function.update s.rows row.id (some row) }

def addAttempt (s : OutboxState ι) (outboxId : Nat) (attempt : DeliveryAttempt) :
    OutboxState ι :=
  { s with
    attempts := Function.update s.attempts outboxId (s.attempts outboxId ++ [attempt]) }

def startDelivery (env : DeliveryEnv) (s : OutboxState ι) (i : ι) (outboxId : Nat)
    (correlation : Correlation) : OutboxState ι :=
  match s.rows outboxId with
  | none => s.setCall i .returned
  | some row =>
      if row.status = .delivered ∨ row.status = .dead then s.setCall i .returned
      else
        match workOf env s.rules row.toActionOutbox with
        | .terminal error =>
            s.setCall i (.answered outboxId row.attemptCount (.terminal error) correlation)
        | work => s.setCall i (.calling outboxId row.attemptCount work correlation)

/-- A row that has gone, or an error the database refuses, raises and changes nothing. -/
def recordResult (env : DeliveryEnv) (s : OutboxState ι) (i : ι)
    (outboxId snapshotAttempt : Nat) (verdict : Verdict) (correlation : Correlation) :
    OutboxState ι :=
  match s.rows outboxId with
  | none => s.setCall i .returned
  | some row =>
      if row.attemptCount ≠ snapshotAttempt then s.setCall i .returned
      else
        match applyDeliveryResult env s.now correlation row verdict with
        | none => s.setCall i .returned
        | some (row', attempt) =>
            ((s.setCall i .returned).setRow row').addAttempt outboxId attempt

end OutboxState

def outboxStep (env : DeliveryEnv) (s : OutboxState ι) :
    OutboxAction ι → Option (OutboxState ι)
  | .emit row =>
      if row.id ∈ s.issued then none
      else some { s.setRow (newOutboxRow s.now row) with issued := row.id :: s.issued }
  | .deliver i outboxId correlation =>
      match s.calls i with
      | .idle => some (s.startDelivery env i outboxId correlation)
      | _ => none
  | .answer i verdict =>
      match s.calls i with
      | .calling outboxId snapshotAttempt _ correlation =>
          some (s.setCall i (.answered outboxId snapshotAttempt verdict correlation))
      | _ => none
  | .record i =>
      match s.calls i with
      | .answered outboxId snapshotAttempt verdict correlation =>
          some (s.recordResult env i outboxId snapshotAttempt verdict correlation)
      | _ => none
  | .raise i => some (s.setCall i .returned)
  | .claim outboxId reference =>
      match s.rows outboxId with
      | some row =>
          if row.isPending reference then
            some (s.setRow
              { row with lockedUntil := some (reference + env.leaseSeconds * second) })
          else none
      | none => none
  | .unclaim outboxId =>
      match s.rows outboxId with
      | some row => some (s.setRow { row with lockedUntil := none })
      | none => some s
  | .requeue companyId outboxId =>
      match s.rows outboxId with
      | some row =>
          if Store.isDelivery companyId row.toActionOutbox then
            some { s.setRow { row with toActionOutbox := Store.requeued row.toActionOutbox } with
              requeues := Function.update s.requeues outboxId (s.requeues outboxId + 1) }
          else none
      | none => none
  | .editRules rules =>
      some { s with
        rules := rules
        rows := fun id => (s.rows id).filter fun row => !row.toActionOutbox.orphaned rules
        attempts := fun id =>
          if (s.rows id).any fun row => row.toActionOutbox.orphaned rules then []
          else s.attempts id }
  | .wait time => some { s with now := s.now + time }

def outbox (env : DeliveryEnv) : Machine (OutboxState ι) (OutboxAction ι) := ⟨outboxStep env⟩

end Machine

/-! ## What a step does -/

section Steps

variable {ι : Type} [DecidableEq ι]

inductive OutboxChange (env : DeliveryEnv) (s : OutboxState ι) :
    OutboxAction ι → OutboxState ι → Prop where
  | emitted (row : NewRow) (hfresh : row.id ∉ s.issued) :
      OutboxChange env s (.emit row)
        { s.setRow (newOutboxRow s.now row) with issued := row.id :: s.issued }
  | started (i : ι) (outboxId : Nat) (correlation : Correlation) (hidle : s.calls i = .idle) :
      OutboxChange env s (.deliver i outboxId correlation)
        (s.startDelivery env i outboxId correlation)
  | answered (i : ι) (verdict : Verdict) (outboxId snapshotAttempt : Nat) (work : Work)
      (correlation : Correlation)
      (hcall : s.calls i = .calling outboxId snapshotAttempt work correlation) :
      OutboxChange env s (.answer i verdict)
        (s.setCall i (.answered outboxId snapshotAttempt verdict correlation))
  | recorded (i : ι) (outboxId snapshotAttempt : Nat) (verdict : Verdict)
      (correlation : Correlation)
      (hcall : s.calls i = .answered outboxId snapshotAttempt verdict correlation) :
      OutboxChange env s (.record i)
        (s.recordResult env i outboxId snapshotAttempt verdict correlation)
  | raised (i : ι) : OutboxChange env s (.raise i) (s.setCall i .returned)
  | claimed (outboxId reference : Nat) (row : OutboxRow) (hrow : s.rows outboxId = some row)
      (hpending : row.isPending reference = true) :
      OutboxChange env s (.claim outboxId reference)
        (s.setRow { row with lockedUntil := some (reference + env.leaseSeconds * second) })
  | unclaimed (outboxId : Nat) (row : OutboxRow) (hrow : s.rows outboxId = some row) :
      OutboxChange env s (.unclaim outboxId) (s.setRow { row with lockedUntil := none })
  | unclaimedNone (outboxId : Nat) (hrow : s.rows outboxId = none) :
      OutboxChange env s (.unclaim outboxId) s
  | requeued (companyId : ℤ) (outboxId : Nat) (row : OutboxRow)
      (hrow : s.rows outboxId = some row)
      (hdelivery : Store.isDelivery companyId row.toActionOutbox = true) :
      OutboxChange env s (.requeue companyId outboxId)
        { s.setRow { row with toActionOutbox := Store.requeued row.toActionOutbox } with
          requeues := Function.update s.requeues outboxId (s.requeues outboxId + 1) }
  | editedRules (rules : Nat → Option ActionRule) :
      OutboxChange env s (.editRules rules)
        { s with
          rules := rules
          rows := fun id => (s.rows id).filter fun row => !row.toActionOutbox.orphaned rules
          attempts := fun id =>
            if (s.rows id).any fun row => row.toActionOutbox.orphaned rules then []
            else s.attempts id }
  | waited (time : Nat) : OutboxChange env s (.wait time) { s with now := s.now + time }

theorem outboxChange_of_step {env : DeliveryEnv} {s s' : OutboxState ι} {a : OutboxAction ι}
    (h : outboxStep env s a = some s') : OutboxChange env s a s' := by
  cases a with
  | emit row =>
      simp only [outboxStep] at h
      split at h
      · contradiction
      · rename_i hfresh
        cases h
        exact .emitted row hfresh
  | deliver i outboxId correlation =>
      simp only [outboxStep] at h
      split at h
      · rename_i hidle
        cases h
        exact .started i outboxId correlation hidle
      · contradiction
  | answer i verdict =>
      simp only [outboxStep] at h
      split at h
      · rename_i outboxId snapshotAttempt work correlation hcall
        cases h
        exact .answered i verdict outboxId snapshotAttempt work correlation hcall
      · contradiction
  | record i =>
      simp only [outboxStep] at h
      split at h
      · rename_i outboxId snapshotAttempt verdict correlation hcall
        cases h
        exact .recorded i outboxId snapshotAttempt verdict correlation hcall
      · contradiction
  | raise i =>
      cases h
      exact .raised i
  | claim outboxId reference =>
      simp only [outboxStep] at h
      split at h
      · rename_i row hrow
        split at h
        · rename_i hpending
          cases h
          exact .claimed outboxId reference row hrow hpending
        · contradiction
      · contradiction
  | unclaim outboxId =>
      simp only [outboxStep] at h
      split at h
      · rename_i row hrow
        cases h
        exact .unclaimed outboxId row hrow
      · rename_i hrow
        cases h
        exact .unclaimedNone outboxId hrow
  | requeue companyId outboxId =>
      simp only [outboxStep] at h
      split at h
      · rename_i row hrow
        split at h
        · rename_i hdelivery
          cases h
          exact .requeued companyId outboxId row hrow hdelivery
        · contradiction
      · contradiction
  | editRules rules =>
      cases h
      exact .editedRules rules
  | wait time =>
      cases h
      exact .waited time

end Steps

/-! ## What every state obeys -/

def DeliveryStatus.Final (status : DeliveryStatus) : Prop :=
  status = .delivered ∨ status = .dead

def DeliveryStatus.Open (status : DeliveryStatus) : Prop :=
  status = .pending ∨ status = .failed

theorem DeliveryStatus.open_of_not_final {status : DeliveryStatus} (h : ¬status.Final) :
    status.Open := by
  cases status with
  | pending => exact .inl rfl
  | failed => exact .inr rfl
  | delivered => exact absurd (.inl rfl) h
  | dead => exact absurd (.inr rfl) h

theorem DeliveryStatus.Open.not_final {status : DeliveryStatus} (h : status.Open) :
    ¬status.Final := by
  rcases h with rfl | rfl <;> rintro (h | h) <;> contradiction

def attemptLimit (env : DeliveryEnv) : Int := max 1 env.maxAttempts

/-- A row with the attempts made on it and the number of its requeues. -/
structure OutboxRow.Sound (env : DeliveryEnv) (row : OutboxRow)
    (attempts : List DeliveryAttempt) (requeues : Nat) : Prop where
  numbered : attempts.map DeliveryAttempt.attemptNumber = List.range' 1 row.attemptCount
  delivered : row.status = .delivered →
    row.nextAttemptAt = none ∧ ∃ a, attempts.getLast? = some a ∧ a.success = true
  dead : row.status = .dead →
    row.nextAttemptAt = none ∧ ∃ a, attempts.getLast? = some a ∧ a.success = false
  failed : row.status = .failed →
    ∃ a, attempts.getLast? = some a ∧ a.success = false ∧
      ∃ delay, 1 ≤ delay ∧ delay ≤ 3600 ∧
        row.nextAttemptAt = some (a.createdAt + delay * second)
  finalBound : row.status.Final → (row.attemptCount : Int) ≤ attemptLimit env + requeues
  openBound : row.status.Open → (row.attemptCount : Int) + 1 ≤ attemptLimit env + requeues

structure OutboxState.Sound {ι : Type} (env : DeliveryEnv) (s : OutboxState ι) : Prop where
  keyed : ∀ id row, s.rows id = some row → row.id = id
  rows : ∀ id row, s.rows id = some row → row.Sound env (s.attempts id) (s.requeues id)
  issued : ∀ id row, s.rows id = some row → id ∈ s.issued
  unissued : ∀ id, id ∉ s.issued → s.attempts id = [] ∧ s.requeues id = 0
  /-- Until the count moves on, the row a call has read is open. -/
  snapshots : ∀ i id snapshotAttempt, (s.calls i).snapshot? = some (id, snapshotAttempt) →
    id ∈ s.issued ∧ ∀ row, s.rows id = some row → snapshotAttempt ≤ row.attemptCount ∧
      (row.attemptCount = snapshotAttempt → row.status.Open)

theorem outboxState_initial_sound (env : DeliveryEnv) (ι : Type) (now : Nat) :
    (OutboxState.initial ι now).Sound env where
  keyed := by
    intro id row h
    cases h
  rows := by
    intro id row h
    cases h
  issued := by
    intro id row h
    cases h
  unissued _ _ := ⟨rfl, rfl⟩
  snapshots := by
    intro i id snapshotAttempt h
    cases h

theorem newOutboxRow_sound (env : DeliveryEnv) (now : Nat) (row : NewRow) :
    (newOutboxRow now row).Sound env [] 0 where
  numbered := rfl
  delivered h := by cases h
  dead h := by cases h
  failed h := by cases h
  finalBound h := by rcases h with h | h <;> cases h
  openBound _ := by
    simp only [newOutboxRow, attemptLimit]
    omega

theorem OutboxRow.Sound.lock {env : DeliveryEnv} {row : OutboxRow}
    {attempts : List DeliveryAttempt} {requeues : Nat} (h : row.Sound env attempts requeues)
    (lockedUntil : Option Nat) :
    ({ row with lockedUntil := lockedUntil } : OutboxRow).Sound env attempts requeues :=
  ⟨h.numbered, h.delivered, h.dead, h.failed, h.finalBound, h.openBound⟩

theorem OutboxRow.Sound.requeued {env : DeliveryEnv} {row : OutboxRow}
    {attempts : List DeliveryAttempt} {requeues : Nat} (h : row.Sound env attempts requeues) :
    ({ row with toActionOutbox := Store.requeued row.toActionOutbox } : OutboxRow).Sound env
      attempts (requeues + 1) where
  numbered := h.numbered
  delivered h := by cases h
  dead h := by cases h
  failed h := by cases h
  finalBound h := by rcases h with h | h <;> cases h
  openBound _ := by
    have hcount : (row.attemptCount : Int) ≤ attemptLimit env + requeues := by
      by_cases hfinal : row.status.Final
      · exact h.finalBound hfinal
      · have := h.openBound (DeliveryStatus.open_of_not_final hfinal)
        omega
    simp only [Store.requeued]
    omega

/-- An attempt on an open row is numbered next, and the last one is what the status tells. -/
theorem OutboxRow.Sound.attempted {env : DeliveryEnv} {row row' : OutboxRow}
    {attempts : List DeliveryAttempt} {requeues : Nat} (h : row.Sound env attempts requeues)
    (hopen : row.status.Open) {now : Nat} {correlation : Correlation} {verdict : Verdict}
    {attempt : DeliveryAttempt}
    (happly : applyDeliveryResult env now correlation row verdict = some (row', attempt)) :
    row'.Sound env (attempts ++ [attempt]) requeues := by
  obtain ⟨error, rfl, rfl⟩ := applyDeliveryResult_eq_some happly
  have hlast : ∀ a : DeliveryAttempt, (attempts ++ [a]).getLast? = some a := fun a =>
    List.getLast?_concat
  have hstatus := @attemptedRow_status env now row verdict error
  have hnext := @attemptedRow_nextAttemptAt env now row verdict error
  have hbound := h.openBound hopen
  refine ⟨?_, ?_, ?_, ?_, ?_, ?_⟩
  · rw [List.map_append, h.numbered, attemptedRow_attemptCount, List.range'_1_concat,
      Nat.add_comm 1]
    rfl
  · intro hdelivered
    refine ⟨hnext.1 (by rw [hdelivered]; decide), _, hlast _, ?_⟩
    rw [hdelivered] at hstatus
    by_contra hsuccess
    have hsuccess : verdict.success = false := by simpa [newAttempt] using hsuccess
    rw [hsuccess] at hstatus
    simp only [Bool.false_eq_true, if_false] at hstatus
    split at hstatus <;> contradiction
  · intro hdead
    refine ⟨hnext.1 (by rw [hdead]; decide), _, hlast _, ?_⟩
    rw [hdead] at hstatus
    by_contra hsuccess
    have hsuccess : verdict.success = true := by simpa [newAttempt] using hsuccess
    rw [if_pos hsuccess] at hstatus
    contradiction
  · intro hfailed
    refine ⟨_, hlast _, ?_, hnext.2 hfailed⟩
    rw [hfailed] at hstatus
    by_contra hsuccess
    have hsuccess : verdict.success = true := by simpa [newAttempt] using hsuccess
    rw [if_pos hsuccess] at hstatus
    contradiction
  · intro _
    rw [attemptedRow_attemptCount]
    push_cast
    exact hbound
  · intro hopen'
    -- the row is failed, so the limit is not reached
    have hlimit : attemptsExhausted env (row.attemptCount + 1) = false := by
      rw [hstatus] at hopen'
      split at hopen'
      · rcases hopen' with h | h <;> contradiction
      · split at hopen'
        · rcases hopen' with h | h <;> contradiction
        · rename_i hdead
          simp only [Bool.or_eq_true, not_or, Bool.not_eq_true] at hdead
          exact hdead.2
    simp only [attemptsExhausted, decide_eq_false_iff_not] at hlimit
    rw [attemptedRow_attemptCount]
    simp only [attemptLimit] at hbound ⊢
    push_cast at hlimit ⊢
    omega

namespace OutboxState

variable {ι : Type} {env : DeliveryEnv} {s s' : OutboxState ι}

def put (s : OutboxState ι) (row : OutboxRow) (attempts : List DeliveryAttempt)
    (requeues : Nat) : OutboxState ι :=
  { s with
    rows := Function.update s.rows row.id (some row)
    attempts := Function.update s.attempts row.id attempts
    requeues := Function.update s.requeues row.id requeues }

theorem setRow_eq_put (s : OutboxState ι) (row : OutboxRow) :
    s.setRow row = s.put row (s.attempts row.id) (s.requeues row.id) := by
  simp [setRow, put]

theorem Sound.put (hs : s.Sound env) {old : OutboxRow} (row : OutboxRow)
    (hold : s.rows row.id = some old)
    {attempts : List DeliveryAttempt} {requeues : Nat}
    (hrow : row.Sound env attempts requeues) (hcount : old.attemptCount ≤ row.attemptCount)
    (hopen : old.attemptCount = row.attemptCount → old.status.Open → row.status.Open) :
    (s.put row attempts requeues).Sound env where
  keyed := by
    intro id r h
    by_cases hid : id = row.id
    · subst hid
      simp only [OutboxState.put, Function.update_self, Option.some.injEq] at h
      rw [h]
    · exact hs.keyed id r (by simpa [OutboxState.put, hid] using h)
  rows := by
    intro id r h
    by_cases hid : id = row.id
    · subst hid
      simp only [OutboxState.put, Function.update_self, Option.some.injEq] at h ⊢
      exact h ▸ hrow
    · simpa [OutboxState.put, hid] using
        hs.rows id r (by simpa [OutboxState.put, hid] using h)
  issued := by
    intro id r h
    by_cases hid : id = row.id
    · subst hid
      exact hs.issued _ old hold
    · exact hs.issued id r (by simpa [OutboxState.put, hid] using h)
  unissued := by
    intro id h
    have hid : id ≠ row.id := by
      rintro rfl
      exact h (hs.issued _ old hold)
    simpa [OutboxState.put, hid] using hs.unissued id h
  snapshots := by
    intro i id snapshotAttempt h
    obtain ⟨hissued, hrows⟩ := hs.snapshots i id snapshotAttempt h
    refine ⟨hissued, fun r hr => ?_⟩
    by_cases hid : id = row.id
    · subst hid
      simp only [OutboxState.put, Function.update_self, Option.some.injEq] at hr
      subst hr
      obtain ⟨hle, himp⟩ := hrows old hold
      refine ⟨Nat.le_trans hle hcount, fun heq => ?_⟩
      -- the count has not moved, so the old row was open too
      have hsame : old.attemptCount = snapshotAttempt := by omega
      exact hopen (by omega) (himp hsame)
    · exact hrows r (by simpa [OutboxState.put, hid] using hr)

theorem Sound.lock (hs : s.Sound env) {id : Nat} {row : OutboxRow} (hrow : s.rows id = some row)
    (lockedUntil : Option Nat) :
    (s.setRow { row with lockedUntil := lockedUntil }).Sound env := by
  have hid := hs.keyed id row hrow
  rw [setRow_eq_put]
  have hold : s.rows ({ row with lockedUntil := lockedUntil } : OutboxRow).id = some row := by
    simpa [hid] using hrow
  refine hs.put _ hold ?_ (Nat.le_refl _) fun _ h => h
  have hsound := (hs.rows id row hrow).lock lockedUntil
  simpa only [hid] using hsound

theorem Sound.requeue (hs : s.Sound env) {outboxId : Nat} {row : OutboxRow}
    (hrow : s.rows outboxId = some row) :
    OutboxState.Sound env
      { s.setRow { row with toActionOutbox := Store.requeued row.toActionOutbox } with
        requeues := Function.update s.requeues outboxId (s.requeues outboxId + 1) } := by
  have hid := hs.keyed outboxId row hrow
  have hold : s.rows ({ row with
      toActionOutbox := Store.requeued row.toActionOutbox } : OutboxRow).id = some row := by
    simpa [Store.requeued, hid] using hrow
  have hput := hs.put _ hold (hs.rows outboxId row hrow).requeued (Nat.le_refl _)
    fun _ _ => .inl rfl
  simpa [OutboxState.put, setRow, Store.requeued, hid] using hput

theorem Sound.emit (hs : s.Sound env) {row : NewRow} (hfresh : row.id ∉ s.issued) :
    ({ s.setRow (newOutboxRow s.now row) with
      issued := row.id :: s.issued } : OutboxState ι).Sound env where
  keyed := by
    intro id r h
    by_cases hid : id = row.id
    · subst hid
      simp only [setRow, newOutboxRow, Function.update_self, Option.some.injEq] at h
      rw [← h]
    · exact hs.keyed id r (by simpa [setRow, newOutboxRow, hid] using h)
  rows := by
    intro id r h
    by_cases hid : id = row.id
    · subst hid
      simp only [setRow, newOutboxRow, Function.update_self, Option.some.injEq] at h
      obtain ⟨hattempts, hrequeues⟩ := hs.unissued row.id hfresh
      subst h
      simp only [setRow, hattempts, hrequeues]
      exact newOutboxRow_sound env s.now row
    · exact hs.rows id r (by simpa [setRow, newOutboxRow, hid] using h)
  issued := by
    intro id r h
    by_cases hid : id = row.id
    · exact hid ▸ List.mem_cons_self
    · exact List.mem_cons_of_mem _
        (hs.issued id r (by simpa [setRow, newOutboxRow, hid] using h))
  unissued := by
    intro id h
    exact hs.unissued id fun hmem => h (List.mem_cons_of_mem _ hmem)
  snapshots := by
    intro i id snapshotAttempt h
    obtain ⟨hissued, hrows⟩ := hs.snapshots i id snapshotAttempt h
    refine ⟨List.mem_cons_of_mem _ hissued, fun r hr => hrows r ?_⟩
    have hid : id ≠ row.id := by
      rintro rfl
      exact hfresh hissued
    simpa [setRow, newOutboxRow, hid] using hr

theorem Sound.editRules (hs : s.Sound env) (rules : Nat → Option ActionRule) :
    ({ s with
      rules := rules
      rows := fun id => (s.rows id).filter fun row => !row.toActionOutbox.orphaned rules
      attempts := fun id =>
        if (s.rows id).any fun row => row.toActionOutbox.orphaned rules then []
        else s.attempts id } : OutboxState ι).Sound env where
  keyed := by
    intro id r h
    exact hs.keyed id r (Option.filter_eq_some_iff.mp h).1
  rows := by
    intro id r h
    obtain ⟨hr, hkept⟩ := Option.filter_eq_some_iff.mp h
    have hsame : (s.rows id).any (fun row => row.toActionOutbox.orphaned rules) = false := by
      simpa [hr] using hkept
    simp only [hsame]
    exact hs.rows id r hr
  issued := by
    intro id r h
    exact hs.issued id r (Option.filter_eq_some_iff.mp h).1
  unissued := by
    intro id h
    obtain ⟨hattempts, hrequeues⟩ := hs.unissued id h
    refine ⟨?_, hrequeues⟩
    simp [hattempts]
  snapshots := by
    intro i id snapshotAttempt h
    obtain ⟨hissued, hrows⟩ := hs.snapshots i id snapshotAttempt h
    exact ⟨hissued, fun r hr => hrows r (Option.filter_eq_some_iff.mp hr).1⟩

variable [DecidableEq ι]

theorem Sound.setCall (hs : s.Sound env) (i : ι) {call : Call}
    (hcall : ∀ id snapshotAttempt, call.snapshot? = some (id, snapshotAttempt) →
      id ∈ s.issued ∧ ∀ row, s.rows id = some row → snapshotAttempt ≤ row.attemptCount ∧
        (row.attemptCount = snapshotAttempt → row.status.Open)) :
    (s.setCall i call).Sound env where
  keyed := hs.keyed
  rows := hs.rows
  issued := hs.issued
  unissued := hs.unissued
  snapshots := by
    intro j id snapshotAttempt h
    by_cases hij : j = i
    · subst hij
      exact hcall id snapshotAttempt (by simpa [OutboxState.setCall] using h)
    · exact hs.snapshots j id snapshotAttempt (by simpa [OutboxState.setCall, hij] using h)

theorem Sound.setReturned (hs : s.Sound env) (i : ι) : (s.setCall i .returned).Sound env :=
  hs.setCall i fun _ _ h => by cases h

theorem Sound.startDelivery (hs : s.Sound env) (i : ι) (outboxId : Nat)
    (correlation : Correlation) : (s.startDelivery env i outboxId correlation).Sound env := by
  unfold OutboxState.startDelivery
  split
  · exact hs.setReturned i
  · rename_i row hrow
    split
    · exact hs.setReturned i
    · rename_i hfinal
      have hsnapshot : ∀ id snapshotAttempt,
          some (outboxId, row.attemptCount) = some (id, snapshotAttempt) →
          id ∈ s.issued ∧ ∀ r, s.rows id = some r → snapshotAttempt ≤ r.attemptCount ∧
            (r.attemptCount = snapshotAttempt → r.status.Open) := by
        intro id snapshotAttempt h
        cases h
        refine ⟨hs.issued _ row hrow, fun r hr => ?_⟩
        rw [hrow] at hr
        cases hr
        exact ⟨Nat.le_refl _, fun _ => DeliveryStatus.open_of_not_final hfinal⟩
      split <;> exact hs.setCall i fun id n h => hsnapshot id n h

theorem Sound.recordResult (hs : s.Sound env) (i : ι) {outboxId snapshotAttempt : Nat}
    {verdict : Verdict} {correlation : Correlation}
    (hcall : (s.calls i).snapshot? = some (outboxId, snapshotAttempt)) :
    (s.recordResult env i outboxId snapshotAttempt verdict correlation).Sound env := by
  unfold OutboxState.recordResult
  split
  · exact hs.setReturned i
  · rename_i row hrow
    split
    · exact hs.setReturned i
    · rename_i hsame
      split
      · exact hs.setReturned i
      · rename_i row' attempt happly
        have hopen := ((hs.snapshots i outboxId snapshotAttempt hcall).2 row hrow).2
          (Decidable.not_not.mp hsame)
        have hid := hs.keyed outboxId row hrow
        have hsound := (hs.rows outboxId row hrow).attempted hopen happly
        obtain ⟨error, rfl, rfl⟩ := applyDeliveryResult_eq_some happly
        have hput := (hs.setReturned i).put
          (attemptedRow env s.now row verdict error)
          (by simpa [OutboxState.setCall, hid] using hrow) hsound (by simp) (by simp)
        have heq : ((s.setCall i .returned).setRow
            (attemptedRow env s.now row verdict error)).addAttempt outboxId
              (newAttempt s.now correlation row verdict error) =
            (s.setCall i .returned).put (attemptedRow env s.now row verdict error)
              (s.attempts outboxId ++ [newAttempt s.now correlation row verdict error])
              (s.requeues outboxId) := by
          simp [OutboxState.setCall, setRow, addAttempt, OutboxState.put, hid]
        rw [heq]
        exact hput

theorem Sound.step (hs : s.Sound env) {a : OutboxAction ι}
    (h : outboxStep env s a = some s') : s'.Sound env := by
  cases outboxChange_of_step h with
  | emitted row hfresh => exact hs.emit hfresh
  | started i outboxId correlation hidle => exact hs.startDelivery i outboxId correlation
  | answered i verdict outboxId snapshotAttempt work correlation hcall =>
      refine hs.setCall i fun id n hsnapshot => ?_
      exact hs.snapshots i id n (by rw [hcall]; exact hsnapshot)
  | recorded i outboxId snapshotAttempt verdict correlation hcall =>
      exact hs.recordResult i (by rw [hcall]; rfl)
  | raised i => exact hs.setReturned i
  | claimed outboxId reference row hrow hpending => exact hs.lock hrow _
  | unclaimed outboxId row hrow => exact hs.lock hrow _
  | unclaimedNone outboxId hrow => exact hs
  | requeued companyId outboxId row hrow hdelivery => exact hs.requeue hrow
  | editedRules rules => exact hs.editRules rules
  | waited time => exact ⟨hs.keyed, hs.rows, hs.issued, hs.unissued, hs.snapshots⟩

end OutboxState

/-! ## What a step does to a row that is there -/

section Rows

variable {ι : Type} {env : DeliveryEnv} {s s' : OutboxState ι}

inductive RowChange (env : DeliveryEnv) (s : OutboxState ι) (a : OutboxAction ι) (id : Nat)
    (row row' : OutboxRow) : Prop where
  | same (h : row' = row)
  | recorded (i : ι) (verdict : Verdict) (correlation : Correlation)
      (attempt : DeliveryAttempt) (ha : a = .record i)
      (hcall : s.calls i = .answered id row.attemptCount verdict correlation)
      (h : applyDeliveryResult env s.now correlation row verdict = some (row', attempt))
  | claimed (reference : Nat) (ha : a = .claim id reference)
      (hpending : row.isPending reference = true)
      (h : row' =
        { row with lockedUntil := some (reference + env.leaseSeconds * second) })
  | unclaimed (ha : a = .unclaim id) (h : row' = { row with lockedUntil := none })
  | requeued (companyId : ℤ) (ha : a = .requeue companyId id)
      (h : row' = { row with toActionOutbox := Store.requeued row.toActionOutbox })

theorem rowChange_of_setRow {a : OutboxAction ι} {id outboxId : Nat} {old new row' : OutboxRow}
    (hold : s.rows outboxId = some old) (hnew : RowChange env s a outboxId old new)
    (hid : new.id = outboxId) (h : (s.setRow new).rows id = some row') :
    ∃ row, s.rows id = some row ∧ RowChange env s a id row row' := by
  simp only [OutboxState.setRow, hid] at h
  by_cases hsame : id = outboxId
  · subst hsame
    rw [Function.update_self] at h
    cases h
    exact ⟨old, hold, hnew⟩
  · rw [Function.update_of_ne hsame] at h
    exact ⟨row', h, .same rfl⟩

variable [DecidableEq ι]

theorem rowChange_of_recordResult (hs : s.Sound env) {i : ι} {outboxId snapshotAttempt : Nat}
    {verdict : Verdict} {correlation : Correlation}
    (hcall : s.calls i = .answered outboxId snapshotAttempt verdict correlation) {id : Nat}
    {row' : OutboxRow}
    (h : (s.recordResult env i outboxId snapshotAttempt verdict correlation).rows id =
      some row') :
    ∃ row, s.rows id = some row ∧ RowChange env s (.record i) id row row' := by
  simp only [OutboxState.recordResult] at h
  split at h
  · exact ⟨row', h, .same rfl⟩
  · rename_i old hold
    split at h
    · exact ⟨row', h, .same rfl⟩
    · rename_i hsame
      have hsame : old.attemptCount = snapshotAttempt := Decidable.not_not.mp hsame
      split at h
      · exact ⟨row', h, .same rfl⟩
      · rename_i new attempt happly
        have hid : new.id = outboxId := by
          obtain ⟨error, rfl, -⟩ := applyDeliveryResult_eq_some happly
          rw [attemptedRow_id, hs.keyed outboxId old hold]
        exact rowChange_of_setRow hold
          (.recorded i verdict correlation attempt rfl (by rw [hcall, hsame]) happly) hid h

theorem rowChange_of_step (hs : s.Sound env) {a : OutboxAction ι}
    (h : outboxStep env s a = some s') {id : Nat} (hissued : id ∈ s.issued) {row' : OutboxRow}
    (hrow' : s'.rows id = some row') :
    ∃ row, s.rows id = some row ∧ RowChange env s a id row row' := by
  cases outboxChange_of_step h with
  | emitted new hfresh =>
      have hid : id ≠ new.id := by
        rintro rfl
        exact hfresh hissued
      simp only [OutboxState.setRow, newOutboxRow, Function.update_of_ne hid] at hrow'
      exact ⟨row', hrow', .same rfl⟩
  | started i outboxId correlation hidle =>
      refine ⟨row', ?_, .same rfl⟩
      simp only [OutboxState.startDelivery] at hrow'
      repeat' split at hrow'
      all_goals exact hrow'
  | recorded i outboxId snapshotAttempt verdict correlation hcall =>
      exact rowChange_of_recordResult hs hcall hrow'
  | claimed outboxId reference old hold hpending =>
      exact rowChange_of_setRow hold (.claimed reference rfl hpending rfl)
        (hs.keyed outboxId old hold) hrow'
  | unclaimed outboxId old hold =>
      exact rowChange_of_setRow hold (.unclaimed rfl rfl) (hs.keyed outboxId old hold) hrow'
  | requeued companyId outboxId old hold hdelivery =>
      exact rowChange_of_setRow hold (.requeued companyId rfl rfl)
        (hs.keyed outboxId old hold) hrow'
  | editedRules rules => exact ⟨row', (Option.filter_eq_some_iff.mp hrow').1, .same rfl⟩
  | answered | raised | unclaimedNone | waited => exact ⟨row', hrow', .same rfl⟩

theorem past_of_step {a : OutboxAction ι} (h : outboxStep env s a = some s') :
    s.now ≤ s'.now ∧ (∀ id ∈ s.issued, id ∈ s'.issued) ∧
      ∀ i, s.calls i = .returned → s'.calls i = .returned := by
  have hset : ∀ (j : ι) (call : Call), (s.calls j = .returned → call = .returned) →
      ∀ i, s.calls i = .returned → (s.setCall j call).calls i = .returned := by
    intro j call hcall i hi
    by_cases hij : i = j
    · subst hij
      simp only [OutboxState.setCall, Function.update_self]
      exact hcall hi
    · simpa only [OutboxState.setCall, Function.update_of_ne hij] using hi
  cases outboxChange_of_step h with
  | emitted new hfresh =>
      exact ⟨Nat.le_refl _, fun _ => List.mem_cons_of_mem _, fun _ hi => hi⟩
  | started i outboxId correlation hidle =>
      simp only [OutboxState.startDelivery]
      repeat' split
      all_goals
        exact ⟨Nat.le_refl _, fun _ hid => hid, hset i _ fun hi => by simp [hidle] at hi⟩
  | answered i verdict outboxId snapshotAttempt work correlation hcall =>
      exact ⟨Nat.le_refl _, fun _ hid => hid, hset i _ fun hi => by simp [hcall] at hi⟩
  | recorded i outboxId snapshotAttempt verdict correlation hcall =>
      simp only [OutboxState.recordResult]
      repeat' split
      all_goals exact ⟨Nat.le_refl _, fun _ hid => hid, hset i _ fun _ => rfl⟩
  | raised i => exact ⟨Nat.le_refl _, fun _ hid => hid, hset i _ fun _ => rfl⟩
  | waited time => exact ⟨Nat.le_add_right _ _, fun _ hid => hid, fun _ hi => hi⟩
  | claimed | unclaimed | unclaimedNone | requeued | editedRules =>
      exact ⟨Nat.le_refl _, fun _ hid => hid, fun _ hi => hi⟩

theorem claim_eq_some {outboxId reference : Nat}
    (h : outboxStep env s (.claim outboxId reference) = some s') :
    ∃ row, s.rows outboxId = some row ∧ row.isPending reference = true ∧
      s' = s.setRow
        { row with lockedUntil := some (reference + env.leaseSeconds * second) } := by
  cases outboxChange_of_step h with
  | claimed _ _ row hrow hpending => exact ⟨row, hrow, hpending, rfl⟩

theorem returned_of_record {i : ι} (h : outboxStep env s (.record i) = some s') :
    s'.calls i = .returned := by
  cases outboxChange_of_step h with
  | recorded _ outboxId snapshotAttempt verdict correlation hcall =>
      simp only [OutboxState.recordResult]
      repeat' split
      all_goals simp [OutboxState.setCall, OutboxState.setRow, OutboxState.addAttempt]

end Rows

end StorageService.Actions
