import StorageService.Foundation.Interleaving
import StorageService.Foundation.StateMachine

/-!
# Recorded runs of a scheduled job

`record_run` of `scheduled_jobs.py` for the runs of one job: the row is created,
older rows that are still `running` are closed as interrupted, and when the work
is done `_finish` saves how it ended.  Both ways of closing a row are followed by
an `_increment` of their own.  Every statement is one step; a worker that dies
takes no further step.
-/

namespace StorageService.Actions

open StorageService.Foundation

inductive RunResult where
  | succeeded
  | failed
  deriving DecidableEq, Repr

inductive RunStatus where
  | running
  | finished (result : RunResult)
  deriving DecidableEq, Repr

structure RecordedRun where
  startedAt : Int
  status : RunStatus
  deriving DecidableEq, Repr

inductive RecordPhase (ι : Type) where
  | before
  | created (startedAt : Int)
  /-- The rows were closed; the code keeps their number for the counter. -/
  | interrupting (stale : Finset ι)
  | working
  | saved (result : RunResult)
  | ended
  deriving DecidableEq

def RecordPhase.Quiet {ι : Type} : RecordPhase ι → Prop
  | .before | .working | .ended => True
  | .created _ | .interrupting _ | .saved _ => False

instance {ι : Type} : (p : RecordPhase ι) → Decidable p.Quiet
  | .before | .working | .ended => isTrue trivial
  | .created _ | .interrupting _ | .saved _ => isFalse not_false

/--
The rows, the counters `runs.succeeded` and `runs.failed` and the processes;
`added` tells for which run something was added to a counter.
-/
structure RunRecords (ι : Type) where
  rows : ι → Option RecordedRun
  counters : RunResult → Nat
  phases : ι → RecordPhase ι
  added : ι → RunResult → Nat

namespace RunRecords

variable {ι : Type}

def initial : RunRecords ι where
  rows _ := none
  counters _ := 0
  phases _ := .before
  added _ _ := 0

def status (s : RunRecords ι) (i : ι) : Option RunStatus := (s.rows i).map RecordedRun.status

def isStale (s : RunRecords ι) (cutoff : Int) (i : ι) : Bool :=
  (s.rows i).any fun row => decide (row.status = .running ∧ row.startedAt < cutoff)

end RunRecords

inductive RecordAction (ι : Type) where
  | create (i : ι) (startedAt : Int)
  /-- The update of `_mark_interrupted`. -/
  | interrupt (i : ι)
  | countInterrupted (i : ι)
  /-- The save of `_finish`; `raised` says that the work ended with an exception. -/
  | save (i : ι) (raised : Bool)
  | count (i : ι)
  deriving DecidableEq, Repr

section Machine

variable {ι : Type} [DecidableEq ι] [Fintype ι]

def interruptRows (s : RunRecords ι) (stale : Finset ι) (i : ι) : Option RecordedRun :=
  (s.rows i).map fun row => if i ∈ stale then { row with status := .finished .failed } else row

def recordStep (maxRuntime : Int) (s : RunRecords ι) : RecordAction ι → Option (RunRecords ι)
  | .create i startedAt =>
      if s.phases i = .before ∧ s.rows i = none then
        some { s with
          rows := Function.update s.rows i (some ⟨startedAt, .running⟩)
          phases := Function.update s.phases i (.created startedAt) }
      else none
  | .interrupt i =>
      match s.phases i with
      | .created startedAt =>
          let stale := Finset.univ.filter fun j =>
            j ≠ i ∧ s.isStale (startedAt - maxRuntime) j = true
          some { s with
            rows := interruptRows s stale
            phases := Function.update s.phases i (.interrupting stale) }
      | _ => none
  | .countInterrupted i =>
      match s.phases i with
      | .interrupting stale =>
          some { s with
            counters := Function.update s.counters .failed (s.counters .failed + stale.card)
            phases := Function.update s.phases i .working
            added := fun j result =>
              s.added j result + if j ∈ stale ∧ result = .failed then 1 else 0 }
      | _ => none
  | .save i raised =>
      match s.phases i, s.rows i with
      | .working, some row =>
          let result := if raised then .failed else .succeeded
          -- the row is written by its key: what it says by now is not looked at
          some { s with
            rows := Function.update s.rows i (some { row with status := .finished result })
            phases := Function.update s.phases i (.saved result) }
      | _, _ => none
  | .count i =>
      match s.phases i with
      | .saved result =>
          some { s with
            counters := Function.update s.counters result (s.counters result + 1)
            phases := Function.update s.phases i .ended
            added := fun j result' =>
              s.added j result' + if j = i ∧ result' = result then 1 else 0 }
      | _ => none

def recordMachine (maxRuntime : Int) : Machine (RunRecords ι) (RecordAction ι) :=
  ⟨recordStep maxRuntime⟩

end Machine

/-! ## The rows -/

section Rows

variable {ι : Type} {s s' : RunRecords ι} {i : ι}

theorem status_of_isStale {cutoff : Int} (h : s.isStale cutoff i = true) :
    s.status i = some .running := by
  obtain ⟨row, hrow, hstale⟩ := Option.any_eq_true _ _ |>.mp h
  rw [decide_eq_true_eq] at hstale
  rw [RunRecords.status, hrow, Option.map_some, hstale.1]

variable [DecidableEq ι]

theorem status_of_rows {row : Option RecordedRun}
    (hrows : s'.rows = Function.update s.rows i row) (k : ι) :
    s'.status k = if k = i then row.map RecordedRun.status else s.status k := by
  rw [RunRecords.status, hrows, Function.update_apply]
  split <;> rfl

theorem status_of_interruptRows {stale : Finset ι} (hrows : s'.rows = interruptRows s stale)
    (hstale : ∀ k ∈ stale, s.status k = some .running) (k : ι) :
    s'.status k = if k ∈ stale then some (.finished .failed) else s.status k := by
  have hrunning := hstale k
  rw [RunRecords.status] at hrunning
  rw [RunRecords.status, RunRecords.status, hrows, interruptRows]
  cases hrow : s.rows k with
  | none =>
      rw [hrow, Option.map_none] at hrunning
      rw [if_neg fun hk => by cases hrunning hk]
      rfl
  | some row => by_cases hk : k ∈ stale <;> simp [hk]

end Rows

/-! ## What is to be counted -/

section Due

variable {ι : Type} [DecidableEq ι] [Fintype ι]

/-- What process `j` is about to add to a counter for run `i`. -/
def owes (j : ι) (i : ι) (result : RunResult) : RecordPhase ι → Nat
  | .interrupting stale => if i ∈ stale ∧ result = .failed then 1 else 0
  | .saved result' => if i = j ∧ result = result' then 1 else 0
  | .before | .created _ | .working | .ended => 0

/-- What has been or will be added for run `i`, as things are. -/
def due (s : RunRecords ι) (i : ι) (result : RunResult) : Nat :=
  s.added i result + ∑ j, owes j i result (s.phases j)

inductive RecordEffect (s s' : RunRecords ι) : RecordAction ι → Prop where
  | bookkeeping {a : RecordAction ι} (hsave : ∀ i raised, a ≠ .save i raised)
      (hstatus : ∀ i result, s'.status i = some (.finished result) ↔
        s.status i = some (.finished result))
      (hdue : ∀ i result, due s' i result = due s i result) : RecordEffect s s' a
  | interrupted {j : ι} (stale : Finset ι) (hrunning : ∀ i ∈ stale, s.status i = some .running)
      (hstatus : ∀ i, s'.status i =
        if i ∈ stale then some (.finished .failed) else s.status i)
      (hdue : ∀ i result, due s' i result =
        due s i result + if i ∈ stale ∧ result = .failed then 1 else 0) :
      RecordEffect s s' (.interrupt j)
  | saved (j : ι) (raised : Bool) (result : RunResult) (hrow : s.status j ≠ none)
      (hstatus : ∀ i, s'.status i = if i = j then some (.finished result) else s.status i)
      (hdue : ∀ i result', due s' i result' =
        due s i result' + if i = j ∧ result' = result then 1 else 0) :
      RecordEffect s s' (.save j raised)

variable {maxRuntime : Int} {s s' : RunRecords ι} {a : RecordAction ι} {i : ι}

theorem due_of_phase {p : RecordPhase ι} (hphases : s'.phases = Function.update s.phases i p)
    (k : ι) (result : RunResult) :
    due s' k result + s.added k result + owes i k result (s.phases i) =
      due s k result + s'.added k result + owes i k result p := by
  have hsum := sum_update (fun j q => owes j k result q) s.phases i p
  rw [due, due, hphases]
  omega

theorem due_of_quiet (hquiet : ∀ j, (s.phases j).Quiet) (k : ι) (result : RunResult) :
    due s k result = s.added k result := by
  have hnone : ∀ j, owes j k result (s.phases j) = 0 := by
    intro j
    have hj := hquiet j
    cases hphase : s.phases j with
    | before | working | ended => rfl
    | created | interrupting | saved =>
        rw [hphase] at hj
        exact hj.elim
  simp [due, hnone]

theorem counters_of_step (hs : ∀ result, s.counters result = ∑ i, s.added i result)
    (h : recordStep maxRuntime s a = some s') (result : RunResult) :
    s'.counters result = ∑ i, s'.added i result := by
  cases a with
  | create i startedAt =>
      simp only [recordStep, Option.ite_none_right_eq_some, Option.some.injEq] at h
      rw [← h.2]
      exact hs result
  | interrupt i | save i raised =>
      rw [recordStep] at h
      split at h
      · cases h
        exact hs result
      · contradiction
  | countInterrupted i =>
      rw [recordStep] at h
      split at h
      · cases h
        simp only [Finset.sum_add_distrib, Function.update_apply, hs]
        by_cases hresult : result = .failed <;> simp [hresult]
      · contradiction
  | count i =>
      rw [recordStep] at h
      split at h
      · rename_i result' hphase
        cases h
        simp only [Finset.sum_add_distrib, Function.update_apply, hs]
        by_cases hresult : result = result' <;> simp [hresult]
      · contradiction

theorem effect_of_create {startedAt : Int}
    (h : recordStep maxRuntime s (.create i startedAt) = some s') :
    RecordEffect s s' (.create i startedAt) := by
  simp only [recordStep, Option.ite_none_right_eq_some, Option.some.injEq] at h
  obtain ⟨⟨hphase, hrow⟩, hs'⟩ := h
  have hrows : s'.rows = Function.update s.rows i (some ⟨startedAt, .running⟩) := by rw [← hs']
  have hphases : s'.phases = Function.update s.phases i (.created startedAt) := by rw [← hs']
  have hadded : s'.added = s.added := by rw [← hs']
  refine .bookkeeping (by simp) (fun k result => ?_) fun k result => ?_
  · rw [status_of_rows hrows]
    split
    · rename_i hk
      simp [hk, RunRecords.status, hrow]
    · rfl
  · have hdue := due_of_phase hphases k result
    simp only [hphase, owes, hadded] at hdue
    omega

theorem effect_of_interrupt (h : recordStep maxRuntime s (.interrupt i) = some s') :
    RecordEffect s s' (.interrupt i) := by
  rw [recordStep] at h
  split at h
  · rename_i startedAt hphase
    set stale := Finset.univ.filter fun j =>
      j ≠ i ∧ s.isStale (startedAt - maxRuntime) j = true with hstale
    have hs' := Option.some.inj h
    have hrows : s'.rows = interruptRows s stale := by rw [← hs']
    have hphases : s'.phases = Function.update s.phases i (.interrupting stale) := by rw [← hs']
    have hadded : s'.added = s.added := by rw [← hs']
    have hrunning : ∀ k ∈ stale, s.status k = some .running := by
      intro k hk
      rw [hstale, Finset.mem_filter] at hk
      exact status_of_isStale hk.2.2
    refine .interrupted stale hrunning (status_of_interruptRows hrows hrunning) fun k result => ?_
    have hdue := due_of_phase hphases k result
    simp only [hphase, owes, hadded] at hdue
    omega
  · contradiction

theorem effect_of_save {raised : Bool} (h : recordStep maxRuntime s (.save i raised) = some s') :
    RecordEffect s s' (.save i raised) := by
  rw [recordStep] at h
  split at h
  · rename_i row hphase hrow
    set result := if raised then RunResult.failed else RunResult.succeeded
    have hs' := Option.some.inj h
    have hrows : s'.rows =
        Function.update s.rows i (some { row with status := .finished result }) := by rw [← hs']
    have hphases : s'.phases = Function.update s.phases i (.saved result) := by rw [← hs']
    have hadded : s'.added = s.added := by rw [← hs']
    refine .saved i raised result ?_ (status_of_rows hrows) fun k result' => ?_
    · simp [RunRecords.status, hrow]
    · have hdue := due_of_phase hphases k result'
      simp only [hphase, owes, hadded] at hdue
      omega
  · contradiction

theorem effect_of_count (ha : a = .countInterrupted i ∨ a = .count i)
    (h : recordStep maxRuntime s a = some s') : RecordEffect s s' a := by
  suffices hkept : s'.rows = s.rows ∧ ∀ k result, due s' k result = due s k result by
    refine .bookkeeping (by rcases ha with rfl | rfl <;> simp) (fun k result => ?_) hkept.2
    rw [RunRecords.status, hkept.1, ← RunRecords.status]
  rcases ha with rfl | rfl
  · rw [recordStep] at h
    split at h
    · rename_i stale hphase
      have hs' := Option.some.inj h
      have hphases : s'.phases = Function.update s.phases i .working := by rw [← hs']
      have hadded : s'.added = fun j result =>
          s.added j result + if j ∈ stale ∧ result = .failed then 1 else 0 := by rw [← hs']
      refine ⟨by rw [← hs'], fun k result => ?_⟩
      have hdue := due_of_phase hphases k result
      simp only [hphase, owes, hadded] at hdue
      omega
    · contradiction
  · rw [recordStep] at h
    split at h
    · rename_i result hphase
      have hs' := Option.some.inj h
      have hphases : s'.phases = Function.update s.phases i .ended := by rw [← hs']
      have hadded : s'.added = fun j result' =>
          s.added j result' + if j = i ∧ result' = result then 1 else 0 := by rw [← hs']
      refine ⟨by rw [← hs'], fun k result' => ?_⟩
      have hdue := due_of_phase hphases k result'
      simp only [hphase, owes, hadded] at hdue
      omega
    · contradiction

theorem recordStep_effect (h : recordStep maxRuntime s a = some s') : RecordEffect s s' a := by
  cases a with
  | create i startedAt => exact effect_of_create h
  | interrupt i => exact effect_of_interrupt h
  | countInterrupted i => exact effect_of_count (.inl rfl) h
  | save i raised => exact effect_of_save h
  | count i => exact effect_of_count (.inr rfl) h

end Due

end StorageService.Actions
