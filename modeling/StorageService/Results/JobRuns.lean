import StorageService.Actions.JobRuns

/-!
# Each run is counted once

A row can be closed by a later run that believes its worker dead, and by its own
`_finish`, which does not look at what the row says by then.  So a run is counted
once exactly as long as no `_finish` comes after an interruption; otherwise both
count, and the last one to save decides about the status.
-/

namespace StorageService.Results

open StorageService.Foundation
open StorageService.Actions

section JobRuns

variable {ι : Type} [DecidableEq ι] [Fintype ι] {maxRuntime : Int} {s s' : RunRecords ι}
  {a : RecordAction ι} {as : List (RecordAction ι)} {i : ι}

structure CountedOnce (s : RunRecords ι) : Prop where
  added : ∀ i result, s.status i = some (.finished result) → ∀ result',
    s.added i result' = if result' = result then 1 else 0
  counters : ∀ result, s.counters result =
    (Finset.univ.filter fun i => s.status i = some (.finished result)).card

def OwnEnd (s : RunRecords ι) : RecordAction ι → Prop
  | .save i _ => s.status i = some .running
  | .create _ _ | .interrupt _ | .countInterrupted _ | .count _ => True

/-! ## What is due for each run -/

/-- One is due for a closed run, to the counter of its status, and nothing else. -/
def DueOnce (s : RunRecords ι) : Prop :=
  ∀ i result, due s i result = if s.status i = some (.finished result) then 1 else 0

theorem dueOnce_initial : DueOnce (RunRecords.initial : RunRecords ι) := by
  intro i result
  simp [due, owes, RunRecords.initial, RunRecords.status]

theorem DueOnce.step (hs : DueOnce s) (ha : OwnEnd s a)
    (h : recordStep maxRuntime s a = some s') : DueOnce s' := by
  intro i result
  cases recordStep_effect h with
  | bookkeeping _ hstatus hdue =>
      rw [hdue, hs]
      simp only [hstatus]
  | interrupted stale hrunning hstatus hdue =>
      rw [hdue, hs, hstatus]
      by_cases hi : i ∈ stale
      · simp [hrunning i hi, hi, eq_comm]
      · simp [hi]
  | saved j raised result' _ hstatus hdue =>
      have hrunning : s.status j = some .running := ha
      rw [hdue, hs, hstatus]
      by_cases hi : i = j
      · simp [hi, hrunning, eq_comm]
      · simp [hi]

theorem countedOnce_of_dueOnce (hs : DueOnce s)
    (hcounters : ∀ result, s.counters result = ∑ i, s.added i result)
    (hquiet : ∀ i, (s.phases i).Quiet) : CountedOnce s := by
  have hadded : ∀ i result, s.added i result =
      if s.status i = some (.finished result) then 1 else 0 := by
    intro i result
    rw [← due_of_quiet hquiet, hs]
  refine ⟨fun i result hstatus result' => ?_, fun result => ?_⟩
  · rw [hadded, hstatus]
    simp [eq_comm]
  · rw [hcounters, Finset.card_filter]
    simp only [hadded]

/-! ## A finish after an interruption -/

def totalDue (s : RunRecords ι) (i : ι) : Nat := due s i .succeeded + due s i .failed

theorem totalDue_of_due {p : Prop} [Decidable p] {result : RunResult}
    (hdue : ∀ result', due s' i result' = due s i result' + if p ∧ result' = result then 1 else 0) :
    totalDue s' i = totalDue s i + if p then 1 else 0 := by
  rw [totalDue, totalDue, hdue, hdue]
  cases result <;> simp <;> omega

def ClosedWith (s : RunRecords ι) (n : Nat) (i : ι) : Prop :=
  (∃ result, s.status i = some (.finished result)) ∧ n ≤ totalDue s i

theorem ClosedWith.step {n : Nat} (hi : ClosedWith s n i)
    (h : recordStep maxRuntime s a = some s') : ClosedWith s' n i := by
  obtain ⟨⟨result, hresult⟩, hle⟩ := hi
  cases recordStep_effect h with
  | bookkeeping _ hstatus hdue =>
      exact ⟨⟨result, (hstatus i result).mpr hresult⟩, by simpa only [totalDue, hdue] using hle⟩
  | interrupted stale hrunning hstatus hdue =>
      have hi : i ∉ stale := fun hi => by
        rw [hrunning i hi] at hresult
        cases hresult
      refine ⟨⟨result, by rw [hstatus, if_neg hi, hresult]⟩, ?_⟩
      rw [totalDue_of_due (hdue i)]
      omega
  | saved j raised result' _ hstatus hdue =>
      refine ⟨?_, ?_⟩
      · by_cases hij : i = j
        · exact ⟨result', by rw [hstatus, if_pos hij]⟩
        · exact ⟨result, by rw [hstatus, if_neg hij, hresult]⟩
      · rw [totalDue_of_due (hdue i)]
        omega

def DueAtLeast (s : RunRecords ι) : Prop :=
  ∀ i result, s.status i = some (.finished result) → 1 ≤ totalDue s i

theorem DueAtLeast.step (hs : DueAtLeast s) (h : recordStep maxRuntime s a = some s') :
    DueAtLeast s' := by
  intro i result hresult
  cases recordStep_effect h with
  | bookkeeping _ hstatus hdue =>
      have hle := hs i result ((hstatus i result).mp hresult)
      simpa only [totalDue, hdue] using hle
  | interrupted stale _ hstatus hdue =>
      rw [totalDue_of_due (hdue i)]
      by_cases hi : i ∈ stale
      · rw [if_pos hi]
        omega
      · rw [hstatus, if_neg hi] at hresult
        have hle := hs i result hresult
        omega
  | saved j raised result' _ hstatus hdue =>
      rw [totalDue_of_due (hdue i)]
      by_cases hi : i = j
      · rw [if_pos hi]
        omega
      · rw [hstatus, if_neg hi] at hresult
        have hle := hs i result hresult
        omega

/-- A finish that finds its row closed makes the run count twice. -/
theorem closedWith_two_of_not_ownEnd (hs : DueAtLeast s) (ha : ¬OwnEnd s a)
    (h : recordStep maxRuntime s a = some s') : ∃ i, ClosedWith s' 2 i := by
  cases recordStep_effect h with
  | bookkeeping hsave =>
      cases a with
      | save i raised => exact absurd rfl (hsave i raised)
      | create | interrupt | countInterrupted | count => exact absurd trivial ha
  | interrupted => exact absurd trivial ha
  | saved j raised result hrow hstatus hdue =>
      have hclosed : ∃ result', s.status j = some (.finished result') := by
        cases hstatus : s.status j with
        | none => exact absurd hstatus hrow
        | some status =>
            cases status with
            | running => exact absurd hstatus ha
            | finished result' => exact ⟨result', rfl⟩
      obtain ⟨result', hresult'⟩ := hclosed
      have hle := hs j result' hresult'
      refine ⟨j, ⟨result, by rw [hstatus, if_pos rfl]⟩, ?_⟩
      rw [totalDue_of_due (hdue j), if_pos rfl]
      omega

theorem closedWith_two_of_run (hs : DueAtLeast s)
    (has : ¬(recordMachine maxRuntime).Meets OwnEnd s as)
    (hrun : (recordMachine maxRuntime).run s as = some s') : ∃ i, ClosedWith s' 2 i := by
  induction as generalizing s with
  | nil => exact absurd trivial has
  | cons a as ih =>
      obtain ⟨s₁, ha, hrest⟩ := Machine.run_cons.mp hrun
      by_cases hown : OwnEnd s a
      · refine ih (hs.step ha) (fun hmeets => has ?_) hrest
        exact Machine.meets_cons hown ha hmeets
      · obtain ⟨i, hi⟩ := closedWith_two_of_not_ownEnd hs hown ha
        exact ⟨i, Machine.invariant (I := fun s => ClosedWith s 2 i) (fun hi h => hi.step h)
          hrest hi⟩

/-! ## Every run of the system -/

/--
In every interleaving of starts, interruptions and finishes, once none of them
is under way: each closed run was counted once, for the status it has, if and only
if no `_finish` has saved a row that was already closed.
-/
theorem runs_countedOnce_iff (maxRuntime : Int) {as : List (RecordAction ι)} {s : RunRecords ι}
    (hrun : (recordMachine maxRuntime).run .initial as = some s)
    (hquiet : ∀ i, (s.phases i).Quiet) :
    CountedOnce s ↔ (recordMachine maxRuntime).Meets OwnEnd .initial as := by
  constructor
  · intro hcounted
    by_contra hmeets
    have hinitial : DueAtLeast (RunRecords.initial : RunRecords ι) := by
      intro i result hstatus
      cases hstatus
    obtain ⟨i, ⟨result, hstatus⟩, hle⟩ := closedWith_two_of_run hinitial hmeets hrun
    rw [totalDue, due_of_quiet hquiet, due_of_quiet hquiet, hcounted.added i result hstatus,
      hcounted.added i result hstatus] at hle
    cases result <;> simp at hle
  · intro hmeets
    have hdue : DueOnce s := Machine.invariant_of_meets (fun hs ha h => hs.step ha h) hmeets hrun
      dueOnce_initial
    have hcounters : ∀ result, s.counters result = ∑ i, s.added i result :=
      Machine.invariant (I := fun s => ∀ result, s.counters result = ∑ i, s.added i result)
        (fun hs h => counters_of_step hs h) hrun (by simp [RunRecords.initial])
    exact countedOnce_of_dueOnce hdue hcounters hquiet

end JobRuns

def singleRun : List (RecordAction Bool) :=
  [.create true 0, .interrupt true, .countInterrupted true, .save true false, .count true]

theorem runs_countedOnce_iff_singleRun :
    ∃ s, (recordMachine 120).run .initial singleRun = some s ∧ CountedOnce s := by
  have hsome : ((recordMachine 120).run .initial singleRun).isSome = true := by decide +kernel
  obtain ⟨s, hrun⟩ := Option.isSome_iff_exists.mp hsome
  have hquiet : ∀ s ∈ (recordMachine 120).run .initial singleRun, ∀ i, (s.phases i).Quiet := by
    decide +kernel
  have hmeets : (recordMachine 120).Meets OwnEnd .initial singleRun :=
    Machine.meets_cons trivial rfl (Machine.meets_cons trivial rfl
      (Machine.meets_cons trivial rfl (Machine.meets_cons rfl rfl
        (Machine.meets_cons trivial rfl trivial))))
  exact ⟨s, hrun, (runs_countedOnce_iff 120 hrun (hquiet s hrun)).mpr hmeets⟩

def overtaken : List (RecordAction Bool) :=
  [.create true 0, .interrupt true, .countInterrupted true,
    .create false 121, .interrupt false, .countInterrupted false,
    .save true false, .count true, .save false false, .count false]

/-- The run that took too long succeeded and is counted as failed too. -/
theorem not_countedOnce :
    ¬∀ (ι : Type) [DecidableEq ι] [Fintype ι] (maxRuntime : Int) (as : List (RecordAction ι))
      (s : RunRecords ι), (recordMachine maxRuntime).run .initial as = some s →
        (∀ i, (s.phases i).Quiet) → CountedOnce s := by
  intro h
  have hsome : ((recordMachine 120).run .initial overtaken).isSome = true := by decide +kernel
  obtain ⟨s, hrun⟩ := Option.isSome_iff_exists.mp hsome
  have hend : ∀ s ∈ (recordMachine 120).run .initial overtaken, (∀ i, (s.phases i).Quiet) ∧
      s.status true = some (.finished .succeeded) ∧ s.added true .failed = 1 := by
    decide +kernel
  obtain ⟨hquiet, hstatus, hadded⟩ := hend s hrun
  have hcounted := (h Bool 120 overtaken s hrun hquiet).added true .succeeded hstatus .failed
  rw [hadded] at hcounted
  contradiction

end StorageService.Results
