import Mathlib.Algebra.Order.BigOperators.Group.Finset
import StorageService.Actions.LockedRuns
import StorageService.Results.JobRuns
import StorageService.Results.Locking

/-!
# Runs that keep to their lock are counted once

The lock expires, for every clock, no later than a row becomes stale.  So a run
that saves while it holds its lock finds its own row still running, and a row that
a crash left behind is closed by the first run that starts late enough.
-/

namespace StorageService.Results

open StorageService.Foundation
open StorageService.Config
open StorageService.Actions

section RecordSteps

variable {ι : Type} [DecidableEq ι] [Fintype ι] {maxRuntime : Int} {s s' : RunRecords ι}
  {a : RecordAction ι} {i : ι}

def Unsaved : RecordPhase ι → Prop
  | .created _ | .interrupting _ | .working => True
  | .before | .saved _ | .ended => False

def Marked : RecordPhase ι → Prop
  | .interrupting _ | .working | .saved _ | .ended => True
  | .before | .created _ => False

theorem recordStep_create {t : Int} (h : recordStep maxRuntime s (.create i t) = some s') :
    (s.phases i = .before ∧ s.rows i = none) ∧
      s'.rows = Function.update s.rows i (some ⟨t, .running⟩) ∧
      s'.phases = Function.update s.phases i (.created t) := by
  simp only [recordStep, Option.ite_none_right_eq_some, Option.some.injEq] at h
  obtain ⟨hbefore, rfl⟩ := h
  exact ⟨hbefore, rfl, rfl⟩

theorem recordStep_interrupt (h : recordStep maxRuntime s (.interrupt i) = some s') :
    ∃ t stale, s.phases i = .created t ∧
      (∀ j, j ∈ stale ↔ j ≠ i ∧ s.isStale (t - maxRuntime) j = true) ∧
      s'.rows = interruptRows s stale ∧
      s'.phases = Function.update s.phases i (.interrupting stale) := by
  rw [recordStep] at h
  split at h
  · rename_i t hphase
    cases h
    exact ⟨t, _, hphase, fun j => by simp, rfl, rfl⟩
  · contradiction

theorem recordStep_save {raised : Bool}
    (h : recordStep maxRuntime s (.save i raised) = some s') :
    ∃ row status, s.phases i = .working ∧ s.rows i = some row ∧
      s'.rows = Function.update s.rows i (some { row with status := .finished status }) ∧
      s'.phases = Function.update s.phases i (.saved status) := by
  rw [recordStep] at h
  split at h
  · rename_i row hphase hrow
    cases h
    exact ⟨row, _, hphase, hrow, rfl, rfl⟩
  · contradiction

theorem recordStep_countInterrupted
    (h : recordStep maxRuntime s (.countInterrupted i) = some s') :
    (∃ stale, s.phases i = .interrupting stale) ∧ s'.rows = s.rows ∧
      s'.phases = Function.update s.phases i .working := by
  rw [recordStep] at h
  split at h
  · rename_i stale hphase
    cases h
    exact ⟨⟨stale, hphase⟩, rfl, rfl⟩
  · contradiction

theorem recordStep_count (h : recordStep maxRuntime s (.count i) = some s') :
    (∃ result, s.phases i = .saved result) ∧ s'.rows = s.rows ∧
      s'.phases = Function.update s.phases i .ended := by
  rw [recordStep] at h
  split at h
  · rename_i result hphase
    cases h
    exact ⟨⟨result, hphase⟩, rfl, rfl⟩
  · contradiction

theorem startedAt_of_recordStep (h : recordStep maxRuntime s a = some s') {row' : RecordedRun}
    (hrow' : s'.rows i = some row') :
    (∃ row, s.rows i = some row ∧ row.startedAt = row'.startedAt ∧
        (row'.status = .running → row.status = .running)) ∨
      s.rows i = none ∧ a = .create i row'.startedAt := by
  cases a with
  | create j t =>
      obtain ⟨⟨-, hnone⟩, hrows, -⟩ := recordStep_create h
      rw [hrows] at hrow'
      by_cases hij : i = j
      · subst hij
        rw [Function.update_self, Option.some.injEq] at hrow'
        exact .inr ⟨hnone, by rw [← hrow']⟩
      · rw [Function.update_of_ne hij] at hrow'
        exact .inl ⟨row', hrow', rfl, id⟩
  | interrupt j =>
      obtain ⟨t, stale, -, -, hrows, -⟩ := recordStep_interrupt h
      rw [hrows, interruptRows, Option.map_eq_some_iff] at hrow'
      obtain ⟨row, hrow, rfl⟩ := hrow'
      refine .inl ⟨row, hrow, ?_, ?_⟩
      · split <;> rfl
      · by_cases hi : i ∈ stale <;> simp [hi]
  | save j raised =>
      obtain ⟨row, status, -, hrow, hrows, -⟩ := recordStep_save h
      rw [hrows] at hrow'
      by_cases hij : i = j
      · subst hij
        rw [Function.update_self, Option.some.injEq] at hrow'
        subst hrow'
        exact .inl ⟨row, hrow, rfl, fun hrunning => by cases hrunning⟩
      · rw [Function.update_of_ne hij] at hrow'
        exact .inl ⟨row', hrow', rfl, id⟩
  | countInterrupted j =>
      rw [(recordStep_countInterrupted h).2.1] at hrow'
      exact .inl ⟨row', hrow', rfl, id⟩
  | count j =>
      rw [(recordStep_count h).2.1] at hrow'
      exact .inl ⟨row', hrow', rfl, id⟩

/-- Who ends a row: its own run, or a run that started after it has become stale. -/
theorem row_of_recordStep (h : recordStep maxRuntime s a = some s') {row : RecordedRun}
    (hrow : s.rows i = some row) :
    ∃ row', s'.rows i = some row' ∧ row'.startedAt = row.startedAt ∧
      (row'.status = row.status ∨ (∃ raised, a = .save i raised) ∨
        ∃ j t, s.phases j = .created t ∧ row.startedAt < t - maxRuntime) := by
  cases a with
  | create j t =>
      obtain ⟨⟨-, hnone⟩, hrows, -⟩ := recordStep_create h
      have hij : i ≠ j := by
        rintro rfl
        rw [hrow] at hnone
        contradiction
      exact ⟨row, by rw [hrows, Function.update_of_ne hij, hrow], rfl, .inl rfl⟩
  | interrupt j =>
      obtain ⟨t, stale, hphase, hstale, hrows, -⟩ := recordStep_interrupt h
      by_cases hi : i ∈ stale
      · refine ⟨{ row with status := .finished .failed }, ?_, rfl, ?_⟩
        · rw [hrows, interruptRows, hrow, Option.map_some, if_pos hi]
        · have hstale := ((hstale i).mp hi).2
          simp only [RunRecords.isStale, hrow, Option.any_some, decide_eq_true_eq] at hstale
          exact .inr (.inr ⟨j, t, hphase, hstale.2⟩)
      · exact ⟨row, by rw [hrows, interruptRows, hrow, Option.map_some, if_neg hi], rfl, .inl rfl⟩
  | save j raised =>
      obtain ⟨row₀, status, -, hrow₀, hrows, -⟩ := recordStep_save h
      by_cases hij : i = j
      · subst hij
        rw [hrow, Option.some.injEq] at hrow₀
        subst hrow₀
        exact ⟨{ row with status := .finished status }, by rw [hrows, Function.update_self], rfl,
          .inr (.inl ⟨raised, rfl⟩)⟩
      · exact ⟨row, by rw [hrows, Function.update_of_ne hij, hrow], rfl, .inl rfl⟩
  | countInterrupted j =>
      exact ⟨row, by rw [(recordStep_countInterrupted h).2.1, hrow], rfl, .inl rfl⟩
  | count j => exact ⟨row, by rw [(recordStep_count h).2.1, hrow], rfl, .inl rfl⟩

inductive PhaseStep : RecordAction ι → RecordPhase ι → RecordPhase ι → Prop where
  | create (i : ι) (t : Int) : PhaseStep (.create i t) .before (.created t)
  | interrupt (i : ι) (t : Int) (stale : Finset ι) :
      PhaseStep (.interrupt i) (.created t) (.interrupting stale)
  | countInterrupted (i : ι) (stale : Finset ι) :
      PhaseStep (.countInterrupted i) (.interrupting stale) .working
  | save (i : ι) (raised : Bool) (result : RunResult) :
      PhaseStep (.save i raised) .working (.saved result)
  | count (i : ι) (result : RunResult) : PhaseStep (.count i) (.saved result) .ended

theorem phaseStep_of_recordStep (h : recordStep maxRuntime s a = some s') :
    ∃ p, PhaseStep a (s.phases a.run) p ∧ s'.phases = Function.update s.phases a.run p := by
  cases a with
  | create i t =>
      obtain ⟨⟨hphase, -⟩, -, hphases⟩ := recordStep_create h
      exact ⟨_, by rw [RecordAction.run, hphase]; exact .create i t, hphases⟩
  | interrupt i =>
      obtain ⟨t, stale, hphase, -, -, hphases⟩ := recordStep_interrupt h
      exact ⟨_, by rw [RecordAction.run, hphase]; exact .interrupt i t stale, hphases⟩
  | save i raised =>
      obtain ⟨_, result, hphase, -, -, hphases⟩ := recordStep_save h
      exact ⟨_, by rw [RecordAction.run, hphase]; exact .save i raised result, hphases⟩
  | countInterrupted i =>
      obtain ⟨⟨stale, hphase⟩, -, hphases⟩ := recordStep_countInterrupted h
      exact ⟨_, by rw [RecordAction.run, hphase]; exact .countInterrupted i stale, hphases⟩
  | count i =>
      obtain ⟨⟨result, hphase⟩, -, hphases⟩ := recordStep_count h
      exact ⟨_, by rw [RecordAction.run, hphase]; exact .count i result, hphases⟩

theorem phase_of_recordStep {P : RecordPhase ι → Prop} (h : recordStep maxRuntime s a = some s')
    (hP : P (s'.phases i)) :
    P (s.phases i) ∨ a.run = i ∧ ∃ p, P p ∧ PhaseStep a (s.phases i) p := by
  obtain ⟨p, hstep, hphases⟩ := phaseStep_of_recordStep h
  rw [hphases] at hP
  by_cases hi : i = a.run
  · subst hi
    rw [Function.update_self] at hP
    exact .inr ⟨rfl, p, hP, hstep⟩
  · rw [Function.update_of_ne hi] at hP
    exact .inl hP

theorem created_of_recordStep (h : recordStep maxRuntime s a = some s') {t : Int}
    (hphase : s'.phases i = .created t) : s.phases i = .created t ∨ a = .create i t := by
  rcases phase_of_recordStep (P := (· = .created t)) h hphase with
    hbefore | ⟨hrun, p, hp, hstep⟩
  · exact .inl hbefore
  · subst hp
    generalize s.phases i = q at hstep
    cases hstep
    exact .inr (by rw [← hrun, RecordAction.run])

theorem unsaved_of_recordStep (h : recordStep maxRuntime s a = some s')
    (hphase : Unsaved (s'.phases i)) : Unsaved (s.phases i) ∨ ∃ t, a = .create i t := by
  rcases phase_of_recordStep h hphase with hbefore | ⟨hrun, p, hp, hstep⟩
  · exact .inl hbefore
  · generalize s.phases i = q at hstep ⊢
    cases hstep with
    | create j t => exact .inr ⟨t, by rw [← hrun, RecordAction.run]⟩
    | interrupt | countInterrupted => exact .inl trivial
    | save | count => exact hp.elim

theorem marked_of_recordStep (h : recordStep maxRuntime s a = some s')
    (hphase : Marked (s'.phases i)) : Marked (s.phases i) ∨ a = .interrupt i := by
  rcases phase_of_recordStep h hphase with hbefore | ⟨hrun, p, hp, hstep⟩
  · exact .inl hbefore
  · generalize s.phases i = q at hstep ⊢
    cases hstep with
    | create => exact hp.elim
    | interrupt j t stale => exact .inr (by rw [← hrun, RecordAction.run])
    | countInterrupted | save | count => exact .inl trivial

end RecordSteps

section Tasks

variable {ι : Type} [DecidableEq ι] [Fintype ι] {env : TaskEnv ι} {s s' : TaskState ι}
  {a : TaskAction ι} {i j : ι}

/-- By any two clocks a lease is over before its row is stale. -/
def ClocksAgree (env : TaskEnv ι) : Prop :=
  ∀ i j, env.lease + (env.ahead j - env.ahead i) ≤ env.maxRuntime

structure Timed (env : TaskEnv ι) (s : TaskState ι) : Prop where
  idle : ∀ i, s.runner i = .idle → s.records.rows i = none
  stamped : ∀ i row, s.records.rows i = some row → row.startedAt ≤ s.clock env i
  created : ∀ i t, s.records.phases i = .created t →
    ∃ row, s.records.rows i = some row ∧ row.startedAt = t
  unsaved : ∀ i, Unsaved (s.records.phases i) → ∃ row, s.records.rows i = some row ∧
    (row.status = .running ∨ ∃ j, row.startedAt + env.maxRuntime < s.clock env j)
  leased : ∀ i name (expiresAt : Nat), s.lock.calls i = .inside name expiresAt →
    (expiresAt : Int) ≤ s.lock.now + env.lease ∧
      ∀ row, s.records.rows i = some row → expiresAt + env.ahead i ≤ row.startedAt + env.lease
  marked : ∀ i j row row', Marked (s.records.phases j) → s.records.rows j = some row → i ≠ j →
    s.records.rows i = some row' → row'.status = .running →
    row.startedAt - env.maxRuntime ≤ row'.startedAt

omit [DecidableEq ι] [Fintype ι] in
theorem timed_initial (now : Nat) : Timed env (.initial now) where
  idle _ _ := rfl
  stamped i row h := by cases h
  created i t h := by cases h
  unsaved i h := h.elim
  leased i name expiresAt h := by cases h
  marked i j row row' h := h.elim

omit [DecidableEq ι] [Fintype ι] in
theorem clock_mono (hnow : s.lock.now ≤ s'.lock.now) (i : ι) :
    s.clock env i ≤ s'.clock env i := by
  rw [TaskState.clock, TaskState.clock]
  omega

omit [DecidableEq ι] [Fintype ι] in
theorem Timed.of_records (hs : Timed env s) (hrecords : s'.records = s.records)
    (hnow : s.lock.now ≤ s'.lock.now) (hidle : ∀ i, s'.runner i = .idle → s.runner i = .idle)
    (hinside : ∀ i name expiresAt, s'.lock.calls i = .inside name expiresAt →
      s.lock.calls i = .inside name expiresAt ∨
        s.runner i = .idle ∧ (expiresAt : Int) = s.lock.now + env.lease) : Timed env s' where
  idle i h := by
    rw [hrecords]
    exact hs.idle i (hidle i h)
  stamped i row h := by
    rw [hrecords] at h
    exact le_trans (hs.stamped i row h) (clock_mono hnow i)
  created i t h := by
    rw [hrecords] at h ⊢
    exact hs.created i t h
  unsaved i h := by
    rw [hrecords] at h ⊢
    obtain ⟨row, hrow, hrunning | ⟨j, hj⟩⟩ := hs.unsaved i h
    · exact ⟨row, hrow, .inl hrunning⟩
    · exact ⟨row, hrow, .inr ⟨j, lt_of_lt_of_le hj (clock_mono hnow j)⟩⟩
  leased i name expiresAt h := by
    rw [hrecords]
    rcases hinside i name expiresAt h with hbefore | ⟨hrunner, hexpires⟩
    · obtain ⟨hle, hrows⟩ := hs.leased i name expiresAt hbefore
      exact ⟨by omega, hrows⟩
    · refine ⟨by omega, fun row hrow => ?_⟩
      rw [hs.idle i hrunner] at hrow
      contradiction
  marked i j row row' h := by
    rw [hrecords] at h ⊢
    exact hs.marked i j row row' h

theorem Timed.marked_of_interrupt (hs : Timed env s) {records : RunRecords ι}
    (hstep : recordStep env.maxRuntime s.records (.interrupt j) = some records)
    {row row' : RecordedRun} (hrow : records.rows j = some row) (hij : i ≠ j)
    (hrow' : records.rows i = some row') (hrunning : row'.status = .running) :
    row.startedAt - env.maxRuntime ≤ row'.startedAt := by
  obtain ⟨t, stale, hphase, hstale, hrows, -⟩ := recordStep_interrupt hstep
  have ht : row.startedAt = t := by
    obtain ⟨row₀, hrow₀, ht⟩ := hs.created j t hphase
    rw [hrows, interruptRows, hrow₀, Option.map_some, Option.some.injEq] at hrow
    rw [← hrow, ← ht]
    split <;> rfl
  rw [hrows, interruptRows, Option.map_eq_some_iff] at hrow'
  obtain ⟨row₀', hrow₀', rfl⟩ := hrow'
  by_cases hi : i ∈ stale
  · rw [if_pos hi] at hrunning
    cases hrunning
  · rw [if_neg hi] at hrunning ⊢
    have hfresh := fun h => hi ((hstale i).mpr ⟨hij, h⟩)
    simp only [RunRecords.isStale, hrow₀', Option.any_some, decide_eq_true_eq, hrunning,
      true_and] at hfresh
    rw [ht]
    exact not_lt.mp hfresh

omit [DecidableEq ι] [Fintype ι] in
theorem runner_of_records (h : s.records? i = true) : s.runner i ≠ .idle := by
  intro hidle
  rw [TaskState.records?, hidle] at h
  cases h

theorem Timed.record (hclocks : ClocksAgree env) (hs : Timed env s) {b : RecordAction ι}
    (hrecords : s.records? b.run = true) (hadmits : s.admits env b = true)
    (hstep : recordStep env.maxRuntime s.records b = some s'.records)
    (hlock : s'.lock = s.lock) (hrunner : s'.runner = s.runner) : Timed env s' := by
  have hclock : ∀ i, s'.clock env i = s.clock env i := by
    intro i
    rw [TaskState.clock, TaskState.clock, hlock]
  have hnew : ∀ i t, b = .create i t → t = s.clock env i := by
    rintro i t rfl
    exact of_decide_eq_true hadmits
  have hstamped : ∀ i row, s'.records.rows i = some row → row.startedAt ≤ s.clock env i := by
    intro i row' hrow'
    rcases startedAt_of_recordStep hstep hrow' with ⟨row, hrow, heq, -⟩ | ⟨-, hcreate⟩
    · rw [← heq]
      exact hs.stamped i row hrow
    · exact le_of_eq (hnew i _ hcreate)
  constructor
  case idle =>
    intro i hidle
    rw [hrunner] at hidle
    cases hrow' : s'.records.rows i with
    | none => rfl
    | some row' =>
        rcases startedAt_of_recordStep hstep hrow' with ⟨row, hrow, -⟩ | ⟨-, rfl⟩
        · rw [hs.idle i hidle] at hrow
          contradiction
        · exact absurd hidle (runner_of_records hrecords)
  case stamped =>
    intro i row hrow
    rw [hclock]
    exact hstamped i row hrow
  case created =>
    intro i t hphase
    rcases created_of_recordStep hstep hphase with hbefore | rfl
    · obtain ⟨row, hrow, rfl⟩ := hs.created i t hbefore
      obtain ⟨row', hrow', heq, -⟩ := row_of_recordStep hstep hrow
      exact ⟨row', hrow', heq⟩
    · exact ⟨⟨t, .running⟩, by rw [(recordStep_create hstep).2.1, Function.update_self], rfl⟩
  case unsaved =>
    intro i hphase
    rcases unsaved_of_recordStep hstep hphase with hbefore | ⟨t, rfl⟩
    · obtain ⟨row, hrow, hend⟩ := hs.unsaved i hbefore
      obtain ⟨row', hrow', heq, hstatus⟩ := row_of_recordStep hstep hrow
      refine ⟨row', hrow', ?_⟩
      simp only [hclock, heq]
      rcases hstatus with hstatus | ⟨raised, rfl⟩ | ⟨j, t, hcreated, hlt⟩
      · rw [hstatus]
        exact hend
      · obtain ⟨_, _, -, -, -, hphases⟩ := recordStep_save hstep
        rw [hphases, Function.update_self] at hphase
        exact hphase.elim
      · obtain ⟨rowj, hrowj, rfl⟩ := hs.created j t hcreated
        have hle := hs.stamped j rowj hrowj
        exact .inr ⟨j, by omega⟩
    · exact ⟨⟨t, .running⟩, by rw [(recordStep_create hstep).2.1, Function.update_self],
        .inl rfl⟩
  case leased =>
    intro i name expiresAt hinside
    rw [hlock] at hinside ⊢
    obtain ⟨hle, hrows⟩ := hs.leased i name expiresAt hinside
    refine ⟨hle, fun row' hrow' => ?_⟩
    rcases startedAt_of_recordStep hstep hrow' with ⟨row, hrow, heq, -⟩ | ⟨-, hcreate⟩
    · rw [← heq]
      exact hrows row hrow
    · rw [hnew i _ hcreate, TaskState.clock]
      omega
  case marked =>
    intro i j row row' hphase hrow hij hrow' hrunning
    have hbound : ∀ t, t ≤ s.clock env j → t - env.maxRuntime ≤ s.clock env i := by
      intro t ht
      have hagree := hclocks i j
      have hlease : 0 ≤ env.lease := by
        rw [TaskEnv.lease]
        omega
      rw [TaskState.clock] at ht ⊢
      omega
    rcases startedAt_of_recordStep hstep hrow' with ⟨row₀', hrow₀', heq', hbefore'⟩ | ⟨-, hcreate⟩
    · rcases marked_of_recordStep hstep hphase with hbefore | rfl
      · rcases startedAt_of_recordStep hstep hrow with ⟨row₀, hrow₀, heq, -⟩ | ⟨-, rfl⟩
        · rw [← heq, ← heq']
          exact hs.marked i j row₀ row₀' hbefore hrow₀ hij hrow₀' (hbefore' hrunning)
        · rw [(recordStep_create hstep).1.1] at hbefore
          exact hbefore.elim
      · exact hs.marked_of_interrupt hstep hrow hij hrow' hrunning
    · rw [hnew i _ hcreate]
      exact hbound _ (hstamped j row hrow)

theorem Timed.step (hclocks : ClocksAgree env) (hs : Timed env s)
    (h : taskStep env s a = some s') : Timed env s' := by
  cases taskStep_effect h with
  | process hrecords hnow hidle hinside =>
      exact hs.of_records hrecords (le_of_eq hnow.symm) hidle hinside
  | recorded hrecords hadmits hstep hlock hrunner =>
      exact hs.record hclocks hrecords hadmits hstep hlock hrunner
  | waited milliseconds hrecords hnow hcalls hrunner =>
      refine hs.of_records hrecords (by omega) (fun i h => by rwa [hrunner] at h) ?_
      intro i name expiresAt hinside
      rw [hcalls] at hinside
      exact .inl hinside

/--
A task saves while it holds its lock, a run without a lock before its row is
stale by any clock.
-/
def InTime (env : TaskEnv ι) (s : TaskState ι) : TaskAction ι → Prop
  | .record (.save i _) =>
      (s.runner i = .task → s.lock.Holds i env.name) ∧
        (s.runner i ≠ .task → ∀ j row, s.records.rows i = some row →
          s.clock env j ≤ row.startedAt + env.maxRuntime)
  | _ => True

/-- Who saves in time finds its own row still running. -/
theorem Timed.ownEnd (hclocks : ClocksAgree env) (hs : Timed env s) {b : RecordAction ι}
    {records : RunRecords ι} (hrecords : s.records? b.run = true)
    (htime : InTime env s (.record b))
    (hstep : recordStep env.maxRuntime s.records b = some records) : OwnEnd s.records b := by
  cases b with
  | create i t | interrupt i | countInterrupted i | count i => trivial
  | save i raised =>
      obtain ⟨_, _, hphase, -, -, -⟩ := recordStep_save hstep
      obtain ⟨row, hrow, hend⟩ := hs.unsaved i (by rw [hphase]; trivial)
      have hnotStale : ∀ j, s.clock env j ≤ row.startedAt + env.maxRuntime := by
        intro j
        by_cases htask : s.runner i = .task
        · obtain ⟨expiresAt, hinside | hgone, hle⟩ := htime.1 htask
          · have hlease := (hs.leased i env.name expiresAt hinside).2 row hrow
            have hagree := hclocks i j
            rw [TaskState.clock]
            omega
          · rw [TaskState.records?, RecordAction.run, htask, hgone] at hrecords
            cases hrecords
        · exact htime.2 htask j row hrow
      have hrunning : row.status = .running := by
        rcases hend with hrunning | ⟨j, hj⟩
        · exact hrunning
        · have hle := hnotStale j
          omega
      rw [OwnEnd, RunRecords.status, hrow, Option.map_some, hrunning]

structure Timely (env : TaskEnv ι) (s : TaskState ι) : Prop where
  timed : Timed env s
  due : DueOnce s.records
  counters : ∀ result, s.records.counters result = ∑ i, s.records.added i result

theorem Timely.step (hclocks : ClocksAgree env) (hs : Timely env s) (htime : InTime env s a)
    (h : taskStep env s a = some s') : Timely env s' := by
  have hcounted : DueOnce s'.records ∧
      ∀ result, s'.records.counters result = ∑ i, s'.records.added i result := by
    cases taskStep_effect h with
    | process hrecords | waited _ hrecords =>
        rw [hrecords]
        exact ⟨hs.due, hs.counters⟩
    | recorded hrecords _ hstep =>
        exact ⟨hs.due.step (hs.timed.ownEnd hclocks hrecords htime hstep) hstep,
          counters_of_step hs.counters hstep⟩
  exact ⟨hs.timed.step hclocks h, hcounted.1, hcounted.2⟩

def Owing (s : RunRecords ι) (j i : ι) (result : RunResult) : Prop :=
  owes j i result (s.phases j) = 1

instance (s : RunRecords ι) (j i : ι) (result : RunResult) : Decidable (Owing s j i result) :=
  inferInstanceAs (Decidable (_ = 1))

/-- Each closed run was added once, for the status it has, or one process owes it. -/
structure CountedOrOwed (s : RunRecords ι) : Prop where
  atMost : ∀ i result, s.added i result ≤ if s.status i = some (.finished result) then 1 else 0
  owed : ∀ i result, s.status i = some (.finished result) →
    (s.added i result = 0 ↔ ∃! j, Owing s j i result)
  closed : ∀ j i result, Owing s j i result → s.status i = some (.finished result)
  counters : ∀ result, s.counters result +
      (Finset.univ.filter fun i => ∃ j, Owing s j i result).card =
    (Finset.univ.filter fun i => s.status i = some (.finished result)).card

omit [Fintype ι] in
theorem owes_le_one (j i : ι) (result : RunResult) (p : RecordPhase ι) :
    owes j i result p ≤ 1 := by
  cases p <;> simp only [owes] <;> (try split) <;> omega

omit [DecidableEq ι] in
theorem existsUnique_of_sum_eq_one {f : ι → Nat} (hf : ∀ j, f j ≤ 1) :
    ∑ j, f j = 1 ↔ ∃! j, f j = 1 := by
  have hsum : ∑ j, f j = (Finset.univ.filter fun j => f j = 1).card := by
    rw [Finset.card_filter]
    refine Finset.sum_congr rfl fun j _ => ?_
    have := hf j
    split <;> omega
  rw [hsum, Finset.card_eq_one]
  constructor
  · rintro ⟨j, hj⟩
    have hmem : ∀ k, f k = 1 ↔ k = j := by
      intro k
      simpa using congrArg (k ∈ ·) hj
    exact ⟨j, (hmem j).mpr rfl, fun k hk => (hmem k).mp hk⟩
  · rintro ⟨j, hj, hunique⟩
    refine ⟨j, Finset.ext fun k => ?_⟩
    simp only [Finset.mem_filter_univ, Finset.mem_singleton]
    exact ⟨hunique k, fun hk => hk ▸ hj⟩

theorem countedOrOwed_of_dueOnce {s : RunRecords ι} (hs : DueOnce s)
    (hcounters : ∀ result, s.counters result = ∑ i, s.added i result) : CountedOrOwed s := by
  have hadded : ∀ i result, s.added i result + ∑ j, owes j i result (s.phases j) =
      if s.status i = some (.finished result) then 1 else 0 := hs
  have howing : ∀ i result, (∑ j, owes j i result (s.phases j) = 1 ↔
      ∃! j, Owing s j i result) := fun i result =>
    existsUnique_of_sum_eq_one fun j => owes_le_one j i result (s.phases j)
  have hsome : ∀ i result, (∃ j, Owing s j i result) ↔
      ∑ j, owes j i result (s.phases j) = 1 := by
    intro i result
    refine ⟨fun ⟨j, hj⟩ => ?_, fun h => ((howing i result).mp h).exists⟩
    have hle : owes j i result (s.phases j) ≤ ∑ j, owes j i result (s.phases j) :=
      Finset.single_le_sum (f := fun j => owes j i result (s.phases j))
        (fun _ _ => Nat.zero_le _) (Finset.mem_univ j)
    have hj' : owes j i result (s.phases j) = 1 := hj
    have := hadded i result
    split at this <;> omega
  refine ⟨fun i result => ?_, fun i result hclosed => ?_, fun j i result hj => ?_, fun result => ?_⟩
  · rw [← hadded]
    omega
  · have := hadded i result
    rw [if_pos hclosed] at this
    rw [← howing]
    omega
  · have hone := (hsome i result).mp ⟨j, hj⟩
    have := hadded i result
    by_contra hopen
    rw [if_neg hopen] at this
    omega
  · rw [hcounters, Finset.card_filter, Finset.card_filter, ← Finset.sum_add_distrib]
    refine Finset.sum_congr rfl fun i _ => ?_
    have := hadded i result
    simp only [hsome]
    split at this <;> split <;> omega

def NoStaleRow (env : TaskEnv ι) (s : RunRecords ι) (j : ι) : Prop :=
  ∀ i row row', i ≠ j → s.rows j = some row → s.rows i = some row' → row'.status = .running →
    row.startedAt - env.maxRuntime ≤ row'.startedAt

/--
In every interleaving of tasks, commands and reports of failed starts, with crashes
at any point and locks that expire: a run that has looked for stale rows leaves none,
so what a crash left `running` is closed by the first run that starts late enough; and
where every save is in time, each closed run is counted once, for the status it has,
unless who closed it has not come to its `_increment`.
-/
theorem lockedRuns_countedOnce (env : TaskEnv ι) (hclocks : ClocksAgree env) {now : Nat}
    {as : List (TaskAction ι)} {s : TaskState ι}
    (hrun : (taskMachine env).run (.initial now) as = some s) :
    (∀ j, Marked (s.records.phases j) → NoStaleRow env s.records j) ∧
      ((taskMachine env).Meets (InTime env) (.initial now) as → CountedOrOwed s.records) := by
  refine ⟨fun j hmarked i row row' hij hrow hrow' hrunning => ?_, fun htime => ?_⟩
  · have hs : Timed env s := Machine.invariant (fun hs h => hs.step hclocks h) hrun
      (timed_initial now)
    exact hs.marked i j row row' hmarked hrow hij hrow' hrunning
  · have hs : Timely env s := Machine.invariant_of_meets
      (fun hs ht h => hs.step hclocks ht h) htime hrun
      ⟨timed_initial now, dueOnce_initial, by simp [TaskState.initial, RunRecords.initial]⟩
    exact countedOrOwed_of_dueOnce hs.due hs.counters

end Tasks

def sampleTask : TaskEnv Bool where
  lock :=
    { schedulerLockPrefix := sampleLock.schedulerLockPrefix, token := fun i => [cond i 'b' 'a'] }
  name := ['j']
  ttl := 120
  maxRuntimeSeconds := 120
  ahead _ := 0

theorem sampleTask_clocksAgree : ClocksAgree sampleTask := by
  intro i j
  have hlease : sampleTask.lease + (0 - 0) ≤ sampleTask.maxRuntime := by decide
  exact hlease

def crashedTask : List (TaskAction Bool) :=
  [.enter false, .record (.create false 0), .record (.interrupt false),
    .record (.countInterrupted false), .crash false, .wait 120001,
    .enter true, .record (.create true 120001), .record (.interrupt true),
    .record (.countInterrupted true), .wait 5000, .record (.save true false), .crash true]

theorem lockedRuns_countedOnce_crashedTask :
    ∃ s, (taskMachine sampleTask).run (.initial 0) crashedTask = some s ∧
      NoStaleRow sampleTask s.records true ∧ CountedOrOwed s.records := by
  have hsome : ((taskMachine sampleTask).run (.initial 0) crashedTask).isSome = true := by
    decide +kernel
  obtain ⟨s, hrun⟩ := Option.isSome_iff_exists.mp hsome
  have hphases : ∀ s ∈ (taskMachine sampleTask).run (.initial 0) crashedTask,
      s.records.phases true = .saved .succeeded := by
    decide +kernel
  have htime : (taskMachine sampleTask).Meets (InTime sampleTask) (.initial 0) crashedTask := by
    refine Machine.meets_cons trivial rfl (Machine.meets_cons trivial rfl
      (Machine.meets_cons trivial rfl (Machine.meets_cons trivial rfl
      (Machine.meets_cons trivial rfl (Machine.meets_cons trivial rfl
      (Machine.meets_cons trivial rfl (Machine.meets_cons trivial rfl
      (Machine.meets_cons trivial rfl (Machine.meets_cons trivial rfl
      (Machine.meets_cons trivial rfl (Machine.meets_cons ⟨fun _ => ?_, fun h => absurd rfl h⟩ rfl
      (Machine.meets_cons trivial rfl trivial))))))))))))
    exact ⟨240001, .inl rfl, by decide⟩
  obtain ⟨hmarked, hcounted⟩ := lockedRuns_countedOnce sampleTask sampleTask_clocksAgree hrun
  exact ⟨s, hrun, hmarked true (by rw [hphases s hrun]; trivial), hcounted htime⟩

end StorageService.Results
