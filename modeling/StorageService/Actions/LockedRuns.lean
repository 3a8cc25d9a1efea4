import StorageService.Actions.JobRuns
import StorageService.Config.TaskLock

/-!
# Recorded runs under the task lock

`_run_locked` of `tasks.py` takes the lock of its job and then runs the command,
which records the run.  A command that an external scheduler starts takes no lock,
and a task that could not reach Redis records its failure without one.  The lock
expires by the clock of Redis, a row is stale by the clocks of the containers.
-/

namespace StorageService.Actions

open StorageService.Foundation
open StorageService.Config

/-- A `JobSpec`, the TTL of its lock and the clocks of the containers. -/
structure TaskEnv (ι : Type) where
  lock : LockEnv ι
  name : Text
  ttl : Int
  maxRuntimeSeconds : Nat
  /-- How far the clock of a run's container is ahead of that of Redis, in milliseconds. -/
  ahead : ι → Int

namespace TaskEnv

variable {ι : Type} (env : TaskEnv ι)

def lease : Int := 1000 * (max 1 env.ttl).toNat

def maxRuntime : Int := 1000 * env.maxRuntimeSeconds

end TaskEnv

inductive Runner where
  | idle
  /-- `_run_locked` with the lock asked for. -/
  | task
  /-- The management command by itself. -/
  | command
  /-- `record_failure_before_start` -/
  | reporting
  | dead
  deriving DecidableEq, Repr

structure TaskState (ι : Type) where
  lock : LockState ι
  records : RunRecords ι
  runner : ι → Runner

namespace TaskState

variable {ι : Type}

def initial (now : Nat) : TaskState ι where
  lock := .initial now
  records := .initial
  runner _ := .idle

def clock (env : TaskEnv ι) (s : TaskState ι) (i : ι) : Int := s.lock.now + env.ahead i

/-- A task records while it is inside `task_lock`, the others at any time. -/
def records? (s : TaskState ι) (i : ι) : Bool :=
  match s.runner i, s.lock.calls i with
  | .task, .inside _ _ => true
  | .task, _ => false
  | .command, _ | .reporting, _ => true
  | .idle, _ | .dead, _ => false

end TaskState

inductive TaskAction (ι : Type) where
  | enter (i : ι)
  | command (i : ι)
  /-- Redis raises: before the command has run, or after it. -/
  | enterFailed (i : ι) (executed : Bool)
  | record (a : RecordAction ι)
  | leave (i : ι)
  | leaveFailed (i : ι)
  | crash (i : ι)
  | wait (milliseconds : Nat)
  deriving DecidableEq, Repr

def RecordAction.run {ι : Type} : RecordAction ι → ι
  | .create i _ | .interrupt i | .countInterrupted i | .save i _ | .count i => i

section Machine

variable {ι : Type} [DecidableEq ι] [Fintype ι]

/-- The row is stamped with the clock; a run that failed before its start ends with the error. -/
def TaskState.admits (env : TaskEnv ι) (s : TaskState ι) : RecordAction ι → Bool
  | .create i startedAt => decide (startedAt = s.clock env i)
  | .save i raised => decide (s.runner i = .reporting → raised = true)
  | .interrupt _ | .countInterrupted _ | .count _ => true

def TaskState.lockStep (env : TaskEnv ι) (s : TaskState ι) (i : ι) (runner : Runner)
    (a : LockAction ι) : Option (TaskState ι) :=
  (Config.lockStep env.lock s.lock a).map fun lock =>
    { s with lock := lock, runner := Function.update s.runner i runner }

def taskStep (env : TaskEnv ι) (s : TaskState ι) : TaskAction ι → Option (TaskState ι)
  | .enter i =>
      if s.runner i = .idle then s.lockStep env i .task (.enter i env.name env.ttl) else none
  | .command i =>
      if s.runner i = .idle then
        some { s with runner := Function.update s.runner i .command }
      else none
  | .enterFailed i executed =>
      if s.runner i = .idle then
        if executed then s.lockStep env i .reporting (.enterUnanswered i env.name env.ttl)
        else some { s with runner := Function.update s.runner i .reporting }
      else none
  | .record a =>
      if s.records? a.run = true ∧ s.admits env a = true then
        (recordStep env.maxRuntime s.records a).map fun records => { s with records := records }
      else none
  | .leave i => s.lockStep env i (s.runner i) (.leave i)
  | .leaveFailed i => s.lockStep env i (s.runner i) (.leaveFailed i)
  | .crash i =>
      match s.runner i with
      | .task => s.lockStep env i .dead (.crash i)
      | .command | .reporting => some { s with runner := Function.update s.runner i .dead }
      | .idle | .dead => none
  | .wait milliseconds =>
      some { s with lock := { s.lock with now := s.lock.now + milliseconds } }

def taskMachine (env : TaskEnv ι) : Machine (TaskState ι) (TaskAction ι) := ⟨taskStep env⟩

/-! ## What a step does -/

inductive TaskEffect (env : TaskEnv ι) (s s' : TaskState ι) : TaskAction ι → Prop where
  | process {a : TaskAction ι} (hrecords : s'.records = s.records)
      (hnow : s'.lock.now = s.lock.now)
      (hidle : ∀ i, s'.runner i = .idle → s.runner i = .idle)
      (hinside : ∀ i name expiresAt, s'.lock.calls i = .inside name expiresAt →
        s.lock.calls i = .inside name expiresAt ∨
          s.runner i = .idle ∧ (expiresAt : Int) = s.lock.now + env.lease) :
      TaskEffect env s s' a
  | recorded {a : RecordAction ι} (hrecords : s.records? a.run = true)
      (hadmits : s.admits env a = true)
      (hstep : recordStep env.maxRuntime s.records a = some s'.records)
      (hlock : s'.lock = s.lock) (hrunner : s'.runner = s.runner) :
      TaskEffect env s s' (.record a)
  | waited (milliseconds : Nat) (hrecords : s'.records = s.records)
      (hnow : s'.lock.now = s.lock.now + milliseconds) (hcalls : s'.lock.calls = s.lock.calls)
      (hrunner : s'.runner = s.runner) : TaskEffect env s s' (.wait milliseconds)

variable {env : TaskEnv ι} {s s' : TaskState ι} {a : TaskAction ι} {i : ι}

omit [Fintype ι] in
theorem idle_of_update {runner : ι → Runner} {r : Runner} (hr : r = .idle → runner i = .idle)
    (j : ι) (h : Function.update runner i r j = .idle) : runner j = .idle := by
  by_cases hj : j = i
  · subst hj
    rw [Function.update_self] at h
    exact hr h
  · rwa [Function.update_of_ne hj] at h

theorem effect_of_runner {runner : Runner} (hrunner : runner = .idle → s.runner i = .idle)
    (hs' : s' = { s with runner := Function.update s.runner i runner }) :
    TaskEffect env s s' a := by
  subst hs'
  exact .process rfl rfl (idle_of_update hrunner) fun j name expiresAt h => .inl h

theorem effect_of_lockStep {runner : Runner} {b : LockAction ι}
    (hrunner : runner = .idle → s.runner i = .idle)
    (hwait : ∀ milliseconds, b ≠ .wait milliseconds)
    (henter : ∀ j name ttl, b = .enter j name ttl → s.runner j = .idle ∧ ttl = env.ttl)
    (h : s.lockStep env i runner b = some s') : TaskEffect env s s' a := by
  rw [TaskState.lockStep, Option.map_eq_some_iff] at h
  obtain ⟨lock, hlock, rfl⟩ := h
  refine .process rfl (now_of_lockStep hwait hlock) (idle_of_update hrunner) ?_
  intro j name expiresAt hinside
  rcases inside_of_lockStep hlock hinside with hbefore | ⟨ttl, hb, hexpires⟩
  · exact .inl hbefore
  · obtain ⟨hidle, rfl⟩ := henter j name ttl hb
    refine .inr ⟨hidle, ?_⟩
    rw [hexpires, TaskEnv.lease]
    omega

theorem taskStep_effect (h : taskStep env s a = some s') : TaskEffect env s s' a := by
  cases a with
  | enter i =>
      simp only [taskStep, Option.ite_none_right_eq_some] at h
      refine effect_of_lockStep (by simp) (by simp) ?_ h.2
      intro j name ttl henter
      cases henter
      exact ⟨h.1, rfl⟩
  | command i =>
      simp only [taskStep, Option.ite_none_right_eq_some, Option.some.injEq] at h
      exact effect_of_runner (by simp) h.2.symm
  | enterFailed i executed =>
      simp only [taskStep, Option.ite_none_right_eq_some] at h
      obtain ⟨hidle, h⟩ := h
      cases executed with
      | false => exact effect_of_runner (fun _ => hidle) (Option.some.inj h).symm
      | true => exact effect_of_lockStep (by simp) (by simp) (by simp) h
  | record b =>
      simp only [taskStep, Option.ite_none_right_eq_some, Option.map_eq_some_iff] at h
      obtain ⟨⟨hrecords, hadmits⟩, records, hstep, rfl⟩ := h
      exact .recorded hrecords hadmits hstep rfl rfl
  | leave i | leaveFailed i => exact effect_of_lockStep id (by simp) (by simp) h
  | crash i =>
      rw [taskStep] at h
      split at h
      · exact effect_of_lockStep (by simp) (by simp) (by simp) h
      · exact effect_of_runner (by simp) (Option.some.inj h).symm
      · exact effect_of_runner (by simp) (Option.some.inj h).symm
      · contradiction
      · contradiction
  | wait milliseconds =>
      cases h
      exact .waited milliseconds rfl rfl rfl rfl

end Machine

end StorageService.Actions
