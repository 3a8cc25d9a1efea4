import Mathlib.Logic.Function.Basic
import StorageService.Foundation.StateMachine
import StorageService.Foundation.Text

/-!
# The task lock

`task_lock.py`: a lock in Redis, taken with `SET key token NX EX ttl` and given
back by a script that deletes the key only where it still holds the token.  A
call is one use of `task_lock`; each Redis command is one step, and the clock,
in milliseconds, is that of Redis.
-/

namespace StorageService.Config

open StorageService.Foundation

/-! ## Redis -/

structure RedisKey where
  value : Text
  expiresAt : Nat
  deriving DecidableEq, Repr

abbrev Redis := Text → Option RedisKey

namespace Redis

/-- A key is as good as deleted once its time of expiry is past. -/
def get (redis : Redis) (now : Nat) (key : Text) : Option Text :=
  (redis key).bind fun held => if now ≤ held.expiresAt then some held.value else none

/-- `SET key value NX EX seconds`; nothing is set where the key is there. -/
def setNx (redis : Redis) (now : Nat) (key value : Text) (seconds : Nat) : Option Redis :=
  match redis.get now key with
  | some _ => none
  | none => some (Function.update redis key (some ⟨value, now + 1000 * seconds⟩))

def release (redis : Redis) (now : Nat) (key token : Text) : Redis :=
  if redis.get now key = some token then Function.update redis key none else redis

end Redis

/-! ## Calls of `task_lock` -/

inductive Phase where
  | outside
  | inside (name : Text) (expiresAt : Nat)
  /-- Crashed, or raised while its command was under way: its key may still be there. -/
  | gone (name : Text) (expiresAt : Nat)
  | refused
  | left
  deriving DecidableEq, Repr

structure LockEnv (ι : Type) where
  schedulerLockPrefix : Text
  token : ι → Text

def LockEnv.lockKey {ι : Type} (env : LockEnv ι) (name : Text) : Text :=
  env.schedulerLockPrefix ++ [':', 'l', 'o', 'c', 'k', ':'] ++ name

structure LockState (ι : Type) where
  now : Nat
  redis : Redis
  calls : ι → Phase

namespace LockState

variable {ι : Type}

def initial (now : Nat) : LockState ι where
  now := now
  redis := fun _ => none
  calls := fun _ => .outside

/-- The call set the key of this lock and its time-to-live has not elapsed. -/
def Holds (s : LockState ι) (i : ι) (name : Text) : Prop :=
  ∃ expiresAt, (s.calls i = .inside name expiresAt ∨ s.calls i = .gone name expiresAt) ∧
    s.now ≤ expiresAt

def Keyed (env : LockEnv ι) (s : LockState ι) : Prop :=
  ∀ i name expiresAt, s.calls i = .inside name expiresAt ∨ s.calls i = .gone name expiresAt →
    s.now ≤ expiresAt → s.redis (env.lockKey name) = some ⟨env.token i, expiresAt⟩

variable {env : LockEnv ι} {s : LockState ι} {i j : ι} {name : Text}

theorem Keyed.get (h : s.Keyed env) (hold : s.Holds i name) :
    s.redis.get s.now (env.lockKey name) = some (env.token i) := by
  obtain ⟨expiresAt, hphase, hle⟩ := hold
  simp [Redis.get, h i name expiresAt hphase hle, hle]

theorem Keyed.unique (hkeyed : s.Keyed env) (htoken : Function.Injective env.token)
    (hi : s.Holds i name) (hj : s.Holds j name) : i = j := by
  have h := (hkeyed.get hi).symm.trans (hkeyed.get hj)
  exact htoken (Option.some.inj h)

theorem keyed_initial (now : Nat) : (initial now : LockState ι).Keyed env := by
  intro i name expiresAt hphase
  rcases hphase with h | h <;> cases h

end LockState

inductive LockAction (ι : Type) where
  | enter (i : ι) (name : Text) (ttl : Int)
  /-- Redis runs the command, but its reply does not arrive. -/
  | enterUnanswered (i : ι) (name : Text) (ttl : Int)
  | leave (i : ι)
  /-- The script does not run; the lock is left to expire. -/
  | leaveFailed (i : ι)
  | crash (i : ι)
  | wait (milliseconds : Nat)

section Machine

variable {ι : Type} [DecidableEq ι]

def LockState.acquire (env : LockEnv ι) (s : LockState ι) (i : ι) (name : Text) (ttl : Int)
    (granted : Nat → Phase) (otherwise : Phase) : Option (LockState ι) :=
  let seconds := (max 1 ttl).toNat
  if s.calls i = .outside then
    match s.redis.setNx s.now (env.lockKey name) (env.token i) seconds with
    | some redis =>
        some { s with
          redis := redis
          calls := Function.update s.calls i (granted (s.now + 1000 * seconds)) }
    | none => some { s with calls := Function.update s.calls i otherwise }
  else none

def lockStep (env : LockEnv ι) (s : LockState ι) : LockAction ι → Option (LockState ι)
  | .enter i name ttl => s.acquire env i name ttl (.inside name) .refused
  | .enterUnanswered i name ttl => s.acquire env i name ttl (.gone name) .left
  | .leave i =>
      match s.calls i with
      | .inside name _ =>
          some { s with
            redis := s.redis.release s.now (env.lockKey name) (env.token i)
            calls := Function.update s.calls i .left }
      | _ => none
  | .leaveFailed i | .crash i =>
      match s.calls i with
      | .inside name expiresAt =>
          some { s with calls := Function.update s.calls i (.gone name expiresAt) }
      | _ => none
  | .wait milliseconds => some { s with now := s.now + milliseconds }

def taskLock (env : LockEnv ι) : Machine (LockState ι) (LockAction ι) := ⟨lockStep env⟩

end Machine

/-! ## What a step does -/

section Steps

variable {ι : Type} [DecidableEq ι] {env : LockEnv ι} {s s' : LockState ι} {i : ι}

theorem Redis.setNx_eq_some {redis redis' : Redis} {now : Nat} {key value : Text}
    {seconds : Nat} (h : redis.setNx now key value seconds = some redis') :
    redis.get now key = none ∧
      redis' = Function.update redis key (some ⟨value, now + 1000 * seconds⟩) := by
  unfold setNx at h
  cases hget : redis.get now key with
  | some held => simp [hget] at h
  | none =>
      simp only [hget, Option.some.injEq] at h
      exact ⟨rfl, h.symm⟩

theorem Redis.release_of_ne {redis : Redis} {now : Nat} {key key' token : Text}
    {held : RedisKey} (hheld : redis key' = some held) (hne : held.value ≠ token) :
    redis.release now key token key' = some held := by
  unfold release
  split
  · rename_i hget
    have hkey : key' ≠ key := by
      rintro rfl
      simp only [get, hheld, Option.bind_some] at hget
      split at hget
      · exact hne (Option.some.inj hget)
      · contradiction
    rw [Function.update_of_ne hkey, hheld]
  · exact hheld

theorem LockState.acquire_eq_some {name : Text} {ttl : Int} {granted : Nat → Phase}
    {otherwise : Phase} (h : s.acquire env i name ttl granted otherwise = some s') :
    s'.now = s.now ∧
      ((s'.redis = s.redis ∧ s'.calls = Function.update s.calls i otherwise) ∨
        ∃ expiresAt, s.redis.get s.now (env.lockKey name) = none ∧
          s'.redis =
            Function.update s.redis (env.lockKey name) (some ⟨env.token i, expiresAt⟩) ∧
          s'.calls = Function.update s.calls i (granted expiresAt)) := by
  unfold acquire at h
  simp only at h
  split at h
  · cases hset : s.redis.setNx s.now (env.lockKey name) (env.token i) (max 1 ttl).toNat with
    | none =>
        simp only [hset, Option.some.injEq] at h
        subst h
        exact ⟨rfl, .inl ⟨rfl, rfl⟩⟩
    | some redis =>
        simp only [hset, Option.some.injEq] at h
        subst h
        obtain ⟨hget, hredis⟩ := Redis.setNx_eq_some hset
        exact ⟨rfl, .inr ⟨_, hget, hredis, rfl⟩⟩
  · contradiction

theorem LockState.Keyed.acquire (hs : s.Keyed env) {name : Text} {ttl : Int}
    {granted : Nat → Phase} {otherwise : Phase}
    (hgranted : ∀ e, granted e = .inside name e ∨ granted e = .gone name e)
    (hother : otherwise = .refused ∨ otherwise = .left)
    (h : s.acquire env i name ttl granted otherwise = some s') : s'.Keyed env := by
  obtain ⟨hnow, ⟨hredis, hcalls⟩ | ⟨expiresAt, hget, hredis, hcalls⟩⟩ := acquire_eq_some h
  · intro j n e hphase hle
    rw [hredis]
    rw [hnow] at hle
    by_cases hj : j = i
    · subst hj
      rcases hother with rfl | rfl <;> simp [hcalls] at hphase
    · rw [hcalls, Function.update_of_ne hj] at hphase
      exact hs j n e hphase hle
  · intro j n e hphase hle
    rw [hnow] at hle
    by_cases hj : j = i
    · subst hj
      have hsame : n = name ∧ e = expiresAt := by
        rcases hgranted expiresAt with hg | hg <;> simp [hcalls, hg] at hphase <;>
          exact ⟨hphase.1.symm, hphase.2.symm⟩
      rw [hredis, hsame.1, hsame.2, Function.update_self]
    · rw [hcalls, Function.update_of_ne hj] at hphase
      have hkey := hs j n e hphase hle
      have hne : env.lockKey n ≠ env.lockKey name := by
        intro heq
        simp [Redis.get, ← heq, hkey, hle] at hget
      rw [hredis, Function.update_of_ne hne, hkey]

theorem LockState.Keyed.step (htoken : Function.Injective env.token) (hs : s.Keyed env)
    {a : LockAction ι} (h : lockStep env s a = some s') : s'.Keyed env := by
  cases a with
  | enter i name ttl => exact hs.acquire (fun e => .inl rfl) (.inl rfl) h
  | enterUnanswered i name ttl => exact hs.acquire (fun e => .inr rfl) (.inr rfl) h
  | leave i =>
      simp only [lockStep] at h
      split at h
      · cases h
        intro j n e hphase hle
        have hj : j ≠ i := by
          rintro rfl
          simp at hphase
        simp only [Function.update_of_ne hj] at hphase
        exact Redis.release_of_ne (hs j n e hphase hle) fun heq => hj (htoken heq)
      · contradiction
  | leaveFailed i | crash i =>
      simp only [lockStep] at h
      split at h
      · rename_i name expiresAt hinside
        cases h
        intro j n e hphase hle
        refine hs j n e ?_ hle
        by_cases hj : j = i
        · subst hj
          simp only [Function.update_self] at hphase
          rcases hphase with heq | heq
          · contradiction
          · cases heq
            exact .inl hinside
        · simpa only [Function.update_of_ne hj] using hphase
      · contradiction
  | wait milliseconds =>
      cases h
      intro j n e hphase hle
      exact hs j n e hphase (Nat.le_trans (Nat.le_add_right _ _) hle)

theorem inside_of_lockStep {a : LockAction ι} {name : Text} {expiresAt : Nat}
    (h : lockStep env s a = some s') (hinside : s'.calls i = .inside name expiresAt) :
    s.calls i = .inside name expiresAt ∨
      ∃ ttl, a = .enter i name ttl ∧ expiresAt = s.now + 1000 * (max 1 ttl).toNat := by
  cases a with
  | enter j n ttl =>
      simp only [lockStep, LockState.acquire] at h
      split at h
      · by_cases hij : i = j
        · subst hij
          split at h <;> cases h <;> simp only [Function.update_self] at hinside
          · cases hinside
            exact .inr ⟨ttl, rfl, rfl⟩
          · cases hinside
        · split at h <;> cases h <;>
            exact .inl (by simpa only [Function.update_of_ne hij] using hinside)
      · contradiction
  | enterUnanswered j n ttl =>
      simp only [lockStep, LockState.acquire] at h
      split at h
      · by_cases hij : i = j
        · subst hij
          split at h <;> cases h <;> simp at hinside
        · split at h <;> cases h <;>
            exact .inl (by simpa only [Function.update_of_ne hij] using hinside)
      · contradiction
  | leave j | leaveFailed j | crash j =>
      simp only [lockStep] at h
      split at h
      · cases h
        by_cases hij : i = j
        · subst hij
          simp at hinside
        · exact .inl (by simpa only [Function.update_of_ne hij] using hinside)
      · contradiction
  | wait milliseconds =>
      cases h
      exact .inl hinside

theorem now_of_lockStep {a : LockAction ι} (ha : ∀ milliseconds, a ≠ .wait milliseconds)
    (h : lockStep env s a = some s') : s'.now = s.now := by
  cases a with
  | enter j n ttl | enterUnanswered j n ttl => exact (LockState.acquire_eq_some h).1
  | leave j | leaveFailed j | crash j =>
      simp only [lockStep] at h
      split at h
      · cases h
        rfl
      · contradiction
  | wait milliseconds => exact absurd rfl (ha milliseconds)

end Steps

end StorageService.Config
