import StorageService.Config.TaskLock

/-!
# One holder at a time

Whatever calls of `task_lock` do, and whenever keys expire in between, a lock
has one holder whose time-to-live has not elapsed.
-/

namespace StorageService.Results

open StorageService.Foundation
open StorageService.Config

section Locking

variable {ι : Type} [DecidableEq ι] {env : LockEnv ι}

theorem keyed_of_run (htoken : Function.Injective env.token) {now : Nat}
    {as : List (LockAction ι)} {s : LockState ι}
    (h : (taskLock env).run (.initial now) as = some s) : s.Keyed env :=
  Machine.invariant (fun hs hstep => LockState.Keyed.step htoken hs hstep) h
    (LockState.keyed_initial now)

theorem refused_of_holds {s s' : LockState ι} (hs : s.Keyed env) {i j : ι} {name : Text}
    {ttl : Int} (hj : s.Holds j name) (h : lockStep env s (.enter i name ttl) = some s') :
    s'.calls i = .refused := by
  obtain ⟨-, ⟨-, hcalls⟩ | ⟨expiresAt, hget, -, -⟩⟩ := LockState.acquire_eq_some h
  · rw [hcalls, Function.update_self]
  · rw [hs.get hj] at hget
    contradiction

theorem holds_of_leave {s s' : LockState ι} {i j : ι} (hne : j ≠ i) {name : Text}
    (hj : s.Holds j name) (h : lockStep env s (.leave i) = some s') : s'.Holds j name := by
  simp only [lockStep] at h
  split at h
  · cases h
    obtain ⟨expiresAt, hphase, hle⟩ := hj
    exact ⟨expiresAt, by simpa only [Function.update_of_ne hne] using hphase, hle⟩
  · contradiction

theorem redis_of_leave {s s' : LockState ι} {i : ι} {key : Text} {held : RedisKey}
    (hheld : s.redis key = some held) (hne : held.value ≠ env.token i)
    (h : lockStep env s (.leave i) = some s') : s'.redis key = some held := by
  simp only [lockStep] at h
  split at h
  · cases h
    exact Redis.release_of_ne hheld hne
  · contradiction

/--
At most one call holds a lock with its time-to-live not yet elapsed; a release
removes no key another call has set; so beside a holder nobody else is let in,
also after a call that outlived its time-to-live has released.
-/
theorem taskLock_exclusive (htoken : Function.Injective env.token) {now : Nat}
    {as : List (LockAction ι)} {s : LockState ι}
    (h : (taskLock env).run (.initial now) as = some s) :
    (∀ i j name, s.Holds i name → s.Holds j name → i = j) ∧
      (∀ i s', lockStep env s (.leave i) = some s' → ∀ key held j, j ≠ i →
        s.redis key = some held → held.value = env.token j → s'.redis key = some held) ∧
      (∀ j name, s.Holds j name →
        (∀ k ttl s', lockStep env s (.enter k name ttl) = some s' → s'.calls k = .refused) ∧
        ∀ i s₁, i ≠ j → lockStep env s (.leave i) = some s₁ → s₁.Holds j name ∧
          ∀ k ttl s', lockStep env s₁ (.enter k name ttl) = some s' →
            s'.calls k = .refused) := by
  have hs := keyed_of_run htoken h
  refine ⟨fun i j name hi hj => hs.unique htoken hi hj, ?_, ?_⟩
  · intro i s' hleave key held j hne hheld hvalue
    refine redis_of_leave hheld ?_ hleave
    rw [hvalue]
    exact fun heq => hne (htoken heq)
  · intro j name hj
    refine ⟨fun k ttl s' henter => refused_of_holds hs hj henter, ?_⟩
    intro i s₁ hne hleave
    have hj₁ := holds_of_leave hne.symm hj hleave
    exact ⟨hj₁, fun k ttl s' henter =>
      refused_of_holds (hs.step htoken hleave) hj₁ henter⟩

def sampleLock : LockEnv Nat where
  schedulerLockPrefix := ['s', 'c', 'h', 'e', 'd', 'u', 'l', 'e', 'r']
  token := hexText 32

theorem sampleLock_token : Function.Injective sampleLock.token := by
  intro a b h
  have hvalue := congrArg hexValue? h
  simpa [sampleLock] using hvalue

def outlived : List (LockAction Nat) :=
  [.enter 0 ['j'] 1, .wait 1500, .enter 1 ['j'] 120, .leave 0]

theorem taskLock_exclusive_outlived :
    ∃ s, (taskLock sampleLock).run (.initial 0) outlived = some s ∧ s.Holds 1 ['j'] ∧
      ∀ i, s.Holds i ['j'] → i = 1 := by
  obtain ⟨s, hrun⟩ : ∃ s, (taskLock sampleLock).run (.initial 0) outlived = some s :=
    ⟨_, rfl⟩
  have hholds : s.Holds 1 ['j'] := by
    have hs := hrun
    cases hs
    exact ⟨121500, .inl rfl, by decide⟩
  exact ⟨s, hrun, hholds, fun i hi =>
    (taskLock_exclusive sampleLock_token hrun).1 i 1 _ hi hholds⟩

end Locking

end StorageService.Results
