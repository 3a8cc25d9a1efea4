import StorageService.Foundation.StateMachine
import StorageService.Storage.Concurrency

/-!
# The quota row between operations and edits

Uploads, copies and deletions adjust the counter of the company inside their
transactions, a batch of deletions once for each file.  An edit of the quota
reads the row, changes the limits and writes the whole row back.
-/

namespace StorageService.Storage

open StorageService.Foundation

inductive Counting where
  | waiting
  | adding (left : List Int)
  | clamping (left : List Int)
  | committed
  | failed
  deriving DecidableEq, Repr

def Counting.left? : Counting → Option (List Int)
  | .adding left | .clamping left => some left
  | _ => none

inductive Edit where
  | waiting
  /-- The instance that `get_or_create_company_quota` returned. -/
  | read (quota : CompanyQuota)
  | ended
  deriving DecidableEq, Repr

/-- The fields of the request, as numbers; `null` and `''` unset the limit per user. -/
structure QuotaUpdate where
  maxBytes : Option Int
  maxBytesPerUser : Option (Option Int)
  deriving DecidableEq, Repr

def CompanyQuota.edit (quota : CompanyQuota) (data : QuotaUpdate) : CompanyQuota :=
  { quota with
    maxBytes := data.maxBytes.getD quota.maxBytes
    maxBytesPerUser := data.maxBytesPerUser.getD quota.maxBytesPerUser }

structure CounterState (ι κ : Type) where
  row : Option CompanyQuota
  written : Option (ι × CompanyQuota)
  operations : ι → Counting
  edits : κ → Edit
  /-- The operations that have committed, the last one first. -/
  counted : List ι

inductive CounterAction (ι κ : Type) where
  | start (i : ι)
  | getOrCreate (i : ι)
  | add (i : ι)
  | clamp (i : ι)
  | commit (i : ι)
  | fail (i : ι)
  | read (k : κ)
  | save (k : κ) (data : QuotaUpdate)
  | abandon (k : κ)
  deriving DecidableEq, Repr

section Counters

variable {ι κ : Type} [DecidableEq ι]

namespace CounterState

def setOperation (s : CounterState ι κ) (i : ι) (counting : Counting) : CounterState ι κ :=
  { s with operations := Function.update s.operations i counting }

def visible (s : CounterState ι κ) (i : ι) : Option CompanyQuota :=
  match s.written with
  | some (j, quota) => if j = i then some quota else s.row
  | none => s.row

def blocks (s : CounterState ι κ) (i : ι) : Bool := s.written.any fun held => held.1 ≠ i

def release (s : CounterState ι κ) (i : ι) : CounterState ι κ :=
  { s with written := s.written.filter fun held => held.1 ≠ i }

variable {s : CounterState ι κ}

theorem visible_of_holder {i : ι} {quota : CompanyQuota} (h : s.written = some (i, quota)) :
    s.visible i = some quota := by
  rw [visible, h]
  exact if_pos rfl

theorem visible_of_not_holder {i : ι} (h : ¬∃ quota, s.written = some (i, quota)) :
    s.visible i = s.row := by
  rw [visible]
  split
  · rename_i j quota hwritten
    refine if_neg ?_
    rintro rfl
    exact h ⟨quota, hwritten⟩
  · rfl

theorem visible_of_free (h : s.written = none) (i : ι) : s.visible i = s.row :=
  visible_of_not_holder (by simp [h])

theorem written_release_of_ne {i j : ι} (hne : j ≠ i) (quota : CompanyQuota) :
    (s.release i).written = some (j, quota) ↔ s.written = some (j, quota) := by
  simp only [release, Option.filter_eq_some_iff, decide_eq_true_eq]
  exact and_iff_left hne

theorem written_release_self (i : ι) (quota : CompanyQuota) :
    (s.release i).written ≠ some (i, quota) := by
  simp [release, Option.filter_eq_some_iff]

theorem visible_congr {s' : CounterState ι κ} {j : ι} (hrow : s'.row = s.row)
    (hheld : ∀ quota, s'.written = some (j, quota) ↔ s.written = some (j, quota)) :
    s'.visible j = s.visible j := by
  by_cases hj : ∃ quota, s.written = some (j, quota)
  · obtain ⟨quota, hj⟩ := hj
    rw [visible_of_holder hj, visible_of_holder ((hheld quota).mpr hj)]
  · rw [visible_of_not_holder hj, visible_of_not_holder, hrow]
    rintro ⟨quota, hquota⟩
    exact hj ⟨quota, (hheld quota).mp hquota⟩

def setEdit [DecidableEq κ] (s : CounterState ι κ) (k : κ) (edit : Edit) : CounterState ι κ :=
  { s with edits := Function.update s.edits k edit }

def step [DecidableEq κ] (env : Env) (deltas : ι → List Int) (s : CounterState ι κ) :
    CounterAction ι κ → Option (CounterState ι κ)
  | .start i =>
      match s.operations i with
      | .waiting => some (s.setOperation i (.adding (deltas i)))
      | _ => none
  | .getOrCreate i =>
      match s.operations i with
      | .adding _ =>
          if (s.visible i).isSome then some s
          else if s.written.isSome then none
          else some { s with written := some (i, defaultCompanyQuota env) }
      | _ => none
  | .add i =>
      match s.operations i with
      | .adding (delta :: left) =>
          if delta = 0 then some (s.setOperation i (.adding left))
          else if s.blocks i then none
          else (s.visible i).map fun quota =>
            { s.setOperation i (.clamping left) with written := some (i, quota.add delta) }
      | _ => none
  | .clamp i =>
      match s.operations i, s.written with
      | .clamping left, some (j, quota) =>
          if j = i then
            some { s.setOperation i (.adding left) with written := some (i, quota.clamp) }
          else none
      | _, _ => none
  | .commit i =>
      match s.operations i with
      | .adding [] =>
          some { (s.release i).setOperation i .committed with
            row := s.visible i
            counted := i :: s.counted }
      | _ => none
  | .fail i =>
      match s.operations i with
      | .adding _ | .clamping _ => some ((s.release i).setOperation i .failed)
      | _ => none
  | .read k =>
      match s.edits k, s.row with
      | .waiting, some quota => some (s.setEdit k (.read quota))
      | .waiting, none =>
          if s.written.isSome then none
          else some { s.setEdit k (.read (defaultCompanyQuota env)) with
            row := some (defaultCompanyQuota env) }
      | _, _ => none
  | .save k data =>
      match s.edits k with
      | .read quota =>
          if s.written.isSome then none
          else some { s.setEdit k .ended with row := some (quota.edit data) }
      | _ => none
  | .abandon k =>
      match s.edits k with
      | .read _ => some (s.setEdit k .ended)
      | _ => none

end CounterState

variable [DecidableEq κ]

def counters (env : Env) (deltas : ι → List Int) :
    Machine (CounterState ι κ) (CounterAction ι κ) :=
  ⟨CounterState.step env deltas⟩

def beforeOperations (row : Option CompanyQuota) : CounterState ι κ where
  row := row
  written := none
  operations _ := .waiting
  edits _ := .waiting
  counted := []

/-! ## What a step does -/

inductive CounterChange (env : Env) (deltas : ι → List Int) (s s' : CounterState ι κ) :
    CounterAction ι κ → Prop where
  | started (i : ι) (before : s.operations i = .waiting)
      (after : s' = s.setOperation i (.adding (deltas i))) :
      CounterChange env deltas s s' (.start i)
  | found (i : ι) (after : s' = s) : CounterChange env deltas s s' (.getOrCreate i)
  | created (i : ι) (left : List Int) (before : s.operations i = .adding left)
      (absent : s.row = none) (free : s.written = none)
      (after : s' = { s with written := some (i, defaultCompanyQuota env) }) :
      CounterChange env deltas s s' (.getOrCreate i)
  | skipped (i : ι) (left : List Int) (before : s.operations i = .adding (0 :: left))
      (after : s' = s.setOperation i (.adding left)) : CounterChange env deltas s s' (.add i)
  | added (i : ι) (delta : Int) (left : List Int) (quota : CompanyQuota)
      (before : s.operations i = .adding (delta :: left)) (free : s.blocks i = false)
      (row : s.visible i = some quota)
      (after : s' = { s.setOperation i (.clamping left) with
        written := some (i, quota.add delta) }) : CounterChange env deltas s s' (.add i)
  | clamped (i : ι) (left : List Int) (quota : CompanyQuota)
      (before : s.operations i = .clamping left) (held : s.written = some (i, quota))
      (after : s' = { s.setOperation i (.adding left) with
        written := some (i, quota.clamp) }) : CounterChange env deltas s s' (.clamp i)
  | committed (i : ι) (before : s.operations i = .adding [])
      (after : s' = { (s.release i).setOperation i .committed with
        row := s.visible i
        counted := i :: s.counted }) : CounterChange env deltas s s' (.commit i)
  | failed (i : ι) (after : s' = (s.release i).setOperation i .failed) :
      CounterChange env deltas s s' (.fail i)
  | read (k : κ) (quota : CompanyQuota) (row : s.row = some quota)
      (after : s' = s.setEdit k (.read quota)) : CounterChange env deltas s s' (.read k)
  | readCreated (k : κ) (absent : s.row = none) (free : s.written = none)
      (after : s' = { s.setEdit k (.read (defaultCompanyQuota env)) with
        row := some (defaultCompanyQuota env) }) : CounterChange env deltas s s' (.read k)
  | saved (k : κ) (data : QuotaUpdate) (quota : CompanyQuota) (before : s.edits k = .read quota)
      (free : s.written = none)
      (after : s' = { s.setEdit k .ended with row := some (quota.edit data) }) :
      CounterChange env deltas s s' (.save k data)
  | abandoned (k : κ) (after : s' = s.setEdit k .ended) :
      CounterChange env deltas s s' (.abandon k)

variable {env : Env} {deltas : ι → List Int} {s s' : CounterState ι κ} {a : CounterAction ι κ}

theorem counterChange_of_step (h : (counters env deltas).step s a = some s') :
    CounterChange env deltas s s' a := by
  simp only [counters] at h
  cases a with
  | start i =>
      simp only [CounterState.step] at h
      split at h
      · exact .started i ‹_› (Option.some.inj h).symm
      · contradiction
  | getOrCreate i =>
      simp only [CounterState.step] at h
      split at h
      · rename_i left hbefore
        split at h
        · exact .found i (Option.some.inj h).symm
        · rename_i habsent
          split at h
          · contradiction
          · rename_i hfree
            have hnone : s.written = none := by simpa using hfree
            rw [CounterState.visible_of_free hnone] at habsent
            exact .created i left hbefore (by simpa using habsent) hnone (Option.some.inj h).symm
      · contradiction
  | add i =>
      simp only [CounterState.step] at h
      split at h
      · rename_i delta left hbefore
        split at h
        · rename_i hzero
          subst hzero
          exact .skipped i left hbefore (Option.some.inj h).symm
        · split at h
          · contradiction
          · rename_i hfree
            obtain ⟨quota, hrow, hafter⟩ := Option.map_eq_some_iff.mp h
            exact .added i delta left quota hbefore (by simpa using hfree) hrow hafter.symm
      · contradiction
  | clamp i =>
      simp only [CounterState.step] at h
      split at h
      · rename_i left j quota hbefore hheld
        split at h
        · rename_i hj
          subst hj
          exact .clamped j left quota hbefore hheld (Option.some.inj h).symm
        · contradiction
      · contradiction
  | commit i =>
      simp only [CounterState.step] at h
      split at h
      · exact .committed i ‹_› (Option.some.inj h).symm
      · contradiction
  | fail i =>
      simp only [CounterState.step] at h
      split at h
      · exact .failed i (Option.some.inj h).symm
      · exact .failed i (Option.some.inj h).symm
      · contradiction
  | read k =>
      simp only [CounterState.step] at h
      split at h
      · exact .read k _ ‹_› (Option.some.inj h).symm
      · rename_i hrow
        split at h
        · contradiction
        · rename_i hfree
          exact .readCreated k hrow (by simpa using hfree) (Option.some.inj h).symm
      · contradiction
  | save k data =>
      simp only [CounterState.step] at h
      split at h
      · rename_i quota hbefore
        split at h
        · contradiction
        · rename_i hfree
          exact .saved k data quota hbefore (by simpa using hfree) (Option.some.inj h).symm
      · contradiction
  | abandon k =>
      simp only [CounterState.step] at h
      split at h
      · exact .abandoned k (Option.some.inj h).symm
      · contradiction

/-! ## An operation on its own -/

/-- What `apply_usage_delta` does to the row is a run of the statements of one operation. -/
theorem run_of_applyUsageDelta {i : ι} {companyId : Nat} {userId : Option Nat} {delta : Int}
    {w w' : World} (hdeltas : deltas i = [delta])
    (h : (applyUsageDelta env companyId userId delta).Runs w () w') :
    ∃ (as : List (CounterAction ι κ)) (s : CounterState ι κ),
      (counters env deltas).run (beforeOperations (w.db.companyQuotas companyId)) as = some s ∧
        s.row = w'.db.companyQuotas companyId ∧ s.operations i = .committed := by
  rw [runs_applyUsageDelta_companyRow h]
  by_cases hzero : delta = 0
  · rw [if_pos hzero]
    refine ⟨[.start i, .add i, .commit i], ?_⟩
    simp [Machine.run, counters, CounterState.step, beforeOperations, CounterState.setOperation,
      CounterState.visible, CounterState.release, hdeltas, hzero]
  · rw [if_neg hzero]
    refine ⟨[.start i, .getOrCreate i, .add i, .clamp i, .commit i], ?_⟩
    cases w.db.companyQuotas companyId <;>
      simp [Machine.run, counters, CounterState.step, beforeOperations,
        CounterState.setOperation, CounterState.visible, CounterState.blocks,
        CounterState.release, hdeltas, hzero, CompanyQuota.charged]

end Counters

end StorageService.Storage
