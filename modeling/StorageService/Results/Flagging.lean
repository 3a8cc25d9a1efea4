import StorageService.Results.Sweep

/-!
# Acknowledged deletions

A run marks and releases flags by their key, as it has read them.  Where no
call comes in between, the flag of a call that has ended stays, not completed,
until a purge that began after the call has ended.
-/

namespace StorageService.Results

open StorageService.Foundation
open StorageService.Actions

section Flagging

variable {ι ρ υ : Type} {env : PurgeEnv} {s s' : DeletionState ι ρ υ} {pk companyId : Nat}

def NeverLost (s : DeletionState ι ρ υ) : Prop :=
  ∀ i companyId, s.calls i = .returned companyId →
    i ∈ s.served ∨ ∃ flag ∈ s.flags, flag.companyId = companyId

def KeyOf (s : DeletionState ι ρ υ) (pk companyId : Nat) : Prop :=
  pk ∈ s.flagIds ∧ ∀ flag ∈ s.flags, flag.pk = pk → flag.companyId = companyId

def CoversServed (s : DeletionState ι ρ υ) : SweepPhase ι → Prop
  | .marking _ _ covers _ => ∀ i ∈ covers, i ∈ s.served
  | _ => True

structure Owed (s : DeletionState ι ρ υ) : Prop where
  issued : ∀ flag ∈ s.flags, flag.pk ∈ s.flagIds
  keyed : ∀ flag ∈ s.flags, ∀ other ∈ s.flags, flag.pk = other.pk → flag = other
  unique : ∀ flag ∈ s.flags, ∀ other ∈ s.flags, flag.companyId = other.companyId → flag = other
  read : ∀ r, ∀ row ∈ (s.runs r).phase.rows, KeyOf s row.pk row.companyId
  found : ∀ i pk companyId, s.calls i = .found pk companyId → KeyOf s pk companyId
  covers : ∀ r, CoversServed s (s.runs r).phase
  acknowledged : ∀ i companyId, s.calls i = .returned companyId →
    (i, companyId) ∈ s.acknowledged
  owed : ∀ i companyId, s.calls i = .returned companyId → i ∉ s.served →
    ∃ flag ∈ s.flags, flag.companyId = companyId ∧ flag.completedAt = none

/-- No call comes between what a run or a call reads and what it writes. -/
def FlagUndisturbed (s : DeletionState ι ρ υ) : DeletionAction ι ρ υ → Prop
  | .release r =>
      ∀ row left, (s.runs r).phase = .releasing row left →
        ∀ flag ∈ s.flags, flag.pk = row.pk → flag.completedAt ≠ none
  | .mark r =>
      ∀ row left covers ended, (s.runs r).phase = .marking row left covers ended →
        ∀ i ∈ s.acknowledgedFor row.companyId, i ∈ covers
  | .reset i =>
      ∀ pk companyId, s.calls i = .found pk companyId → ∃ flag ∈ s.flags, flag.pk = pk
  | _ => True

theorem Owed.neverLost (h : Owed s) : NeverLost s := by
  intro i companyId hcall
  by_cases hserved : i ∈ s.served
  · exact .inl hserved
  · obtain ⟨flag, hflag, hcompany, -⟩ := h.owed i companyId hcall hserved
    exact .inr ⟨flag, hflag, hcompany⟩

theorem owed_initial (now : Nat) : Owed (.initial ι ρ υ now) where
  issued _ h := absurd h List.not_mem_nil
  keyed _ h := absurd h List.not_mem_nil
  unique _ h := absurd h List.not_mem_nil
  read _ _ h := absurd h List.not_mem_nil
  found := by
    intro i pk companyId h
    cases h
  covers _ := trivial
  acknowledged := by
    intro i companyId h
    cases h
  owed := by
    intro i companyId h
    cases h

theorem Owed.frame (h : Owed s) (hflags : s'.flags = s.flags) (hids : s'.flagIds = s.flagIds)
    (hruns : s'.runs = s.runs) (hcalls : s'.calls = s.calls)
    (hacknowledged : s'.acknowledged = s.acknowledged) (hserved : s'.served = s.served) :
    Owed s' where
  issued := by
    rw [hflags, hids]
    exact h.issued
  keyed := by
    rw [hflags]
    exact h.keyed
  unique := by
    rw [hflags]
    exact h.unique
  read := by
    simp only [KeyOf, hruns, hflags, hids]
    exact h.read
  found := by
    simp only [KeyOf, hcalls, hflags, hids]
    exact h.found
  covers := by
    intro r
    have hcovers := h.covers r
    rw [hruns]
    revert hcovers
    cases (s.runs r).phase <;> simp [CoversServed, hserved]
  acknowledged := by
    rw [hcalls, hacknowledged]
    exact h.acknowledged
  owed := by
    rw [hcalls, hserved, hflags]
    exact h.owed

theorem Owed.serve (h : Owed s) (covers : List ι) (swept : List CompanyRow) :
    Owed { s with served := covers ++ s.served, swept := swept } where
  issued := h.issued
  keyed := h.keyed
  unique := h.unique
  read := h.read
  found := h.found
  covers := by
    intro r
    have hcovers := h.covers r
    revert hcovers
    cases hphase : (s.runs r).phase with
    | marking row left covers' ended =>
        intro hcovers i hi
        exact List.mem_append_right _ (hcovers i hi)
    | _ => exact fun _ => trivial
  acknowledged := h.acknowledged
  owed i companyId hcall hserved :=
    h.owed i companyId hcall fun hmem => hserved (List.mem_append_right _ hmem)

theorem KeyOf.map (h : KeyOf s pk companyId) (flags : List CompanyDeletion)
    (hflags : ∀ flag ∈ flags, ∃ old ∈ s.flags, old.pk = flag.pk ∧
      old.companyId = flag.companyId) : KeyOf { s with flags := flags } pk companyId where
  left := h.1
  right := by
    intro flag hflag hpk
    obtain ⟨old, hold, hpkOld, hcompany⟩ := hflags flag hflag
    rw [← hcompany]
    exact h.2 old hold (hpkOld.trans hpk)

theorem Owed.updateIf (h : Owed s) {pk : Nat} {completedAt : Option Nat}
    (howed : completedAt ≠ none → ∀ i companyId, s.calls i = .returned companyId →
      i ∉ s.served → ∀ flag ∈ s.flags, flag.companyId = companyId → flag.pk ≠ pk) :
    Owed { s with flags := s.flags.map (CompanyDeletion.updateIf pk completedAt) } where
  issued := by
    intro flag hflag
    obtain ⟨old, hold, rfl⟩ := List.mem_map.mp hflag
    simpa using h.issued old hold
  keyed := by
    intro flag hflag other hother hpk
    obtain ⟨old, hold, rfl⟩ := List.mem_map.mp hflag
    obtain ⟨old', hold', rfl⟩ := List.mem_map.mp hother
    rw [h.keyed old hold old' hold' (by simpa using hpk)]
  unique := by
    intro flag hflag other hother hcompany
    obtain ⟨old, hold, rfl⟩ := List.mem_map.mp hflag
    obtain ⟨old', hold', rfl⟩ := List.mem_map.mp hother
    rw [h.unique old hold old' hold' (by simpa using hcompany)]
  read := by
    intro r row hrow
    refine (h.read r row hrow).map _ fun flag hflag => ?_
    obtain ⟨old, hold, rfl⟩ := List.mem_map.mp hflag
    exact ⟨old, hold, by simp, by simp⟩
  found := by
    intro i pk' companyId hcall
    refine (h.found i pk' companyId hcall).map _ fun flag hflag => ?_
    obtain ⟨old, hold, rfl⟩ := List.mem_map.mp hflag
    exact ⟨old, hold, by simp, by simp⟩
  covers := h.covers
  acknowledged := h.acknowledged
  owed := by
    intro i companyId hcall hserved
    obtain ⟨flag, hflag, hcompany, hnone⟩ := h.owed i companyId hcall hserved
    refine ⟨_, List.mem_map_of_mem hflag, by simpa using hcompany, ?_⟩
    unfold CompanyDeletion.updateIf
    split
    · rename_i hpk
      by_contra hsome
      exact howed hsome i companyId hcall hserved flag hflag hcompany hpk
    · exact hnone

theorem Owed.release (h : Owed s) {pk : Nat} (released : List (Nat × List Nat))
    (hcompleted : ∀ flag ∈ s.flags, flag.pk = pk → flag.completedAt ≠ none) :
    Owed { s with
      flags := s.flags.filter fun flag => decide (flag.pk ≠ pk), released := released } where
  issued flag hflag := h.issued flag (List.mem_filter.mp hflag).1
  keyed flag hflag other hother :=
    h.keyed flag (List.mem_filter.mp hflag).1 other (List.mem_filter.mp hother).1
  unique flag hflag other hother :=
    h.unique flag (List.mem_filter.mp hflag).1 other (List.mem_filter.mp hother).1
  read r row hrow :=
    ⟨(h.read r row hrow).1, fun flag hflag =>
      (h.read r row hrow).2 flag (List.mem_filter.mp hflag).1⟩
  found i pk' companyId hcall :=
    ⟨(h.found i pk' companyId hcall).1, fun flag hflag =>
      (h.found i pk' companyId hcall).2 flag (List.mem_filter.mp hflag).1⟩
  covers := h.covers
  acknowledged := h.acknowledged
  owed := by
    intro i companyId hcall hserved
    obtain ⟨flag, hflag, hcompany, hnone⟩ := h.owed i companyId hcall hserved
    refine ⟨flag, List.mem_filter.mpr ⟨hflag, ?_⟩, hcompany, hnone⟩
    exact decide_eq_true fun hpk => hcompleted flag hflag hpk hnone

theorem keyOf_flag (h : Owed s) {flag : CompanyDeletion} (hflag : flag ∈ s.flags) :
    KeyOf s flag.pk flag.companyId where
  left := h.issued flag hflag
  right := by
    intro other hother hpk
    rw [h.keyed other hother flag hflag hpk]

theorem KeyOf.insert (h : KeyOf s pk companyId) {flag : CompanyDeletion}
    (hfresh : flag.pk ∉ s.flagIds) :
    KeyOf { s with flags := s.flags ++ [flag], flagIds := flag.pk :: s.flagIds } pk companyId where
  left := List.mem_cons_of_mem _ h.1
  right := by
    intro other hother hpk
    rcases List.mem_append.mp hother with hother | hother
    · exact h.2 other hother hpk
    · rw [List.mem_singleton.mp hother] at hpk
      exact absurd (hpk ▸ h.1) hfresh

theorem Owed.insertFlag (h : Owed s) {flag : CompanyDeletion} (hfresh : flag.pk ∉ s.flagIds)
    (hnone : ∀ other ∈ s.flags, other.companyId ≠ flag.companyId) :
    Owed { s with flags := s.flags ++ [flag], flagIds := flag.pk :: s.flagIds } where
  issued := List.forall_mem_append.mpr
    ⟨fun other hother => List.mem_cons_of_mem _ (h.issued other hother),
      List.forall_mem_singleton.mpr List.mem_cons_self⟩
  keyed := eq_of_key_append h.keyed fun a ha hpk => hfresh (hpk ▸ h.issued a ha)
  unique := eq_of_key_append h.unique hnone
  read r row hrow := (h.read r row hrow).insert hfresh
  found i pk companyId hcall := (h.found i pk companyId hcall).insert hfresh
  covers := h.covers
  acknowledged := h.acknowledged
  owed := by
    intro i companyId hcall hserved
    obtain ⟨other, hother, hcompany, hcompleted⟩ := h.owed i companyId hcall hserved
    exact ⟨other, List.mem_append_left _ hother, hcompany, hcompleted⟩

theorem Owed.read_of_phase (h : Owed s) {r : ρ} {phase : SweepPhase ι}
    (hphase : (s.runs r).phase = phase) :
    ∀ flag ∈ phase.rows, KeyOf s flag.pk flag.companyId := by
  have hrows := h.read r
  rwa [hphase] at hrows

section Calls

variable [DecidableEq ι]

theorem Owed.setCall (h : Owed s) {i : ι} {call : FlagCall}
    (hfound : ∀ pk companyId, call = .found pk companyId → KeyOf s pk companyId)
    (hreturned : ∀ companyId, call ≠ .returned companyId) :
    Owed { s with calls := Function.update s.calls i call } where
  issued := h.issued
  keyed := h.keyed
  unique := h.unique
  read := h.read
  found := by
    intro j pk companyId hcall
    by_cases hj : j = i
    · subst hj
      simp only [Function.update_self] at hcall
      exact hfound pk companyId hcall
    · simp only [Function.update_of_ne hj] at hcall
      exact h.found j pk companyId hcall
  covers := h.covers
  acknowledged := by
    intro j companyId hcall
    by_cases hj : j = i
    · subst hj
      simp only [Function.update_self] at hcall
      exact absurd hcall (hreturned companyId)
    · simp only [Function.update_of_ne hj] at hcall
      exact h.acknowledged j companyId hcall
  owed := by
    intro j companyId hcall
    by_cases hj : j = i
    · subst hj
      simp only [Function.update_self] at hcall
      exact absurd hcall (hreturned companyId)
    · simp only [Function.update_of_ne hj] at hcall
      exact h.owed j companyId hcall

theorem Owed.acknowledge (h : Owed s) {i : ι} {flag : CompanyDeletion} (hflag : flag ∈ s.flags)
    (hnone : flag.completedAt = none) : Owed (s.acknowledge i flag.companyId) where
  issued := h.issued
  keyed := h.keyed
  unique := h.unique
  read := h.read
  found := by
    intro j pk companyId hcall
    by_cases hj : j = i
    · subst hj
      simp only [DeletionState.acknowledge, Function.update_self] at hcall
      contradiction
    · simp only [DeletionState.acknowledge, Function.update_of_ne hj] at hcall
      exact h.found j pk companyId hcall
  covers := h.covers
  acknowledged := by
    intro j companyId hcall
    by_cases hj : j = i
    · subst hj
      simp only [DeletionState.acknowledge, Function.update_self] at hcall
      cases hcall
      exact List.mem_cons_self
    · simp only [DeletionState.acknowledge, Function.update_of_ne hj] at hcall
      exact List.mem_cons_of_mem _ (h.acknowledged j companyId hcall)
  owed := by
    intro j companyId hcall hserved
    by_cases hj : j = i
    · subst hj
      simp only [DeletionState.acknowledge, Function.update_self] at hcall
      cases hcall
      exact ⟨flag, hflag, rfl, hnone⟩
    · simp only [DeletionState.acknowledge, Function.update_of_ne hj] at hcall
      exact h.owed j companyId hcall hserved

end Calls

variable [DecidableEq ρ]

theorem Owed.setRun (h : Owed s) {r : ρ} {run : SweepRun ι}
    (hread : ∀ row ∈ run.phase.rows, KeyOf s row.pk row.companyId)
    (hcovers : CoversServed s run.phase) :
    Owed { s with runs := Function.update s.runs r run } where
  issued := h.issued
  keyed := h.keyed
  unique := h.unique
  read := by
    intro r' row hrow
    by_cases hr : r' = r
    · subst hr
      simp only [Function.update_self] at hrow
      exact hread row hrow
    · simp only [Function.update_of_ne hr] at hrow
      exact h.read r' row hrow
  found := h.found
  covers := by
    intro r'
    by_cases hr : r' = r
    · subst hr
      simp only [Function.update_self]
      exact hcovers
    · simp only [Function.update_of_ne hr]
      exact h.covers r'
  acknowledged := h.acknowledged
  owed := h.owed

variable [DecidableEq ι] [DecidableEq υ]

theorem Owed.step (h : Owed s) {a : DeletionAction ι ρ υ} (hundisturbed : FlagUndisturbed s a)
    (hstep : deletionStep env s a = some s') : Owed s' := by
  cases deletionChange_of_step hstep with
  | started r maxMicroseconds hidle =>
      exact h.setRun (fun row hrow => keyOf_flag h hrow) trivial
  | ranThrough r hphase =>
      exact h.setRun (fun row hrow => absurd hrow List.not_mem_nil) trivial
  | ranOut r row left hphase hlate =>
      exact h.setRun (fun row hrow => absurd hrow List.not_mem_nil) trivial
  | foundExpired r row left hphase hintime hexpired =>
      exact h.setRun (fun flag hflag => h.read_of_phase hphase flag hflag) trivial
  | foundFlagged r row left hphase hintime hkept =>
      exact h.setRun (fun flag hflag => h.read_of_phase hphase flag hflag) trivial
  | purging r blocked row left purge data phase hphase hchange =>
      have hgone : Owed (s.setPhase r (.purging row left { purge with phase := phase })) :=
        h.setRun (fun flag hflag => h.read_of_phase hphase flag hflag) trivial
      exact hgone.frame rfl rfl rfl rfl rfl rfl
  | purged r row left purge hphase hended =>
      have hserved := h.serve purge.covers (purge.seen ++ s.swept)
      have hread : ∀ flag ∈ row :: left, KeyOf s flag.pk flag.companyId := h.read_of_phase hphase
      split
      · exact hserved.setRun hread fun i hi => List.mem_append_left _ hi
      · exact hserved.setRun (fun flag hflag => hread flag (List.mem_cons_of_mem _ hflag))
          trivial
  | failed r row left purge hphase =>
      refine h.setRun (fun flag hflag => ?_) trivial
      exact h.read_of_phase hphase flag (List.mem_cons_of_mem _ hflag)
  | marked r row left covers ended hphase =>
      have hmarked : Owed { s with
          flags := s.flags.map (CompanyDeletion.updateIf row.pk (some (s.runs r).now)) } := by
        apply h.updateIf
        intro _ i companyId hcall hserved flag hflag hcompany hpk
        -- the call ended before the purge began, so that has served it
        have hrow := (h.read_of_phase hphase row List.mem_cons_self).2 flag hflag hpk
        have hacknowledged : i ∈ s.acknowledgedFor row.companyId :=
          List.mem_map.mpr ⟨(i, companyId), List.mem_filter.mpr
            ⟨h.acknowledged i companyId hcall, decide_eq_true (hcompany.symm.trans hrow)⟩, rfl⟩
        have hcovers := h.covers r
        rw [hphase] at hcovers
        exact hserved (hcovers i (hundisturbed row left covers ended hphase i hacknowledged))
      have hgone : Owed ({ s with
          flags := s.flags.map (CompanyDeletion.updateIf row.pk (some (s.runs r).now)) }.setPhase r
            (.looping left)) := by
        refine hmarked.setRun (fun flag hflag => ?_) trivial
        exact hmarked.read_of_phase hphase flag (List.mem_cons_of_mem _ hflag)
      exact hgone.frame rfl rfl rfl rfl rfl rfl
  | released r row left hphase =>
      have hreleased := h.release ((row.companyId, s.endsOf row.pk) :: s.released)
        (hundisturbed row left hphase)
      refine hreleased.setRun (fun flag hflag => ?_) trivial
      exact hreleased.read_of_phase hphase flag (List.mem_cons_of_mem _ hflag)
  | stopped r => exact h.setRun (fun row hrow => absurd hrow List.not_mem_nil) trivial
  | flaggedBefore i flag pk hidle hflag hnone => exact h.acknowledge hflag hnone
  | foundCompleted i flag pk completedAt hidle hflag hcompleted =>
      refine h.setCall (fun pk' companyId' heq => ?_) (by simp)
      cases heq
      exact keyOf_flag h hflag
  | flagged i companyId pk hidle hfresh hnone =>
      have hinserted : Owed { s with
          flags := s.flags ++ [⟨pk, companyId, none⟩], flagIds := pk :: s.flagIds } :=
        h.insertFlag hfresh hnone
      exact hinserted.acknowledge (List.mem_append_right _ List.mem_cons_self) rfl
  | reset i pk companyId hcall =>
      obtain ⟨flag, hflag, hpk⟩ := hundisturbed pk companyId hcall
      have hcompany := (h.found i pk companyId hcall).2 flag hflag hpk
      have hreset : Owed { s with
          flags := s.flags.map (CompanyDeletion.updateIf pk none) } :=
        h.updateIf fun hne => absurd rfl hne
      have hended := hreset.acknowledge (i := i) (List.mem_map_of_mem hflag)
        (by simp [CompanyDeletion.updateIf, hpk])
      rwa [CompanyDeletion.updateIf_companyId, hcompany] at hended
  | raised i hcall => exact h.setCall (by simp) (by simp)
  | written | savedNew | committedNew | locked | overwrote | committed | aborted | abortedNew
    | waited =>
      exact h.frame rfl rfl rfl rfl rfl rfl

/--
In a run where no call comes between what a run or a call reads and what it
writes, the flag of a call that has ended stays until a purge that began after
the call has ended.
-/
theorem neverLost_of_run {now : Nat} {as : List (DeletionAction ι ρ υ)}
    (hundisturbed : (companyDeletion env).Meets FlagUndisturbed (.initial ι ρ υ now) as)
    (hrun : (companyDeletion env).run (.initial ι ρ υ now) as = some s) : NeverLost s :=
  (Machine.invariant_of_meets (fun hs hP hstep => hs.step hP hstep) hundisturbed hrun
    (owed_initial now)).neverLost

/-! ## Asking again -/

def askedAgain : List SampleAction :=
  [.flag 0 7 1] ++ purgeRun 0 ++ ([.mark 0] ++ ([.wait (3601 * second), .flag 1 7 9] ++
    ([.reset 1] ++ (purgeRun 1 ++ [.mark 1]))))

theorem neverLost_of_run_askedAgain :
    ∃ s, (companyDeletion samplePurge).run (.initial Nat Nat Nat 0) askedAgain = some s ∧
      s.calls 1 = .returned 7 ∧ NeverLost s := by
  have hmeets : (companyDeletion samplePurge).Meets FlagUndisturbed (.initial Nat Nat Nat 0)
      askedAgain := by
    refine Machine.meets_append rfl (Machine.meets_of_forall ?_) ?_
    · simp [purgeRun, FlagUndisturbed]
    refine Machine.meets_append rfl ⟨?_, fun _ _ => trivial⟩ ?_
    · intro row left covers ended hphase i hi
      cases hphase
      exact hi
    refine Machine.meets_append rfl (Machine.meets_of_forall ?_) ?_
    · simp [FlagUndisturbed]
    refine Machine.meets_append rfl ⟨?_, fun _ _ => trivial⟩ ?_
    · intro pk companyId hcall
      cases hcall
      exact ⟨_, List.mem_cons_self, rfl⟩
    refine Machine.meets_append rfl (Machine.meets_of_forall ?_) ⟨?_, fun _ _ => trivial⟩
    · simp [purgeRun, FlagUndisturbed]
    · intro row left covers ended hphase i hi
      cases hphase
      exact hi
  exact ⟨_, rfl, rfl, neverLost_of_run hmeets rfl⟩

def askedDuringRelease : List SampleAction :=
  [.flag 0 7 1] ++ purgeRun 0 ++ [.mark 0, .wait (3601 * second), .start 1 (50 * second),
    .visit 1, .flag 1 7 9, .reset 1, .release 1]

theorem neverLost_false :
    ∃ s, (companyDeletion samplePurge).run (.initial Nat Nat Nat 0) askedDuringRelease = some s ∧
      ¬NeverLost s := by
  refine ⟨_, rfl, fun hnever => ?_⟩
  rcases hnever 1 7 rfl with hserved | ⟨flag, hflag, -⟩
  · exact absurd hserved (by decide)
  · exact absurd hflag List.not_mem_nil

end Flagging

end StorageService.Results
