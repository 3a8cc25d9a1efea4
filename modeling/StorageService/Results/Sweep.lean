import StorageService.Actions.CompanyDeletion

/-!
# Rows written while a company is deleted

A purge that runs to its end deletes every row of the company that was there
when it began.  A flag is released without a purge of its own, and its age is
counted from the start of the run that completed it, so the rows written up to an
hour after the end of that purge are covered where a purge that began after them
has ended by the release, and none is written after it.
-/

namespace StorageService.Results

open StorageService.Foundation
open StorageService.Actions

section Sweep

variable {ι ρ υ : Type} {env : PurgeEnv} {s s' : DeletionState ι ρ υ}
  {data data' : CompanyData} {purge : Purge ι}

/-! ## One purge -/

def ToDo (model : Nat) : PurgePhase → Prop
  | .looking | .deletingBlobs _ _ => True
  | .deletingRows left stuck _ => model ∈ left ∨ model ∈ stuck
  | .purged => False

structure Sees (data : CompanyData) (purge : Purge ι) : Prop where
  issued : ∀ row ∈ purge.seen, row.id ∈ data.ids
  company : ∀ row ∈ purge.seen, row.companyId = purge.companyId
  todo : ∀ row ∈ purge.seen, row ∈ data.rows → ToDo row.model purge.phase

theorem Sees.of_subset (h : Sees data purge) (hids : ∀ id ∈ data.ids, id ∈ data'.ids)
    (hrows : ∀ row ∈ purge.seen, row ∈ data'.rows → row ∈ data.rows) : Sees data' purge where
  issued row hrow := hids _ (h.issued row hrow)
  company := h.company
  todo row hrow hmem := h.todo row hrow (hrows row hrow hmem)

theorem Sees.insertRow (h : Sees data purge) {row : CompanyRow} (hfresh : row.id ∉ data.ids) :
    Sees (data.insertRow row) purge := by
  refine h.of_subset (fun id => List.mem_cons_of_mem _) ?_
  intro old hold hmem
  rcases List.mem_append.mp hmem with hmem | hmem
  · exact hmem
  · rw [List.mem_singleton.mp hmem] at hold
    exact absurd (h.issued row hold) hfresh

theorem Sees.step (h : Sees data purge)
    (hmodels : ∀ row ∈ data.rows, row.model ∈ env.companyScopedModels) {phase : PurgePhase}
    (hchange : PurgeChange env purge.companyId data data' purge.phase phase) :
    Sees data' { purge with phase := phase } where
  issued := by
    intro row hrow
    rw [hchange.rows_subset.1]
    exact h.issued row hrow
  company := h.company
  todo := by
    intro row hrow hmem
    have hold : row ∈ data.rows := hchange.rows_subset.2.2 row hmem
    have htodo := h.todo row hrow hold
    have hcompany := h.company row hrow
    generalize purge.phase = before at hchange htodo
    cases hchange with
    | looked | deletedBlob | deletedBatch => trivial
    | foundNothing hbatch hdata => exact .inl (hmodels row hold)
    | deletedModel model left stuck again hdelete =>
        -- the row is still there, so it is of another model
        obtain ⟨hrows, -⟩ := CompanyData.deleteRows_eq_some hdelete
        rw [hrows] at hmem
        have hkept := (List.mem_filter.mp hmem).2
        have hne : row.model ≠ model := by
          intro heq
          simp [CompanyRow.goesWith, hcompany, heq] at hkept
        rcases htodo with htodo | htodo
        · exact .inl ((List.mem_cons.mp htodo).resolve_left hne)
        · exact .inr htodo
    | stuck model left stuck again hdata =>
        rcases htodo with htodo | htodo
        · rcases List.mem_cons.mp htodo with heq | htodo
          · exact .inr (List.mem_append_right _ (List.mem_singleton.mpr heq))
          · exact .inl htodo
        · exact .inr (List.mem_append_left _ htodo)
    | again stuck again hdata => exact .inl (htodo.resolve_left List.not_mem_nil)
    | ended again hdata => exact htodo.elim List.not_mem_nil List.not_mem_nil

/-! ## The invariant -/

/-- A released flag was completed after a purge, and what is left of its company is
younger than the window of each such purge. -/
def Covered (s : DeletionState ι ρ υ) : Prop :=
  ∀ flag ∈ s.released, flag.2 ≠ [] ∧
    ∀ ended ∈ flag.2, ∀ row ∈ s.data.rows, row.companyId = flag.1 →
      ended + sweepWindow < row.writtenAt

structure Swept (env : PurgeEnv) (s : DeletionState ι ρ υ) : Prop where
  issued : ∀ row ∈ s.data.rows, row.id ∈ s.data.ids
  written : ∀ row ∈ s.data.rows, row ∈ s.written
  models : ∀ row ∈ s.data.rows, row.model ∈ env.companyScopedModels
  purges : ∀ r row left purge, (s.runs r).phase = .purging row left purge → Sees s.data purge
  sweptIssued : ∀ row ∈ s.swept, row.id ∈ s.data.ids
  swept : ∀ row ∈ s.swept, row ∉ s.data.rows
  younger : ∀ flag ∈ s.released, ∀ ended ∈ flag.2, ∀ row ∈ s.data.rows,
    row.companyId = flag.1 → ended + sweepWindow < row.writtenAt

theorem swept_initial (env : PurgeEnv) (now : Nat) :
    Swept env (.initial ι ρ υ now) where
  issued _ h := absurd h List.not_mem_nil
  written _ h := absurd h List.not_mem_nil
  models _ h := absurd h List.not_mem_nil
  purges := by
    intro r row left purge h
    cases h
  sweptIssued _ h := absurd h List.not_mem_nil
  swept _ _ := List.not_mem_nil
  younger _ h := absurd h List.not_mem_nil

theorem Swept.frame (h : Swept env s) (hrows : s'.data.rows = s.data.rows)
    (hids : s'.data.ids = s.data.ids) (hruns : s'.runs = s.runs)
    (hwritten : s'.written = s.written) (hswept : s'.swept = s.swept)
    (hreleased : s'.released = s.released) : Swept env s' where
  issued := by
    rw [hrows, hids]
    exact h.issued
  written := by
    rw [hrows, hwritten]
    exact h.written
  models := by
    rw [hrows]
    exact h.models
  purges := by
    intro r row left purge hphase
    rw [hruns] at hphase
    exact (h.purges r row left purge hphase).of_subset (by simp [hids]) (by simp [hrows])
  sweptIssued := by
    rw [hswept, hids]
    exact h.sweptIssued
  swept := by
    rw [hswept, hrows]
    exact h.swept
  younger := by
    rw [hreleased, hrows]
    exact h.younger

/-- No row of the company is written in the window of a flag that was released. -/
def WindowOver (s : DeletionState ι ρ υ) (companyId : Nat) : Prop :=
  ∀ flag ∈ s.released, flag.1 = companyId → ∀ ended ∈ flag.2, ended + sweepWindow < s.now

theorem Swept.insertRow (h : Swept env s) {row : CompanyRow} (hfresh : row.id ∉ s.data.ids)
    (hmodel : row.model ∈ env.companyScopedModels) (hnow : row.writtenAt = s.now)
    (hover : WindowOver s row.companyId) : Swept env (s.insertRow row) where
  issued := List.forall_mem_append.mpr
    ⟨fun old hold => List.mem_cons_of_mem _ (h.issued old hold),
      List.forall_mem_singleton.mpr List.mem_cons_self⟩
  written := List.forall_mem_append.mpr
    ⟨fun old hold => List.mem_cons_of_mem _ (h.written old hold),
      List.forall_mem_singleton.mpr List.mem_cons_self⟩
  models := List.forall_mem_append.mpr ⟨h.models, List.forall_mem_singleton.mpr hmodel⟩
  purges r flag left purge hphase := (h.purges r flag left purge hphase).insertRow hfresh
  sweptIssued old hold := List.mem_cons_of_mem _ (h.sweptIssued old hold)
  swept := by
    intro old hold hmem
    rcases List.mem_append.mp hmem with hmem | hmem
    · exact h.swept old hold hmem
    · rw [List.mem_singleton.mp hmem] at hold
      exact hfresh (h.sweptIssued row hold)
  younger := by
    intro flag hflag ended hended
    refine List.forall_mem_append.mpr
      ⟨h.younger flag hflag ended hended, List.forall_mem_singleton.mpr fun hcompany => ?_⟩
    rw [hnow]
    exact hover flag hflag hcompany.symm ended hended

/-- The rows written in the window of a purge that has completed the flag were all there
when a purge began that has ended, and after the release no more are written in it. -/
def SweptBefore (s : DeletionState ι ρ υ) : DeletionAction ι ρ υ → Prop
  | .release r =>
      ∀ row left, (s.runs r).phase = .releasing row left →
        ∀ ended ∈ s.endsOf row.pk, ∀ old ∈ s.written, old.companyId = row.companyId →
          old.writtenAt ≤ ended + sweepWindow → old ∈ s.swept
  | .write _ _ companyId => WindowOver s companyId
  | .commitNew u _ =>
      ∀ companyId key, s.uploads u = .creating companyId key → WindowOver s companyId
  | _ => True

theorem Swept.purged (h : Swept env s) {r : ρ} {row : CompanyDeletion}
    {left : List CompanyDeletion} (hphase : (s.runs r).phase = .purging row left purge)
    (hended : purge.phase = .purged) {served : List ι} :
    Swept env { s with served := served, swept := purge.seen ++ s.swept } := by
  have hsees := h.purges r row left purge hphase
  refine ⟨h.issued, h.written, h.models, h.purges, ?_, ?_, h.younger⟩
  · intro old hold
    rcases List.mem_append.mp hold with hold | hold
    · exact hsees.issued old hold
    · exact h.sweptIssued old hold
  · intro old hold hmem
    rcases List.mem_append.mp hold with hold | hold
    · have htodo := hsees.todo old hold hmem
      rw [hended] at htodo
      exact htodo
    · exact h.swept old hold hmem

/-- A flag goes; what a purge has swept of its company is gone. -/
theorem Swept.release (h : Swept env s) {row : CompanyDeletion}
    (hswept : ∀ ended ∈ s.endsOf row.pk, ∀ old ∈ s.written, old.companyId = row.companyId →
      old.writtenAt ≤ ended + sweepWindow → old ∈ s.swept)
    {flags : List CompanyDeletion} :
    Swept env { s with
      flags := flags
      released := (row.companyId, s.endsOf row.pk) :: s.released } := by
  refine ⟨h.issued, h.written, h.models, h.purges, h.sweptIssued, h.swept, ?_⟩
  intro flag hflag
  rcases List.mem_cons.mp hflag with rfl | hflag
  · intro ended hended old hold hcompany
    by_contra hlate
    exact h.swept old (hswept ended hended old (h.written old hold) hcompany (by omega)) hold
  · exact h.younger flag hflag

theorem Swept.beginPurge (h : Swept env s) (companyId : Nat) :
    Sees s.data (s.beginPurge env companyId) where
  issued row hrow := h.issued row (List.mem_filter.mp hrow).1
  company row hrow := of_decide_eq_true (List.mem_filter.mp hrow).2
  todo := by
    intro row hrow hmem
    simp only [DeletionState.beginPurge]
    split
    · trivial
    · exact .inl (h.models row hmem)

/-! ## Completed flags -/

/-- A flag that is completed, and one that a run has read so, was completed after a purge. -/
structure Dated (s : DeletionState ι ρ υ) : Prop where
  flags : ∀ flag ∈ s.flags, flag.completedAt ≠ none → s.endsOf flag.pk ≠ []
  read : ∀ r, ∀ row ∈ (s.runs r).phase.rows, row.completedAt ≠ none → s.endsOf row.pk ≠ []
  releasing : ∀ r row left, (s.runs r).phase = .releasing row left → row.completedAt ≠ none
  released : ∀ flag ∈ s.released, flag.2 ≠ []

theorem dated_initial (now : Nat) : Dated (.initial ι ρ υ now) where
  flags _ h := absurd h List.not_mem_nil
  read _ _ h := absurd h List.not_mem_nil
  releasing := by
    intro r row left h
    cases h
  released _ h := absurd h List.not_mem_nil

theorem Dated.frame (h : Dated s) (hruns : s'.runs = s.runs) (hmarked : s'.marked = s.marked)
    (hreleased : s'.released = s.released)
    (hflags : ∀ flag ∈ s'.flags, flag.completedAt ≠ none → s.endsOf flag.pk ≠ []) :
    Dated s' where
  flags := by
    simpa only [DeletionState.endsOf, hmarked] using hflags
  read := by
    rw [hruns]
    simpa only [DeletionState.endsOf, hmarked] using h.read
  releasing := by
    rw [hruns]
    exact h.releasing
  released := by
    rw [hreleased]
    exact h.released

theorem endsOf_mark {s : DeletionState ι ρ υ} {mark : Nat × Nat} {pk : Nat}
    (h : s.endsOf pk ≠ []) : ({ s with marked := mark :: s.marked }).endsOf pk ≠ [] := by
  obtain ⟨ended, hended⟩ := List.exists_mem_of_ne_nil _ h
  obtain ⟨old, hold, rfl⟩ := List.mem_map.mp hended
  obtain ⟨hmem, hpk⟩ := List.mem_filter.mp hold
  exact List.ne_nil_of_mem (List.mem_map_of_mem
    (List.mem_filter.mpr ⟨List.mem_cons_of_mem mark hmem, hpk⟩))

theorem Dated.mark (h : Dated s) (row : CompanyDeletion) (completedAt ended : Nat) :
    Dated { s with
      flags := s.flags.map (CompanyDeletion.updateIf row.pk (some completedAt))
      marked := (row.pk, ended) :: s.marked } where
  flags := by
    intro flag hflag hcompleted
    obtain ⟨old, hold, rfl⟩ := List.mem_map.mp hflag
    rw [CompanyDeletion.updateIf_pk]
    by_cases hpk : old.pk = row.pk
    · refine List.ne_nil_of_mem (List.mem_map_of_mem (a := (row.pk, ended)) ?_)
      exact List.mem_filter.mpr ⟨List.mem_cons_self, decide_eq_true hpk.symm⟩
    · rw [CompanyDeletion.updateIf, if_neg hpk] at hcompleted
      exact endsOf_mark (h.flags old hold hcompleted)
  read r old hold hcompleted := endsOf_mark (h.read r old hold hcompleted)
  releasing := h.releasing
  released := h.released

theorem Dated.release (h : Dated s) {r : ρ} {row : CompanyDeletion}
    {left : List CompanyDeletion} (hphase : (s.runs r).phase = .releasing row left) :
    Dated { s with
      flags := s.flags.filter fun flag => decide (flag.pk ≠ row.pk)
      released := (row.companyId, s.endsOf row.pk) :: s.released } where
  flags flag hflag := h.flags flag (List.mem_filter.mp hflag).1
  read := h.read
  releasing := h.releasing
  released := by
    refine List.forall_mem_cons.mpr ⟨?_, h.released⟩
    refine h.read r row ?_ (h.releasing r row left hphase)
    rw [hphase]
    exact List.mem_cons_self

variable [DecidableEq ρ]

theorem Swept.setRun (h : Swept env s) {r : ρ} {run : SweepRun ι}
    (hpurge : ∀ row left purge, run.phase = .purging row left purge → Sees s.data purge) :
    Swept env { s with runs := Function.update s.runs r run } where
  issued := h.issued
  written := h.written
  models := h.models
  purges := by
    intro r' row left purge hphase
    by_cases hr : r' = r
    · subst hr
      simp only [Function.update_self] at hphase
      exact hpurge row left purge hphase
    · simp only [Function.update_of_ne hr] at hphase
      exact h.purges r' row left purge hphase
  sweptIssued := h.sweptIssued
  swept := h.swept
  younger := h.younger

theorem Swept.goOn (h : Swept env s) {r : ρ} {phase : SweepPhase ι}
    (hpurge : ∀ row left purge, phase ≠ .purging row left purge) :
    Swept env (s.setPhase r phase) :=
  h.setRun fun row left purge heq => absurd heq (hpurge row left purge)

theorem Swept.purgeStep (h : Swept env s) {r : ρ} {row : CompanyDeletion}
    {left : List CompanyDeletion} {phase : PurgePhase} {data : CompanyData}
    (hphase : (s.runs r).phase = .purging row left purge)
    (hchange : PurgeChange env purge.companyId s.data data purge.phase phase) :
    Swept env ({ s with data := data }.setPhase r
      (.purging row left { purge with phase := phase })) := by
  obtain ⟨hids, -, hsubset⟩ := hchange.rows_subset
  have hdata : Swept env { s with data := data } :=
    { issued := by
        intro old hold
        rw [hids]
        exact h.issued old (hsubset old hold)
      written := fun old hold => h.written old (hsubset old hold)
      models := fun old hold => h.models old (hsubset old hold)
      purges := by
        intro r' flag left' purge' hphase'
        refine (h.purges r' flag left' purge' hphase').of_subset (by simp [hids]) ?_
        exact fun old _ hold => hsubset old hold
      sweptIssued := by
        intro old hold
        rw [hids]
        exact h.sweptIssued old hold
      swept := fun old hold hmem => h.swept old hold (hsubset old hmem)
      younger := fun flag hflag ended hended old hold =>
        h.younger flag hflag ended hended old (hsubset old hold) }
  apply hdata.setRun
  intro flag left' purge' heq
  cases heq
  exact (h.purges r row left purge hphase).step h.models hchange

theorem Dated.setRun (h : Dated s) {r : ρ} {run : SweepRun ι}
    (hread : ∀ row ∈ run.phase.rows, row.completedAt ≠ none → s.endsOf row.pk ≠ [])
    (hrelease : ∀ row left, run.phase = .releasing row left → row.completedAt ≠ none) :
    Dated { s with runs := Function.update s.runs r run } where
  flags := h.flags
  read := by
    intro r' row hrow
    by_cases hr : r' = r
    · subst hr
      simp only [Function.update_self] at hrow
      exact hread row hrow
    · simp only [Function.update_of_ne hr] at hrow
      exact h.read r' row hrow
  releasing := by
    intro r' row left hphase
    by_cases hr : r' = r
    · subst hr
      simp only [Function.update_self] at hphase
      exact hrelease row left hphase
    · simp only [Function.update_of_ne hr] at hphase
      exact h.releasing r' row left hphase
  released := h.released

theorem Dated.goOn (h : Dated s) {r : ρ} {phase : SweepPhase ι}
    (hrows : ∀ row ∈ phase.rows, row ∈ (s.runs r).phase.rows)
    (hrelease : ∀ row left, phase ≠ .releasing row left) : Dated (s.setPhase r phase) :=
  h.setRun (fun row hrow => h.read r row (hrows row hrow))
    (fun row left heq => absurd heq (hrelease row left))

variable [DecidableEq ι] [DecidableEq υ]

theorem Swept.step (h : Swept env s) {a : DeletionAction ι ρ υ} (hbefore : SweptBefore s a)
    (hstep : deletionStep env s a = some s') : Swept env s' := by
  cases deletionChange_of_step hstep with
  | started r maxMicroseconds hidle => exact h.setRun (by simp)
  | ranThrough r hphase => exact h.goOn (by simp)
  | ranOut r row left hphase hlate => exact h.goOn (by simp)
  | foundExpired r row left hphase hintime hexpired => exact h.goOn (by simp)
  | foundFlagged r row left hphase hintime hkept =>
      apply h.setRun
      intro row' left' purge heq
      cases heq
      exact h.beginPurge row.companyId
  | purging r blocked row left purge data phase hphase hchange =>
      exact h.purgeStep hphase hchange
  | purged r row left purge hphase hended =>
      have hswept : Swept env { s with
          served := purge.covers ++ s.served, swept := purge.seen ++ s.swept } :=
        h.purged hphase hended
      split
      · exact hswept.goOn (by simp)
      · exact hswept.goOn (by simp)
  | failed r row left purge hphase => exact h.goOn (by simp)
  | marked r row left covers ended hphase =>
      have hgone : Swept env (s.setPhase r (.looping left)) := h.goOn (by simp)
      exact hgone.frame rfl rfl rfl rfl rfl rfl
  | released r row left hphase => exact (h.release (hbefore row left hphase)).goOn (by simp)
  | stopped r => exact h.goOn (by simp)
  | written id model companyId hscoped hother hfresh =>
      exact h.insertRow hfresh hscoped rfl hbefore
  | committedNew u id companyId key hupload hfresh =>
      have hinserted :
          Swept env (s.insertRow ⟨id, env.storageObject, companyId, some key, s.now⟩) :=
        h.insertRow hfresh env.files_scoped rfl (hbefore companyId key hupload)
      exact hinserted.frame rfl rfl rfl rfl rfl rfl
  | flaggedBefore | foundCompleted | flagged | reset | raised | savedNew | locked | overwrote
    | committed | aborted | abortedNew | waited =>
      -- rows and runs stay as they are
      exact h.frame rfl rfl rfl rfl rfl rfl

theorem Dated.step (h : Dated s) {a : DeletionAction ι ρ υ}
    (hstep : deletionStep env s a = some s') : Dated s' := by
  cases deletionChange_of_step hstep with
  | started r maxMicroseconds hidle => exact h.setRun h.flags (by simp)
  | ranThrough r hphase => exact h.goOn (by simp [SweepPhase.rows]) (by simp)
  | ranOut r row left hphase hlate => exact h.goOn (by simp [SweepPhase.rows]) (by simp)
  | foundExpired r row left hphase hintime hexpired =>
      have hrows := h.read r
      rw [hphase] at hrows
      refine h.setRun hrows fun row' left' heq => ?_
      cases heq
      intro hnone
      simp [CompanyDeletion.expired, hnone] at hexpired
  | foundFlagged r row left hphase hintime hkept =>
      exact h.goOn (by simp [hphase, SweepPhase.rows]) (by simp)
  | purging r blocked row left purge data phase hphase hchange =>
      have hgone : Dated (s.setPhase r (.purging row left { purge with phase := phase })) :=
        h.goOn (by simp [hphase, SweepPhase.rows]) (by simp)
      exact hgone.frame rfl rfl rfl hgone.flags
  | purged r row left purge hphase hended =>
      have hserved : Dated { s with
          served := purge.covers ++ s.served, swept := purge.seen ++ s.swept } :=
        h.frame rfl rfl rfl h.flags
      split
      · exact hserved.goOn (by simp [hphase, SweepPhase.rows]) (by simp)
      · exact hserved.goOn (by simp +contextual [hphase, SweepPhase.rows]) (by simp)
  | failed r row left purge hphase =>
      exact h.goOn (by simp +contextual [hphase, SweepPhase.rows]) (by simp)
  | marked r row left covers ended hphase =>
      exact (h.mark row (s.runs r).now ended).goOn
        (by simp +contextual [hphase, SweepPhase.rows]) (by simp)
  | released r row left hphase =>
      exact (h.release hphase).goOn (by simp +contextual [hphase, SweepPhase.rows]) (by simp)
  | stopped r => exact h.goOn (by simp [SweepPhase.rows]) (by simp)
  | flagged i companyId pk hidle hfresh hnone =>
      refine h.frame rfl rfl rfl (List.forall_mem_append.mpr ⟨h.flags, ?_⟩)
      exact List.forall_mem_singleton.mpr fun hcompleted => absurd rfl hcompleted
  | reset i pk companyId hcall =>
      refine h.frame rfl rfl rfl fun flag hflag hcompleted => ?_
      obtain ⟨old, hold, rfl⟩ := List.mem_map.mp hflag
      rw [CompanyDeletion.updateIf] at hcompleted ⊢
      split at hcompleted
      · exact absurd rfl hcompleted
      · next hpk =>
          rw [if_neg hpk]
          exact h.flags old hold hcompleted
  | flaggedBefore | foundCompleted | raised | written | savedNew | committedNew | locked
    | overwrote | committed | aborted | abortedNew | waited =>
      exact h.frame rfl rfl rfl h.flags

/--
In a run where every row written within the window after a purge that completed
a flag, or before, was there when a purge began that has ended by the release,
and where no row is written in the window after the release, no such row is left
of a company whose flag was released.
-/
theorem covered_of_run {now : Nat} {as : List (DeletionAction ι ρ υ)}
    (hswept : (companyDeletion env).Meets SweptBefore (.initial ι ρ υ now) as)
    (hrun : (companyDeletion env).run (.initial ι ρ υ now) as = some s) : Covered s := by
  have hdated : Dated s :=
    (companyDeletion env).invariant (fun hs hstep => hs.step hstep) hrun (dated_initial now)
  have hyounger : Swept env s :=
    Machine.invariant_of_meets (fun hs hbefore hstep => hs.step hbefore hstep) hswept hrun
      (swept_initial env now)
  intro flag hflag
  exact ⟨hdated.released flag hflag, hyounger.younger flag hflag⟩

/-! ## A window -/

def samplePurge : PurgeEnv where
  companyScopedModels := [0, 1]
  storageObject := 0
  below := fun _ => []
  blobHook := true
  files_scoped := List.mem_cons_self

abbrev SampleAction := DeletionAction Nat Nat Nat

def purgeRun (r : Nat) : List SampleAction :=
  [.start r (50 * second), .visit r, .purge r false, .purge r false, .purge r false,
    .purge r false, .purged r]

def firstPurge : List SampleAction := [.flag 0 7 1] ++ purgeRun 0 ++ [.mark 0]

def lastSweep (after : List SampleAction) : List SampleAction :=
  purgeRun 1 ++ after ++ [.start 2 (50 * second), .visit 2]

def earlyRow : List SampleAction :=
  firstPurge ++ [.wait (3000 * second)] ++
    (.write 10 1 7 :: .wait (590 * second) :: lastSweep [.wait (11 * second)])

theorem covered_of_run_earlyRow :
    ∃ s, (companyDeletion samplePurge).run (.initial Nat Nat Nat 0) (earlyRow ++ [.release 2]) =
      some s ∧ s.written.length = 1 ∧ Covered s := by
  have hfirst : ∀ a ∈ firstPurge ++ [.wait (3000 * second)],
      ∀ s : DeletionState Nat Nat Nat, SweptBefore s a := by
    simp [firstPurge, purgeRun, SweptBefore]
  have hlast : ∀ a ∈ .wait (590 * second) :: lastSweep [.wait (11 * second)],
      ∀ s : DeletionState Nat Nat Nat, SweptBefore s a := by
    simp [lastSweep, purgeRun, SweptBefore]
  have hmeets : (companyDeletion samplePurge).Meets SweptBefore (.initial Nat Nat Nat 0)
      (earlyRow ++ [.release 2]) := by
    refine Machine.meets_append rfl (Machine.meets_append rfl (Machine.meets_of_forall hfirst)
      ⟨?_, fun s₁ hwritten => ?_⟩) ⟨?_, fun _ _ => trivial⟩
    · intro flag hflag
      exact absurd hflag List.not_mem_nil
    · cases hwritten
      exact Machine.meets_of_forall hlast
    · intro row left hphase ended hended old hold hcompany hwindow
      have heq : old = ⟨10, 1, 7, none, 3000 * second⟩ := List.mem_singleton.mp hold
      rw [heq]
      exact List.mem_cons_self
  exact ⟨_, rfl, rfl, covered_of_run hmeets rfl⟩

def lateRow : List SampleAction :=
  firstPurge ++ [.wait (3590 * second)] ++
    lastSweep [.wait (5 * second), .write 10 1 7, .wait (6 * second)] ++ [.release 2]

def longPurge : List SampleAction :=
  [.flag 0 7 1, .start 0 (50 * second), .visit 0, .purge 0 false, .purge 0 false,
    .wait (600 * second), .purge 0 false, .purge 0 false, .purged 0, .mark 0,
    .wait (3001 * second), .start 1 (50 * second), .visit 1, .release 1,
    .wait (9 * second), .write 10 1 7]

/-- The age of a flag is counted from the start of the purge, and the release sweeps nothing. -/
theorem covered_false :
    (∃ s, (companyDeletion samplePurge).run (.initial Nat Nat Nat 0) lateRow = some s ∧
      ¬Covered s) ∧
    ∃ s, (companyDeletion samplePurge).run (.initial Nat Nat Nat 0) longPurge = some s ∧
      ¬Covered s := by
  refine ⟨⟨_, rfl, fun hcovered => ?_⟩, ⟨_, rfl, fun hcovered => ?_⟩⟩
  · have hlate := (hcovered (7, [0]) List.mem_cons_self).2 0 List.mem_cons_self
      ⟨10, 1, 7, none, 3595 * second⟩ List.mem_cons_self rfl
    exact absurd hlate (by decide)
  · have hlate := (hcovered (7, [600 * second]) List.mem_cons_self).2 (600 * second)
      List.mem_cons_self ⟨10, 1, 7, none, 3610 * second⟩ List.mem_cons_self rfl
    exact absurd hlate (by decide)

end Sweep

end StorageService.Results
