import StorageService.Results.Sweep

/-!
# Files of a deleted company

The hook deletes the blobs of a company and then the rows, and what it leaves
the second pass takes for rows like any other.  Where no upload comes in
between, every row of a file goes after its blob.
-/

namespace StorageService.Results

open StorageService.Foundation
open StorageService.Actions

section Orphans

variable {ι ρ υ : Type} {env : PurgeEnv} {s s' : DeletionState ι ρ υ}
  {data data' : CompanyData} {companyId : Nat} {phase phase' : PurgePhase}

def TakesFiles (env : PurgeEnv) (model : Nat) : Prop :=
  env.storageObject = model ∨ env.storageObject ∈ env.below model

def FilesBehind (env : PurgeEnv) (data : CompanyData) (companyId : Nat) : PurgePhase → Prop
  | .looking | .purged => True
  | .deletingBlobs batch left =>
      ∀ e ∈ batch, e.1 ∈ data.ids ∧ e.2 ∈ data.keys ∧
        (∀ row ∈ data.rows, row.id = e.1 → row.storageKey = some e.2) ∧
        (e ∉ left → e.2 ∉ data.blobs)
  | .deletingRows left stuck _ =>
      (∃ model ∈ left ++ stuck, TakesFiles env model) →
        ∀ row ∈ data.rows, row.isFile env companyId = false

structure Filed (env : PurgeEnv) (data : CompanyData) : Prop where
  issued : ∀ row ∈ data.rows, row.id ∈ data.ids
  unique : ∀ row ∈ data.rows, ∀ other ∈ data.rows, row.id = other.id → row = other
  keyed : ∀ row ∈ data.rows, row.model = env.storageObject →
    ∃ key ∈ data.keys, row.storageKey = some key
  others : ∀ row ∈ data.rows, row.model ≠ env.storageObject → row.storageKey = none

theorem Filed.of_subset (h : Filed env data) (hids : data'.ids = data.ids)
    (hkeys : ∀ key ∈ data.keys, key ∈ data'.keys) (hrows : ∀ row ∈ data'.rows, row ∈ data.rows) :
    Filed env data' where
  issued := by
    intro row hrow
    rw [hids]
    exact h.issued row (hrows row hrow)
  unique row hrow other hother := h.unique row (hrows row hrow) other (hrows other hother)
  keyed := by
    intro row hrow hmodel
    obtain ⟨key, hkey, hstorage⟩ := h.keyed row (hrows row hrow) hmodel
    exact ⟨key, hkeys key hkey, hstorage⟩
  others row hrow := h.others row (hrows row hrow)

theorem FilesBehind.of_subset (h : FilesBehind env data companyId phase)
    (hids : data'.ids = data.ids) (hkeys : ∀ key ∈ data.keys, key ∈ data'.keys)
    (hrows : ∀ row ∈ data'.rows, row ∈ data.rows)
    (hblobs : ∀ batch left, phase = .deletingBlobs batch left → ∀ e ∈ batch, e ∉ left →
      e.2 ∈ data'.blobs → e.2 ∈ data.blobs) : FilesBehind env data' companyId phase := by
  cases phase with
  | looking | purged => trivial
  | deletingBlobs batch left =>
      intro e he
      obtain ⟨hid, hkey, hrow, hblob⟩ := h e he
      refine ⟨hids ▸ hid, hkeys _ hkey, fun row hmem => hrow row (hrows row hmem), ?_⟩
      exact fun hleft hmem => hblob hleft (hblobs batch left rfl e he hleft hmem)
  | deletingRows left stuck again =>
      intro htakes row hmem
      exact h htakes row (hrows row hmem)

theorem orphaned_of_deleteRows {gone : CompanyRow → Bool}
    (hdelete : data.deleteRows gone = some data') (horphaned : data.orphaned = [])
    (hgone : ∀ row ∈ data.rows, gone row = true → ∀ key, row.storageKey = some key →
      key ∉ data.blobs) : data'.orphaned = [] := by
  obtain ⟨-, -, -, -, heq⟩ := CompanyData.deleteRows_eq_some hdelete
  rw [heq, horphaned, List.append_nil, List.filter_eq_nil_iff]
  intro key hkey
  obtain ⟨row, hrow, hstorage⟩ := List.mem_filterMap.mp hkey
  obtain ⟨hmem, htrue⟩ := List.mem_filter.mp hrow
  simpa using hgone row hmem htrue key hstorage

theorem mem_nextBatch {e : Nat × Text} (he : e ∈ nextBatch env data companyId) :
    ∃ row ∈ data.rows, row.model = env.storageObject ∧ e = (row.id, row.storageKey.getD []) := by
  obtain ⟨row, hrow, rfl⟩ := List.mem_map.mp he
  obtain ⟨hmem, hfile⟩ := List.mem_filter.mp (List.mem_of_mem_take hrow)
  simp only [CompanyRow.isFile, Bool.and_eq_true, decide_eq_true_eq] at hfile
  exact ⟨row, hmem, hfile.1, rfl⟩

theorem isFile_of_nextBatch_nil (h : nextBatch env data companyId = []) :
    ∀ row ∈ data.rows, row.isFile env companyId = false := by
  intro row hrow
  have htake : (data.rows.filter (CompanyRow.isFile env companyId)).take purgeBatch = [] := by
    simpa [nextBatch] using h
  have hfilter : data.rows.filter (CompanyRow.isFile env companyId) = [] := by
    rcases List.take_eq_nil_iff.mp htake with hzero | hnil
    · contradiction
    · exact hnil
  simpa using List.filter_eq_nil_iff.mp hfilter row hrow

/-- One step of a purge deletes no row of a file whose blob is there. -/
theorem filesBehind_of_step (hfiled : Filed env data)
    (hbehind : FilesBehind env data companyId phase)
    (hchange : PurgeChange env companyId data data' phase phase') :
    FilesBehind env data' companyId phase' ∧ (data.orphaned = [] → data'.orphaned = []) := by
  obtain ⟨hids, hkeys, hrows⟩ := hchange.rows_subset
  cases hchange with
  | looked e batch hbatch hdata =>
      subst hdata
      refine ⟨fun e' he' => ?_, id⟩
      obtain ⟨row, hrow, hmodel, rfl⟩ := mem_nextBatch (hbatch ▸ he')
      obtain ⟨key, hkey, hstorage⟩ := hfiled.keyed row hrow hmodel
      refine ⟨hfiled.issued row hrow, by simpa [hstorage] using hkey, ?_, fun h => absurd he' h⟩
      intro other hother hid
      rw [hfiled.unique other hother row hrow hid, hstorage]
      rfl
  | foundNothing hbatch hdata =>
      subst hdata
      exact ⟨fun _ => isFile_of_nextBatch_nil hbatch, id⟩
  | deletedBlob batch e left hdata =>
      subst hdata
      refine ⟨fun e' he' => ?_, id⟩
      obtain ⟨hid, hkey, hrow, hblob⟩ := hbehind e' he'
      refine ⟨hid, hkey, hrow, fun hleft hmem => ?_⟩
      obtain ⟨hmem, hne⟩ := List.mem_filter.mp hmem
      by_cases heq : e' = e
      · simp [heq] at hne
      · exact hblob (fun h => (List.mem_cons.mp h).elim heq hleft) hmem
  | deletedBatch batch hdelete =>
      refine ⟨trivial, fun horphaned => orphaned_of_deleteRows hdelete horphaned ?_⟩
      intro row hrow hgone key hstorage
      -- the blob of every row of the batch has been deleted
      obtain ⟨e, he, hid⟩ := List.mem_map.mp (of_decide_eq_true hgone)
      obtain ⟨-, -, hkey, hblob⟩ := hbehind e he
      rw [hkey row hrow hid.symm] at hstorage
      cases hstorage
      exact hblob List.not_mem_nil
  | deletedModel model left stuck again hdelete =>
      refine ⟨?_, fun horphaned => ?_⟩
      · rintro ⟨other, hother, htakes⟩ row hrow
        exact hbehind ⟨other, List.mem_cons_of_mem _ hother, htakes⟩ row (hrows row hrow)
      · refine orphaned_of_deleteRows hdelete horphaned ?_
        intro row hrow hgone key hstorage
        simp only [CompanyRow.goesWith, Bool.and_eq_true, decide_eq_true_eq] at hgone
        have hmodel : row.model = env.storageObject := by
          by_contra hother
          rw [hfiled.others row hrow hother] at hstorage
          contradiction
        -- such a row would be a file, and there is none
        have hfile : row.isFile env companyId = true := by
          simp [CompanyRow.isFile, hmodel, hgone.1]
        have htakes : TakesFiles env model := by
          rw [TakesFiles, ← hmodel]
          exact hgone.2
        rw [hbehind ⟨model, List.mem_cons_self, htakes⟩ row hrow] at hfile
        contradiction
  | stuck model left stuck again hdata =>
      subst hdata
      refine ⟨?_, id⟩
      rintro ⟨other, hother, htakes⟩
      exact hbehind ⟨other, by simp at hother ⊢; tauto, htakes⟩
  | again stuck again hdata =>
      subst hdata
      refine ⟨?_, id⟩
      rintro ⟨other, hother, htakes⟩
      exact hbehind ⟨other, by simpa using hother, htakes⟩
  | ended again hdata =>
      subst hdata
      exact ⟨trivial, id⟩

/-! ## Runs beside uploads -/

def NoOrphans (s : DeletionState ι ρ υ) : Prop := s.data.orphaned = []

structure Filing (env : PurgeEnv) (s : DeletionState ι ρ υ) : Prop where
  filed : Filed env s.data
  creating : ∀ u companyId key, s.uploads u = .creating companyId key → key ∈ s.data.keys
  purges : ∀ r row left purge, (s.runs r).phase = .purging row left purge →
    FilesBehind env s.data purge.companyId purge.phase
  orphans : NoOrphans s

/-- No upload brings a file, or the blob of one, behind the back of a purge. -/
def UploadsAside (env : PurgeEnv) (s : DeletionState ι ρ υ) : DeletionAction ι ρ υ → Prop
  | .commitNew u _ =>
      ∀ companyId key, s.uploads u = .creating companyId key →
        ∀ r row left purge, (s.runs r).phase = .purging row left purge →
          purge.companyId = companyId → ∀ models stuck again,
            purge.phase = .deletingRows models stuck again →
              ∀ model ∈ models ++ stuck, ¬TakesFiles env model
  | .overwrite u =>
      ∀ id key, s.uploads u = .overwriting id key →
        ∀ r row left purge, (s.runs r).phase = .purging row left purge →
          ∀ batch files, purge.phase = .deletingBlobs batch files →
            ∀ e ∈ batch, e.2 = key → e ∈ files
  | _ => True

theorem filing_initial (env : PurgeEnv) (now : Nat) :
    Filing env (.initial ι ρ υ now) where
  filed :=
    { issued := fun _ h => absurd h List.not_mem_nil
      unique := fun _ h => absurd h List.not_mem_nil
      keyed := fun _ h => absurd h List.not_mem_nil
      others := fun _ h => absurd h List.not_mem_nil }
  creating := by
    intro u companyId key h
    cases h
  purges := by
    intro r row left purge h
    cases h
  orphans := rfl

theorem Filing.frame (h : Filing env s) (hdata : s'.data = s.data) (hruns : s'.runs = s.runs)
    (huploads : s'.uploads = s.uploads) : Filing env s' where
  filed := by
    rw [hdata]
    exact h.filed
  creating := by
    rw [huploads, hdata]
    exact h.creating
  purges := by
    rw [hruns, hdata]
    exact h.purges
  orphans := by
    rw [NoOrphans, hdata]
    exact h.orphans

theorem Filing.setData (h : Filing env s) (hrows : data.rows = s.data.rows)
    (hids : data.ids = s.data.ids) (hkeys : ∀ key ∈ s.data.keys, key ∈ data.keys)
    (horphaned : data.orphaned = s.data.orphaned)
    (hblobs : ∀ r row left purge, (s.runs r).phase = .purging row left purge →
      ∀ batch files, purge.phase = .deletingBlobs batch files → ∀ e ∈ batch, e ∉ files →
        e.2 ∈ data.blobs → e.2 ∈ s.data.blobs) : Filing env { s with data := data } where
  filed := h.filed.of_subset hids hkeys (by simp [hrows])
  creating u companyId key hu := hkeys key (h.creating u companyId key hu)
  purges r row left purge hphase :=
    (h.purges r row left purge hphase).of_subset hids hkeys (by simp [hrows])
      (hblobs r row left purge hphase)
  orphans := horphaned.trans h.orphans

theorem Filing.insertRow (h : Filing env s) {row : CompanyRow} (hfresh : row.id ∉ s.data.ids)
    (hkeyed : row.model = env.storageObject →
      ∃ key ∈ s.data.keys, row.storageKey = some key)
    (hother : row.model ≠ env.storageObject → row.storageKey = none)
    (haside : row.model = env.storageObject → ∀ r flag left purge,
      (s.runs r).phase = .purging flag left purge → purge.companyId = row.companyId →
        ∀ models stuck again, purge.phase = .deletingRows models stuck again →
          ∀ model ∈ models ++ stuck, ¬TakesFiles env model) :
    Filing env (s.insertRow row) where
  filed :=
    { issued := List.forall_mem_append.mpr
        ⟨fun old hold => List.mem_cons_of_mem _ (h.filed.issued old hold),
          List.forall_mem_singleton.mpr List.mem_cons_self⟩
      unique := eq_of_key_append h.filed.unique fun a ha hid =>
        hfresh (hid ▸ h.filed.issued a ha)
      keyed := List.forall_mem_append.mpr
        ⟨h.filed.keyed, List.forall_mem_singleton.mpr hkeyed⟩
      others := List.forall_mem_append.mpr
        ⟨h.filed.others, List.forall_mem_singleton.mpr hother⟩ }
  creating := h.creating
  purges := by
    intro r flag left purge hphase
    have hbehind := h.purges r flag left purge hphase
    cases hpurge : purge.phase with
    | looking | purged => trivial
    | deletingBlobs batch files =>
        rw [hpurge] at hbehind
        intro e he
        obtain ⟨hid, hkey, hrow, hblob⟩ := hbehind e he
        refine ⟨List.mem_cons_of_mem _ hid, hkey, fun old hold heq => ?_, hblob⟩
        rcases List.mem_append.mp hold with hold | hold
        · exact hrow old hold heq
        · rw [List.mem_singleton.mp hold] at heq
          exact absurd (heq ▸ hid) hfresh
    | deletingRows models stuck again =>
        rw [hpurge] at hbehind
        rintro ⟨model, hmodel, htakes⟩ old hold
        rcases List.mem_append.mp hold with hold | hold
        · exact hbehind ⟨model, hmodel, htakes⟩ old hold
        · rw [List.mem_singleton.mp hold]
          by_contra hfile
          simp only [CompanyRow.isFile, Bool.not_eq_false, Bool.and_eq_true,
            decide_eq_true_eq] at hfile
          exact haside hfile.1 r flag left purge hphase hfile.2.symm models stuck again hpurge
            model hmodel htakes
  orphans := h.orphans

theorem Filing.setLocked (h : Filing env s) (locked : List Nat) :
    Filing env { s with data := { s.data with locked := locked } } :=
  h.setData rfl rfl (fun _ hkey => hkey) rfl fun _ _ _ _ _ _ _ _ _ _ _ hmem => hmem

section Uploads

variable [DecidableEq υ]

theorem Filing.setUpload (h : Filing env s) {u : υ} {upload : FileUpload}
    (hcreating : ∀ companyId key, upload = .creating companyId key → key ∈ s.data.keys) :
    Filing env (s.setUpload u upload) where
  filed := h.filed
  creating := by
    intro u' companyId key hu
    by_cases hsame : u' = u
    · subst hsame
      simp only [DeletionState.setUpload, Function.update_self] at hu
      exact hcreating companyId key hu
    · simp only [DeletionState.setUpload, Function.update_of_ne hsame] at hu
      exact h.creating u' companyId key hu
  purges := h.purges
  orphans := h.orphans

theorem Filing.endUpload (h : Filing env s) {u : υ} : Filing env (s.setUpload u .ended) :=
  h.setUpload fun _ _ heq => by contradiction

end Uploads

variable [DecidableEq ρ]

theorem Filing.setRun (h : Filing env s) {r : ρ} {run : SweepRun ι}
    (hpurge : ∀ row left purge, run.phase = .purging row left purge →
      FilesBehind env s.data purge.companyId purge.phase) :
    Filing env { s with runs := Function.update s.runs r run } where
  filed := h.filed
  creating := h.creating
  purges := by
    intro r' row left purge hphase
    by_cases hr : r' = r
    · subst hr
      simp only [Function.update_self] at hphase
      exact hpurge row left purge hphase
    · simp only [Function.update_of_ne hr] at hphase
      exact h.purges r' row left purge hphase
  orphans := h.orphans

theorem Filing.goOn (h : Filing env s) {r : ρ} {phase : SweepPhase ι}
    (hpurge : ∀ row left purge, phase ≠ .purging row left purge) :
    Filing env (s.setPhase r phase) :=
  h.setRun fun row left purge heq => absurd heq (hpurge row left purge)

theorem Filing.purgeStep (h : Filing env s) {r : ρ} {row : CompanyDeletion}
    {left : List CompanyDeletion} {purge : Purge ι} {phase : PurgePhase} {data : CompanyData}
    (hphase : (s.runs r).phase = .purging row left purge)
    (hchange : PurgeChange env purge.companyId s.data data purge.phase phase) :
    Filing env ({ s with data := data }.setPhase r
      (.purging row left { purge with phase := phase })) := by
  obtain ⟨hids, hkeys, hrows⟩ := hchange.rows_subset
  obtain ⟨hbehind, horphans⟩ :=
    filesBehind_of_step h.filed (h.purges r row left purge hphase) hchange
  have hsame : ∀ key ∈ s.data.keys, key ∈ data.keys := by
    rw [hkeys]
    exact fun _ hkey => hkey
  have hdata : Filing env { s with data := data } :=
    { filed := h.filed.of_subset hids hsame hrows
      creating := fun u companyId key hu => hsame key (h.creating u companyId key hu)
      purges := fun r' row' left' purge' hphase' =>
        (h.purges r' row' left' purge' hphase').of_subset hids hsame hrows
          fun _ _ _ _ _ _ => hchange.blobs_subset _
      orphans := horphans h.orphans }
  refine hdata.setRun fun row' left' purge' heq => ?_
  cases heq
  exact hbehind

variable [DecidableEq ι] [DecidableEq υ]

theorem Filing.step (hhook : env.blobHook = true) (h : Filing env s)
    {a : DeletionAction ι ρ υ} (haside : UploadsAside env s a)
    (hstep : deletionStep env s a = some s') : Filing env s' := by
  cases deletionChange_of_step hstep with
  | started r maxMicroseconds hidle => exact h.setRun (by simp)
  | ranThrough r hphase => exact h.goOn (by simp)
  | ranOut r row left hphase hlate => exact h.goOn (by simp)
  | foundExpired r row left hphase hintime hexpired => exact h.goOn (by simp)
  | foundFlagged r row left hphase hintime hkept =>
      refine h.setRun fun row' left' purge heq => ?_
      cases heq
      simp only [DeletionState.beginPurge, if_pos hhook]
      trivial
  | purging r blocked row left purge data phase hphase hchange =>
      exact h.purgeStep hphase hchange
  | purged r row left purge hphase hended =>
      have hserved : Filing env { s with
          served := purge.covers ++ s.served, swept := purge.seen ++ s.swept } :=
        h.frame rfl rfl rfl
      split
      · exact hserved.goOn (by simp)
      · exact hserved.goOn (by simp)
  | failed r row left purge hphase => exact h.goOn (by simp)
  | marked r row left covers hphase =>
      have hgone : Filing env (s.setPhase r (.looping left)) := h.goOn (by simp)
      exact hgone.frame rfl rfl rfl
  | released r row left hphase =>
      have hgone : Filing env (s.setPhase r (.looping left)) := h.goOn (by simp)
      exact hgone.frame rfl rfl rfl
  | stopped r => exact h.goOn (by simp)
  | written id model companyId hscoped hother hfresh =>
      exact h.insertRow hfresh (fun heq => absurd heq hother) (fun _ => rfl)
        fun heq => absurd heq hother
  | savedNew u companyId key hidle hfresh =>
      have hsaved : Filing env { s with data := s.data.saveBlob key } := by
        refine h.setData rfl rfl (fun _ => List.mem_cons_of_mem _) rfl ?_
        intro r row left purge hphase batch files hpurge e he hleft hmem
        have hbehind := h.purges r row left purge hphase
        rw [hpurge] at hbehind
        refine (List.mem_cons.mp hmem).resolve_left fun heq => ?_
        exact hfresh (heq ▸ (hbehind e he).2.1)
      refine hsaved.setUpload fun companyId' key' heq => ?_
      cases heq
      exact List.mem_cons_self
  | committedNew u id companyId key hupload hfresh =>
      have hkey := h.creating u companyId key hupload
      exact (h.insertRow hfresh (fun _ => ⟨key, hkey, rfl⟩) (fun hne => absurd rfl hne)
        fun _ => haside companyId key hupload).endUpload
  | locked u row key hidle hrow hkey hfree => exact (h.setLocked _).setUpload (by simp)
  | overwrote u id key hupload =>
      refine h.setData rfl rfl (fun _ => List.mem_cons_of_mem _) rfl ?_
      intro r row left purge hphase batch files hpurge e he hleft hmem
      refine (List.mem_cons.mp hmem).resolve_left fun heq => hleft ?_
      exact haside id key hupload r row left purge hphase batch files hpurge e he heq
  | committed u id key hupload => exact (h.setLocked _).endUpload
  | aborted u id key hupload => exact (h.setLocked _).endUpload
  | abortedNew u companyId key hupload => exact h.endUpload
  | flaggedBefore | foundCompleted | flagged | reset | raised | waited => exact h.frame rfl rfl rfl

/--
With the hook set, and in a run where no upload brings a file behind the back
of a purge, every row of a file that a purge deletes goes after its blob.
-/
theorem noOrphans_of_run (hhook : env.blobHook = true) {now : Nat}
    {as : List (DeletionAction ι ρ υ)}
    (haside : (companyDeletion env).Meets (UploadsAside env) (.initial ι ρ υ now) as)
    (hrun : (companyDeletion env).run (.initial ι ρ υ now) as = some s) : NoOrphans s :=
  (Machine.invariant_of_meets (fun hs hP hstep => hs.step hhook hP hstep) haside hrun
    (filing_initial env now)).orphans

/-! ## An upload beside a purge -/

def uploadedBefore : List SampleAction :=
  [.saveNew 0 7 ['k']] ++ ([.commitNew 0 10] ++ ([.flag 0 7 1, .start 0 (50 * second), .visit 0,
    .purge 0 false, .purge 0 false, .purge 0 false, .purge 0 false, .purge 0 false,
    .purge 0 false, .purge 0 false, .purged 0]))

theorem noOrphans_of_run_uploadedBefore :
    ∃ s, (companyDeletion samplePurge).run (.initial Nat Nat Nat 0) uploadedBefore = some s ∧
      s.data.keys = [['k']] ∧ s.data.rows = [] ∧ NoOrphans s := by
  have hmeets : (companyDeletion samplePurge).Meets (UploadsAside samplePurge)
      (.initial Nat Nat Nat 0) uploadedBefore := by
    refine Machine.meets_append rfl (Machine.meets_of_forall ?_) ?_
    · simp [UploadsAside]
    refine Machine.meets_append rfl ⟨?_, fun _ _ => trivial⟩ (Machine.meets_of_forall ?_)
    · intro companyId key hu r row left purge hphase
      cases hphase
    · simp [UploadsAside]
  exact ⟨_, rfl, rfl, rfl, noOrphans_of_run rfl hmeets rfl⟩

def uploadedBehind : List SampleAction :=
  [.flag 0 7 1, .saveNew 0 7 ['k'], .start 0 (50 * second), .visit 0, .purge 0 false,
    .commitNew 0 10, .purge 0 false]

theorem noOrphans_false :
    ∃ s, (companyDeletion samplePurge).run (.initial Nat Nat Nat 0) uploadedBehind = some s ∧
      ¬NoOrphans s := by
  refine ⟨_, rfl, fun hnone => ?_⟩
  exact List.cons_ne_nil ['k'] [] hnone

end Orphans

end StorageService.Results
