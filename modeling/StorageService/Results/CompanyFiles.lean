import StorageService.Results.Decisions
import StorageService.Storage.CompanyFiles

/-!
# Deleting the files of a company resumes

A row goes only after its blob.  So whatever raises, and in whichever run, the
blobs of the company that are left still have their rows, and a later run finds
them by these rows.
-/

namespace StorageService.Results

open StorageService.Foundation
open StorageService.Storage
open StorageService.Storage.CompanyFiles

section CompanyFiles

variable {companyId : Nat} {s s' s₁ : CompanyFiles} {env : FilesEnv}

/-- What one run, or several, may have done: rows of the company went, their blobs first. -/
structure Resumable (companyId : Nat) (s s' : CompanyFiles) : Prop where
  rows : s'.db.objects.rows.Sublist s.db.objects.rows
  others : ∀ o ∈ s.db.objects.rows, o.companyId ≠ companyId → o ∈ s'.db.objects.rows
  /-- A blob that still exists has its row. -/
  listed : ∀ o ∈ s.db.objects.rows, s'.blobs.lookup o.storageKey ≠ none →
    o ∈ s'.db.objects.rows
  /-- Blobs are as they were, or they are gone and belonged to a row of the company. -/
  blobs : ∀ key, s'.blobs.lookup key = s.blobs.lookup key ∨ s'.blobs.lookup key = none ∧
    ∃ o ∈ s.db.objects.rows, o.companyId = companyId ∧ o.storageKey = key
  /-- Only grants on objects of the company go. -/
  grants : ∀ g ∈ s.db.grants.rows, (∀ o ∈ s.db.objects.rows, o.companyId = companyId →
    g.resource.object? ≠ some o.id) → g ∈ s'.db.grants.rows
  buckets : s'.db.buckets = s.db.buckets
  companyQuotas : s'.db.companyQuotas = s.db.companyQuotas
  userQuotas : s'.db.userQuotas = s.db.userQuotas

theorem resumable_refl (companyId : Nat) (s : CompanyFiles) : Resumable companyId s s :=
  ⟨.refl _, fun _ ho _ => ho, fun _ ho _ => ho, fun _ => .inl rfl, fun _ hg _ => hg, rfl, rfl,
    rfl⟩

theorem Resumable.trans (h : Resumable companyId s s₁) (h' : Resumable companyId s₁ s') :
    Resumable companyId s s' where
  rows := h'.rows.trans h.rows
  others o ho hother := h'.others o (h.others o ho hother) hother
  listed o ho hblob := by
    refine h'.listed o (h.listed o ho fun hnone => hblob ?_) hblob
    rcases h'.blobs o.storageKey with hsame | ⟨hgone, -⟩
    · rw [hsame, hnone]
    · exact hgone
  blobs key := by
    rcases h'.blobs key with hsame | ⟨hgone, o, ho, hcompany, hkey⟩
    · rw [hsame]
      exact h.blobs key
    · exact .inr ⟨hgone, o, h.rows.subset ho, hcompany, hkey⟩
  grants g hg hnot := h'.grants g (h.grants g hg hnot) fun o ho => hnot o (h.rows.subset ho)
  buckets := h'.buckets.trans h.buckets
  companyQuotas := h'.companyQuotas.trans h.companyQuotas
  userQuotas := h'.userQuotas.trans h.userQuotas

/-! ## One round -/

theorem gone_of_nextFiles {key : Text} (h : s'.blobs.lookup key = s.blobs.lookup key ∨
    key ∈ (nextFiles env companyId s).map StorageObject.storageKey ∧
      s'.blobs.lookup key = none) :
    s'.blobs.lookup key = s.blobs.lookup key ∨ s'.blobs.lookup key = none ∧
      ∃ o ∈ s.db.objects.rows, o.companyId = companyId ∧ o.storageKey = key := by
  refine h.imp_right fun hgone => ⟨hgone.2, ?_⟩
  obtain ⟨o, ho, hkey⟩ := List.mem_map.mp hgone.1
  obtain ⟨hrow, hcompany⟩ := mem_nextFiles ho
  exact ⟨o, hrow, hcompany, hkey⟩

theorem resumable_of_erases (h : Erases ((nextFiles env companyId s).map StorageObject.storageKey)
    s s') : Resumable companyId s s' := by
  have hblobs := fun key => gone_of_nextFiles (h.blobs key)
  rcases s' with ⟨db, blobs, passed⟩
  obtain rfl : db = s.db := h.db
  exact ⟨.refl _, fun _ ho _ => ho, fun _ ho _ => ho, hblobs, fun _ hg _ => hg, rfl, rfl, rfl⟩

theorem resumable_of_roundDeleted (h : RoundDeleted env companyId s s') :
    Resumable companyId s s' := by
  obtain ⟨hbuckets, hcompanies, husers⟩ := s.db.deleteObjects_others
    ((nextFiles env companyId s).map StorageObject.id)
  have hrows : s'.db.objects.rows = s.db.objects.rows.filter fun o =>
      !((nextFiles env companyId s).map StorageObject.id).contains o.id := by
    rw [h.rows, Database.rows_deleteObjects]
  -- a row whose key is one of the batch is itself in the batch
  have hbatch : ∀ o ∈ s.db.objects.rows, o.id ∈ (nextFiles env companyId s).map StorageObject.id →
      o ∈ nextFiles env companyId s := by
    intro o ho hid
    obtain ⟨o', ho', hsame⟩ := List.mem_map.mp hid
    rwa [← Database.object_eq_of_id (mem_nextFiles ho').1 ho hsame]
  have hkept : ∀ o ∈ s.db.objects.rows, o ∉ nextFiles env companyId s →
      o ∈ s'.db.objects.rows := by
    intro o ho hnot
    have hid : o.id ∉ (nextFiles env companyId s).map StorageObject.id := fun hid =>
      hnot (hbatch o ho hid)
    rw [hrows, List.mem_filter]
    exact ⟨ho, by simpa using hid⟩
  refine ⟨?_, fun o ho hother => ?_, fun o ho hblob => ?_,
    fun key => gone_of_nextFiles (h.blobs key), fun g hg hnot => ?_, by rw [h.rows, hbuckets],
    by rw [h.rows, hcompanies], by rw [h.rows, husers]⟩
  · rw [hrows]
    exact List.filter_sublist
  · exact hkept o ho fun hmem => hother (mem_nextFiles hmem).2
  · exact hkept o ho fun hmem => hblob (h.erased o hmem)
  · rw [h.rows, Database.grants_deleteObjects, List.mem_filter]
    refine ⟨hg, ?_⟩
    cases hobject : g.resource.object? with
    | none => rfl
    | some id =>
        have hid : id ∉ (nextFiles env companyId s).map StorageObject.id := by
          intro hid
          obtain ⟨o, ho, rfl⟩ := List.mem_map.mp hid
          obtain ⟨hrow, hcompany⟩ := mem_nextFiles ho
          exact hnot o hrow hcompany hobject
        simpa using hid

theorem resumable_of_deleteBatch {outcome : BatchOutcome}
    (h : deleteBatch env companyId s = (outcome, s')) : Resumable companyId s s' := by
  rcases deleteBatch_cases h with ⟨-, herases, -⟩ | ⟨-, -, hdeleted⟩
  · exact resumable_of_erases herases
  · exact resumable_of_roundDeleted hdeleted

/-! ## One run -/

theorem resumable_run (deleted : Nat) :
    Resumable companyId s (deleteCompanyFiles env companyId s deleted).state := by
  fun_induction deleteCompanyFiles env companyId s deleted with
  | case1 s deleted s' hround => exact resumable_of_deleteBatch hround
  | case2 s deleted s' hround => exact resumable_of_deleteBatch hround
  | case3 s deleted n s' hround ih => exact (resumable_of_deleteBatch hround).trans ih

theorem returned_run (deleted n : Nat)
    (h : (deleteCompanyFiles env companyId s deleted).returned = some n) :
    companyObjects (deleteCompanyFiles env companyId s deleted).state.db companyId = [] ∧
      n = deleted + (companyObjects s.db companyId).length := by
  fun_induction deleteCompanyFiles env companyId s deleted with
  | case1 s deleted s' hround => contradiction
  | case2 s deleted s' hround =>
      rcases deleteBatch_cases hround with ⟨-, herases, hnothing⟩ | ⟨-, hnot, -⟩
      · have hempty := companyObjects_of_nextFiles (hnothing rfl)
        cases h
        rw [herases.db, hempty]
        exact ⟨rfl, rfl⟩
      · exact absurd rfl hnot
  | case3 s deleted m s' hround ih =>
      obtain ⟨hempty, hcount⟩ := ih h
      have hlength := length_of_deleteBatch hround
      exact ⟨hempty, by omega⟩

section Faultless

variable (hfault : ∀ n, env.fault n = none)
include hfault

theorem perform_faultless (f : CompanyFiles → CompanyFiles) (s : CompanyFiles) :
    perform env f s = (true, { f s with passed := s.passed + 1 }) := by
  rw [perform, hfault]

theorem deleteKeys_faultless (keys : List Text) (s : CompanyFiles) :
    (deleteKeys env keys s).1 = true := by
  induction keys generalizing s with
  | nil => rfl
  | cons key keys ih =>
      rw [deleteKeys, perform_faultless hfault]
      exact ih _

theorem deleteBatch_faultless (companyId : Nat) (s : CompanyFiles) :
    (deleteBatch env companyId s).1 ≠ .raised := by
  rw [deleteBatch, perform_faultless hfault]
  dsimp only
  split
  · simp
  · have hkeys := deleteKeys_faultless hfault
      ((nextFiles env companyId s).map StorageObject.storageKey)
      { id s with passed := s.passed + 1 }
    split
    · rename_i s₂ hraised
      rw [hraised] at hkeys
      contradiction
    · rw [perform_faultless hfault]
      simp

theorem returned_faultless (deleted : Nat) :
    (deleteCompanyFiles env companyId s deleted).returned ≠ none := by
  fun_induction deleteCompanyFiles env companyId s deleted with
  | case1 s deleted s' hround =>
      have hnot := deleteBatch_faultless hfault companyId s
      rw [hround] at hnot
      contradiction
  | case2 s deleted s' hround => simp
  | case3 s deleted n s' hround ih => exact ih

end Faultless

/-! ## Running it again -/

def reruns (companyId : Nat) (envs : List FilesEnv) (s : CompanyFiles) : CompanyFiles :=
  envs.foldl (fun s env => (deleteCompanyFiles env companyId s 0).state) s

theorem resumable_reruns (envs : List FilesEnv) :
    Resumable companyId s (reruns companyId envs s) := by
  rw [reruns]
  induction envs generalizing s with
  | nil => exact resumable_refl companyId s
  | cons env envs ih => exact (resumable_run 0).trans ih

def DistinctKeys (db : Database) : Prop :=
  ∀ o ∈ db.objects.rows, ∀ p ∈ db.objects.rows, o.storageKey = p.storageKey → o = p

/--
After any runs of `delete_company_files`, wherever they raised: every blob that
still exists has its row, and rows and blobs of other companies are as they were.
A run after them that returns leaves no row and no blob of the company, and one
in which nothing raises returns.
-/
theorem deleteCompanyFiles_resumes (companyId : Nat) (s : CompanyFiles)
    (hkeys : DistinctKeys s.db) (envs : List FilesEnv) :
    Resumable companyId s (reruns companyId envs s) ∧
      (∀ o ∈ s.db.objects.rows, o.companyId ≠ companyId →
        (reruns companyId envs s).blobs.lookup o.storageKey = s.blobs.lookup o.storageKey) ∧
      ∀ env, ((∀ n, env.fault n = none) →
          (deleteCompanyFiles env companyId (reruns companyId envs s) 0).returned ≠ none) ∧
        ∀ n, (deleteCompanyFiles env companyId (reruns companyId envs s) 0).returned = some n →
          n = (companyObjects (reruns companyId envs s).db companyId).length ∧
            companyObjects (deleteCompanyFiles env companyId (reruns companyId envs s) 0).state.db
              companyId = [] ∧
            ∀ o ∈ s.db.objects.rows, o.companyId = companyId →
              (deleteCompanyFiles env companyId (reruns companyId envs s) 0).state.blobs.lookup
                o.storageKey = none := by
  have hruns : Resumable companyId s (reruns companyId envs s) := resumable_reruns envs
  refine ⟨hruns, fun o ho hother => ?_, fun env => ⟨fun hfault => returned_faultless hfault 0, ?_⟩⟩
  · rcases hruns.blobs o.storageKey with hsame | ⟨-, p, hp, hcompany, hkey⟩
    · exact hsame
    · rw [hkeys p hp o ho hkey] at hcompany
      exact absurd hcompany hother
  · intro n hn
    obtain ⟨hempty, hcount⟩ := returned_run 0 n hn
    refine ⟨by rw [hcount, Nat.zero_add], hempty, fun o ho hcompany => ?_⟩
    by_contra hblob
    have hmem : o ∈ companyObjects (deleteCompanyFiles env companyId
        (reruns companyId envs s) 0).state.db companyId := by
      rw [companyObjects, List.mem_filter, decide_eq_true_eq]
      exact ⟨(hruns.trans (resumable_run 0)).listed o ho hblob, hcompany⟩
    rw [hempty] at hmem
    contradiction

end CompanyFiles

def faultyRun (faults : List Nat) : FilesEnv where
  fault n := if faults.contains n then some .after else none
  scan _ rows := rows
  scan_perm _ rows := .refl rows

theorem deleteCompanyFiles_resumes_privateFolder :
    companyObjects (deleteCompanyFiles (faultyRun []) 1
      (reruns 1 [faultyRun [1]] ⟨privateFolder.db, privateFolder.out.blobs, 0⟩) 0).state.db 1 =
        [] := by
  have hkeys : DistinctKeys privateFolder.db := by
    unfold DistinctKeys
    decide +kernel
  obtain ⟨-, -, hagain⟩ := deleteCompanyFiles_resumes 1
    ⟨privateFolder.db, privateFolder.out.blobs, 0⟩ hkeys [faultyRun [1]]
  obtain ⟨hreturns, hreturned⟩ := hagain (faultyRun [])
  obtain ⟨n, hn⟩ := Option.ne_none_iff_exists'.mp (hreturns fun n => rfl)
  exact (hreturned n hn).2.1

end StorageService.Results
