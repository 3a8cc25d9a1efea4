import StorageService.Storage.Models
import StorageService.Storage.Settings

/-!
# The files of a deleted company

`company_deletion.py`: the blobs of a batch one by one, then its rows, until the
query finds no row of the company.  Every query, every blob and every deletion of
rows may raise, with or without having had its effect.
-/

namespace StorageService.Storage

open StorageService.Foundation

def companyFileBatch : Nat := 500

inductive FileFault where
  | before
  | after
  deriving DecidableEq, Repr

structure FilesEnv where
  fault : Nat → Option FileFault
  scan : Nat → List StorageObject → List StorageObject
  scan_perm : ∀ n rows, (scan n rows).Perm rows

structure CompanyFiles where
  db : Database
  blobs : Blobs
  passed : Nat

def companyObjects (db : Database) (companyId : Nat) : List StorageObject :=
  db.objects.rows.filter fun o => decide (o.companyId = companyId)

def Database.deleteObjects (db : Database) (ids : List UUID) : Database :=
  ids.foldl Database.deleteObject db

namespace CompanyFiles

variable (env : FilesEnv)

def perform (f : CompanyFiles → CompanyFiles) (s : CompanyFiles) : Bool × CompanyFiles :=
  match env.fault s.passed with
  | none => (true, { f s with passed := s.passed + 1 })
  | some .before => (false, { s with passed := s.passed + 1 })
  | some .after => (false, { f s with passed := s.passed + 1 })

def eraseBlob (key : Text) (s : CompanyFiles) : CompanyFiles :=
  { s with blobs := s.blobs.erase key }

def deleteObjectRows (ids : List UUID) (s : CompanyFiles) : CompanyFiles :=
  { s with db := s.db.deleteObjects ids }

def deleteKeys : List Text → CompanyFiles → Bool × CompanyFiles
  | [], s => (true, s)
  | key :: keys, s =>
      match perform env (eraseBlob key) s with
      | (true, s') => deleteKeys keys s'
      | (false, s') => (false, s')

def nextFiles (companyId : Nat) (s : CompanyFiles) : List StorageObject :=
  (env.scan s.passed (companyObjects s.db companyId)).take companyFileBatch

end CompanyFiles

inductive BatchOutcome where
  | raised
  | nothing
  | deleted (count : Nat)
  deriving DecidableEq, Repr

namespace CompanyFiles

variable (env : FilesEnv) (companyId : Nat)

def deleteBatch (s : CompanyFiles) : BatchOutcome × CompanyFiles :=
  match perform env id s with
  | (false, s₁) => (.raised, s₁)
  | (true, s₁) =>
      let batch := nextFiles env companyId s
      if batch = [] then (.nothing, s₁)
      else
        match deleteKeys env (batch.map StorageObject.storageKey) s₁ with
        | (false, s₂) => (.raised, s₂)
        | (true, s₂) =>
            match perform env (deleteObjectRows (batch.map StorageObject.id)) s₂ with
            | (false, s₃) => (.raised, s₃)
            | (true, s₃) => (.deleted batch.length, s₃)

/-! ## What the operations do -/

variable {env companyId} {s s' s₁ : CompanyFiles} {f : CompanyFiles → CompanyFiles}

def Same (s s' : CompanyFiles) : Prop := s'.db = s.db ∧ s'.blobs = s.blobs

theorem perform_cases {returned : Bool} (h : perform env f s = (returned, s')) :
    (returned = false ∧ Same s s') ∨ Same (f s) s' := by
  rw [perform] at h
  split at h
  · cases h
    exact .inr ⟨rfl, rfl⟩
  · cases h
    exact .inl ⟨rfl, rfl, rfl⟩
  · cases h
    exact .inr ⟨rfl, rfl⟩

theorem perform_returned (h : perform env f s = (true, s')) : Same (f s) s' := by
  rcases perform_cases h with ⟨hfalse, -⟩ | hsame
  · contradiction
  · exact hsame

end CompanyFiles

/-! ## Rows that are deleted -/

theorem Database.rows_deleteObjects (db : Database) (ids : List UUID) :
    (db.deleteObjects ids).objects.rows = db.objects.rows.filter fun o => !ids.contains o.id := by
  rw [deleteObjects]
  induction ids generalizing db with
  | nil => simp
  | cons id ids ih =>
      rw [List.foldl_cons, ih]
      simp only [deleteObject, Table.rows_delete, List.filter_filter]
      refine List.filter_congr fun o _ => ?_
      rw [List.contains_cons, Bool.not_or, Bool.and_comm]
      rfl

theorem Database.grants_deleteObjects (db : Database) (ids : List UUID) :
    (db.deleteObjects ids).grants.rows =
      db.grants.rows.filter fun g => !g.resource.object?.any ids.contains := by
  rw [deleteObjects]
  induction ids generalizing db with
  | nil =>
      refine (List.filter_eq_self.mpr fun g _ => ?_).symm
      cases g.resource.object? <;> rfl
  | cons id ids ih =>
      rw [List.foldl_cons, ih]
      simp only [deleteObject, Table.rows_delete, List.filter_filter]
      refine List.filter_congr fun g _ => ?_
      cases g.resource.object? with
      | none => rfl
      | some other =>
          simp only [Option.any_some, List.contains_cons, Bool.not_or, Option.some.injEq]
          rw [Bool.and_comm]
          rfl

theorem Database.deleteObjects_others (db : Database) (ids : List UUID) :
    (db.deleteObjects ids).buckets = db.buckets ∧
      (db.deleteObjects ids).companyQuotas = db.companyQuotas ∧
      (db.deleteObjects ids).userQuotas = db.userQuotas := by
  rw [deleteObjects]
  induction ids generalizing db with
  | nil => exact ⟨rfl, rfl, rfl⟩
  | cons id ids ih => exact ih (db.deleteObject id)

theorem companyObjects_deleteObjects (db : Database) (companyId : Nat) (ids : List UUID) :
    companyObjects (db.deleteObjects ids) companyId =
      (companyObjects db companyId).filter fun o => !ids.contains o.id := by
  simp only [companyObjects, Database.rows_deleteObjects, List.filter_filter, Bool.and_comm]

namespace CompanyFiles

variable {env : FilesEnv} {companyId : Nat} {s s' : CompanyFiles}

theorem mem_nextFiles {o : StorageObject} (h : o ∈ nextFiles env companyId s) :
    o ∈ s.db.objects.rows ∧ o.companyId = companyId := by
  have hmem := (env.scan_perm s.passed _).mem_iff.mp (List.mem_of_mem_take h)
  rw [companyObjects, List.mem_filter, decide_eq_true_eq] at hmem
  exact hmem

theorem companyObjects_of_nextFiles (h : nextFiles env companyId s = []) :
    companyObjects s.db companyId = [] := by
  rw [nextFiles, List.take_eq_nil_iff] at h
  have hscan := h.resolve_left (by decide)
  have hperm := env.scan_perm s.passed (companyObjects s.db companyId)
  rw [hscan] at hperm
  exact hperm.nil_eq.symm

theorem filter_not_mem_take {α κ : Type} [BEq κ] [LawfulBEq κ] {f : α → κ} {l : List α}
    (h : (l.map f).Nodup) (n : Nat) :
    l.filter (fun a => !((l.take n).map f).contains (f a)) = l.drop n := by
  have hfront : (l.take n).filter (fun a => !((l.take n).map f).contains (f a)) = [] := by
    rw [List.filter_eq_nil_iff]
    intro a ha
    have hmem : f a ∈ (l.take n).map f := List.mem_map_of_mem ha
    simpa using hmem
  have hback : (l.drop n).filter (fun a => !((l.take n).map f).contains (f a)) = l.drop n := by
    rw [List.filter_eq_self]
    intro a ha
    rw [← List.take_append_drop n l, List.map_append, List.nodup_append] at h
    have hnot : f a ∉ (l.take n).map f := fun hmem =>
      h.2.2 (f a) hmem (f a) (List.mem_map_of_mem ha) rfl
    simpa using hnot
  calc l.filter (fun a => !((l.take n).map f).contains (f a))
      = (l.take n ++ l.drop n).filter (fun a => !((l.take n).map f).contains (f a)) := by
        rw [List.take_append_drop]
    _ = l.drop n := by rw [List.filter_append, hfront, hback, List.nil_append]

theorem length_deleteObjects_nextFiles :
    (companyObjects (s.db.deleteObjects ((nextFiles env companyId s).map StorageObject.id))
        companyId).length + (nextFiles env companyId s).length =
      (companyObjects s.db companyId).length := by
  have hperm := env.scan_perm s.passed (companyObjects s.db companyId)
  have hnodup : ((env.scan s.passed (companyObjects s.db companyId)).map
      StorageObject.id).Nodup := by
    have hsub : ((companyObjects s.db companyId).map StorageObject.id).Sublist
        (s.db.objects.rows.map StorageObject.id) := List.filter_sublist.map _
    exact ((hperm.map _).nodup_iff).mpr (hsub.nodup s.db.objectIds_nodup)
  rw [companyObjects_deleteObjects, ← (hperm.filter _).length_eq, nextFiles,
    filter_not_mem_take hnodup, Nat.add_comm, ← List.length_append, List.take_append_drop,
    hperm.length_eq]

/-! ## A round of the loop -/

structure Erases (keys : List Text) (s s' : CompanyFiles) : Prop where
  db : s'.db = s.db
  blobs : ∀ key, s'.blobs.lookup key = s.blobs.lookup key ∨
    key ∈ keys ∧ s'.blobs.lookup key = none

theorem erases_of_same (keys : List Text) (h : Same s s') : Erases keys s s' :=
  ⟨h.1, fun key => .inl (by rw [h.2])⟩

theorem erases_of_eraseBlob {key : Text} (h : Same (eraseBlob key s) s') :
    Erases [key] s s' := by
  refine ⟨h.1, fun other => ?_⟩
  rw [h.2, eraseBlob]
  by_cases hother : other = key
  · subst hother
    exact .inr ⟨List.mem_singleton_self other, AList.lookup_erase ..⟩
  · exact .inl (AList.lookup_erase_ne hother)

theorem Erases.trans {s₁ : CompanyFiles} {keys keys' : List Text} (h : Erases keys s s₁)
    (h' : Erases keys' s₁ s') : Erases (keys ++ keys') s s' := by
  refine ⟨h'.db.trans h.db, fun key => ?_⟩
  rw [List.mem_append]
  rcases h'.blobs key with hsame | ⟨hmem, hnone⟩
  · rw [hsame]
    exact (h.blobs key).imp_right fun hgone => ⟨.inl hgone.1, hgone.2⟩
  · exact .inr ⟨.inr hmem, hnone⟩

theorem deleteKeys_erases {keys : List Text} {returned : Bool}
    (h : deleteKeys env keys s = (returned, s')) : Erases keys s s' := by
  induction keys generalizing s with
  | nil =>
      cases h
      exact erases_of_same [] ⟨rfl, rfl⟩
  | cons key keys ih =>
      rw [deleteKeys] at h
      split at h
      · rename_i s₁ hperform
        exact (erases_of_eraseBlob (perform_returned hperform)).trans (ih h)
      · rename_i s₁ hperform
        cases h
        rcases perform_cases hperform with ⟨-, hsame⟩ | herased
        · exact erases_of_same _ hsame
        · have hgone := erases_of_eraseBlob herased
          refine ⟨hgone.db, fun other => (hgone.blobs other).imp_right fun h => ⟨?_, h.2⟩⟩
          rw [List.mem_singleton.mp h.1]
          exact List.mem_cons_self

theorem lookup_of_deleteKeys {keys : List Text} (h : deleteKeys env keys s = (true, s')) :
    ∀ key ∈ keys, s'.blobs.lookup key = none := by
  induction keys generalizing s with
  | nil => simp
  | cons key keys ih =>
      rw [deleteKeys] at h
      split at h
      · rename_i s₁ hperform
        rw [List.forall_mem_cons]
        refine ⟨?_, ih h⟩
        have hgone : s₁.blobs.lookup key = none := by
          rw [(perform_returned hperform).2]
          exact AList.lookup_erase ..
        rcases (deleteKeys_erases h).blobs key with hsame | ⟨-, hnone⟩
        · rw [hsame, hgone]
        · exact hnone
      · cases h

structure RoundDeleted (env : FilesEnv) (companyId : Nat) (s s' : CompanyFiles) : Prop where
  rows : s'.db = s.db.deleteObjects ((nextFiles env companyId s).map StorageObject.id)
  blobs : ∀ key, s'.blobs.lookup key = s.blobs.lookup key ∨
    key ∈ (nextFiles env companyId s).map StorageObject.storageKey ∧ s'.blobs.lookup key = none
  erased : ∀ o ∈ nextFiles env companyId s, s'.blobs.lookup o.storageKey = none

theorem deleteBatch_cases {outcome : BatchOutcome}
    (h : deleteBatch env companyId s = (outcome, s')) :
    (∀ n, outcome ≠ .deleted n) ∧
        Erases ((nextFiles env companyId s).map StorageObject.storageKey) s s' ∧
        (outcome = .nothing → nextFiles env companyId s = []) ∨
      (∀ n, outcome = .deleted n → n = (nextFiles env companyId s).length ∧ 0 < n) ∧
        outcome ≠ .nothing ∧ RoundDeleted env companyId s s' := by
  rw [deleteBatch] at h
  split at h
  · rename_i s₁ hquery
    cases h
    refine .inl ⟨by simp, ?_, by simp⟩
    rcases perform_cases hquery with ⟨-, hsame⟩ | hsame <;> exact erases_of_same _ hsame
  · rename_i s₁ hquery
    have hs₁ : Same s s₁ := perform_returned hquery
    dsimp only at h
    split at h
    · rename_i hbatch
      cases h
      exact .inl ⟨by simp, erases_of_same _ hs₁, fun _ => hbatch⟩
    · rename_i hbatch
      split at h
      · rename_i s₂ hkeys
        cases h
        have herases := deleteKeys_erases hkeys
        have hall := (erases_of_same [] hs₁).trans herases
        exact .inl ⟨by simp, by simpa using hall, by simp⟩
      · rename_i s₂ hkeys
        have herases := (erases_of_same [] hs₁).trans (deleteKeys_erases hkeys)
        rw [List.nil_append] at herases
        have hgone := lookup_of_deleteKeys hkeys
        have hdeleted {s₃ : CompanyFiles} (hs₃ : Same (deleteObjectRows
            ((nextFiles env companyId s).map StorageObject.id) s₂) s₃) :
            RoundDeleted env companyId s s₃ := by
          refine ⟨?_, ?_, fun o ho => ?_⟩
          · rw [hs₃.1, deleteObjectRows, herases.db]
          · rw [hs₃.2]
            exact herases.blobs
          · rw [hs₃.2]
            exact hgone _ (List.mem_map_of_mem ho)
        split at h
        · rename_i s₃ hrows
          cases h
          rcases perform_cases hrows with ⟨-, hsame⟩ | hsame
          · refine .inl ⟨by simp, ⟨hsame.1.trans herases.db, fun key => ?_⟩, by simp⟩
            rw [hsame.2]
            exact herases.blobs key
          · exact .inr ⟨by simp, by simp, hdeleted hsame⟩
        · rename_i s₃ hrows
          cases h
          refine .inr ⟨fun n hn => ?_, by simp, hdeleted (perform_returned hrows)⟩
          cases hn
          exact ⟨rfl, List.length_pos_iff.mpr hbatch⟩

theorem length_of_deleteBatch {n : Nat} (h : deleteBatch env companyId s = (.deleted n, s')) :
    (companyObjects s'.db companyId).length + n = (companyObjects s.db companyId).length ∧
      0 < n := by
  rcases deleteBatch_cases h with ⟨hnot, -⟩ | ⟨hcount, -, hdeleted⟩
  · exact absurd rfl (hnot n)
  · obtain ⟨hlength, hpos⟩ := hcount n rfl
    rw [hdeleted.rows, hlength]
    exact ⟨length_deleteObjects_nextFiles, hlength ▸ hpos⟩

/-! ## `delete_company_files` -/

structure FilesResult where
  returned : Option Nat
  state : CompanyFiles

def deleteCompanyFiles (env : FilesEnv) (companyId : Nat) (s : CompanyFiles) (deleted : Nat) :
    FilesResult :=
  match _hround : deleteBatch env companyId s with
  | (.raised, s') => ⟨none, s'⟩
  | (.nothing, s') => ⟨some deleted, s'⟩
  | (.deleted n, s') => deleteCompanyFiles env companyId s' (deleted + n)
termination_by (companyObjects s.db companyId).length
decreasing_by
  have hlength := length_of_deleteBatch _hround
  omega

end CompanyFiles

end StorageService.Storage
