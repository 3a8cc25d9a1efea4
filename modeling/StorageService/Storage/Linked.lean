import StorageService.Foundation.Part
import StorageService.Storage.Effects
import StorageService.Storage.Shares

/-!
# Deletions beside share links

Share links hang on objects and go with them by cascade.  The deletions of
`services.py` are given here over the storage tables and the table of share links
together; what they do to the storage tables alone is as before.
-/

namespace StorageService.Storage

open StorageService.Foundation
open StorageService.Foundation.Action

structure LinkTables where
  storage : Database
  shareLinks : List ObjectShareLink

abbrev LinkSession := Session LinkTables Outside

abbrev LinkAct (α : Type) := Action Failure LinkTables Outside α

namespace Linked

def storageTables : Part LinkTables Database where
  get := LinkTables.storage
  put db storage := { db with storage := storage }
  get_put _ _ := rfl

def wholeOutside : Part Outside Outside where
  get := id
  put _ out := out
  get_put _ _ := rfl

def onStorage {α : Type} (x : Act α) : LinkAct α := onParts storageTables wholeOutside x

def storage (s : LinkSession) : World := ⟨s.db.storage, s.out⟩

/-! ## The operations -/

def deleteRow (id : UUID) (db : LinkTables) : LinkTables where
  storage := db.storage.deleteObject id
  shareLinks := db.shareLinks.filter fun link => decide (link.objectId ≠ id)

def deleteObject (env : Env) (obj : StorageObject) : LinkAct Unit := atomic do
  onStorage (reach .rowDelete)
  modifyDatabase (deleteRow obj.id)
  onStorage (deleteStorageKey obj.storageKey)
  onStorage (applyUsageDelta env obj.companyId obj.ownerId (-(obj.size : Int)))
  onStorage (reach .signal)

def deletePaths (env : Env) (bucket : Bucket) (principal : StoragePrincipal)
    (paths : List Text) : LinkAct (List Text) := atomic do
  let objs ← onStorage (pathsToDelete bucket principal paths)
  forEach (deleteObject env) objs
  pure (objs.map StorageObject.name)

def deleteChecked (env : Env) (bucket : Bucket) (principal : StoragePrincipal)
    (objs : List StorageObject) : LinkAct Unit := do
  onStorage (forEach (fun obj =>
    assertCanAccessPath principal bucket obj.name (some obj.id) .write) objs)
  forEach (deleteObject env) objs

def deleteUnderPrefix (env : Env) (bucket : Bucket) (folderPath : Text)
    (principal : StoragePrincipal) : LinkAct (List Text) := atomic do
  let db ← database
  let objs := objectsUnderPrefix db.storage bucket folderPath
  deleteChecked env bucket principal objs
  pure (objs.map StorageObject.name)

def emptyBucket (env : Env) (bucket : Bucket) (principal : StoragePrincipal) :
    LinkAct Unit := atomic do
  let db ← database
  deleteChecked env bucket principal
    (db.storage.objects.rows.filter fun o => decide (o.bucketId = bucket.id))

/-! ## Against the storage tables alone -/

variable {env : Env} {s s' : LinkSession}

theorem eq_of_storage (h : storage s' = storage s) (hlinks : s'.db.shareLinks = s.db.shareLinks) :
    s' = s := by
  obtain ⟨⟨storage', links'⟩, out'⟩ := s'
  obtain ⟨rfl, rfl⟩ := Session.mk.injEq .. ▸ h
  subst hlinks
  rfl

theorem runs_onStorage {α : Type} {x : Act α} {a : α} :
    (onStorage x).Runs s a s' ↔
      x.Runs (storage s) a (storage s') ∧ s'.db.shareLinks = s.db.shareLinks := by
  rw [onStorage, runs_onParts]
  constructor
  · rintro ⟨hrun, heq⟩
    exact ⟨hrun, by rw [heq]; rfl⟩
  · rintro ⟨hrun, hlinks⟩
    refine ⟨hrun, ?_⟩
    obtain ⟨⟨storage', links'⟩, out'⟩ := s'
    subst hlinks
    rfl

def withLinks (w : World) (links : List ObjectShareLink) : LinkSession := ⟨⟨w.db, links⟩, w.out⟩

@[simp] theorem storage_withLinks (w : World) (links : List ObjectShareLink) :
    storage (withLinks w links) = w := rfl

@[simp] theorem shareLinks_withLinks (w : World) (links : List ObjectShareLink) :
    (withLinks w links).db.shareLinks = links := rfl

theorem runs_deleteObject {obj : StorageObject} {u : Unit}
    (h : (deleteObject env obj).Runs s u s') :
    (Storage.deleteObject env obj).Runs (storage s) u (storage s') ∧
      s'.db.shareLinks = s.db.shareLinks.filter fun link => decide (link.objectId ≠ obj.id) := by
  simp only [deleteObject, runs_atomic, runs_bind, runs_onStorage, runs_modifyDatabase] at h
  obtain ⟨_, s₁, ⟨hrow, hlinks₁⟩, _, s₂, rfl, _, s₃, ⟨hkey, hlinks₃⟩, _, s₄, ⟨husage, hlinks₄⟩,
    hsignal, hlinks₅⟩ := h
  refine ⟨?_, ?_⟩
  · simp only [Storage.deleteObject, runs_atomic, runs_bind, runs_modifyDatabase]
    exact ⟨(), storage s₁, hrow, (), _, rfl, (), storage s₃, hkey, (), storage s₄, husage, hsignal⟩
  · rw [hlinks₅, hlinks₄, hlinks₃, deleteRow, hlinks₁]

theorem deleteObject_of_storage {obj : StorageObject} {w : World}
    (h : (Storage.deleteObject env obj).Runs (storage s) () w) :
    ∃ s', (deleteObject env obj).Runs s () s' ∧ storage s' = w := by
  simp only [Storage.deleteObject, runs_atomic, runs_bind, runs_modifyDatabase] at h
  obtain ⟨_, w₁, hrow, _, _, rfl, _, w₃, hkey, _, w₄, husage, hsignal⟩ := h
  let links := s.db.shareLinks.filter fun link => decide (link.objectId ≠ obj.id)
  refine ⟨withLinks w links, ?_, rfl⟩
  simp only [deleteObject, runs_atomic, runs_bind, runs_onStorage, runs_modifyDatabase]
  exact ⟨(), withLinks w₁ s.db.shareLinks, ⟨hrow, rfl⟩, (), _, rfl, (), withLinks w₃ links,
    ⟨hkey, rfl⟩, (), withLinks w₄ links, ⟨husage, rfl⟩, hsignal, rfl⟩

theorem forEach_deleteObject_of_storage {objs : List StorageObject} {w : World}
    (h : (forEach (Storage.deleteObject env) objs).Runs (storage s) () w) :
    ∃ s', (forEach (deleteObject env) objs).Runs s () s' ∧ storage s' = w := by
  induction objs generalizing s with
  | nil =>
      rw [runs_forEach_nil] at h
      exact ⟨s, runs_forEach_nil.mpr rfl, h.symm⟩
  | cons obj objs ih =>
      rw [runs_forEach_cons] at h
      obtain ⟨w₁, hfirst, hrest⟩ := h
      obtain ⟨s₁, hone, rfl⟩ := deleteObject_of_storage hfirst
      obtain ⟨s', hothers, hs'⟩ := ih hrest
      exact ⟨s', runs_forEach_cons.mpr ⟨s₁, hone, hothers⟩, hs'⟩

theorem runs_forEach_deleteObject {objs : List StorageObject} {u : Unit}
    (h : (forEach (deleteObject env) objs).Runs s u s') :
    (forEach (Storage.deleteObject env) objs).Runs (storage s) () (storage s') ∧
      ∀ link, link ∈ s'.db.shareLinks ↔
        link ∈ s.db.shareLinks ∧ ∀ obj ∈ objs, link.objectId ≠ obj.id := by
  induction objs generalizing s with
  | nil =>
      rw [runs_forEach_nil] at h
      rw [h]
      exact ⟨by simp, by simp⟩
  | cons obj objs ih =>
      rw [runs_forEach_cons] at h
      obtain ⟨s₁, hfirst, hrest⟩ := h
      obtain ⟨hfirst, hlinks⟩ := runs_deleteObject hfirst
      obtain ⟨hrest, hleft⟩ := ih hrest
      refine ⟨runs_forEach_cons.mpr ⟨_, hfirst, hrest⟩, fun link => ?_⟩
      rw [hleft, hlinks, List.mem_filter, decide_eq_true_eq, List.forall_mem_cons, and_assoc]

theorem runs_deleteChecked {bucket : Bucket} {principal : StoragePrincipal}
    {objs : List StorageObject} {u : Unit} :
    (deleteChecked env bucket principal objs).Runs s u s' ↔
      (∀ o ∈ objs, canAccessPath s.db.storage s.out.now principal bucket o.name (some o.id)
        .write = true) ∧ (forEach (deleteObject env) objs).Runs s () s' := by
  simp only [deleteChecked, runs_bind, runs_onStorage,
    runs_forEach_check fun _ _ _ _ => runs_assertCanAccessPath]
  constructor
  · rintro ⟨_, s₁, ⟨⟨hall, hsame⟩, hlinks⟩, hloop⟩
    rw [eq_of_storage hsame hlinks] at hloop
    exact ⟨hall, hloop⟩
  · rintro ⟨hall, hloop⟩
    exact ⟨(), s, ⟨⟨hall, rfl⟩, rfl⟩, hloop⟩

end Linked

end StorageService.Storage
