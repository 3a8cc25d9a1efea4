import StorageService.Results.Listings
import StorageService.Storage.Charges

/-!
# The two deletions of a folder

`delete_under_prefix` checks all objects below a folder before it deletes the
first; the WebDAV handler checks each when its turn comes and leaves alone what
is protected.
-/

namespace StorageService.Results

open StorageService.Foundation
open StorageService.Foundation.Action
open StorageService.Storage
open StorageService.Webdav

section FolderDeletion

variable {env : Env} {display : Display} {s s' s₁ : World}
variable {principal : StoragePrincipal} {bucket : Bucket} {folder : Text}

/-- Both deletions of a folder end alike, and `delete_under_prefix` does all of it or nothing. -/
structure DeletionsAgree (env : Env) (display : Display) (s s₁ : World)
    (principal : StoragePrincipal) (path : Text) (bucket : Bucket) (folder : Text) : Prop where
  accepted : (∃ s', (delete env display principal path).Runs s .noContent s') ↔
    ∃ names s', (deleteUnderPrefix env bucket folder principal).Runs s₁ names s'
  same : (delete env display principal path s).2 =
    (deleteUnderPrefix env bucket folder principal s₁).2
  emptied : ∀ names s', (deleteUnderPrefix env bucket folder principal).Runs s₁ names s' →
    ∀ o ∈ s'.db.objects.rows, o.bucketId = bucket.id → ¬prefixFilter folder <+: o.name
  refused : ∀ s', (deleteUnderPrefix env bucket folder principal).Fails s₁ s' →
    s'.db = s₁.db

def Writable (db : Database) (now : Time) (principal : StoragePrincipal) (bucket : Bucket)
    (o : StorageObject) : Prop :=
  canAccessPath db now principal bucket o.name (some o.id) .write = true

instance (db : Database) (now : Time) (principal : StoragePrincipal) (bucket : Bucket)
    (o : StorageObject) : Decidable (Writable db now principal bucket o) :=
  inferInstanceAs (Decidable (_ = true))

/-- Each of `objs` is writable once those before it are gone, and their grants with them. -/
def WritableInTurn (now : Time) (principal : StoragePrincipal) (bucket : Bucket) :
    Database → List StorageObject → Prop
  | _, [] => True
  | db, o :: objs =>
      Writable db now principal bucket o ∧
        WritableInTurn now principal bucket (db.deleteObject o.id) objs

instance (now : Time) (principal : StoragePrincipal) (bucket : Bucket) :
    (db : Database) → (objs : List StorageObject) →
      Decidable (WritableInTurn now principal bucket db objs)
  | _, [] => inferInstanceAs (Decidable True)
  | db, o :: objs =>
      have := instDecidableWritableInTurn now principal bucket (db.deleteObject o.id) objs
      inferInstanceAs (Decidable (_ ∧ _))

/-! ## One round of the loop -/

theorem writable_congr {db db' : Database} (hobjects : db'.objects = db.objects)
    (hgrants : db'.grants = db.grants) (now : Time) (o : StorageObject) :
    Writable db' now principal bucket o ↔ Writable db now principal bucket o := by
  rw [Writable, Writable, canAccessPath, canAccessPath, evaluateAccess, evaluateAccess,
    matchingGrants_congr hobjects hgrants]

theorem writableInTurn_congr {db db' : Database} (hobjects : db'.objects = db.objects)
    (hgrants : db'.grants = db.grants) (now : Time) (objs : List StorageObject) :
    WritableInTurn now principal bucket db' objs ↔
      WritableInTurn now principal bucket db objs := by
  induction objs generalizing db db' with
  | nil => rfl
  | cons o objs ih =>
      refine and_congr (writable_congr hobjects hgrants now o) (ih ?_ ?_)
      · simp only [Database.deleteObject, hobjects]
      · simp only [Database.deleteObject, hgrants]

def afterItem (env : Env) (principal : StoragePrincipal) (bucket : Bucket) (s : World)
    (o : StorageObject) : World :=
  if Writable s.db s.out.now principal bucket o then without env s o else s

theorem afterItem_fault (o : StorageObject) :
    (afterItem env principal bucket s o).out.fault = s.out.fault := by
  unfold afterItem
  split <;> rfl

theorem runs_deleteIfWritable {o : StorageObject} {u : Unit} (hfault : s.out.fault = none) :
    (deleteIfWritable env principal bucket o).Runs s u s' ↔
      s' = afterItem env principal bucket s o := by
  simp only [deleteIfWritable, runs_bind, runs_database, runs_outside, afterItem, Writable]
  by_cases hwritable :
      canAccessPath s.db s.out.now principal bucket o.name (some o.id) .write = true
  · simp [hwritable, runs_deleteObject_without hfault]
  · simp [hwritable]

theorem runs_forEach_deleteIfWritable {objs : List StorageObject} {u : Unit}
    (hfault : s.out.fault = none) :
    (forEach (deleteIfWritable env principal bucket) objs).Runs s u s' ↔
      s' = objs.foldl (afterItem env principal bucket) s := by
  induction objs generalizing s with
  | nil => simp
  | cons o objs ih =>
      rw [runs_forEach_cons, List.foldl_cons]
      simp only [runs_deleteIfWritable hfault, exists_eq_left]
      exact ih ((afterItem_fault o).trans hfault)

/-! ## The whole loop -/

theorem mem_without {obj o : StorageObject} :
    o ∈ (without env s obj).db.objects.rows ↔ o ∈ s.db.objects.rows ∧ o.id ≠ obj.id := by
  simp [without, refunded, Database.deleteObject]

theorem mem_afterItem {obj o : StorageObject} (ho : o ∈ s.db.objects.rows) (hne : o.id ≠ obj.id) :
    o ∈ (afterItem env principal bucket s obj).db.objects.rows := by
  unfold afterItem
  split
  · exact mem_without.mpr ⟨ho, hne⟩
  · exact ho

theorem mem_foldl_afterItem {o : StorageObject} {objs : List StorageObject}
    (ho : o ∈ s.db.objects.rows) (hnot : ∀ obj ∈ objs, o.id ≠ obj.id) :
    o ∈ (objs.foldl (afterItem env principal bucket) s).db.objects.rows := by
  induction objs generalizing s with
  | nil => exact ho
  | cons obj objs ih =>
      rw [List.forall_mem_cons] at hnot
      exact ih (mem_afterItem ho hnot.1) hnot.2

theorem writableInTurn_without {o : StorageObject} {objs : List StorageObject} :
    WritableInTurn (without env s o).out.now principal bucket (without env s o).db objs ↔
      WritableInTurn s.out.now principal bucket (s.db.deleteObject o.id) objs := by
  apply writableInTurn_congr
  · rfl
  · rfl

theorem foldl_afterItem_of_writable {objs : List StorageObject}
    (h : WritableInTurn s.out.now principal bucket s.db objs) :
    objs.foldl (afterItem env principal bucket) s = objs.foldl (without env) s := by
  induction objs generalizing s with
  | nil => rfl
  | cons o objs ih =>
      have hstep : afterItem env principal bucket s o = without env s o := if_pos h.1
      rw [List.foldl_cons, List.foldl_cons, hstep]
      exact ih (writableInTurn_without.mpr h.2)

/-- If none of them is left, each was writable in its turn. -/
theorem writableInTurn_of_gone (env : Env) {objs : List StorageObject}
    (hstored : ∀ o ∈ objs, o ∈ s.db.objects.rows)
    (hids : (objs.map StorageObject.id).Nodup)
    (hgone : ∀ o ∈ objs, o ∉ (objs.foldl (afterItem env principal bucket) s).db.objects.rows) :
    WritableInTurn s.out.now principal bucket s.db objs := by
  induction objs generalizing s with
  | nil => trivial
  | cons o objs ih =>
      rw [List.map_cons, List.nodup_cons] at hids
      have hothers : ∀ obj ∈ objs, obj.id ≠ o.id := fun obj hobj heq =>
        hids.1 (heq ▸ List.mem_map_of_mem hobj)
      rw [List.forall_mem_cons] at hstored hgone
      by_cases hwritable : Writable s.db s.out.now principal bucket o
      · have hstep : afterItem env principal bucket s o = without env s o := if_pos hwritable
        rw [List.foldl_cons, hstep] at hgone
        have hrest := ih (s := without env s o)
          (fun obj hobj => mem_without.mpr ⟨hstored.2 obj hobj, hothers obj hobj⟩) hids.2 hgone.2
        exact ⟨hwritable, writableInTurn_without.mp hrest⟩
      · have hstep : afterItem env principal bucket s o = s := if_neg hwritable
        rw [List.foldl_cons, hstep] at hgone
        exact absurd (mem_foldl_afterItem hstored.1 fun obj hobj => (hothers obj hobj).symm)
          hgone.1

/-! ## Both deletions -/

theorem ensureCompanyBucket_fault {companyId : Nat} {b : Bucket}
    (h : (ensureCompanyBucket env companyId).Runs s b s') (hfault : s.out.fault = none) :
    s'.out.fault = none := by
  simp only [ensureCompanyBucket, runs_bind, runs_database] at h
  obtain ⟨_, _, ⟨rfl, rfl⟩, h⟩ := h
  split at h
  · simp only [reach, runs_bind, runs_drawUuid, runs_execute, runs_reachOr, runs_pure] at h
    obtain ⟨_, _, ⟨-, rfl⟩, _, _, ⟨out, _, hwrite, -, rfl⟩, _, _, ⟨out', hsignal, rfl⟩, -, rfl⟩ := h
    obtain rfl := eq_of_visit (by exact hfault) hwrite
    obtain rfl := eq_of_visit (by exact hfault) hsignal
    exact hfault
  · split at h
    · simp only [runs_bind, runs_execute, runs_pure] at h
      obtain ⟨_, _, ⟨out, _, hwrite, -, rfl⟩, -, rfl⟩ := h
      obtain rfl := eq_of_visit (by exact hfault) hwrite
      exact hfault
    · rw [runs_pure] at h
      rw [h.2]
      exact hfault

theorem getAccessibleBucket_fault {name : Text} {required : Permission}
    (h : (getAccessibleBucket env principal name required).Runs s bucket s')
    (hfault : s.out.fault = none) : s'.out.fault = none := by
  simp only [getAccessibleBucket, requireCompanyId, runs_bind, runs_ofOption, runs_database,
    runs_assertCanAccessBucket, runs_pure] at h
  obtain ⟨_, _, ⟨-, rfl⟩, _, _, hensure, _, _, ⟨-, rfl⟩, _, _, ⟨-, rfl⟩, _, _, ⟨-, rfl⟩, -,
    rfl⟩ := h
  exact ensureCompanyBucket_fault hensure hfault

theorem runs_deleteUnderPrefix_iff (hfault : s.out.fault = none) {names : List Text} :
    (deleteUnderPrefix env bucket folder principal).Runs s names s' ↔
      (∀ o ∈ objectsUnderPrefix s.db bucket folder, Writable s.db s.out.now principal bucket o) ∧
        names = (objectsUnderPrefix s.db bucket folder).map StorageObject.name ∧
        s' = (objectsUnderPrefix s.db bucket folder).foldl (without env) s := by
  simp only [deleteUnderPrefix, runs_atomic, runs_bind, runs_database,
    Deletion.runs_deleteChecked, runs_pure]
  constructor
  · rintro ⟨_, _, ⟨rfl, rfl⟩, _, _, ⟨hall, hloop⟩, rfl, rfl⟩
    exact ⟨hall, rfl, (runs_forEach_deleteObject_without hfault).mp hloop⟩
  · rintro ⟨hall, rfl, rfl⟩
    exact ⟨_, s, ⟨rfl, rfl⟩, (), _,
      ⟨hall, (runs_forEach_deleteObject_without hfault).mpr rfl⟩, rfl, rfl⟩

theorem fails_deleteUnderPrefix_iff (hfault : s.out.fault = none) :
    (deleteUnderPrefix env bucket folder principal).Fails s s' ↔
      (¬∀ o ∈ objectsUnderPrefix s.db bucket folder,
        Writable s.db s.out.now principal bucket o) ∧ s' = s := by
  have hnever (objs : List StorageObject) (s₁ : World) :
      ¬(forEach (deleteObject env) objs).Fails s s₁ := by
    rintro ⟨e, he⟩
    have hrun : (forEach (deleteObject env) objs).Runs s () (objs.foldl (without env) s) :=
      (runs_forEach_deleteObject_without hfault).mpr rfl
    rw [Runs, he] at hrun
    cases hrun
  simp only [deleteUnderPrefix, fails_atomic, fails_bind, fails_database, runs_database,
    Deletion.fails_deleteChecked, and_false, or_false, fails_pure, false_or, exists_false]
  constructor
  · rintro ⟨_, ⟨_, _, ⟨rfl, rfl⟩, ⟨hnot, rfl⟩ | ⟨-, hloop⟩⟩, rfl⟩
    · exact ⟨hnot, rfl⟩
    · exact absurd hloop (hnever _ _)
  · rintro ⟨hnot, rfl⟩
    exact ⟨s', ⟨_, s', ⟨rfl, rfl⟩, .inl ⟨hnot, rfl⟩⟩, rfl⟩

theorem orderedObjects_perm (bucket : Bucket) (display : Display) (db : Database)
    (hfolder : Canonical folder) :
    (orderedObjects display db bucket (folder.rdropWhile isSlash ++ ['/'])).Perm
      (objectsUnderPrefix db bucket folder) := by
  rw [rstrip_slash hfolder]
  exact List.perm_insertionSort _ _

theorem runs_delete_iff {path bucketName : Text} {response : DavResponse}
    (hpath : parsePath env path = (bucketName, folder)) (hname : bucketName ≠ [])
    (hfolder : Canonical folder)
    (hbucket : (getAccessibleBucket env principal bucketName .write).Runs s bucket s₁)
    (hfault : s₁.out.fault = none) (hnone : s₁.db.objectNamed bucket.id folder = none)
    (hstored : objectsUnderPrefix s₁.db bucket folder ≠ []) :
    (delete env display principal path).Runs s response s' ↔
      response = .noContent ∧
        s' = (orderedObjects display s₁.db bucket (folder.rdropWhile isSlash ++ ['/'])).foldl
          (afterItem env principal bucket) s₁ := by
  have hcompany := (getAccessibleBucket_resolved hbucket).company
  have hrequire : (requireCompanyId principal).Runs s bucket.companyId s := by
    simp [requireCompanyId, hcompany]
  have hsafe : (ofExcept (safeObjectPath folder) : Act Text).Runs s₁ folder s₁ :=
    runs_ofExcept.mpr ⟨hfolder, rfl⟩
  have hsome : orderedObjects display s₁.db bucket (folder.rdropWhile isSlash ++ ['/']) ≠ [] := by
    intro hnil
    have hperm := orderedObjects_perm bucket display s₁.db hfolder
    rw [hnil] at hperm
    exact hstored hperm.nil_eq.symm
  have hboth : ¬(bucketName = [] ∨ folder = []) := fun h => h.elim hname hfolder.ne_nil
  rw [delete, runs_bind_of_runs hrequire, hpath]
  simp only [if_neg hboth]
  rw [runs_bind_of_runs hbucket, runs_bind_of_runs hsafe, deletePath]
  simp only [runs_bind, runs_database, runs_outside, exists_eq_left, and_assoc, exists_and_left,
    hnone, if_neg hsome, runs_pure, runs_forEach_deleteIfWritable hfault, exists_unit]

theorem gone_of_allRemoved {objs : List StorageObject} (h : AllRemoved s objs s')
    {o : StorageObject} (ho : o ∈ objs) : o ∉ s'.db.objects.rows :=
  fun hkept => ((h.objects o).mp hkept).2 o ho rfl

def sharedFolder : World :=
  play (sampleEnv false)
    [.companyBucket 1, .upload (sampleUpload ['b', '/', 'x'] [97] 1),
      .upload (sampleUpload ['b', '/', 'y'] [98] 2)] .initial

end FolderDeletion

end StorageService.Results
