import StorageService.Storage.Charges
import StorageService.Storage.Linked

/-!
# Bulk deletions

Deleting a list of paths, a folder or a whole bucket is all or nothing: either
every row is as before, or just the objects that were asked for are gone, all of
which the caller could write.  The exception is a folder on a database whose
prefix query finds more than what lies below it.
-/

namespace StorageService.Results

open StorageService.Foundation
open StorageService.Foundation.Action
open StorageService.Storage

section BulkDeletion

inductive BulkTarget where
  | paths (raws : List Text)
  | underPrefix (folderPath : Text)
  | wholeBucket

namespace BulkTarget

def Describes (bucket : Bucket) (o : StorageObject) : BulkTarget → Prop
  | paths raws => o.bucketId = bucket.id ∧ ∃ raw ∈ raws, safeObjectPath raw = .ok o.name
  | underPrefix folderPath => o.bucketId = bucket.id ∧ prefixFilter folderPath <+: o.name
  | wholeBucket => o.bucketId = bucket.id

def Targets (target : BulkTarget) (db : Database) (bucket : Bucket) (o : StorageObject) : Prop :=
  o ∈ db.objects.rows ∧ target.Describes bucket o

def run (env : Env) (bucket : Bucket) (principal : StoragePrincipal) :
    BulkTarget → LinkAct (Option (List Text))
  | paths raws => do
      let names ← Linked.deletePaths env bucket principal raws
      pure (some names)
  | underPrefix folderPath => do
      let names ← Linked.deleteUnderPrefix env bucket folderPath principal
      pure (some names)
  | wholeBucket => do
      Linked.emptyBucket env bucket principal
      pure none

def found (db : Database) (bucket : Bucket) : BulkTarget → List StorageObject
  | paths raws => namedObjects db bucket raws
  | underPrefix folderPath => objectsUnderPrefix db bucket folderPath
  | wholeBucket => db.objects.rows.filter fun o => decide (o.bucketId = bucket.id)

def returned (objs : List StorageObject) : BulkTarget → Option (List Text)
  | paths _ | underPrefix _ => some (objs.map StorageObject.name)
  | wholeBucket => none

def QueryExact (db : Database) (bucket : Bucket) : BulkTarget → Prop
  | underPrefix folderPath =>
      ∀ o ∈ objectsUnderPrefix db bucket folderPath, prefixFilter folderPath <+: o.name
  | paths _ | wholeBucket => True

end BulkTarget

/-- Just the targeted objects are gone, with what hung on them; the caller could write them. -/
structure BulkDeleted (s : LinkSession) (bucket : Bucket) (principal : StoragePrincipal)
    (target : BulkTarget) (names : Option (List Text)) (s' : LinkSession) : Prop where
  objects : ∀ o, o ∈ s'.db.storage.objects.rows ↔
    o ∈ s.db.storage.objects.rows ∧ ¬target.Targets s.db.storage bucket o
  grants : ∀ g, g ∈ s'.db.storage.grants.rows ↔ g ∈ s.db.storage.grants.rows ∧
    ∀ o, target.Targets s.db.storage bucket o → g.resource.object? ≠ some o.id
  shareLinks : ∀ link, link ∈ s'.db.shareLinks ↔ link ∈ s.db.shareLinks ∧
    ∀ o, target.Targets s.db.storage bucket o → link.objectId ≠ o.id
  permitted : ∀ o, target.Targets s.db.storage bucket o →
    evaluateAccess s.db.storage s.out.now principal bucket (some o.name) (some o.id) .write = true
  names : ∀ returned, names = some returned →
    ∀ name, name ∈ returned ↔ ∃ o, target.Targets s.db.storage bucket o ∧ o.name = name

variable {env : Env} {s s' : LinkSession} {bucket : Bucket} {principal : StoragePrincipal}

/-! ## The objects of a request -/

theorem mem_namedObjects {db : Database} {raws : List Text} {o : StorageObject} :
    o ∈ namedObjects db bucket raws ↔ (BulkTarget.paths raws).Targets db bucket o := by
  rw [namedObjects, List.mem_filterMap]
  constructor
  · rintro ⟨raw, hraw, hfound⟩
    split at hfound
    · contradiction
    · rename_i name hname
      obtain ⟨hrow, hinside, rfl⟩ := Database.objectNamed_eq_some hfound
      exact ⟨hrow, hinside, raw, hraw, hname⟩
  · rintro ⟨hrow, hinside, raw, hraw, hname⟩
    refine ⟨raw, hraw, ?_⟩
    rw [hname, ← hinside]
    exact Database.objectNamed_of_mem hrow

theorem mem_found_iff {db : Database} {target : BulkTarget}
    (hexact : target.QueryExact db bucket) {o : StorageObject} :
    o ∈ target.found db bucket ↔ target.Targets db bucket o := by
  cases target with
  | paths raws => exact mem_namedObjects
  | underPrefix folderPath =>
      constructor
      · intro ho
        obtain ⟨hrow, hin, -⟩ := Database.mem_objectsStartingWith.mp ho
        exact ⟨hrow, hin, hexact o ho⟩
      · rintro ⟨hrow, hin, hbelow⟩
        exact Database.mem_objectsStartingWith.mpr ⟨hrow, hin, .of_isPrefix _ hbelow⟩
  | wholeBucket =>
      rw [BulkTarget.found, List.mem_filter, decide_eq_true_eq]
      rfl

/-! ## The loop over a batch -/

theorem bulkDeleted_of_loop {target : BulkTarget} {objs : List StorageObject}
    (hobjs : ∀ o, o ∈ objs ↔ target.Targets s.db.storage bucket o)
    (hall : ∀ o ∈ objs, canAccessPath s.db.storage s.out.now principal bucket o.name (some o.id)
      .write = true)
    (hloop : (forEach (Linked.deleteObject env) objs).Runs s () s') {names : Option (List Text)}
    (hnames : ∀ returned, names = some returned → returned = objs.map StorageObject.name) :
    BulkDeleted s bucket principal target names s' := by
  obtain ⟨hstorage, hlinks⟩ := Linked.runs_forEach_deleteObject hloop
  have hremoved := forEach_deleteObject_allRemoved hstorage
  refine ⟨fun o => ?_, fun g => ?_, fun link => ?_, fun o ho => ?_, ?_⟩
  · have hrows := hremoved.objects o
    refine hrows.trans (and_congr_right fun hrow => ?_)
    rw [← hobjs]
    constructor
    · exact fun hne hmem => hne o hmem rfl
    · intro hnot obj hobj hid
      have hobjRow := ((hobjs obj).mp hobj).1
      rw [Database.object_eq_of_id hrow hobjRow hid] at hnot
      exact hnot hobj
  · refine (hremoved.grants g).trans (and_congr_right fun _ => ?_)
    exact forall_congr' fun o => by rw [hobjs]
  · refine (hlinks link).trans (and_congr_right fun _ => ?_)
    exact forall_congr' fun o => by rw [hobjs]
  · exact hall o ((hobjs o).mpr ho)
  · intro returned hreturned name
    rw [hnames returned hreturned, List.mem_map]
    exact exists_congr fun o => and_congr_left fun _ => hobjs o

/-! ## The three operations -/

theorem runs_bulkDelete_iff {target : BulkTarget} {names : Option (List Text)} :
    (target.run env bucket principal).Runs s names s' ↔
      (∀ o ∈ target.found s.db.storage bucket, canAccessPath s.db.storage s.out.now principal
        bucket o.name (some o.id) .write = true) ∧
        (forEach (Linked.deleteObject env) (target.found s.db.storage bucket)).Runs s () s' ∧
        names = target.returned (target.found s.db.storage bucket) := by
  cases target with
  | paths raws =>
      simp only [BulkTarget.run, Linked.deletePaths, runs_bind, runs_atomic,
        Linked.runs_onStorage, runs_pathsToDelete, runs_pure]
      constructor
      · rintro ⟨_, _, ⟨objs, s₁, ⟨⟨rfl, hall, hsame⟩, hlinks⟩, _, _, hloop, rfl, rfl⟩, rfl, rfl⟩
        rw [Linked.eq_of_storage hsame hlinks] at hloop
        exact ⟨hall, hloop, rfl⟩
      · rintro ⟨hall, hloop, rfl⟩
        exact ⟨_, _, ⟨_, s, ⟨⟨rfl, hall, rfl⟩, rfl⟩, _, _, hloop, rfl, rfl⟩, rfl, rfl⟩
  | underPrefix folderPath =>
      simp only [BulkTarget.run, Linked.deleteUnderPrefix, runs_bind, runs_atomic, runs_database,
        runs_pure, Linked.runs_deleteChecked]
      constructor
      · rintro ⟨_, _, ⟨_, _, ⟨rfl, rfl⟩, _, _, ⟨hall, hloop⟩, rfl, rfl⟩, rfl, rfl⟩
        exact ⟨hall, hloop, rfl⟩
      · rintro ⟨hall, hloop, rfl⟩
        exact ⟨_, _, ⟨_, s, ⟨rfl, rfl⟩, (), _, ⟨hall, hloop⟩, rfl, rfl⟩, rfl, rfl⟩
  | wholeBucket =>
      simp only [BulkTarget.run, Linked.emptyBucket, runs_bind, runs_atomic, runs_database,
        runs_pure, Linked.runs_deleteChecked]
      constructor
      · rintro ⟨_, _, ⟨_, _, ⟨rfl, rfl⟩, hall, hloop⟩, rfl, rfl⟩
        exact ⟨hall, hloop, rfl⟩
      · rintro ⟨hall, hloop, rfl⟩
        exact ⟨(), s', ⟨_, s, ⟨rfl, rfl⟩, hall, hloop⟩, rfl, rfl⟩

theorem returned_eq_some {target : BulkTarget} {objs : List StorageObject} {names : List Text}
    (h : target.returned objs = some names) : names = objs.map StorageObject.name := by
  cases target with
  | paths raws => exact (Option.some.inj h).symm
  | underPrefix folderPath => exact (Option.some.inj h).symm
  | wholeBucket => cases h

theorem runs_bulkDelete {target : BulkTarget} {names : Option (List Text)}
    (hexact : target.QueryExact s.db.storage bucket)
    (h : (target.run env bucket principal).Runs s names s') :
    BulkDeleted s bucket principal target names s' := by
  obtain ⟨hall, hloop, rfl⟩ := runs_bulkDelete_iff.mp h
  exact bulkDeleted_of_loop (fun _ => mem_found_iff hexact) hall hloop fun _ => returned_eq_some

theorem runs_bulkDelete_of_writable {target : BulkTarget} (hfault : s.out.fault = none)
    (hall : ∀ o ∈ target.found s.db.storage bucket, canAccessPath s.db.storage s.out.now principal
      bucket o.name (some o.id) .write = true) :
    ∃ names s', (target.run env bucket principal).Runs s names s' := by
  obtain ⟨s', hloop, -⟩ := Linked.forEach_deleteObject_of_storage (s := s)
    ((runs_forEach_deleteObject_without (u := ()) hfault).mpr rfl)
  exact ⟨_, s', runs_bulkDelete_iff.mpr ⟨hall, hloop, rfl⟩⟩

theorem fails_bulkDelete {target : BulkTarget}
    (h : (target.run env bucket principal).Fails s s') : s'.db = s.db := by
  cases target with
  | paths raws =>
      simp only [BulkTarget.run, Linked.deletePaths, fails_bind, fails_atomic, fails_pure,
        and_false, exists_false, or_false] at h
      obtain ⟨s₁, -, rfl⟩ := h
      rfl
  | underPrefix folderPath =>
      simp only [BulkTarget.run, Linked.deleteUnderPrefix, fails_bind, fails_atomic, fails_pure,
        and_false, exists_false, or_false] at h
      obtain ⟨s₁, -, rfl⟩ := h
      rfl
  | wholeBucket =>
      simp only [BulkTarget.run, Linked.emptyBucket, fails_bind, fails_atomic, fails_pure,
        and_false, exists_false, or_false] at h
      obtain ⟨s₁, -, rfl⟩ := h
      rfl

/-- The deletion fails and changes no row, or deletes just what it was asked to. -/
def AllOrNothing (env : Env) (s : LinkSession) (bucket : Bucket) (principal : StoragePrincipal)
    (target : BulkTarget) : Prop :=
  (∃ s', (target.run env bucket principal).Fails s s' ∧ s'.db = s.db) ∨
    ∃ names s', (target.run env bucket principal).Runs s names s' ∧
      BulkDeleted s bucket principal target names s'

theorem allOrNothing_of_exact {target : BulkTarget} (env : Env) (principal : StoragePrincipal)
    (hexact : target.QueryExact s.db.storage bucket) :
    AllOrNothing env s bucket principal target := by
  rcases runs_or_fails (target.run env bucket principal) s with ⟨names, hrun⟩ | hfail
  · exact .inr ⟨names, _, hrun, runs_bulkDelete hexact hrun⟩
  · exact .inl ⟨_, hfail, fails_bulkDelete hfail⟩

theorem allOrNothing_of_protected {target : BulkTarget} (env : Env)
    (hprotected : ∃ o ∈ target.found s.db.storage bucket, canAccessPath s.db.storage s.out.now
      principal bucket o.name (some o.id) .write = false) :
    AllOrNothing env s bucket principal target := by
  rcases runs_or_fails (target.run env bucket principal) s with ⟨names, hrun⟩ | hfail
  · obtain ⟨o, ho, hrefused⟩ := hprotected
    have hallowed := (runs_bulkDelete_iff.mp hrun).1 o ho
    exact absurd hallowed (Bool.eq_false_iff.mp hrefused)
  · exact .inl ⟨_, hfail, fails_bulkDelete hfail⟩

/-- What the query finds beyond the folder is deleted with it. -/
theorem exact_of_allOrNothing {target : BulkTarget} (hfault : s.out.fault = none)
    (hall : ∀ o ∈ target.found s.db.storage bucket, canAccessPath s.db.storage s.out.now principal
      bucket o.name (some o.id) .write = true)
    (h : AllOrNothing env s bucket principal target) :
    target.QueryExact s.db.storage bucket := by
  obtain ⟨names, s', hrun⟩ : ∃ names s', (target.run env bucket principal).Runs s names s' :=
    runs_bulkDelete_of_writable hfault hall
  rcases h with ⟨s₁, hfail, -⟩ | ⟨names₁, s₁, hrun₁, hdeleted⟩
  · obtain ⟨e, he⟩ := hfail
    rw [Runs, he] at hrun
    cases hrun
  · cases target with
    | paths raws => trivial
    | wholeBucket => trivial
    | underPrefix folderPath =>
        intro o ho
        have hrow := (Database.mem_objectsStartingWith.mp ho).1
        obtain ⟨-, hloop, -⟩ := runs_bulkDelete_iff.mp hrun₁
        have hremoved := forEach_deleteObject_allRemoved (Linked.runs_forEach_deleteObject hloop).1
        have hgone : o ∉ s₁.db.storage.objects.rows := fun hkept =>
          ((hremoved.objects o).mp hkept).2 o ho rfl
        by_contra hbeyond
        exact hgone ((hdeleted.objects o).mpr ⟨hrow, fun htarget => hbeyond htarget.2.2⟩)

def withFault (s : LinkSession) (fault : Option (Point × Nat)) : LinkSession :=
  { s with out := { s.out with fault := fault } }

def upperWorld : World :=
  play sqliteEnv [.companyBucket 1, .upload (sampleUpload ['H', 'R', '/', 'x'] [97] 1)]
    (.initial .sqlite)

theorem upperWorld_reachable : Reachable sqliteEnv upperWorld :=
  Reachable.play .refl (by decide +kernel)

end BulkDeletion

end StorageService.Results
