import StorageService.Storage.Outcomes

/-!
# Rows and their blobs

What is uploaded is read back, unless the filesystem backend was to overwrite
something else, and stays there while other objects come and go.  An operation
that fails midway keeps every blob only if it fails before it touches one.
-/

namespace StorageService.Results

open StorageService.Foundation
open StorageService.Foundation.Action
open StorageService.Storage

variable {env : Env}

structure Reads (env : Env) (w : World) (o : StorageObject) (data : Bytes) : Prop where
  blob : w.out.blobs.lookup o.storageKey = some data
  size : o.size = data.length
  etag : o.etag = contentEtag env data

/-! ## Read after write -/

/-- Nothing else lies under the key an upload is to overwrite on the filesystem. -/
def WritesThrough (env : Env) (w : World) (u : Upload) : Prop :=
  env.s3Backend ∨ ∀ existing, u.existing w.db = some existing →
    ∀ old, w.out.blobs.lookup existing.storageKey = some old → old = u.data

def Spares (id : UUID) (db : Database) : Operation → Prop
  | .upload u => ∀ existing, u.existing db = some existing → existing.id ≠ id
  | .delete d => ∀ o ∈ d.objects db, o.id ≠ id
  | _ => True

/-- The object `id` is there, with its key, and reads as `data`. -/
def Held (env : Env) (id : UUID) (key : Text) (data : Bytes) (w : World) : Prop :=
  ∃ o ∈ w.db.objects.rows, o.id = id ∧ o.storageKey = key ∧ Reads env w o data

section Held

variable {id : UUID} {key : Text} {data : Bytes} {w w' : World}

theorem Held.of_settled (hheld : Held env id key data w) (h : Settled w w') :
    Held env id key data w' := by
  obtain ⟨o, ho, hid, hkey, hreads⟩ := hheld
  exact ⟨o, by rwa [h.objects], hid, hkey, by rw [h.blobs]; exact hreads.blob, hreads.size,
    hreads.etag⟩

theorem Held.of_created (henv : env.Lawful) (hheld : Held env id key data w)
    (howned : OwnedBy id key) {obj : StorageObject} {other : Bytes}
    (h : Created env w obj other w') : Held env id key data w' := by
  obtain ⟨o, ho, hid, hkey, hreads⟩ := hheld
  refine ⟨o, by simp [h.objects, ho], hid, hkey, ?_, hreads.size, hreads.etag⟩
  have hne : o.storageKey ≠ obj.storageKey := by
    intro heq
    refine h.free o ho (.inl ?_)
    rw [hkey] at heq
    rw [hid]
    exact howned.unique (heq ▸ h.owned)
  rw [h.blobs]
  exact Outside.lookup_save_of_stored henv hreads.blob (.inl hne)

theorem Held.of_overwrote (henv : env.Lawful) (hheld : Held env id key data w)
    (howned : OwnedBy id key) {bucket : Bucket} {existing obj : StorageObject} {other : Bytes}
    (hexisting : OwnedBy existing.id existing.storageKey) (hne : existing.id ≠ id)
    (h : Overwrote env w bucket existing obj other w') : Held env id key data w' := by
  obtain ⟨o, ho, hid, hkey, hreads⟩ := hheld
  refine ⟨o, ?_, hid, hkey, ?_, hreads.size, hreads.etag⟩
  · rw [h.objects]
    refine List.mem_map.mpr ⟨o, ho, Database.changed_of_ne ?_⟩
    rw [hid]
    exact hne.symm
  · rw [h.blobs]
    refine Outside.lookup_save_of_stored henv hreads.blob (.inl fun heq => ?_)
    rw [hkey] at heq
    exact hne (hexisting.unique (heq ▸ howned))

theorem Held.of_allRemoved (hheld : Held env id key data w) (howned : OwnedBy id key)
    {objs : List StorageObject} (hkeys : ∀ obj ∈ objs, OwnedBy obj.id obj.storageKey)
    (hne : ∀ obj ∈ objs, obj.id ≠ id) (h : AllRemoved w objs w') :
    Held env id key data w' := by
  obtain ⟨o, ho, hid, hkey, hreads⟩ := hheld
  refine ⟨o, ?_, hid, hkey, ?_, hreads.size, hreads.etag⟩
  · refine (h.objects o).mpr ⟨ho, fun obj hobj heq => hne obj hobj ?_⟩
    rw [← heq, hid]
  · rw [h.blobs, if_neg, hreads.blob]
    rintro ⟨obj, hobj, heq⟩
    rw [hkey] at heq
    exact hne obj hobj ((hkeys obj hobj).unique (heq ▸ howned))

theorem Held.of_rewrote (hheld : Held env id key data w)
    {f : StorageObject → StorageObject} (hf : ∀ o, SameContent o (f o))
    (h : Rewrote f w w') : Held env id key data w' := by
  obtain ⟨o, ho, hid, hkey, hreads⟩ := hheld
  have hsame := hf o
  refine ⟨f o, ?_, hsame.id.trans hid, hsame.storageKey.trans hkey, ?_,
    hsame.size.trans hreads.size, hsame.etag.trans hreads.etag⟩
  · rw [h.objects]
    exact List.mem_map_of_mem ho
  · rw [h.blobs, hsame.storageKey]
    exact hreads.blob

theorem Held.of_outcome (henv : env.Lawful) {op : Operation} (hw : Sound env w)
    (howned : OwnedBy id key) (hheld : Held env id key data w) (hspares : Spares id w.db op)
    (h : Outcome env w w' op) : Held env id key data w' := by
  cases h with
  | settled h => exact hheld.of_settled h
  | created before h after =>
      exact ((hheld.of_settled before).of_created henv howned h).of_settled after
  | overwrote loaded found h =>
      exact hheld.of_overwrote henv howned (hw.keys _ (Upload.existing_mem found).1)
        (hspares _ found) h
  | removed h =>
      exact hheld.of_allRemoved howned
        (fun obj hobj => hw.keys obj (Deletion.objects_subset h.1 obj hobj)) hspares
        h.allRemoved
  | rewrote same h => exact hheld.of_rewrote same h

end Held

theorem uploaded_row {u : Upload} {s s' : World} {obj : StorageObject} (hs : Sound env s)
    (h : (u.run env).Runs s obj s') :
    obj ∈ s'.db.objects.rows ∧ OwnedBy obj.id obj.storageKey := by
  obtain ⟨name, -, ⟨existing, hexisting, hoverwrote⟩ | ⟨-, hcreated, -⟩⟩ :=
    uploadObject_cases h
  · obtain ⟨hmem, -⟩ := Database.objectNamed_eq_some hexisting
    obtain ⟨mimeType, ownerId, rfl⟩ := hoverwrote.row
    refine ⟨?_, hs.keys existing hmem⟩
    rw [hoverwrote.objects]
    exact List.mem_map.mpr ⟨existing, hmem, by simp [Database.changed, overwritten]⟩
  · exact ⟨by simp [hcreated.objects], hcreated.owned⟩

theorem uploaded_reads_iff (henv : env.Lawful) {u : Upload} {s s' : World}
    {obj : StorageObject} (hs : Sound env s) (h : (u.run env).Runs s obj s') :
    Reads env s' obj u.data ↔ WritesThrough env s u := by
  obtain ⟨name, hname, ⟨existing, hexisting, hoverwrote⟩ |
    ⟨hnone, hcreated, -, -, -, hsize, hetag⟩⟩ := uploadObject_cases h
  · have hfound : u.existing s.db = some existing := by
      rwa [Upload.existing_eq hname]
    have hthrough : WritesThrough env s u ↔ env.s3Backend ∨
        ∀ old, s.out.blobs.lookup existing.storageKey = some old → old = u.data := by
      simp [WritesThrough, hfound]
    obtain ⟨mimeType, ownerId, hrow⟩ := hoverwrote.row
    have hblob := Outside.lookup_save_self henv existing.storageKey u.data s.out
    rw [← hoverwrote.blobs] at hblob
    rw [hthrough, ← hblob]
    constructor
    · intro hreads
      have := hreads.blob
      rwa [hrow] at this
    · intro hlookup
      rw [hrow]
      exact ⟨hlookup, rfl, rfl⟩
  · have hfound : u.existing s.db = none := by
      rwa [Upload.existing_eq hname]
    have hthrough : WritesThrough env s u := by
      simp [WritesThrough, hfound]
    have hfree : s.out.blobs.lookup obj.storageKey = none :=
      lookup_eq_none_of_drawn henv hs (hcreated.drawn ▸ hcreated.owned)
    simp only [hthrough, iff_true]
    refine ⟨?_, hsize, hetag⟩
    rw [hcreated.blobs, Outside.lookup_save_self henv]
    exact .inr fun old hold => by simp [hfree] at hold

/--
What was uploaded is read back, through every run of operations that spare the
object, if and only if the upload wrote through to its key.
-/
theorem read_after_upload_iff (henv : env.Lawful) {w w₁ : World} (hw : Reachable env w)
    {u : Upload} (loaded : u.bucket ∈ w.db.buckets.rows) {fault : Option (Point × Nat)}
    {obj : StorageObject} (h : (u.run env).Runs (w.withFault fault) obj w₁) :
    (Reads env w₁ obj u.data ∧ ∀ w₂, SuccessfulRun env (Spares obj.id) w₁ w₂ →
        Held env obj.id obj.storageKey u.data w₂) ↔
      WritesThrough env w u := by
  have hsound : Sound env (w.withFault fault) :=
    ((keeps_lenient env).fault w fault).sound (hw.sound henv)
  have hiff := uploaded_reads_iff henv hsound h
  constructor
  · rintro ⟨hreads, -⟩
    exact hiff.mp hreads
  · intro hthrough
    have hreads := hiff.mpr hthrough
    obtain ⟨hmem, howned⟩ := uploaded_row hsound h
    have hsound₁ : Sound env w₁ :=
      (Upload.succeeds loaded h).step.sound henv (hw.sound henv)
    refine ⟨hreads, fun w₂ hrun => ?_⟩
    refine hrun.invariant henv hsound₁ ⟨obj, hmem, rfl, rfl, hreads⟩ ?_ ?_
    · intro w w' op hw hheld hspares houtcome
      exact hheld.of_outcome henv hw howned hspares houtcome
    · rintro w t ⟨o, ho, hid, hkey, hreads⟩
      exact ⟨o, ho, hid, hkey, hreads.blob, hreads.size, hreads.etag⟩

def oneFile (s3Backend : Bool) : World :=
  play (sampleEnv s3Backend)
    [.companyBucket 1, .upload (sampleUpload ['a'] [97] 1)]
    .initial

theorem oneFile_reachable (s3Backend : Bool) :
    Reachable (sampleEnv s3Backend) (oneFile s3Backend) :=
  Reachable.play .refl (by cases s3Backend <;> decide +kernel)

def uploadedTo (s3Backend : Bool) (u : Upload) (w : World) : World :=
  (u.run (sampleEnv s3Backend) (w.withFault none)).2

theorem uploadedTo_runs (s3Backend : Bool) (u : Upload) (w : World)
    (h : (u.run (sampleEnv s3Backend) (w.withFault none)).1.toOption.any (fun _ => true) =
      true) :
    ∃ obj, (u.run (sampleEnv s3Backend)).Runs (w.withFault none) obj
      (uploadedTo s3Backend u w) := by
  obtain ⟨obj, hrun, -⟩ := runs_of_any h
  exact ⟨obj, hrun⟩

theorem read_after_upload_iff_newFile : ∃ obj,
    Reads (sampleEnv false) (uploadedTo false (sampleUpload ['b'] [98] 1) (oneFile false)) obj
        [98] ∧
      ∀ w₂, SuccessfulRun (sampleEnv false) (Spares obj.id)
        (uploadedTo false (sampleUpload ['b'] [98] 1) (oneFile false)) w₂ →
          Held (sampleEnv false) obj.id obj.storageKey [98] w₂ := by
  obtain ⟨obj, hrun⟩ := uploadedTo_runs false (sampleUpload ['b'] [98] 1) (oneFile false)
    (by decide +kernel)
  have hnew : (sampleUpload ['b'] [98] 1).existing (oneFile false).db = none := by
    decide +kernel
  have hthrough : WritesThrough (sampleEnv false) (oneFile false)
      (sampleUpload ['b'] [98] 1) := .inr fun existing hexisting => by simp [hnew] at hexisting
  exact ⟨obj, (read_after_upload_iff (sampleEnv_lawful false) (oneFile_reachable false)
    (by decide +kernel) hrun).mpr hthrough⟩

/-- On the filesystem an overwritten file still reads as it did before. -/
theorem not_read_after_upload :
    ¬∀ (w w₁ : World) (u : Upload) (fault : Option (Point × Nat)) (obj : StorageObject),
      Reachable (sampleEnv false) w → u.bucket ∈ w.db.buckets.rows →
      (u.run (sampleEnv false)).Runs (w.withFault fault) obj w₁ →
      Reads (sampleEnv false) w₁ obj u.data ∧
        ∀ w₂, SuccessfulRun (sampleEnv false) (Spares obj.id) w₁ w₂ →
          Held (sampleEnv false) obj.id obj.storageKey u.data w₂ := by
  intro h
  obtain ⟨obj, hrun⟩ := uploadedTo_runs false (sampleUpload ['a'] [98] 1) (oneFile false)
    (by decide +kernel)
  obtain ⟨hreads, -⟩ := h (oneFile false) _ _ none obj (oneFile_reachable false)
    (by decide +kernel) hrun
  have hsound : Sound (sampleEnv false) ((oneFile false).withFault none) :=
    ((keeps_lenient (sampleEnv false)).fault _ none).sound
      ((oneFile_reachable false).sound (sampleEnv_lawful false))
  have hthrough := (uploaded_reads_iff (sampleEnv_lawful false) hsound hrun).mp hreads
  have hother : ((sampleUpload ['a'] [98] 1).existing (oneFile false).db).any (fun existing =>
      decide ((oneFile false).out.blobs.lookup existing.storageKey = some [97])) = true := by
    decide +kernel
  obtain ⟨existing, hexisting, hblob⟩ := (Option.any_eq_true _ _).mp hother
  rcases hthrough with hs3 | hsame
  · simp [sampleEnv] at hs3
  · have hdata := hsame existing hexisting [97] (of_decide_eq_true hblob)
    simp [sampleUpload] at hdata

/-! ## Failing operations -/

def Intact (env : Env) (w : World) : Prop :=
  ∀ o ∈ w.db.objects.rows, ∃ data, Reads env w o data

theorem intact_iff_all {w : World} :
    Intact env w ↔ w.db.objects.rows.all (fun o => (w.out.blobs.lookup o.storageKey).any
      fun data => decide (o.size = data.length ∧ o.etag = contentEtag env data)) = true := by
  simp only [Intact, List.all_eq_true, Option.any_eq_true, decide_eq_true_eq]
  refine forall₂_congr fun o _ => exists_congr fun data => ?_
  exact ⟨fun h => ⟨h.blob, h.size, h.etag⟩, fun ⟨hblob, hsize, hetag⟩ => ⟨hblob, hsize, hetag⟩⟩

instance (w : World) : Decidable (Intact env w) := decidable_of_iff _ intact_iff_all.symm

def TouchesBlobs (db : Database) : Operation → Prop
  | .delete _ => True
  | .upload u => u.existing db ≠ none
  | _ => False

def FailsHarmlessly (env : Env) (w : World) (fault : Option (Point × Nat)) : Operation → Prop
  | .delete d => ¬d.Permitted w.db w.out.now ∨ BeforeFirstBlob fault
  | .upload u => ¬env.s3Backend ∨ ∀ existing, u.existing w.db = some existing →
      u.StopsBeforeWrite env w.db fault existing ∨
        u.data.length = existing.size ∧ contentEtag env u.data = existing.etag
  | _ => True

theorem Intact.congr {w w' : World} (h : Intact env w) (hdb : w'.db = w.db)
    (hblobs : w'.out.blobs = w.out.blobs) : Intact env w' := by
  intro o ho
  rw [hdb] at ho
  obtain ⟨data, hreads⟩ := h o ho
  exact ⟨data, by rw [hblobs]; exact hreads.blob, hreads.size, hreads.etag⟩

theorem intact_after_deletion_iff {w w' : World} (hintact : Intact env w) {d : Deletion}
    (loaded : d.Loaded w.db) {fault : Option (Point × Nat)}
    (hfail : (d.run env).Fails (w.withFault fault) w') :
    Intact env w' ↔ ¬d.Permitted w.db w.out.now ∨ BeforeFirstBlob fault := by
  rcases Deletion.fails_iff.mp hfail with ⟨hrefused, rfl⟩ | ⟨hpermitted, w₁, hfirst, rfl⟩
  · exact iff_of_true (hintact.congr rfl rfl) (.inl hrefused)
  · have hmem := Deletion.objects_subset loaded
    change (forEach (deleteObject env) (d.objects w.db)).Fails _ w₁ at hfirst
    cases hobjs : d.objects w.db with
    | nil => simp [hobjs] at hfirst
    | cons obj objs =>
        rw [hobjs] at hfirst hmem
        rcases fails_forEach_deleteObject hfirst with ⟨hbefore, hblobs⟩ | ⟨hafter, hblob⟩
        · exact iff_of_true (hintact.congr rfl hblobs) (.inr hbefore)
        · refine iff_of_false (fun h => ?_) (not_or.mpr ⟨not_not.mpr hpermitted, hafter⟩)
          obtain ⟨data, hreads⟩ := h obj (hmem obj (by simp))
          have hread : w₁.out.blobs.lookup obj.storageKey = some data := hreads.blob
          simp [hblob] at hread

/-- Overwriting the blob of `existing` harms no row, or exactly that one. -/
theorem intact_after_save_iff (henv : env.Lawful) {w w' : World} (hintact : Intact env w)
    {existing : StorageObject} (hmem : existing ∈ w.db.objects.rows) {data : Bytes}
    (hdb : w'.db = w.db)
    (hblobs : w'.out.blobs = (w.out.save env existing.storageKey data).blobs) :
    Intact env w' ↔ ¬env.s3Backend ∨
      data.length = existing.size ∧ contentEtag env data = existing.etag := by
  by_cases hs3 : env.s3Backend
  · have hlookup : w'.out.blobs.lookup existing.storageKey = some data := by
      rw [hblobs, Outside.lookup_save_self henv]
      exact .inl hs3
    simp only [hs3, not_true, false_or]
    constructor
    · intro h
      rw [← hdb] at hmem
      obtain ⟨data', hreads⟩ := h existing hmem
      have hdata : data' = data := Option.some.inj (hreads.blob.symm.trans hlookup)
      rw [← hdata]
      exact ⟨hreads.size.symm, hreads.etag.symm⟩
    · rintro ⟨hsize, hetag⟩ o ho
      rw [hdb] at ho
      obtain ⟨old, hold⟩ := hintact o ho
      by_cases hkey : o.storageKey = existing.storageKey
      · -- both rows describe the blob that was there before
        obtain ⟨old', hold'⟩ := hintact existing hmem
        have hsame : old = old' := by
          refine Option.some.inj (hold.blob.symm.trans ?_)
          rw [hkey]
          exact hold'.blob
        refine ⟨data, by rw [hkey, hlookup], ?_, ?_⟩
        · rw [hold.size, hsame, ← hold'.size, hsize]
        · rw [hold.etag, hsame, ← hold'.etag, hetag]
      · refine ⟨old, ?_, hold.size, hold.etag⟩
        rw [hblobs]
        exact Outside.lookup_save_of_stored henv hold.blob (.inl hkey)
  · simp only [hs3, Bool.false_eq_true, not_false_eq_true, true_or, iff_true]
    intro o ho
    rw [hdb] at ho
    obtain ⟨old, hold⟩ := hintact o ho
    refine ⟨old, ?_, hold.size, hold.etag⟩
    rw [hblobs]
    exact Outside.lookup_save_of_stored henv hold.blob (.inr hs3)

/--
A deletion or an overwriting upload that fails leaves every row its blob if and
only if it failed harmlessly.
-/
theorem intact_after_failure_iff (henv : env.Lawful) {w w' : World} (hintact : Intact env w)
    {op : Operation} (htouches : TouchesBlobs w.db op) (loaded : op.Loaded w.db)
    {fault : Option (Point × Nat)} (hfail : (op.run env).Fails (w.withFault fault) w') :
    Intact env w' ↔ FailsHarmlessly env w fault op := by
  cases op with
  | delete d => exact intact_after_deletion_iff hintact loaded hfail
  | upload u =>
      obtain ⟨existing, hfound⟩ := Option.ne_none_iff_exists'.mp htouches
      have hupload : (u.run env).Fails (w.withFault fault) w' := by
        simpa only [Operation.run, fails_bind, fails_pure, and_false, exists_false,
          or_false] using hfail
      obtain ⟨hdb, hcases⟩ := u.fails_cases (s := w.withFault fault) hfound hupload
      simp only [FailsHarmlessly, hfound, Option.some.injEq, forall_eq']
      rcases hcases with ⟨hstops, hblobs⟩ | ⟨hwritten, hblobs⟩
      · exact iff_of_true (hintact.congr hdb hblobs) (.inr (.inl hstops))
      · have hwritten : ¬u.StopsBeforeWrite env w.db fault existing := hwritten
        rw [intact_after_save_iff henv hintact (Upload.existing_mem hfound).1 hdb
          (hblobs.trans (Outside.save_blobs_congr env _ _ rfl rfl))]
        simp only [hwritten, false_or]
  | _ => exact htouches.elim

def deleteFile : Deletion := .paths sampleBucket (member 1) [['a']]

def afterFailure (p : Point) : World :=
  (deleteFile.run (sampleEnv true) ((oneFile true).withFault (some (p, 0)))).2

theorem afterFailure_fails {p : Point}
    (h : (deleteFile.run (sampleEnv true)
      ((oneFile true).withFault (some (p, 0)))).1.toOption.isNone = true) :
    ((Operation.delete deleteFile).run (sampleEnv true)).Fails
      ((oneFile true).withFault (some (p, 0))) (afterFailure p) :=
  fails_of_isNone h

theorem deleteFile_loaded : (Operation.delete deleteFile).Loaded (oneFile true).db := by
  decide +kernel

theorem intact_after_failure_iff_blobDelete :
    Intact (sampleEnv true) (afterFailure .blobDelete) :=
  have htouches : TouchesBlobs (oneFile true).db (.delete deleteFile) := trivial
  (intact_after_failure_iff (sampleEnv_lawful true) (by decide +kernel) htouches
    deleteFile_loaded (afterFailure_fails (by decide +kernel))).mpr (.inr (.inr rfl))

/-- A signal handler raises, the row comes back and its blob does not. -/
theorem not_intact_after_failure :
    ¬∀ (w w' : World) (op : Operation) (fault : Option (Point × Nat)),
      Intact (sampleEnv true) w → TouchesBlobs w.db op → op.Loaded w.db →
      (op.run (sampleEnv true)).Fails (w.withFault fault) w' →
        Intact (sampleEnv true) w' := by
  intro h
  have hkept : Intact (sampleEnv true) (afterFailure .signal) :=
    h (oneFile true) _ (.delete deleteFile) _ (by decide +kernel) trivial deleteFile_loaded
      (afterFailure_fails (by decide +kernel))
  revert hkept
  decide +kernel

end StorageService.Results
