import StorageService.Results.FolderDeletion
import StorageService.Results.Specificity
import StorageService.Results.Usage
import StorageService.Storage.Queries

/-!
# The preview of a deletion

What `summarize_prefix` counts is what `delete_under_prefix` removes: whoever may
write every object below a folder may also read it, so nothing is left out of the
count.
-/

namespace StorageService.Results

open StorageService.Foundation
open StorageService.Foundation.Action
open StorageService.Storage

section Preview

variable {env : Env} {w w' : World} {principal : StoragePrincipal} {bucket : Bucket}
variable {folderPath : Text}

/-! ## What a batch of deletions takes away -/

theorem sum_map_deleted {objs : List StorageObject} {u : Unit} (weight : StorageObject → Nat)
    (hstored : ∀ obj ∈ objs, obj ∈ w.db.objects.rows) (hnodup : objs.Nodup)
    (h : (forEach (deleteObject env) objs).Runs w u w') :
    (objs.map weight).sum + (w'.db.objects.rows.map weight).sum =
      (w.db.objects.rows.map weight).sum := by
  induction objs generalizing w with
  | nil =>
      rw [runs_forEach_nil] at h
      rw [h, List.map_nil, List.sum_nil, zero_add]
  | cons obj objs ih =>
      rw [runs_forEach_cons] at h
      obtain ⟨w₁, hfirst, hrest⟩ := h
      rw [List.forall_mem_cons] at hstored
      rw [List.nodup_cons] at hnodup
      have hremoved := deleteObject_removed hfirst
      have hsame : ∀ o ∈ w.db.objects.rows, o.id = obj.id → o = obj :=
        fun o ho hid => Database.object_eq_of_id ho hstored.1 hid
      have hleft : ∀ o ∈ objs, o ∈ w₁.db.objects.rows := by
        intro o ho
        rw [hremoved.objects, List.mem_filter, decide_eq_true_eq]
        refine ⟨hstored.2 o ho, fun hid => ?_⟩
        rw [hsame o (hstored.2 o ho) hid] at ho
        exact hnodup.1 ho
      have hobj := hremoved.sum_eq hsame weight fun _ => hstored.1
      have hobjs := ih hleft hnodup.2 hrest
      rw [List.map_cons, List.sum_cons]
      omega

theorem objectsUnderPrefix_nodup (db : Database) (bucket : Bucket) (folderPath : Text) :
    (objectsUnderPrefix db bucket folderPath).Nodup :=
  db.objectIds_nodup.of_map.filter _

/-! ## The preview counts everything -/

theorem summarizedObjects_eq (hwrite : ∀ o ∈ objectsUnderPrefix w.db bucket folderPath,
    canAccessPath w.db w.out.now principal bucket o.name (some o.id) .write = true) :
    summarizedObjects w.db w.out.now bucket folderPath (some principal) =
      objectsUnderPrefix w.db bucket folderPath := by
  rw [summarizedObjects, List.filter_eq_self]
  intro o ho
  exact evaluateAccess_anti (by decide) (hwrite o ho)

theorem sum_share_objectsUnderPrefix (hw : Sound env w) (hbucket : bucket ∈ w.db.buckets.rows) :
    ((objectsUnderPrefix w.db bucket folderPath).map (share bucket.companyId)).sum =
      ((objectsUnderPrefix w.db bucket folderPath).map StorageObject.size).sum := by
  congr 1
  apply List.map_congr_left
  intro o ho
  obtain ⟨hrow, hinside, -⟩ := Database.mem_objectsStartingWith.mp ho
  have hcompany := hw.company o hrow bucket hbucket hinside.symm
  rw [share, if_pos hcompany.symm]

/--
The objects a recursive deletion removes are as many as the preview counted, and
an exact counter drops by the total it gave.
-/
theorem deleteUnderPrefix_summarized (henv : env.Lawful) (hw : Reachable env w)
    (hbucket : bucket ∈ w.db.buckets.rows) {fault : Option (Point × Nat)} {names : List Text}
    (h : (deleteUnderPrefix env bucket folderPath principal).Runs (w.withFault fault) names w') :
    names.length =
        (summarizePrefix w.db w.out.now bucket folderPath (some principal)).objectCount ∧
      w'.db.objects.rows.length +
          (summarizePrefix w.db w.out.now bucket folderPath (some principal)).objectCount =
        w.db.objects.rows.length ∧
      (ExactUsage bucket.companyId w →
        companyUsage w'.db bucket.companyId +
            (summarizePrefix w.db w.out.now bucket folderPath (some principal)).totalBytes =
          companyUsage w.db bucket.companyId) := by
  simp only [deleteUnderPrefix, runs_atomic, runs_bind, runs_database,
    Deletion.runs_deleteChecked, runs_pure] at h
  obtain ⟨_, _, ⟨rfl, rfl⟩, _, _, ⟨hwrite, hloop⟩, rfl, rfl⟩ := h
  have hsound := hw.sound henv
  have hstored : ∀ o ∈ objectsUnderPrefix w.db bucket folderPath, o ∈ w.db.objects.rows :=
    fun o ho => (Database.mem_objectsStartingWith.mp ho).1
  have hnodup := objectsUnderPrefix_nodup w.db bucket folderPath
  have hobjects := summarizedObjects_eq (w := w) hwrite
  simp only [summarizePrefix, hobjects]
  refine ⟨List.length_map _, ?_, fun hexact => ?_⟩
  · have hcount := sum_map_deleted (w := w.withFault fault) (fun _ => 1) hstored hnodup hloop
    simp only [List.map_const', List.sum_replicate_nat, mul_one] at hcount
    rw [Nat.add_comm]
    exact hcount
  · have hbytes := sum_map_deleted (w := w.withFault fault) (share bucket.companyId) hstored
      hnodup hloop
    have hdeleted : ((Deletion.underPrefix bucket folderPath principal).run env).Runs
        (w.withFault fault) () w' := Deletion.runs_iff.mpr ⟨hwrite, hloop⟩
    have hsucceeds : Succeeds env (.delete (.underPrefix bucket folderPath principal)) w w' :=
      ⟨hbucket, fault, hdeleted⟩
    have honce : NamesOnce w.db (.delete (.underPrefix bucket folderPath principal)) := trivial
    have hafter := hexact.of_outcome hsound honce hsucceeds.outcome
    rw [ExactUsage, storedBytes_eq_sum] at hexact hafter
    rw [hexact, hafter, ← sum_share_objectsUnderPrefix hsound hbucket, ← Nat.cast_add,
      Nat.add_comm]
    exact congrArg Nat.cast hbytes

theorem deleteUnderPrefix_summarized_privateFolder :
    ∃ names w', (deleteUnderPrefix (sampleEnv false) sampleBucket ['a'] (member 1)).Runs
        (privateFolder.withFault none) names w' ∧
      names.length = 3 ∧ companyUsage w'.db 1 + 2 = companyUsage privateFolder.db 1 := by
  have hruns : ∃ names w', (deleteUnderPrefix (sampleEnv false) sampleBucket ['a']
      (member 1)).Runs (privateFolder.withFault none) names w' := by
    refine ⟨_, _, (runs_deleteUnderPrefix_iff rfl).mpr ⟨?_, rfl, rfl⟩⟩
    decide +kernel
  obtain ⟨names, w', hrun⟩ := hruns
  obtain ⟨hcount, -, hbytes⟩ := deleteUnderPrefix_summarized (sampleEnv_lawful false)
    privateFolder_reachable (by decide +kernel) hrun
  refine ⟨names, w', hrun, hcount.trans (by decide +kernel), ?_⟩
  have htotal : (summarizePrefix privateFolder.db privateFolder.out.now sampleBucket ['a']
      (some (member 1))).totalBytes = 2 := by decide +kernel
  have hexact : ExactUsage 1 privateFolder := by
    rw [ExactUsage]
    decide +kernel
  have hdrop := hbytes hexact
  rw [htotal] at hdrop
  exact hdrop

end Preview

end StorageService.Results
