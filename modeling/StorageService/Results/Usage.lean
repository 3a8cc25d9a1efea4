import StorageService.Storage.Outcomes

/-!
# Company usage

The counter of a company is the number of bytes of its objects after every run
of successful operations, as long as no request deletes an object of some size
twice: the second deletion finds no row but is subtracted all the same.
-/

namespace StorageService.Results

open StorageService.Foundation
open StorageService.Foundation.Action
open StorageService.Storage

variable {env : Env}

def storedBytes (db : Database) (companyId : Nat) : Nat :=
  ((db.objects.rows.filter fun o => decide (o.companyId = companyId)).map
    StorageObject.size).sum

def ExactUsage (companyId : Nat) (w : World) : Prop :=
  companyUsage w.db companyId = storedBytes w.db companyId

/-- No object of some size is named twice in one request to delete paths. -/
def NamesOnce (db : Database) : Operation → Prop
  | .delete (.paths bucket _ paths) =>
      ((namedObjects db bucket paths).filter fun o => decide (o.size ≠ 0)).Nodup
  | _ => True

/-! ## Sums over rows -/

def share (companyId : Nat) (o : StorageObject) : Nat :=
  if o.companyId = companyId then o.size else 0

theorem storedBytes_eq_sum (db : Database) (companyId : Nat) :
    storedBytes db companyId = (db.objects.rows.map (share companyId)).sum := by
  unfold storedBytes
  induction db.objects.rows with
  | nil => rfl
  | cons o rows ih =>
      by_cases ho : o.companyId = companyId <;> simp [share, ho, ih]

theorem sum_share_map {f : StorageObject → StorageObject} (hf : ∀ o, SameContent o (f o))
    (companyId : Nat) (rows : List StorageObject) :
    ((rows.map f).map (share companyId)).sum = (rows.map (share companyId)).sum := by
  rw [List.map_map]
  refine congrArg List.sum (List.map_congr_left fun o _ => ?_)
  simp [share, (hf o).companyId, (hf o).size]

/-! ## Each outcome keeps the counter right -/

section Outcomes

variable {companyId : Nat} {w w' : World}

theorem ExactUsage.nonneg (h : ExactUsage companyId w) :
    0 ≤ companyUsage w.db companyId := by
  rw [h]
  exact Int.natCast_nonneg _

theorem ExactUsage.of_settled (hexact : ExactUsage companyId w) (h : Settled w w') :
    ExactUsage companyId w' := by
  rw [ExactUsage, h.usage, hexact, storedBytes, storedBytes, h.objects]

theorem ExactUsage.of_rewrote (hexact : ExactUsage companyId w)
    {f : StorageObject → StorageObject} (hf : ∀ o, SameContent o (f o))
    (h : Rewrote f w w') : ExactUsage companyId w' := by
  rw [ExactUsage, companyUsage_congr h.companyQuotas, hexact, storedBytes_eq_sum,
    storedBytes_eq_sum, h.objects, sum_share_map hf]

theorem ExactUsage.of_created (hexact : ExactUsage companyId w) {obj : StorageObject}
    {data : Bytes} (h : Created env w obj data w') : ExactUsage companyId w' := by
  have hsum : storedBytes w'.db companyId = storedBytes w.db companyId +
      share companyId obj := by
    simp [storedBytes_eq_sum, h.objects]
  rw [ExactUsage, h.usage companyId hexact.nonneg, hexact, hsum]
  by_cases hc : companyId = obj.companyId
  · simp only [share, hc, if_true, Nat.cast_add]
    omega
  · simp [share, hc, Ne.symm hc]

theorem ExactUsage.of_overwrote (hexact : ExactUsage companyId w) {bucket : Bucket}
    {existing obj : StorageObject} {data : Bytes} (hmem : existing ∈ w.db.objects.rows)
    (hcompany : existing.companyId = bucket.companyId)
    (h : Overwrote env w bucket existing obj data w') : ExactUsage companyId w' := by
  obtain ⟨mimeType, ownerId, hobj⟩ := h.row
  have hsum := h.sum_eq hmem (share companyId)
  have hshare : share companyId obj =
      if companyId = bucket.companyId then data.length else 0 := by
    rw [hobj]
    simp [share, overwritten, hcompany, eq_comm]
  have hshare' : share companyId existing =
      if companyId = bucket.companyId then existing.size else 0 := by
    simp [share, hcompany, eq_comm]
  rw [hshare, hshare'] at hsum
  rw [ExactUsage, h.usage companyId hexact.nonneg, hexact, storedBytes_eq_sum,
    storedBytes_eq_sum]
  by_cases hc : companyId = bucket.companyId
  · simp only [if_pos hc] at hsum ⊢
    omega
  · simp only [if_neg hc, add_zero] at hsum ⊢
    rw [hsum]

theorem ExactUsage.of_removed (hexact : ExactUsage companyId w) {obj : StorageObject}
    (hsame : ∀ o ∈ w.db.objects.rows, o.id = obj.id → o = obj)
    (hthere : obj.size ≠ 0 → obj ∈ w.db.objects.rows) (h : Removed w obj w') :
    ExactUsage companyId w' := by
  have hsum : share companyId obj + storedBytes w'.db companyId =
      storedBytes w.db companyId := by
    rw [storedBytes_eq_sum, storedBytes_eq_sum]
    refine h.sum_eq hsame (share companyId) fun hshare => hthere fun hsize => hshare ?_
    simp [share, hsize]
  rw [ExactUsage, h.usage companyId hexact.nonneg, hexact, ← hsum]
  by_cases hc : companyId = obj.companyId
  · simp only [share, hc, if_true, Nat.cast_add]
    omega
  · simp [share, hc, Ne.symm hc]

theorem objects_once {d : Deletion} (honce : NamesOnce w.db (.delete d)) :
    ((d.objects w.db).filter fun o => decide (o.size ≠ 0)).Nodup := by
  have hrows : w.db.objects.rows.Nodup := w.db.objectIds_nodup.of_map
  cases d with
  | object obj => exact (List.nodup_singleton obj).filter _
  | paths bucket principal paths => exact honce
  | underPrefix bucket folderPath principal => exact (hrows.filter _).filter _
  | wholeBucket bucket principal => exact (hrows.filter _).filter _

theorem ExactUsage.of_outcome {op : Operation} (hw : Sound env w)
    (hexact : ExactUsage companyId w) (honce : NamesOnce w.db op)
    (h : Outcome env w w' op) : ExactUsage companyId w' := by
  cases h with
  | settled h => exact hexact.of_settled h
  | created before h after => exact ((hexact.of_settled before).of_created h).of_settled after
  | overwrote loaded found h =>
      obtain ⟨hmem, hid⟩ := Upload.existing_mem found
      exact hexact.of_overwrote hmem (hw.company_of_known hmem (known_of_mem loaded) hid) h
  | removed h =>
      obtain ⟨loaded, fault, hrun⟩ := h
      have hmem := Deletion.objects_subset loaded
      refine runs_deletions_invariant (P := ExactUsage companyId) ?_ ?_ (objects_once honce) ?_
        (hexact.of_settled (.withFault w fault)) (Deletion.runs_iff.mp hrun).2
      · intro obj hobj o ho hid
        exact Database.object_eq_of_id ho (hmem obj hobj) hid
      · exact fun obj hobj _ => hmem obj hobj
      · intro s s' obj hs hsame hthere hdelete
        exact hs.of_removed hsame hthere (deleteObject_removed hdelete)
  | rewrote same h => exact hexact.of_rewrote same h

end Outcomes

/--
Starting from an empty company, its counter is right after every run in which no
object of some size is named twice in one request.
-/
theorem exactUsage_of_run (henv : env.Lawful) {w w' : World} (hw : Reachable env w)
    {companyId : Nat} (hempty : ∀ o ∈ w.db.objects.rows, o.companyId ≠ companyId)
    (hzero : companyUsage w.db companyId = 0) (h : SuccessfulRun env NamesOnce w w') :
    ExactUsage companyId w' := by
  have hstart : ExactUsage companyId w := by
    have hnone : (w.db.objects.rows.filter fun o => decide (o.companyId = companyId)) = [] :=
      List.filter_eq_nil_iff.mpr fun o ho => by simpa using hempty o ho
    rw [ExactUsage, hzero, storedBytes, hnone]
    rfl
  exact h.invariant henv (hw.sound henv) hstart
    (fun hw hexact honce houtcome => hexact.of_outcome hw honce houtcome)
    fun _ _ hexact => hexact

def twoFiles : World :=
  play (sampleEnv false)
    [.companyBucket 1, .upload (sampleUpload ['a'] [97] 1),
      .upload (sampleUpload ['b'] [98] 1)]
    .initial

theorem twoFiles_run {allowed : Database → Operation → Prop}
    (hallowed : ∀ db, allowed db (.companyBucket 1) ∧ ∀ u, allowed db (.upload u)) :
    SuccessfulRun (sampleEnv false) allowed .initial twoFiles := by
  refine ((SuccessfulRun.after .refl (hallowed _).1 trivial ?_).after ((hallowed _).2 _)
    ?_ ?_).after ((hallowed _).2 _) ?_ ?_ <;> decide +kernel

theorem exactUsage_of_run_twoFiles : ExactUsage 1 twoFiles :=
  exactUsage_of_run (sampleEnv_lawful false) .refl (by simp [World.initial, Database.empty])
    rfl (twoFiles_run fun _ => ⟨trivial, fun _ => trivial⟩)

def deleteTwice : Operation := .delete (.paths sampleBucket (member 1) [['a'], ['a']])

/-- The counter says that nothing is left, and one file is. -/
theorem not_exactUsage_of_run :
    ¬∀ (w w' : World) (companyId : Nat), Reachable (sampleEnv false) w →
      (∀ o ∈ w.db.objects.rows, o.companyId ≠ companyId) → companyUsage w.db companyId = 0 →
      SuccessfulRun (sampleEnv false) (fun _ _ => True) w w' → ExactUsage companyId w' := by
  intro h
  have hrun : SuccessfulRun (sampleEnv false) (fun _ _ => True) .initial
      (deleteTwice.after (sampleEnv false) twoFiles) :=
    (twoFiles_run fun _ => ⟨trivial, fun _ => trivial⟩).after trivial (by decide +kernel)
      (by decide +kernel)
  have hexact : ExactUsage 1 (deleteTwice.after (sampleEnv false) twoFiles) :=
    h .initial _ 1 .refl (by simp [World.initial, Database.empty]) rfl hrun
  revert hexact
  unfold ExactUsage
  decide +kernel

end StorageService.Results
