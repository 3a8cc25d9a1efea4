import StorageService.Storage.Invariants

/-!
# What a successful operation did to the objects

Every operation that succeeds leaves the objects as they are, creates one,
overwrites one, removes some or rewrites their places.  Results about whole runs
go through these five cases.
-/

namespace StorageService.Storage

open StorageService.Foundation
open StorageService.Foundation.Action

variable {env : Env} {w w' : World}

structure Settled (w w' : World) : Prop where
  objects : w'.db.objects.rows = w.db.objects.rows
  blobs : w'.out.blobs = w.out.blobs
  usage : ∀ c, companyUsage w'.db c = companyUsage w.db c

theorem Settled.refl (w : World) : Settled w w := ⟨rfl, rfl, fun _ => rfl⟩

theorem Settled.trans {w₁ : World} (h : Settled w w₁) (h' : Settled w₁ w') :
    Settled w w' :=
  ⟨h'.objects.trans h.objects, h'.blobs.trans h.blobs,
    fun c => (h'.usage c).trans (h.usage c)⟩

theorem Settled.withFault (w : World) (fault : Option (Point × Nat)) :
    Settled w (w.withFault fault) := ⟨rfl, rfl, fun _ => rfl⟩

theorem companyUsage_congr {db db' : Database} (h : db'.companyQuotas = db.companyQuotas)
    (c : Nat) : companyUsage db' c = companyUsage db c := by
  rw [companyUsage, companyUsage, h]

theorem ContentKept.settled (h : ContentKept w w') : Settled w w' :=
  ⟨congrArg Table.rows h.objects, h.blobs, companyUsage_congr h.companyQuotas⟩

theorem GrantAdded.settled {g : GrantRow} (h : GrantAdded g w w') : Settled w w' :=
  ⟨congrArg Table.rows h.objects, h.blobs, companyUsage_congr h.companyQuotas⟩

theorem QuotasOnly.settled (h : QuotasOnly w w') (husage : SameUsage w w') : Settled w w' :=
  ⟨congrArg Table.rows h.objects, h.blobs, husage⟩

structure SameContent (o o' : StorageObject) : Prop where
  id : o'.id = o.id
  companyId : o'.companyId = o.companyId
  storageKey : o'.storageKey = o.storageKey
  size : o'.size = o.size
  etag : o'.etag = o.etag
  mimeType : o'.mimeType = o.mimeType

theorem sameContent_changed {id : UUID} {f : StorageObject → StorageObject}
    (hf : ∀ o, SameContent o (f o)) (o : StorageObject) :
    SameContent o (Database.changed id f o) := by
  by_cases hid : o.id = id
  · obtain ⟨-, hcompany, hkey, hsize, hetag, hmime⟩ := hf o
    simp only [Database.changed, hid, if_true]
    exact ⟨hid.symm, hcompany, hkey, hsize, hetag, hmime⟩
  · rw [Database.changed_of_ne hid]
    exact ⟨rfl, rfl, rfl, rfl, rfl, rfl⟩

theorem sameContent_relocated (destBucketId : UUID) (name : Text) (now : Time)
    (o : StorageObject) : SameContent o (relocated destBucketId name now o) :=
  ⟨rfl, rfl, rfl, rfl, rfl, rfl⟩

theorem sameContent_renamedRow (bucketId : UUID) (src dst : Text) (now : Time)
    (o : StorageObject) : SameContent o (renamedRow bucketId src dst now o) := by
  unfold renamedRow
  split <;> exact ⟨rfl, rfl, rfl, rfl, rfl, rfl⟩

inductive Outcome (env : Env) (w w' : World) : Operation → Prop where
  | settled {op : Operation} (h : Settled w w') : Outcome env w w' op
  | created {op : Operation} {obj : StorageObject} {data : Bytes} {w₁ w₂ : World}
      (before : Settled w w₁) (h : Created env w₁ obj data w₂) (after : Settled w₂ w') :
      Outcome env w w' op
  | overwrote {u : Upload} {existing obj : StorageObject} (loaded : u.bucket ∈ w.db.buckets.rows)
      (found : u.existing w.db = some existing)
      (h : Overwrote env w u.bucket existing obj u.data w') : Outcome env w w' (.upload u)
  | removed {d : Deletion} (h : Succeeds env (.delete d) w w') : Outcome env w w' (.delete d)
  | rewrote {op : Operation} {f : StorageObject → StorageObject}
      (same : ∀ o, SameContent o (f o)) (h : Rewrote f w w') : Outcome env w w' op

/-! ## One lemma per operation -/

theorem Upload.existing_eq {u : Upload} {db : Database} {name : Text}
    (hname : safeObjectPath u.path = .ok name) :
    u.existing db = db.objectNamed u.bucket.id name := by
  simp [Upload.existing, hname]

theorem Upload.existing_mem {u : Upload} {db : Database} {existing : StorageObject}
    (h : u.existing db = some existing) :
    existing ∈ db.objects.rows ∧ existing.bucketId = u.bucket.id := by
  unfold Upload.existing at h
  split at h
  · contradiction
  · obtain ⟨hmem, hbucketId, -⟩ := Database.objectNamed_eq_some h
    exact ⟨hmem, hbucketId⟩

theorem Upload.outcome {u : Upload} {obj : StorageObject} {fault : Option (Point × Nat)}
    (loaded : u.bucket ∈ w.db.buckets.rows)
    (h : (u.run env).Runs (w.withFault fault) obj w') : Outcome env w w' (.upload u) := by
  obtain ⟨name, hname, ⟨existing, hexisting, hoverwrote⟩ | ⟨-, hcreated, -⟩⟩ :=
    uploadObject_cases h
  · have hfound : u.existing w.db = some existing := by
      rw [Upload.existing_eq hname]
      exact hexisting
    exact .overwrote loaded hfound
      (hoverwrote.of_quotas (quotasOnly_lenient.fault w fault) fun _ => rfl)
  · exact .created (.withFault w fault) hcreated (.refl w')

theorem Upload.succeeds {u : Upload} {obj : StorageObject} {fault : Option (Point × Nat)}
    (loaded : u.bucket ∈ w.db.buckets.rows)
    (h : (u.run env).Runs (w.withFault fault) obj w') : Succeeds env (.upload u) w w' := by
  refine ⟨loaded, fault, ?_⟩
  simp only [Operation.run, runs_bind, runs_pure]
  exact ⟨obj, w', h, trivial, rfl⟩

theorem createGrant_outcome {principal : StoragePrincipal} {data : GrantRequest}
    {g : GrantRow} {op : Operation} {fault : Option (Point × Nat)}
    (h : (createGrant env principal data).Runs (w.withFault fault) g w') :
    Outcome env w w' op := by
  obtain ⟨fields, bucket, w₁, w₂, resource, -, hresolved, -, htarget, -, hadded⟩ :=
    createGrant_cases h
  have hbefore : Settled w w₁ :=
    (Settled.withFault w fault).trans hresolved.bucketsOnly.toContentKept.settled
  have hafter : Settled w₂ w' := hadded.settled
  cases htype : fields.resourceType with
  | bucket =>
      rw [htype, grantTarget, runs_pure] at htarget
      obtain ⟨-, rfl⟩ := htarget
      exact .settled (hbefore.trans hafter)
  | object =>
      simp only [htype, grantTarget, runs_bind, runs_database, runs_ofOption,
        runs_pure] at htarget
      obtain ⟨db, _, ⟨rfl, rfl⟩, target, _, ⟨-, rfl⟩, -, rfl⟩ := htarget
      exact .settled (hbefore.trans hafter)
  | folder =>
      simp only [htype, grantTarget, runs_bind, runs_pure] at htarget
      obtain ⟨marker, w₃, hmarker, -, rfl⟩ := htarget
      rcases ensureFolderMarker_cases hmarker with ⟨-, rfl⟩ | ⟨-, hcreated, -⟩
      · exact .settled (hbefore.trans hafter)
      · exact .created hbefore hcreated hafter

theorem runs_setCompanyLimit_sameUsage {companyId : Nat} {maxBytes : Int}
    {maxBytesPerUser : Option Int} {u : Unit}
    (h : (Operation.setCompanyLimit env companyId maxBytes maxBytesPerUser).Runs w u w') :
    SameUsage w w' := by
  simp only [Operation.setCompanyLimit, runs_bind, runs_modifyDatabase] at h
  obtain ⟨quota, w₁, hquota, rfl⟩ := h
  obtain ⟨hused, hsame⟩ := runs_getOrCreateCompanyQuota hquota
  intro c
  rw [companyUsage_setCompanyQuota]
  split
  · rename_i hc
    rw [hc]
    exact hused
  · exact hsame c

theorem companyUsage_setUserQuota (db : Database) (companyId userId : Nat) (q : UserQuota)
    (c : Nat) : companyUsage (db.setUserQuota companyId userId q) c = companyUsage db c := rfl

theorem Succeeds.outcome {op : Operation} (h : Succeeds env op w w') :
    Outcome env w w' op := by
  have hstart := h
  obtain ⟨loaded, fault, hrun⟩ := h
  have hfault := Settled.withFault w fault
  cases op with
  | upload u =>
      simp only [Operation.run, runs_bind, runs_pure] at hrun
      obtain ⟨obj, w₁, hupload, -, rfl⟩ := hrun
      exact u.outcome loaded hupload
  | delete d => exact .removed hstart
  | rename bucket source dest =>
      simp only [Operation.run, runs_bind, runs_pure] at hrun
      obtain ⟨result, w₁, hrename, -, rfl⟩ := hrun
      obtain ⟨_, _, -, -, -, ⟨-, rfl⟩ | ⟨-, -, hrewrote⟩⟩ := renameFolder_rewrote hrename
      · exact .settled hfault
      · exact .rewrote (sameContent_renamedRow _ _ _ _) hrewrote.of_withFault
  | move bucket source destBucket dest =>
      simp only [Operation.run, runs_bind, runs_pure] at hrun
      obtain ⟨moved, w₁, hmove, -, rfl⟩ := hrun
      obtain ⟨_, _, _, -, -, -, -, -, hrewrote, -⟩ := moveObject_rewrote hmove
      exact .rewrote (sameContent_changed (sameContent_relocated _ _ _))
        hrewrote.of_withFault
  | copy bucket source destBucket dest ownerId =>
      simp only [Operation.run, runs_bind, runs_pure] at hrun
      obtain ⟨obj, w₁, hcopy, -, rfl⟩ := hrun
      obtain ⟨_, _, _, _, -, -, -, -, -, hcreated, -⟩ := copyObject_created hcopy
      exact .created hfault hcreated (.refl w')
  | folderMarker bucket folderPath ownerId =>
      simp only [Operation.run, runs_bind, runs_pure] at hrun
      obtain ⟨obj, w₁, hmarker, -, rfl⟩ := hrun
      rcases ensureFolderMarker_cases hmarker with ⟨-, rfl⟩ | ⟨-, hcreated, -⟩
      · exact .settled hfault
      · exact .created hfault hcreated (.refl w')
  | createGrant principal data =>
      simp only [Operation.run, runs_bind, runs_pure] at hrun
      obtain ⟨g, w₁, hgrant, -, rfl⟩ := hrun
      exact createGrant_outcome hgrant
  | deleteGrant principal grantId =>
      exact .settled (hfault.trans ((deleteGrant_contentKept env _ _).runs hrun).settled)
  | companyBucket companyId =>
      simp only [Operation.run, runs_bind, runs_pure] at hrun
      obtain ⟨b, w₁, hensure, -, rfl⟩ := hrun
      exact .settled (hfault.trans
        ((ensureCompanyBucket_bucketsOnly env _).runs hensure).toContentKept.settled)
  | addBucket bucket =>
      exact .settled (hfault.trans
        ((addBucket_bucketsOnly env bucket).runs hrun).toContentKept.settled)
  | companyLimit companyId maxBytes maxBytesPerUser =>
      exact .settled (hfault.trans (((setCompanyLimit_quotasOnly env _ _ _).runs hrun).settled
        (runs_setCompanyLimit_sameUsage hrun)))
  | userLimit companyId userId maxBytes =>
      have hsame : SameUsage (w.withFault fault) w' := by
        simp only [Operation.run, Operation.setUserLimit, runs_modifyDatabase] at hrun
        rw [hrun]
        exact fun c => companyUsage_setUserQuota _ _ _ _ c
      exact .settled (hfault.trans (((setUserLimit_quotasOnly _ _ _).runs hrun).settled hsame))

/-! ## Sums over the rows -/

theorem add_sum_others {db : Database} {obj : StorageObject} (hobj : obj ∈ db.objects.rows)
    (weight : StorageObject → Nat) :
    weight obj + ((db.objects.rows.filter fun o => decide (o.id ≠ obj.id)).map weight).sum =
      (db.objects.rows.map weight).sum := by
  have hnodup : db.objects.rows.Nodup := db.objectIds_nodup.of_map
  have hothers : (db.objects.rows.filter fun o => decide (o.id ≠ obj.id)) =
      db.objects.rows.erase obj := by
    rw [hnodup.erase_eq_filter]
    apply List.filter_congr
    intro o ho
    have hiff : o.id = obj.id ↔ o = obj :=
      ⟨Database.object_eq_of_id ho hobj, congrArg StorageObject.id⟩
    rw [Bool.eq_iff_iff]
    simp [hiff]
  rw [hothers, List.sum_map_erase _ hobj]

theorem Overwrote.sum_eq {bucket : Bucket} {existing obj : StorageObject} {data : Bytes}
    (h : Overwrote env w bucket existing obj data w') (hmem : existing ∈ w.db.objects.rows)
    (weight : StorageObject → Nat) :
    (w'.db.objects.rows.map weight).sum + weight existing =
      (w.db.objects.rows.map weight).sum + weight obj := by
  obtain ⟨mimeType, ownerId, hobj⟩ := h.row
  have hid : obj.id = existing.id := by rw [hobj]; rfl
  have hrow : obj ∈ w'.db.objects.rows := by
    rw [h.objects]
    exact List.mem_map.mpr ⟨existing, hmem, by simp [Database.changed, ← hid]⟩
  have hothers : (w'.db.objects.rows.filter fun o => decide (o.id ≠ obj.id)) =
      w.db.objects.rows.filter fun o => decide (o.id ≠ existing.id) := by
    rw [h.objects, hid, List.filter_map]
    have hsame : (fun o : StorageObject => decide (o.id ≠ existing.id)) ∘
        Database.changed existing.id (fun _ => obj) =
        fun o => decide (o.id ≠ existing.id) := by
      funext o
      simp
    rw [hsame]
    refine (List.map_congr_left fun o ho => ?_).trans (List.map_id _)
    exact Database.changed_of_ne (by simpa using (List.mem_filter.mp ho).2)
  have hbefore := add_sum_others hmem weight
  have hafter := add_sum_others hrow weight
  rw [hothers] at hafter
  omega

theorem Removed.sum_eq {obj : StorageObject} (h : Removed w obj w')
    (hsame : ∀ o ∈ w.db.objects.rows, o.id = obj.id → o = obj) (weight : StorageObject → Nat)
    (hthere : weight obj ≠ 0 → obj ∈ w.db.objects.rows) :
    weight obj + (w'.db.objects.rows.map weight).sum = (w.db.objects.rows.map weight).sum := by
  rw [h.objects]
  by_cases hmem : obj ∈ w.db.objects.rows
  · exact add_sum_others hmem weight
  · have hzero : weight obj = 0 := by
      by_contra hne
      exact hmem (hthere hne)
    have hall : (w.db.objects.rows.filter fun o => decide (o.id ≠ obj.id)) =
        w.db.objects.rows := by
      rw [List.filter_eq_self]
      intro o ho
      simp only [decide_eq_true_eq]
      intro hid
      exact hmem (hsame o ho hid ▸ ho)
    rw [hall, hzero, zero_add]

/--
What every deletion keeps whose object is there or has no size, a batch keeps
that names each object of some size once.
-/
theorem runs_deletions_invariant {P : World → Prop} {objs : List StorageObject}
    (hsame : ∀ obj ∈ objs, ∀ o ∈ w.db.objects.rows, o.id = obj.id → o = obj)
    (hthere : ∀ obj ∈ objs, obj.size ≠ 0 → obj ∈ w.db.objects.rows)
    (honce : (objs.filter fun o => decide (o.size ≠ 0)).Nodup)
    (hdelete : ∀ {s s' : World} {obj : StorageObject}, P s →
      (∀ o ∈ s.db.objects.rows, o.id = obj.id → o = obj) →
      (obj.size ≠ 0 → obj ∈ s.db.objects.rows) → (deleteObject env obj).Runs s () s' → P s')
    (hw : P w) {u : Unit} (h : (forEach (deleteObject env) objs).Runs w u w') : P w' := by
  induction objs generalizing w with
  | nil =>
      rw [runs_forEach_nil] at h
      rwa [h]
  | cons obj objs ih =>
      rw [runs_forEach_cons] at h
      obtain ⟨w₁, hfirst, hrest⟩ := h
      rw [List.forall_mem_cons] at hsame hthere
      have hrows : ∀ o, o ∈ w₁.db.objects.rows ↔ o ∈ w.db.objects.rows ∧ o.id ≠ obj.id := by
        intro o
        rw [(deleteObject_removed hfirst).objects]
        simp
      refine ih ?_ ?_ ?_ (hdelete hw hsame.1 hthere.1 hfirst) hrest
      · intro x hx o ho
        exact hsame.2 x hx o ((hrows o).mp ho).1
      · intro x hx hsize
        have hmem := hthere.2 x hx hsize
        refine (hrows x).mpr ⟨hmem, fun hid => ?_⟩
        -- the row of the object just deleted would be named a second time
        have hx' : x = obj := hsame.1 x hmem hid
        rw [hx'] at hx hsize
        rw [List.filter_cons_of_pos (by simpa using hsize), List.nodup_cons] at honce
        exact honce.1 (List.mem_filter.mpr ⟨hx, by simpa using hsize⟩)
      · exact honce.sublist ((List.sublist_cons_self obj objs).filter _)

/-! ## Runs without failures -/

inductive SuccessfulStep (env : Env) (allowed : Database → Operation → Prop) (w : World) :
    World → Prop where
  | operation {op : Operation} {w' : World} (ok : allowed w.db op)
      (h : Succeeds env op w w') : SuccessfulStep env allowed w w'
  | clock (t : Time) (later : w.out.now ≤ t) :
      SuccessfulStep env allowed w { w with out := { w.out with now := t } }

def SuccessfulRun (env : Env) (allowed : Database → Operation → Prop) : World → World → Prop :=
  Relation.ReflTransGen (SuccessfulStep env allowed)

variable {allowed : Database → Operation → Prop}

theorem SuccessfulStep.step (h : SuccessfulStep env allowed w w') : Step env w w' := by
  cases h with
  | operation _ h => exact h.step
  | clock t later => exact .clock w t later

theorem SuccessfulRun.after (h : SuccessfulRun env allowed w w') {op : Operation}
    (ok : allowed w'.db op) (loaded : op.Loaded w'.db)
    (hok : (op.run env (w'.withFault none)).1.toOption.any (fun _ => true) = true) :
    SuccessfulRun env allowed w (op.after env w') :=
  h.tail (.operation ok (.after loaded hok))

theorem SuccessfulRun.invariant {P : World → Prop} (henv : env.Lawful) (hw : Sound env w)
    (hP : P w) (houtcome : ∀ {w w' op}, Sound env w → P w → allowed w.db op →
      Outcome env w w' op → P w')
    (hclock : ∀ w t, P w → P { w with out := { w.out with now := t } })
    (h : SuccessfulRun env allowed w w') : P w' := by
  have hboth : Sound env w' ∧ P w' := by
    induction h with
    | refl => exact ⟨hw, hP⟩
    | tail _ hstep ih =>
        refine ⟨hstep.step.sound henv ih.1, ?_⟩
        cases hstep with
        | operation ok h => exact houtcome ih.1 ih.2 ok h.outcome
        | clock t _ => exact hclock _ t ih.2
  exact hboth.2

end StorageService.Storage
