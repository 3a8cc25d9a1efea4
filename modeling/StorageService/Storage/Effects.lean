import StorageService.Storage.System

/-!
# What a successful call did

One lemma per operation, in terms of the rows, the blobs and the counter of the
company.  The results about operations use these and never unfold the
operations.
-/

namespace StorageService.Storage

open StorageService.Foundation
open StorageService.Foundation.Action

variable {env : Env} {s s' : World}

/-! ## Blobs -/

theorem Outside.save_withFault (env : Env) (key : Text) (data : Bytes) (out : Outside)
    (f : Option (Point × Nat)) :
    Outside.save env key data { out with fault := f } =
      { Outside.save env key data out with fault := f } := by
  unfold Outside.save
  split <;> rfl

theorem Outside.save_now (env : Env) (key : Text) (data : Bytes) (out : Outside) :
    (Outside.save env key data out).now = out.now := by
  unfold Outside.save
  split <;> rfl

theorem Outside.save_blobs_congr (env : Env) (key : Text) (data : Bytes) {out out' : Outside}
    (hblobs : out.blobs = out'.blobs) (hdrawn : out.drawn = out'.drawn) :
    (Outside.save env key data out).blobs = (Outside.save env key data out').blobs := by
  unfold Outside.save
  rw [hblobs, hdrawn]
  split <;> rfl

theorem Outside.lookup_save_self (henv : env.Lawful) (key : Text) (data : Bytes)
    (out : Outside) :
    (out.save env key data).blobs.lookup key = some data ↔
      env.s3Backend ∨ ∀ old, out.blobs.lookup key = some old → old = data := by
  unfold Outside.save
  split
  · rename_i hinsert
    simp only [AList.lookup_insert, true_iff]
    rcases hinsert with hs3 | hfree
    · exact .inl hs3
    · exact .inr fun old hold => by simp [hfree] at hold
  · rename_i htaken
    rw [not_or] at htaken
    obtain ⟨hfilesystem, htaken⟩ := htaken
    have hother : key ≠ env.availableName out.drawn out.blobs key := by
      intro heq
      rw [heq, henv.availableName_free] at htaken
      exact htaken rfl
    obtain ⟨old, hold⟩ := Option.ne_none_iff_exists'.mp htaken
    simp [AList.lookup_insert_ne hother, hold, hfilesystem]

theorem Outside.lookup_save_of_stored (henv : env.Lawful) {key k : Text} {data old : Bytes}
    {out : Outside} (hold : out.blobs.lookup k = some old) (hkeep : k ≠ key ∨ ¬env.s3Backend) :
    (out.save env key data).blobs.lookup k = some old := by
  unfold Outside.save
  split
  · rename_i hinsert
    have hne : k ≠ key := by
      rintro rfl
      rcases hinsert with hs3 | hfree
      · exact hkeep.elim (fun hne => hne rfl) fun hfilesystem => hfilesystem hs3
      · simp [hfree] at hold
    rw [AList.lookup_insert_ne hne, hold]
  · have hother : k ≠ env.availableName out.drawn out.blobs key := by
      intro heq
      rw [heq, henv.availableName_free] at hold
      contradiction
    rw [AList.lookup_insert_ne hother, hold]

theorem runs_saveBlob {key : Text} {data : Bytes} {u : Unit}
    (h : (saveBlob env key data).Runs s u s') :
    s'.db = s.db ∧ s'.out.blobs = (s.out.save env key data).blobs ∧
      s'.out.drawn = (s.out.save env key data).drawn ∧ s'.out.now = s.out.now := by
  simp only [saveBlob, runs_bind, runs_reachOr, runs_modifyOutside] at h
  obtain ⟨_, s₁, ⟨out, hvisit, rfl⟩, _, s₂, rfl, out', hvisit', rfl⟩ := h
  rw [Outside.visit_eq_some hvisit', Outside.visit_eq_some hvisit, Outside.save_withFault]
  exact ⟨rfl, rfl, rfl, Outside.save_now env key data s.out⟩

theorem runs_saveBlob_fault {key : Text} {data : Bytes} {u : Unit}
    (h : (saveBlob env key data).Runs s u s') : s.out.fault ≠ some (.blobWrite, 0) := by
  simp only [saveBlob, runs_bind, runs_reachOr] at h
  obtain ⟨_, _, ⟨out, hvisit, rfl⟩, -⟩ := h
  intro hfault
  simp [Outside.visit_eq_none.mpr hfault] at hvisit

theorem fails_saveBlob {key : Text} {data : Bytes}
    (h : (saveBlob env key data).Fails s s') :
    s.out.fault = some (.blobWrite, 0) ∧ s' = s ∨
      s.out.fault ≠ some (.blobWrite, 0) ∧ s'.db = s.db ∧
        s'.out.blobs = (s.out.save env key data).blobs := by
  simp only [saveBlob, fails_bind, fails_reachOr, runs_reachOr, fails_modifyOutside,
    runs_modifyOutside, false_or] at h
  rcases h with ⟨hfault, rfl⟩ | ⟨_, _, ⟨out, hvisit, rfl⟩, _, _, rfl, -, rfl⟩
  · exact .inl ⟨hfault, rfl⟩
  · refine .inr ⟨fun hfault => ?_, rfl, ?_⟩
    · simp [Outside.visit_eq_none.mpr hfault] at hvisit
    · rw [Outside.visit_eq_some hvisit, Outside.save_withFault]

theorem runs_deleteStorageKey {key : Text} {u : Unit}
    (h : (deleteStorageKey key).Runs s u s') :
    s'.db = s.db ∧ s'.out.blobs = s.out.blobs.erase key ∧ s'.out.drawn = s.out.drawn ∧
      s'.out.now = s.out.now := by
  simp only [deleteStorageKey, reach, runs_bind, runs_reachOr, runs_modifyOutside] at h
  obtain ⟨_, s₁, ⟨out, hvisit, rfl⟩, _, s₂, rfl, out', hvisit', rfl⟩ := h
  rw [Outside.visit_eq_some hvisit', Outside.visit_eq_some hvisit]
  exact ⟨rfl, rfl, rfl, rfl⟩

theorem runs_deleteStorageKey_fault {key : Text} {u : Unit}
    (h : (deleteStorageKey key).Runs s u s') : s.out.fault ≠ some (.blobDelete, 0) := by
  simp only [deleteStorageKey, reach, runs_bind, runs_reachOr] at h
  obtain ⟨_, _, ⟨out, hvisit, rfl⟩, -⟩ := h
  intro hfault
  simp [Outside.visit_eq_none.mpr hfault] at hvisit

theorem fails_deleteStorageKey {key : Text} (h : (deleteStorageKey key).Fails s s') :
    s.out.fault = some (.blobDelete, 0) ∧ s'.out.blobs = s.out.blobs ∨
      s.out.fault ≠ some (.blobDelete, 0) ∧ s'.out.blobs = s.out.blobs.erase key := by
  simp only [deleteStorageKey, reach, fails_bind, fails_reachOr, runs_reachOr,
    fails_modifyOutside, runs_modifyOutside, false_or] at h
  rcases h with ⟨hfault, rfl⟩ | ⟨_, _, ⟨out, hvisit, rfl⟩, _, _, rfl, -, rfl⟩
  · exact .inl ⟨hfault, rfl⟩
  · refine .inr ⟨fun hfault => ?_, ?_⟩
    · simp [Outside.visit_eq_none.mpr hfault] at hvisit
    · rw [Outside.visit_eq_some hvisit]

/-! ## New objects -/

theorem runs_createStored {bucket : Bucket} {name : Text} {data : Bytes}
    {ownerId : Option Nat} {size : Nat} {etag mimeType : Text} {obj : StorageObject}
    (h : (createStored env bucket name data ownerId size etag mimeType).Runs s obj s') :
    obj.id = env.uuid4 s.out.drawn ∧
      obj.storageKey = buildStorageKey env bucket.companyId bucket.name name obj.id ∧
      (obj.bucketId = bucket.id ∧ obj.name = name ∧ obj.companyId = bucket.companyId ∧
        obj.ownerId = ownerId ∧ obj.size = size ∧ obj.etag = etag ∧
        obj.mimeType = mimeType) ∧
      s.db.createObject obj = some s'.db ∧
      s'.out.blobs = (Outside.save env obj.storageKey data
        { s.out with drawn := s.out.drawn + 1 }).blobs ∧
      s'.out.drawn = (Outside.save env obj.storageKey data
        { s.out with drawn := s.out.drawn + 1 }).drawn ∧
      s'.out.now = s.out.now := by
  simp only [createStored, runs_bind, runs_drawUuid, runs_outside, runs_execute,
    runs_pure] at h
  obtain ⟨id, s₁, ⟨rfl, rfl⟩, _, s₂, hsave, out, _, ⟨rfl, rfl⟩, _, s₄,
    ⟨out', db, hvisit, hcreate, rfl⟩, rfl, rfl⟩ := h
  obtain ⟨hdb, hblobs, hdrawn, hnow⟩ := runs_saveBlob hsave
  rw [hdb] at hcreate
  have hout := Outside.visit_eq_some hvisit
  refine ⟨rfl, rfl, ⟨rfl, rfl, rfl, rfl, rfl, rfl, rfl⟩, hcreate, ?_, ?_, ?_⟩
  · rw [hout]
    exact hblobs
  · rw [hout]
    exact hdrawn
  · rw [hout]
    exact hnow

structure Created (env : Env) (s : World) (obj : StorageObject) (data : Bytes)
    (s' : World) : Prop where
  drawn : obj.id = env.uuid4 s.out.drawn
  free : s.db.objects.Free obj
  owned : OwnedBy obj.id obj.storageKey
  buckets : s'.db.buckets = s.db.buckets
  objects : s'.db.objects.rows = s.db.objects.rows ++ [obj]
  grants : ∃ new, s'.db.grants.rows = s.db.grants.rows ++ new ∧
    ∀ g ∈ new, g.resource = ownResource obj
  blobs : s'.out.blobs = (Outside.save env obj.storageKey data
    { s.out with drawn := s.out.drawn + 1 }).blobs
  now : s'.out.now = s.out.now
  usage : ∀ c, 0 ≤ companyUsage s.db c → companyUsage s'.db c =
    if c = obj.companyId then max 0 (companyUsage s.db c + obj.size)
    else companyUsage s.db c

theorem Created.of_quotas {s₁ : World} {obj : StorageObject} {data : Bytes}
    (hq : QuotasOnly s s₁) (husage : SameUsage s s₁) (h : Created env s₁ obj data s') :
    Created env s obj data s' where
  drawn := by rw [h.drawn, hq.drawn]
  free := by simpa only [Table.Free, hq.objects] using h.free
  owned := h.owned
  buckets := by rw [h.buckets, hq.buckets]
  objects := by rw [h.objects, hq.objects]
  grants := by simpa only [hq.grants] using h.grants
  blobs := by
    rw [h.blobs]
    exact Outside.save_blobs_congr env _ _ hq.blobs (by simp [hq.drawn])
  now := by rw [h.now, hq.now]
  usage c hfloor := by
    have hafter := h.usage c
    rw [husage] at hafter
    exact hafter hfloor

theorem createFile_created {bucket : Bucket} {name : Text} {data : Bytes}
    {ownerId : Option Nat} {size : Nat} {etag mimeType : Text} {obj : StorageObject}
    (h : (createFile env bucket name data ownerId size etag mimeType).Runs s obj s') :
    Created env s obj data s' ∧ (obj.bucketId = bucket.id ∧ obj.name = name ∧
      obj.companyId = bucket.companyId ∧ obj.ownerId = ownerId ∧ obj.size = size ∧
      obj.etag = etag ∧ obj.mimeType = mimeType) := by
  simp only [createFile, reach, runs_bind, runs_reachOr, runs_pure] at h
  obtain ⟨o, s₁, hstored, _, s₂, husage, _, s₃, hprivate, _, s₄, ⟨out, hvisit, rfl⟩,
    rfl, rfl⟩ := h
  obtain ⟨hid, hkey, hfields, hcreate, hblobs, -, hnow⟩ := runs_createStored hstored
  obtain ⟨hbuckets, hobjects, hgrants, hquotas, -, hfree⟩ :=
    Database.createObject_eq_some hcreate
  have hq := (applyUsageDelta_quotasOnly env bucket.companyId obj.ownerId size).runs husage
  have hp := (applyDefaultPrivateOnCreate_addsGrantsOn env obj obj.ownerId).runs hprivate
  have hout := Outside.visit_eq_some hvisit
  have hsame : ∀ c, companyUsage s₁.db c = companyUsage s.db c := fun c => by
    rw [companyUsage, hquotas]
    rfl
  refine ⟨⟨hid, hfree, ?_, ?_, ?_, ?_, ?_, ?_, ?_⟩, hfields⟩
  · rw [hkey]
    exact ownedBy_buildStorageKey env bucket.companyId bucket.name name obj.id
  · rw [hp.buckets, hq.buckets, hbuckets]
  · rw [hp.objects, hq.objects, hobjects]
  · obtain ⟨new, hnew, hon⟩ := hp.grants
    exact ⟨new, by rw [hnew, hq.grants, hgrants], hon⟩
  · rw [hout]
    exact (hp.blobs.trans hq.blobs).trans hblobs
  · rw [hout]
    exact (hp.now.trans hq.now).trans hnow
  · intro c hfloor
    have hdelta := runs_applyUsageDelta husage (c := c) (by rwa [hsame])
    rw [← hfields.2.2.1, hsame] at hdelta
    have hthird : companyUsage s₃.db c = companyUsage s₂.db c := by
      rw [companyUsage, hp.companyQuotas]
      rfl
    rw [hthird, hdelta, hfields.2.2.2.2.1]

theorem createFile_private {bucket : Bucket} {name : Text} {data : Bytes}
    {ownerId : Option Nat} {size : Nat} {etag mimeType : Text} {obj : StorageObject}
    (h : (createFile env bucket name data ownerId size etag mimeType).Runs s obj s') :
    ∃ s₁ s₂, (s₁.db.buckets = s.db.buckets ∧
        s₁.db.objects.rows = s.db.objects.rows ++ [obj] ∧ s₁.db.grants = s.db.grants ∧
        s₁.out.now = s.out.now) ∧
      (applyDefaultPrivateOnCreate env obj ownerId).Runs s₁ () s₂ ∧ s'.db = s₂.db := by
  simp only [createFile, reach, runs_bind, runs_reachOr, runs_pure] at h
  obtain ⟨o, s₁, hstored, _, s₂, husage, _, s₃, hprivate, _, s₄, ⟨out, hvisit, rfl⟩,
    rfl, rfl⟩ := h
  obtain ⟨-, -, ⟨-, -, -, howner, -⟩, hcreate, -, -, hnow⟩ := runs_createStored hstored
  obtain ⟨hbuckets, hobjects, hgrants, -⟩ := Database.createObject_eq_some hcreate
  have hq := (applyUsageDelta_quotasOnly env bucket.companyId obj.ownerId size).runs husage
  rw [howner] at hprivate
  exact ⟨s₂, s₃, ⟨hq.buckets.trans hbuckets, by rw [hq.objects, hobjects],
    hq.grants.trans hgrants, hq.now.trans hnow⟩, hprivate, rfl⟩

theorem createFile_grants {bucket : Bucket} {name : Text} {data : Bytes}
    {ownerId : Option Nat} {size : Nat} {etag mimeType : Text} {obj : StorageObject}
    (h : (createFile env bucket name data ownerId size etag mimeType).Runs s obj s') :
    ∃ new, s'.db.grants.rows = s.db.grants.rows ++ new ∧
      ∀ g ∈ new, ownerId ≠ none ∧ GrantedOn obj (ownResource obj) g := by
  obtain ⟨s₁, s₂, ⟨-, -, hgrants, -⟩, hprivate, hdb⟩ := createFile_private h
  obtain ⟨new, hnew, hon⟩ :=
    ((applyDefaultPrivateOnCreate_addsGrants env obj ownerId).runs hprivate).grants
  exact ⟨new, by rw [hdb, hnew, hgrants], hon⟩

theorem ensureFolderMarker_cases {bucket : Bucket} {folderPath : Text}
    {ownerId : Option Nat} {obj : StorageObject}
    (h : (ensureFolderMarker env bucket folderPath ownerId).Runs s obj s') :
    (s.db.objectNamed bucket.id (folderPlaceholderPath folderPath) = some obj ∧ s' = s) ∨
      (s.db.objectNamed bucket.id (folderPlaceholderPath folderPath) = none ∧
        Created env s obj [] s' ∧ s'.db.grants = s.db.grants ∧ obj.size = 0 ∧
        obj.bucketId = bucket.id ∧ obj.name = folderPlaceholderPath folderPath ∧
        obj.companyId = bucket.companyId ∧ obj.etag = [] ∧ obj.mimeType = octetStream) := by
  simp only [ensureFolderMarker, runs_bind, runs_database] at h
  obtain ⟨db, s₁, ⟨rfl, rfl⟩, h⟩ := h
  cases hfound : s₁.db.objectNamed bucket.id (folderPlaceholderPath folderPath) with
  | some existing =>
      simp only [hfound, runs_pure] at h
      obtain ⟨rfl, rfl⟩ := h
      exact .inl ⟨rfl, rfl⟩
  | none =>
      simp only [hfound] at h
      obtain ⟨hid, hkey, ⟨hbucketId, hname, hcompany, -, hsize, hdescribed⟩, hcreate, hblobs, -,
        hnow⟩ := runs_createStored h
      obtain ⟨hbuckets, hobjects, hgrants, hquotas, -, hfree⟩ :=
        Database.createObject_eq_some hcreate
      refine .inr ⟨rfl, ⟨hid, hfree, ?_, hbuckets, hobjects, ⟨[], by simp [hgrants]⟩,
        hblobs, hnow, ?_⟩, hgrants, hsize, hbucketId, hname, hcompany, hdescribed⟩
      · rw [hkey]
        exact ownedBy_buildStorageKey env _ _ _ obj.id
      · intro c hfloor
        rw [companyUsage, hquotas, hsize]
        split
        · rename_i hc
          subst hc
          rw [Nat.cast_zero, add_zero, max_eq_right hfloor]
          rfl
        · rfl

/-! ## Uploads -/

structure Overwrote (env : Env) (s : World) (bucket : Bucket) (existing obj : StorageObject)
    (data : Bytes) (s' : World) : Prop where
  row : ∃ mimeType ownerId,
    obj = overwritten env existing mimeType data ownerId s.out.now
  buckets : s'.db.buckets = s.db.buckets
  objects : s'.db.objects.rows =
    s.db.objects.rows.map (Database.changed existing.id fun _ => obj)
  grants : s'.db.grants = s.db.grants
  blobs : s'.out.blobs = (s.out.save env existing.storageKey data).blobs
  now : s'.out.now = s.out.now
  usage : ∀ c, 0 ≤ companyUsage s.db c → companyUsage s'.db c =
    if c = bucket.companyId then
      max 0 (companyUsage s.db c + ((data.length : Int) - existing.size))
    else companyUsage s.db c

theorem Overwrote.of_quotas {s₁ : World} {bucket : Bucket} {existing obj : StorageObject}
    {data : Bytes} (hq : QuotasOnly s s₁) (husage : SameUsage s s₁)
    (h : Overwrote env s₁ bucket existing obj data s') :
    Overwrote env s bucket existing obj data s' where
  row := by simpa only [hq.now] using h.row
  buckets := by rw [h.buckets, hq.buckets]
  objects := by rw [h.objects, hq.objects]
  grants := by rw [h.grants, hq.grants]
  blobs := by
    rw [h.blobs]
    exact Outside.save_blobs_congr env _ _ hq.blobs hq.drawn
  now := by rw [h.now, hq.now]
  usage c hfloor := by
    have hafter := h.usage c
    rw [husage] at hafter
    exact hafter hfloor

theorem overwriteObject_overwrote {bucket : Bucket} {existing obj : StorageObject}
    {mimeType : Text} {data : Bytes} {ownerId : Option Nat}
    (h : (overwriteObject env bucket existing mimeType data ownerId).Runs s obj s') :
    Overwrote env s bucket existing obj data s' := by
  simp only [overwriteObject, reach, runs_bind, runs_outside, runs_execute, runs_reachOr,
    runs_pure] at h
  obtain ⟨_, s₁, hsave, out, _, ⟨rfl, rfl⟩, _, s₃, ⟨out', db, hvisit, hupdate, rfl⟩, _, s₄,
    husage, _, s₅, ⟨out'', hvisit', rfl⟩, rfl, rfl⟩ := h
  obtain ⟨hdb, hblobs, -, hnow⟩ := runs_saveBlob hsave
  rw [hdb] at hupdate
  obtain ⟨hbuckets, hobjects, hgrants, hquotas, -⟩ :=
    Database.updateObject_eq_some hupdate
  have hq := (applyUsageDelta_quotasOnly env _ _ _).runs husage
  have hout' := Outside.visit_eq_some hvisit
  have hout'' := Outside.visit_eq_some hvisit'
  have hsame : ∀ c, companyUsage db c = companyUsage s.db c := fun c => by
    rw [companyUsage, hquotas]
    rfl
  refine ⟨⟨mimeType, ownerId, by rw [hnow]⟩, ?_, ?_, ?_, ?_, ?_, ?_⟩
  · rw [hq.buckets, hbuckets]
  · rw [hq.objects, hobjects]
  · rw [hq.grants, hgrants]
  · rw [hout'', ← hblobs]
    exact hq.blobs.trans (by rw [hout'])
  · rw [hout'', ← hnow]
    exact hq.now.trans (by rw [hout'])
  · intro c hfloor
    have hdelta := runs_applyUsageDelta husage (c := c) (by rwa [hsame])
    simpa only [hsame] using hdelta

theorem runs_overwriteObject_row {bucket : Bucket} {existing obj : StorageObject}
    {mimeType : Text} {data : Bytes} {ownerId : Option Nat}
    (h : (overwriteObject env bucket existing mimeType data ownerId).Runs s obj s') :
    obj = overwritten env existing mimeType data ownerId s.out.now := by
  simp only [overwriteObject, runs_bind, runs_outside, runs_pure] at h
  obtain ⟨_, s₁, hsave, out, _, ⟨rfl, rfl⟩, _, _, -, _, _, -, _, _, -, rfl, -⟩ := h
  rw [(runs_saveBlob hsave).2.2.2]

theorem runs_uploadObject_checked {bucket : Bucket} {path : Text} {data : Bytes}
    {ownerId : Option Nat} {contentType : Option Text} {upsert : Bool} {obj : StorageObject}
    (h : (uploadObject env bucket path data ownerId contentType upsert).Runs s obj s') :
    ∃ name s₁, safeObjectPath path = .ok name ∧
      mimeAllowed env (normalizeMimeType env contentType name) bucket.allowedMimeTypes = true ∧
      data.length ≤ uploadLimit env bucket ∧
      (assertCanStore env bucket.companyId ownerId data.length
        (((s.db.objectNamed bucket.id name).map StorageObject.size).getD 0)).Runs s () s₁ ∧
      ((∃ existing, s.db.objectNamed bucket.id name = some existing ∧
          (overwriteObject env bucket existing (normalizeMimeType env contentType name) data
            ownerId).Runs s₁ obj s') ∨
        s.db.objectNamed bucket.id name = none ∧
          (createFile env bucket name data ownerId data.length (contentEtag env data)
            (normalizeMimeType env contentType name)).Runs s₁ obj s') := by
  simp only [uploadObject, runs_atomic, runs_bind, runs_ofExcept, runs_ensure,
    runs_database] at h
  obtain ⟨name, _, ⟨hname, rfl⟩, _, _, ⟨hmime, rfl⟩, db, _, ⟨rfl, rfl⟩, _, _, ⟨-, rfl⟩, _, s₀,
    ⟨hsize, rfl⟩, _, s₁, hquota, h⟩ := h
  refine ⟨name, s₁, hname, hmime, hsize, hquota, ?_⟩
  cases hexisting : s₀.db.objectNamed bucket.id name with
  | some existing =>
      simp only [hexisting] at h
      exact .inl ⟨existing, rfl, h⟩
  | none =>
      simp only [hexisting] at h
      exact .inr ⟨rfl, h⟩

theorem runs_uploadObject {bucket : Bucket} {path : Text} {data : Bytes}
    {ownerId : Option Nat} {contentType : Option Text} {upsert : Bool} {obj : StorageObject}
    (h : (uploadObject env bucket path data ownerId contentType upsert).Runs s obj s') :
    ∃ name mimeType s₁, safeObjectPath path = .ok name ∧
      (assertCanStore env bucket.companyId ownerId data.length
        (((s.db.objectNamed bucket.id name).map StorageObject.size).getD 0)).Runs s () s₁ ∧
      ((∃ existing, s.db.objectNamed bucket.id name = some existing ∧
          (overwriteObject env bucket existing mimeType data ownerId).Runs s₁ obj s') ∨
        s.db.objectNamed bucket.id name = none ∧
          (createFile env bucket name data ownerId data.length (contentEtag env data)
            mimeType).Runs s₁ obj s') := by
  obtain ⟨name, s₁, hname, -, -, hquota, hcases⟩ := runs_uploadObject_checked h
  exact ⟨name, _, s₁, hname, hquota, hcases⟩

theorem uploadObject_cases {bucket : Bucket} {path : Text} {data : Bytes}
    {ownerId : Option Nat} {contentType : Option Text} {upsert : Bool} {obj : StorageObject}
    (h : (uploadObject env bucket path data ownerId contentType upsert).Runs s obj s') :
    ∃ name, safeObjectPath path = .ok name ∧
      ((∃ existing, s.db.objectNamed bucket.id name = some existing ∧
          Overwrote env s bucket existing obj data s') ∨
        s.db.objectNamed bucket.id name = none ∧ Created env s obj data s' ∧
          obj.bucketId = bucket.id ∧ obj.name = name ∧ obj.companyId = bucket.companyId ∧
          obj.size = data.length ∧ obj.etag = contentEtag env data) := by
  obtain ⟨name, mimeType, s₁, hname, hquota, hcases⟩ := runs_uploadObject h
  have hq := (assertCanStore_quotasOnly env _ _ _ _).runs hquota
  have husage := (assertCanStore_sameUsage env _ _ _ _).runs hquota
  refine ⟨name, hname, ?_⟩
  rcases hcases with ⟨existing, hexisting, h⟩ | ⟨hnone, h⟩
  · exact .inl ⟨existing, hexisting, (overwriteObject_overwrote h).of_quotas hq husage⟩
  · obtain ⟨hcreated, hbucketId, hname', hcompany, -, hsize, hetag, -⟩ := createFile_created h
    exact .inr ⟨hnone, hcreated.of_quotas hq husage, hbucketId, hname', hcompany, hsize, hetag⟩

theorem overwriteObject_row {bucket : Bucket} {existing obj : StorageObject} {mimeType : Text}
    {data : Bytes} {ownerId : Option Nat}
    (h : (overwriteObject env bucket existing mimeType data ownerId).Runs s obj s') :
    ∃ now, obj = overwritten env existing mimeType data ownerId now := by
  simp only [overwriteObject, reach, runs_bind, runs_outside, runs_execute, runs_reachOr,
    runs_pure] at h
  obtain ⟨_, _, -, _, _, -, _, _, -, _, _, -, _, _, -, rfl, -⟩ := h
  exact ⟨_, rfl⟩

theorem uploadObject_describes {bucket : Bucket} {path name : Text} {data : Bytes}
    {ownerId : Option Nat} {contentType : Option Text} {upsert : Bool} {obj : StorageObject}
    (h : (uploadObject env bucket path data ownerId contentType upsert).Runs s obj s')
    (hname : safeObjectPath path = .ok name) :
    obj.size = data.length ∧ obj.etag = contentEtag env data ∧
      obj.mimeType = normalizeMimeType env contentType name := by
  obtain ⟨name', s₁, hname', -, -, -, ⟨existing, -, h⟩ | ⟨-, h⟩⟩ := runs_uploadObject_checked h
  · obtain rfl : name' = name := Except.ok.inj (hname'.symm.trans hname)
    obtain ⟨now, rfl⟩ := overwriteObject_row h
    exact ⟨rfl, rfl, rfl⟩
  · obtain rfl : name' = name := Except.ok.inj (hname'.symm.trans hname)
    obtain ⟨-, -, -, -, -, hsize, hetag, hmime⟩ := createFile_created h
    exact ⟨hsize, hetag, hmime⟩

/-! ### Failing overwrites -/

def SameBlobs (s s' : World) : Prop := s'.out.blobs = s.out.blobs

theorem sameBlobs_lenient : Lenient SameBlobs where
  refl _ := rfl
  trans h h' := Eq.trans h' h
  rollback h := h
  fault _ _ := rfl

def Upload.StopsBeforeWrite (env : Env) (db : Database) (fault : Option (Point × Nat))
    (u : Upload) (existing : StorageObject) : Prop :=
  mimeAllowed env (normalizeMimeType env u.contentType existing.name)
      u.bucket.allowedMimeTypes = false ∨
    u.upsert = false ∨ uploadLimit env u.bucket < u.data.length ∨
    QuotaExceeded env db u.bucket.companyId u.ownerId u.data.length existing.size ∨
    existing.size < u.data.length ∧ fault = some (.quotaCheck, 0) ∨
    fault = some (.blobWrite, 0)

/-- A failing overwrite has saved the new data unless it failed before that. -/
theorem fails_overwriteObject {bucket : Bucket} {existing : StorageObject} {mimeType : Text}
    {data : Bytes} {ownerId : Option Nat}
    (h : (overwriteObject env bucket existing mimeType data ownerId).Fails s s') :
    s.out.fault = some (.blobWrite, 0) ∧ s'.out.blobs = s.out.blobs ∨
      s.out.fault ≠ some (.blobWrite, 0) ∧
        s'.out.blobs = (s.out.save env existing.storageKey data).blobs := by
  rw [overwriteObject, fails_bind] at h
  rcases h with hfail | ⟨_, s₁, hsave, hrest⟩
  · rcases fails_saveBlob hfail with ⟨hfault, rfl⟩ | ⟨hfault, -, hblobs⟩
    · exact .inl ⟨hfault, rfl⟩
    · exact .inr ⟨hfault, hblobs⟩
  · have hC := sameBlobs_lenient.toComposable
    have hsame : SameBlobs s₁ s' := by
      refine Within.fails (Within.bind hC (Within.outside hC) fun out => ?_) hrest
      refine Within.bind hC (within_execute sameBlobs_lenient fun _ _ _ => rfl) fun _ => ?_
      refine Within.bind hC ((applyUsageDelta_quotasOnly env _ _ _).mono
        QuotasOnly.blobs) fun _ => ?_
      exact Within.bind hC (within_reachOr sameBlobs_lenient _ _) fun _ => Within.pure hC _
    obtain ⟨-, hblobs, -⟩ := runs_saveBlob hsave
    exact .inr ⟨runs_saveBlob_fault hsave, hsame.trans hblobs⟩

theorem Upload.fails_cases {u : Upload} {existing : StorageObject}
    (hfound : u.existing s.db = some existing) (h : (u.run env).Fails s s') :
    s'.db = s.db ∧
      (u.StopsBeforeWrite env s.db s.out.fault existing ∧ s'.out.blobs = s.out.blobs ∨
        ¬u.StopsBeforeWrite env s.db s.out.fault existing ∧
          s'.out.blobs = (s.out.save env existing.storageKey u.data).blobs) := by
  rw [Upload.run, uploadObject, fails_atomic] at h
  obtain ⟨s₁, h, rfl⟩ := h
  refine ⟨rfl, ?_⟩
  cases hname : safeObjectPath u.path with
  | error e => simp [Upload.existing, hname] at hfound
  | ok name =>
      have hexisting : s.db.objectNamed u.bucket.id name = some existing := by
        simpa [Upload.existing, hname] using hfound
      obtain ⟨-, -, rfl⟩ := Database.objectNamed_eq_some hexisting
      simp only [hname, fails_bind, fails_ofExcept, runs_ofExcept, fails_ensure, runs_ensure,
        fails_database, runs_database, false_or, reduceCtorEq, exists_false, false_and,
        Except.ok.injEq] at h
      obtain ⟨_, _, ⟨rfl, rfl⟩, ⟨hmime, rfl⟩ | ⟨_, _, ⟨hmime, rfl⟩, db, _, ⟨rfl, rfl⟩,
        ⟨hupsert, rfl⟩ | ⟨_, _, ⟨hupsert, rfl⟩, ⟨hsize, rfl⟩ | ⟨_, s₂, ⟨hsize, rfl⟩, h⟩⟩⟩⟩ := h
      · exact .inl ⟨.inl (by simpa using hmime), rfl⟩
      · rw [not_or, Bool.not_eq_true] at hupsert
        exact .inl ⟨.inr (.inl hupsert.2), rfl⟩
      · exact .inl ⟨.inr (.inr (.inl (not_le.mp hsize))), rfl⟩
      · simp only [hexisting, Option.map_some, Option.getD_some, reduceCtorEq, false_or]
          at h hupsert
        have hquota := assertCanStore_quotasOnly env u.bucket.companyId u.ownerId u.data.length
          existing.size
        rcases h with hfail | ⟨_, s₃, hrun, hoverwrite⟩
        · refine .inl ⟨.inr (.inr (.inr ?_)), (hquota.fails hfail).blobs⟩
          rcases fails_assertCanStore hfail with hexceeded | hfault
          · exact .inl hexceeded
          · exact .inr (.inl hfault)
        · obtain ⟨hnot, hpassed⟩ := runs_assertCanStore hrun
          have hsame := hquota.runs hrun
          have hwrite : s₃.out.fault = some (.blobWrite, 0) ↔
              s₂.out.fault = some (.blobWrite, 0) := by
            rcases hpassed with ⟨-, hout⟩ | ⟨-, hvisit⟩
            · rw [hout]
            · exact Outside.visit_fault_of_ne (by decide) hvisit 0
          rcases fails_overwriteObject hoverwrite with ⟨hfault, hblobs⟩ | ⟨hfault, hblobs⟩
          · refine .inl ⟨?_, hblobs.trans hsame.blobs⟩
            exact .inr (.inr (.inr (.inr (.inr (hwrite.mp hfault)))))
          · refine .inr ⟨?_, hblobs.trans
              (Outside.save_blobs_congr env _ _ hsame.blobs hsame.drawn)⟩
            rintro (hstop | hstop | hstop | hstop | ⟨hlarger, hstop⟩ | hstop)
            · simp [hmime] at hstop
            · simp [hupsert] at hstop
            · omega
            · exact hnot hstop
            · rcases hpassed with ⟨hle, -⟩ | ⟨-, hvisit⟩
              · omega
              · simp [Outside.visit_eq_none.mpr hstop] at hvisit
            · exact hfault (hwrite.mpr hstop)

/-! ## Copies -/

theorem runs_copyObject {bucket destBucket : Bucket} {sourcePath destPath : Text}
    {ownerId : Option Nat} {obj : StorageObject}
    (h : (copyObject env bucket sourcePath destBucket destPath ownerId).Runs s obj s') :
    ∃ sourceName destName src data s₁, safeObjectPath sourcePath = .ok sourceName ∧
      safeObjectPath destPath = .ok destName ∧
      s.db.objectNamed bucket.id sourceName = some src ∧
      s.db.objectNamed destBucket.id destName = none ∧
      bucket.companyId = destBucket.companyId ∧
      (assertCanStore env destBucket.companyId ownerId src.size 0).Runs s () s₁ ∧
      s₁.out.blobs.lookup src.storageKey = some data ∧
      (createFile env destBucket destName data (ownerId <|> src.ownerId) src.size src.etag
        src.mimeType).Runs s₁ obj s' := by
  simp only [copyObject, openBlob, runs_atomic, runs_bind, runs_ofExcept, runs_ofOption,
    runs_ensure, runs_database, runs_outside] at h
  obtain ⟨sourceName, _, ⟨hsource, rfl⟩, destName, _, ⟨hdest, rfl⟩, db, _, ⟨rfl, rfl⟩, src,
    _, ⟨hsrc, rfl⟩, _, _, ⟨hfree, rfl⟩, _, _, ⟨hcompany, rfl⟩, _, s₁, hquota, data, _,
    ⟨out, _, ⟨rfl, rfl⟩, hdata, rfl⟩, h⟩ := h
  exact ⟨sourceName, destName, src, data, _, hsource, hdest, hsrc, hfree, hcompany, hquota,
    hdata, h⟩

theorem copyObject_created {bucket destBucket : Bucket} {sourcePath destPath : Text}
    {ownerId : Option Nat} {obj : StorageObject}
    (h : (copyObject env bucket sourcePath destBucket destPath ownerId).Runs s obj s') :
    ∃ sourceName destName src data, safeObjectPath sourcePath = .ok sourceName ∧
      safeObjectPath destPath = .ok destName ∧
      s.db.objectNamed bucket.id sourceName = some src ∧
      s.db.objectNamed destBucket.id destName = none ∧
      s.out.blobs.lookup src.storageKey = some data ∧ Created env s obj data s' ∧
      obj.bucketId = destBucket.id ∧ obj.name = destName ∧
      obj.companyId = destBucket.companyId ∧ obj.size = src.size ∧ obj.etag = src.etag ∧
      obj.mimeType = src.mimeType := by
  obtain ⟨sourceName, destName, src, data, s₁, hsource, hdest, hsrc, hfree, -, hquota, hdata,
    h⟩ := runs_copyObject h
  have hq := (assertCanStore_quotasOnly env _ _ _ _).runs hquota
  have husage := (assertCanStore_sameUsage env _ _ _ _).runs hquota
  obtain ⟨hcreated, hbucketId, hname, hcompany, -, hdescribed⟩ := createFile_created h
  rw [hq.blobs] at hdata
  exact ⟨sourceName, destName, src, data, hsource, hdest, hsrc, hfree, hdata,
    hcreated.of_quotas hq husage, hbucketId, hname, hcompany, hdescribed⟩

/-! ## Deletion -/

structure Removed (s : World) (obj : StorageObject) (s' : World) : Prop where
  buckets : s'.db.buckets = s.db.buckets
  objects : s'.db.objects.rows = s.db.objects.rows.filter fun o => decide (o.id ≠ obj.id)
  grants : s'.db.grants.rows =
    s.db.grants.rows.filter fun g => decide (g.resource.object? ≠ some obj.id)
  blobs : s'.out.blobs = s.out.blobs.erase obj.storageKey
  now : s'.out.now = s.out.now
  drawn : s'.out.drawn = s.out.drawn
  usage : ∀ c, 0 ≤ companyUsage s.db c → companyUsage s'.db c =
    if c = obj.companyId then max 0 (companyUsage s.db c - obj.size)
    else companyUsage s.db c

theorem deleteObject_removed {obj : StorageObject} {u : Unit}
    (h : (deleteObject env obj).Runs s u s') : Removed s obj s' := by
  simp only [deleteObject, reach, runs_atomic, runs_bind, runs_reachOr,
    runs_modifyDatabase] at h
  obtain ⟨_, s₁, ⟨out, hvisit, rfl⟩, _, s₂, rfl, _, s₃, hkey, _, s₄, husage, out', hvisit',
    rfl⟩ := h
  obtain ⟨hdb, hblobs, hdrawn, hnow⟩ := runs_deleteStorageKey hkey
  have hq := (applyUsageDelta_quotasOnly env _ _ _).runs husage
  have hout := Outside.visit_eq_some hvisit
  have hout' := Outside.visit_eq_some hvisit'
  have hsame : ∀ c, companyUsage s₃.db c = companyUsage s.db c := fun c => by
    rw [hdb]
    rfl
  refine ⟨?_, ?_, ?_, ?_, ?_, ?_, ?_⟩
  · rw [hq.buckets, hdb]
    rfl
  · rw [hq.objects, hdb]
    simp [Database.deleteObject]
  · rw [hq.grants, hdb]
    simp [Database.deleteObject]
  · rw [hout']
    exact hq.blobs.trans (hblobs.trans (by rw [hout]))
  · rw [hout']
    exact hq.now.trans (hnow.trans (by rw [hout]))
  · rw [hout']
    exact hq.drawn.trans (hdrawn.trans (by rw [hout]))
  · intro c hfloor
    have hdelta := runs_applyUsageDelta husage (c := c) (by rwa [hsame])
    rw [hdelta, hsame, Int.sub_eq_add_neg]

def NothingStored (s s' : World) : Prop :=
  ∀ key, s.out.blobs.lookup key = none → s'.out.blobs.lookup key = none

theorem nothingStored_lenient : Lenient NothingStored where
  refl _ _ := id
  trans h h' key := h' key ∘ h key
  rollback h := h
  fault _ _ _ := id

theorem QuotasOnly.nothingStored (h : QuotasOnly s s') : NothingStored s s' := by
  intro key hkey
  rwa [h.blobs]

theorem deleteObject_nothingStored (obj : StorageObject) :
    (deleteObject env obj).Within NothingStored := by
  have hC := nothingStored_lenient.toComposable
  have hreach := fun p => within_reachOr nothingStored_lenient (.interrupted p) p
  refine Within.atomic hC (Within.bind hC (hreach _) fun _ => ?_)
  refine Within.bind hC (Within.modifyDatabase fun _ _ hkey => hkey) fun _ => ?_
  refine Within.bind hC (Within.bind hC (hreach _) fun _ => Within.bind hC
    (Within.modifyOutside fun s key hkey => ?_) fun _ => hreach _) fun _ => ?_
  · by_cases hk : key = obj.storageKey
    · subst hk
      exact AList.lookup_erase _ _
    · exact (AList.lookup_erase_ne hk).trans hkey
  · exact Within.bind hC ((applyUsageDelta_quotasOnly env _ _ _).mono
      QuotasOnly.nothingStored) fun _ => hreach _

def BeforeFirstBlob (fault : Option (Point × Nat)) : Prop :=
  fault = some (.rowDelete, 0) ∨ fault = some (.blobDelete, 0)

theorem beforeFirstBlob_iff {out out' : Outside} (h : out.visit .rowDelete = some out') :
    BeforeFirstBlob out.fault ↔ out'.fault = some (.blobDelete, 0) := by
  rw [BeforeFirstBlob, ← Outside.visit_eq_none, h, Outside.visit_fault_of_ne (by decide) h]
  simp

theorem runs_deleteObject_fault {obj : StorageObject} {u : Unit}
    (h : (deleteObject env obj).Runs s u s') : ¬BeforeFirstBlob s.out.fault := by
  simp only [deleteObject, reach, runs_atomic, runs_bind, runs_reachOr,
    runs_modifyDatabase] at h
  obtain ⟨_, _, ⟨out, hvisit, rfl⟩, _, _, rfl, _, _, hkey, -⟩ := h
  rw [beforeFirstBlob_iff hvisit]
  exact runs_deleteStorageKey_fault hkey

/-- A failing deletion has erased the blob unless it failed before that. -/
theorem fails_deleteObject {obj : StorageObject} (h : (deleteObject env obj).Fails s s') :
    BeforeFirstBlob s.out.fault ∧ s'.out.blobs = s.out.blobs ∨
      ¬BeforeFirstBlob s.out.fault ∧ s'.out.blobs.lookup obj.storageKey = none := by
  simp only [deleteObject, reach, fails_atomic, fails_bind, fails_reachOr, runs_reachOr,
    fails_modifyDatabase, runs_modifyDatabase, false_or] at h
  obtain ⟨_, ⟨hrow, rfl⟩ | ⟨_, _, ⟨out, hvisit, rfl⟩, _, _, rfl,
    hkey | ⟨_, s₂, hkey, hrest⟩⟩, rfl⟩ := h
  · exact .inl ⟨.inl hrow, rfl⟩
  · rw [beforeFirstBlob_iff hvisit]
    rcases fails_deleteStorageKey hkey with ⟨hfault, hblobs⟩ | ⟨hfault, hblobs⟩
    · refine .inl ⟨hfault, hblobs.trans ?_⟩
      rw [Outside.visit_eq_some hvisit]
    · exact .inr ⟨hfault, by simp [hblobs]⟩
  · rw [beforeFirstBlob_iff hvisit]
    refine .inr ⟨runs_deleteStorageKey_fault hkey, ?_⟩
    have husage := applyUsageDelta_quotasOnly env obj.companyId obj.ownerId (-(obj.size : Int))
    obtain ⟨-, hblobs, -⟩ := runs_deleteStorageKey hkey
    rcases hrest with hfail | ⟨_, s₃, hrun, -, rfl⟩
    · simp [(husage.fails hfail).blobs, hblobs]
    · simp [(husage.runs hrun).blobs, hblobs]

theorem fails_forEach_deleteObject {obj : StorageObject} {objs : List StorageObject}
    (h : (forEach (deleteObject env) (obj :: objs)).Fails s s') :
    BeforeFirstBlob s.out.fault ∧ s'.out.blobs = s.out.blobs ∨
      ¬BeforeFirstBlob s.out.fault ∧ s'.out.blobs.lookup obj.storageKey = none := by
  rw [fails_forEach_cons] at h
  rcases h with hfirst | ⟨s₁, hfirst, hrest⟩
  · exact fails_deleteObject hfirst
  · refine .inr ⟨runs_deleteObject_fault hfirst, ?_⟩
    have hkept : NothingStored s₁ s' := (Within.forEach nothingStored_lenient.toComposable
      deleteObject_nothingStored objs).fails hrest
    apply hkept
    simp [(deleteObject_removed hfirst).blobs]

structure AllRemoved (s : World) (objs : List StorageObject) (s' : World) : Prop where
  buckets : s'.db.buckets = s.db.buckets
  objects : ∀ o, o ∈ s'.db.objects.rows ↔
    o ∈ s.db.objects.rows ∧ ∀ obj ∈ objs, o.id ≠ obj.id
  grants : ∀ g, g ∈ s'.db.grants.rows ↔
    g ∈ s.db.grants.rows ∧ ∀ obj ∈ objs, g.resource.object? ≠ some obj.id
  blobs : ∀ key, s'.out.blobs.lookup key =
    if ∃ obj ∈ objs, obj.storageKey = key then none else s.out.blobs.lookup key
  now : s'.out.now = s.out.now
  drawn : s'.out.drawn = s.out.drawn

theorem AllRemoved.nil (s : World) : AllRemoved s [] s :=
  ⟨rfl, by simp, by simp, by simp, rfl, rfl⟩

theorem AllRemoved.cons {s₁ : World} {obj : StorageObject} {objs : List StorageObject}
    (hfirst : Removed s obj s₁) (hrest : AllRemoved s₁ objs s') :
    AllRemoved s (obj :: objs) s' where
  buckets := by rw [hrest.buckets, hfirst.buckets]
  objects o := by
    rw [hrest.objects, hfirst.objects]
    simp [and_assoc]
  grants g := by
    rw [hrest.grants, hfirst.grants]
    simp [and_assoc]
  blobs key := by
    rw [hrest.blobs, hfirst.blobs]
    by_cases hkey : obj.storageKey = key
    · subst hkey
      simp
    · rw [AList.lookup_erase_ne (Ne.symm hkey)]
      simp [hkey]
  now := by rw [hrest.now, hfirst.now]
  drawn := by rw [hrest.drawn, hfirst.drawn]

theorem forEach_deleteObject_allRemoved {objs : List StorageObject} {u : Unit}
    (h : (forEach (deleteObject env) objs).Runs s u s') : AllRemoved s objs s' := by
  induction objs generalizing s with
  | nil =>
      rw [runs_forEach_nil] at h
      subst h
      exact .nil s'
  | cons obj objs ih =>
      rw [runs_forEach_cons] at h
      obtain ⟨s₁, hfirst, hrest⟩ := h
      exact .cons (deleteObject_removed hfirst) (ih hrest)

/-! ### Which objects a deletion is about -/

def namedObjects (db : Database) (bucket : Bucket) (paths : List Text) :
    List StorageObject :=
  paths.filterMap fun raw =>
    match safeObjectPath raw with
    | .error _ => none
    | .ok name => db.objectNamed bucket.id name

namespace Deletion

def objects (db : Database) : Deletion → List StorageObject
  | object obj => [obj]
  | paths bucket _ names => namedObjects db bucket names
  | underPrefix bucket folderPath _ => objectsUnderPrefix db bucket folderPath
  | wholeBucket bucket _ => db.objects.rows.filter fun o => decide (o.bucketId = bucket.id)

def Permitted (db : Database) (now : Time) : Deletion → Prop
  | object _ => True
  | paths bucket principal names => ∀ o ∈ namedObjects db bucket names,
      canAccessPath db now principal bucket o.name (some o.id) .write = true
  | underPrefix bucket folderPath principal => ∀ o ∈ objectsUnderPrefix db bucket folderPath,
      canAccessPath db now principal bucket o.name (some o.id) .write = true
  | wholeBucket bucket principal => ∀ o ∈ db.objects.rows, o.bucketId = bucket.id →
      canAccessPath db now principal bucket o.name (some o.id) .write = true

theorem objects_subset {db : Database} {d : Deletion} (hd : d.Loaded db) :
    ∀ o ∈ d.objects db, o ∈ db.objects.rows := by
  intro o ho
  cases d with
  | object obj =>
      rw [objects, List.mem_singleton] at ho
      rw [ho]
      exact hd
  | paths bucket principal names =>
      obtain ⟨raw, -, hraw⟩ := List.mem_filterMap.mp ho
      split at hraw
      · contradiction
      · exact (Database.objectNamed_eq_some hraw).1
  | underPrefix bucket folderPath principal =>
      exact (Database.mem_objectsStartingWith.mp ho).1
  | wholeBucket bucket principal => exact (List.mem_filter.mp ho).1

end Deletion

theorem runs_pathsToDelete {bucket : Bucket} {principal : StoragePrincipal}
    {paths : List Text} {objs : List StorageObject} :
    (pathsToDelete bucket principal paths).Runs s objs s' ↔
      objs = namedObjects s.db bucket paths ∧
        (∀ o ∈ namedObjects s.db bucket paths, canAccessPath s.db s.out.now principal bucket
          o.name (some o.id) .write = true) ∧ s' = s := by
  induction paths generalizing objs with
  | nil => simp [pathsToDelete, namedObjects]
  | cons raw paths ih =>
      cases hname : safeObjectPath raw with
      | error e => simpa [pathsToDelete, namedObjects, hname] using ih
      | ok name =>
          cases hobj : s.db.objectNamed bucket.id name with
          | none =>
              simpa [pathsToDelete, namedObjects, hname, hobj, and_assoc] using ih
          | some obj =>
              obtain ⟨-, -, rfl⟩ := Database.objectNamed_eq_some hobj
              have hnamed : namedObjects s.db bucket (raw :: paths) =
                  obj :: namedObjects s.db bucket paths := by
                simp [namedObjects, hname, hobj]
              simp only [pathsToDelete, hname, hnamed, runs_bind, runs_database,
                List.forall_mem_cons]
              constructor
              · rintro ⟨db, _, ⟨rfl, rfl⟩, h⟩
                simp only [hobj, runs_bind, runs_assertCanAccessPath, runs_pure] at h
                obtain ⟨_, _, ⟨hfirst, rfl⟩, objs, _, hrest, rfl, rfl⟩ := h
                obtain ⟨rfl, hall, rfl⟩ := ih.mp hrest
                exact ⟨rfl, ⟨hfirst, hall⟩, rfl⟩
              · rintro ⟨rfl, ⟨hfirst, hall⟩, rfl⟩
                refine ⟨s'.db, s', ⟨rfl, rfl⟩, ?_⟩
                simp only [hobj, runs_bind, runs_assertCanAccessPath, runs_pure]
                exact ⟨(), s', ⟨hfirst, rfl⟩, _, s', ih.mpr ⟨rfl, hall, rfl⟩, rfl, rfl⟩

theorem fails_pathsToDelete {bucket : Bucket} {principal : StoragePrincipal}
    {paths : List Text} :
    (pathsToDelete bucket principal paths).Fails s s' ↔
      (¬∀ o ∈ namedObjects s.db bucket paths, canAccessPath s.db s.out.now principal bucket
          o.name (some o.id) .write = true) ∧ s' = s := by
  induction paths with
  | nil => simp [pathsToDelete, namedObjects]
  | cons raw paths ih =>
      cases hname : safeObjectPath raw with
      | error e => simpa [pathsToDelete, namedObjects, hname] using ih
      | ok name =>
          cases hobj : s.db.objectNamed bucket.id name with
          | none => simpa [pathsToDelete, namedObjects, hname, hobj] using ih
          | some obj =>
              obtain ⟨-, -, rfl⟩ := Database.objectNamed_eq_some hobj
              have hnamed : namedObjects s.db bucket (raw :: paths) =
                  obj :: namedObjects s.db bucket paths := by
                simp [namedObjects, hname, hobj]
              simp only [pathsToDelete, hname, hnamed, fails_bind, fails_database,
                runs_database, List.forall_mem_cons, false_or, not_and_or]
              constructor
              · rintro ⟨db, _, ⟨rfl, rfl⟩, h⟩
                simp only [hobj, fails_bind, fails_assertCanAccessPath,
                  runs_assertCanAccessPath, fails_pure, and_false, exists_false,
                  or_false] at h
                rcases h with ⟨hfirst, rfl⟩ | ⟨_, _, ⟨-, rfl⟩, hrest⟩
                · exact ⟨.inl (by simpa using hfirst), rfl⟩
                · obtain ⟨hall, rfl⟩ := ih.mp hrest
                  exact ⟨.inr hall, rfl⟩
              · rintro ⟨hrefused, rfl⟩
                refine ⟨s'.db, s', ⟨rfl, rfl⟩, ?_⟩
                simp only [hobj, fails_bind, fails_assertCanAccessPath,
                  runs_assertCanAccessPath, fails_pure, and_false, exists_false, or_false]
                by_cases hfirst : canAccessPath s'.db s'.out.now principal bucket obj.name
                    (some obj.id) .write = true
                · have hall := hrefused.resolve_left (fun hnot => hnot hfirst)
                  exact .inr ⟨(), s', ⟨hfirst, rfl⟩, ih.mpr ⟨hall, rfl⟩⟩
                · exact .inl ⟨by simpa using hfirst, trivial⟩

namespace Deletion

theorem runs_deleteChecked {bucket : Bucket} {principal : StoragePrincipal}
    {objs : List StorageObject} {u : Unit} :
    (deleteChecked env bucket principal objs).Runs s u s' ↔
      (∀ o ∈ objs, canAccessPath s.db s.out.now principal bucket o.name (some o.id) .write =
        true) ∧ (forEach (deleteObject env) objs).Runs s () s' := by
  simp only [deleteChecked, runs_bind,
    runs_forEach_check fun _ _ _ _ => runs_assertCanAccessPath]
  constructor
  · rintro ⟨_, _, ⟨hall, rfl⟩, h⟩
    exact ⟨hall, h⟩
  · rintro ⟨hall, h⟩
    exact ⟨(), s, ⟨hall, rfl⟩, h⟩

theorem fails_deleteChecked {bucket : Bucket} {principal : StoragePrincipal}
    {objs : List StorageObject} :
    (deleteChecked env bucket principal objs).Fails s s' ↔
      (¬∀ o ∈ objs, canAccessPath s.db s.out.now principal bucket o.name (some o.id) .write =
        true) ∧ s' = s ∨
      (∀ o ∈ objs, canAccessPath s.db s.out.now principal bucket o.name (some o.id) .write =
        true) ∧ (forEach (deleteObject env) objs).Fails s s' := by
  have hcheck : (forEach (fun o : StorageObject =>
      assertCanAccessPath principal bucket o.name (some o.id) .write) objs).Fails s s' ↔
      (¬∀ o ∈ objs, canAccessPath s.db s.out.now principal bucket o.name (some o.id) .write =
        true) ∧ s' = s :=
    fails_forEach_check (fun _ _ _ _ => runs_assertCanAccessPath) fun _ _ _ => by simp
  simp only [deleteChecked, fails_bind, hcheck,
    runs_forEach_check fun _ _ _ _ => runs_assertCanAccessPath]
  refine or_congr_right ?_
  constructor
  · rintro ⟨_, _, ⟨hall, rfl⟩, h⟩
    exact ⟨hall, h⟩
  · rintro ⟨hall, h⟩
    exact ⟨(), s, ⟨hall, rfl⟩, h⟩

theorem runs_iff {d : Deletion} {u : Unit} :
    (d.run env).Runs s u s' ↔ d.Permitted s.db s.out.now ∧
      (forEach (deleteObject env) (d.objects s.db)).Runs s () s' := by
  cases d with
  | object obj => simp [run, Permitted, objects]
  | paths bucket principal names =>
      simp only [run, deletePaths, Permitted, objects, runs_bind, runs_atomic,
        runs_pathsToDelete, runs_pure, true_and]
      constructor
      · rintro ⟨_, _, ⟨_, _, ⟨rfl, hall, rfl⟩, _, _, h, rfl, rfl⟩, rfl⟩
        exact ⟨hall, h⟩
      · rintro ⟨hall, h⟩
        exact ⟨_, s', ⟨_, s, ⟨rfl, hall, rfl⟩, (), s', h, rfl, rfl⟩, rfl⟩
  | underPrefix bucket folderPath principal =>
      simp only [run, deleteUnderPrefix, Permitted, objects, runs_bind, runs_atomic,
        runs_database, runs_deleteChecked, runs_pure, true_and]
      constructor
      · rintro ⟨_, _, ⟨_, _, ⟨rfl, rfl⟩, _, _, ⟨hall, h⟩, rfl, rfl⟩, rfl⟩
        exact ⟨hall, h⟩
      · rintro ⟨hall, h⟩
        exact ⟨_, s', ⟨_, s, ⟨rfl, rfl⟩, (), s', ⟨hall, h⟩, rfl, rfl⟩, rfl⟩
  | wholeBucket bucket principal =>
      simp only [run, emptyBucket, Permitted, objects, runs_bind, runs_atomic,
        runs_database, runs_deleteChecked, List.mem_filter, decide_eq_true_eq, and_imp]
      constructor
      · rintro ⟨_, _, ⟨rfl, rfl⟩, hall, h⟩
        exact ⟨hall, h⟩
      · rintro ⟨hall, h⟩
        exact ⟨_, s, ⟨rfl, rfl⟩, hall, h⟩

private theorem fails_atomic_checked {p : Prop} {x : Act Unit} :
    (∃ s₁, ((¬p ∧ s₁ = s) ∨ p ∧ x.Fails s s₁) ∧ s' = { s₁ with db := s.db }) ↔
      (¬p ∧ s' = s) ∨ p ∧ ∃ s₁, x.Fails s s₁ ∧ s' = { s₁ with db := s.db } := by
  constructor
  · rintro ⟨s₁, ⟨hp, rfl⟩ | ⟨hp, hx⟩, rfl⟩
    · exact .inl ⟨hp, rfl⟩
    · exact .inr ⟨hp, s₁, hx, rfl⟩
  · rintro (⟨hp, rfl⟩ | ⟨hp, s₁, hx, rfl⟩)
    · exact ⟨s', .inl ⟨hp, rfl⟩, rfl⟩
    · exact ⟨s₁, .inr ⟨hp, hx⟩, rfl⟩

theorem fails_iff {d : Deletion} :
    (d.run env).Fails s s' ↔ (¬d.Permitted s.db s.out.now ∧ s' = s) ∨
      d.Permitted s.db s.out.now ∧
        ∃ s₁, (forEach (deleteObject env) (d.objects s.db)).Fails s s₁ ∧
          s' = { s₁ with db := s.db } := by
  cases d with
  | object obj =>
      simp only [run, Permitted, objects, fails_forEach_cons, fails_forEach_nil, and_false,
        exists_false, or_false, not_true, false_and, false_or, true_and, deleteObject,
        fails_atomic]
      constructor
      · rintro ⟨s₁, h, rfl⟩
        exact ⟨_, ⟨s₁, h, rfl⟩, rfl⟩
      · rintro ⟨_, ⟨s₁, h, rfl⟩, rfl⟩
        exact ⟨s₁, h, rfl⟩
  | paths bucket principal names =>
      rw [← fails_atomic_checked]
      simp only [run, deletePaths, Permitted, objects, fails_bind, fails_atomic,
        runs_pathsToDelete, fails_pathsToDelete, fails_pure, and_false, exists_false, or_false]
      refine exists_congr fun s₁ => and_congr_left fun _ => or_congr_right ?_
      constructor
      · rintro ⟨_, _, ⟨rfl, hall, rfl⟩, h⟩
        exact ⟨hall, h⟩
      · rintro ⟨hall, h⟩
        exact ⟨_, s, ⟨rfl, hall, rfl⟩, h⟩
  | underPrefix bucket folderPath principal =>
      rw [← fails_atomic_checked]
      simp only [run, deleteUnderPrefix, Permitted, objects, fails_bind, fails_atomic,
        fails_database, runs_database, fails_deleteChecked, fails_pure, and_false,
        exists_false, or_false, false_or]
      refine exists_congr fun s₁ => and_congr_left fun _ => ?_
      constructor
      · rintro ⟨_, _, ⟨rfl, rfl⟩, h⟩
        exact h
      · intro h
        exact ⟨_, s, ⟨rfl, rfl⟩, h⟩
  | wholeBucket bucket principal =>
      rw [← fails_atomic_checked]
      simp only [run, emptyBucket, Permitted, objects, fails_bind, fails_atomic,
        fails_database, runs_database, fails_deleteChecked, List.mem_filter,
        decide_eq_true_eq, and_imp, false_or]
      refine exists_congr fun s₁ => and_congr_left fun _ => ?_
      constructor
      · rintro ⟨_, _, ⟨rfl, rfl⟩, h⟩
        exact h
      · intro h
        exact ⟨_, s, ⟨rfl, rfl⟩, h⟩

end Deletion

/-- A deletion that succeeds removes its objects and touches nothing else. -/
theorem Succeeds.allRemoved {w w' : World} {d : Deletion}
    (h : Succeeds env (.delete d) w w') : AllRemoved w (d.objects w.db) w' := by
  obtain ⟨-, fault, hrun⟩ := h
  obtain ⟨-, hall⟩ := Deletion.runs_iff.mp hrun
  obtain ⟨hbuckets, hobjects, hgrants, hblobs, hnow, hdrawn⟩ :=
    forEach_deleteObject_allRemoved hall
  exact ⟨hbuckets, hobjects, hgrants, hblobs, hnow, hdrawn⟩

/-! ## Relocation -/

structure Rewrote (f : StorageObject → StorageObject) (s s' : World) : Prop where
  buckets : s'.db.buckets = s.db.buckets
  objects : s'.db.objects.rows = s.db.objects.rows.map f
  companyQuotas : s'.db.companyQuotas = s.db.companyQuotas
  userQuotas : s'.db.userQuotas = s.db.userQuotas
  blobs : s'.out.blobs = s.out.blobs
  now : s'.out.now = s.out.now
  drawn : s'.out.drawn = s.out.drawn
  engine : s'.db.engine = s.db.engine

theorem Rewrote.of_withFault {f : StorageObject → StorageObject} {w w' : World}
    {fault : Option (Point × Nat)} (h : Rewrote f (w.withFault fault) w') : Rewrote f w w' :=
  ⟨h.buckets, h.objects, h.companyQuotas, h.userQuotas, h.blobs, h.now, h.drawn, h.engine⟩

theorem runs_updateObject {id : UUID} {f : StorageObject → StorageObject} {u : Unit}
    (h : (execute (·.updateObject id f)).Runs s u s') :
    Rewrote (Database.changed id f) s s' ∧ s'.db.grants = s.db.grants := by
  obtain ⟨out, db, hvisit, hupdate, rfl⟩ := runs_execute.mp h
  obtain ⟨hbuckets, hobjects, hgrants, hquotas, huser⟩ :=
    Database.updateObject_eq_some hupdate
  rw [Outside.visit_eq_some hvisit]
  exact ⟨⟨hbuckets, hobjects, hquotas, huser, rfl, rfl, rfl,
    Database.updateObject_engine hupdate⟩, hgrants⟩

def relocated (destBucketId : UUID) (name : Text) (now : Time) (o : StorageObject) :
    StorageObject :=
  { o with bucketId := destBucketId, name := name, updatedAt := now }

theorem moveObject_rewrote {bucket destBucket : Bucket} {sourcePath destPath : Text}
    {moved : StorageObject}
    (h : (moveObject bucket sourcePath destBucket destPath).Runs s moved s') :
    ∃ sourceName destName obj, safeObjectPath sourcePath = .ok sourceName ∧
      safeObjectPath destPath = .ok destName ∧
      s.db.objectNamed bucket.id sourceName = some obj ∧
      s.db.objectNamed destBucket.id destName = none ∧
      moved = relocated destBucket.id destName s.out.now obj ∧
      Rewrote (Database.changed obj.id (relocated destBucket.id destName s.out.now)) s s' ∧
      (bucket.id = destBucket.id ∧ s'.db.grants = s.db.grants ∨
        bucket.id ≠ destBucket.id ∧ bucket.companyId = destBucket.companyId ∧
          s'.db.grants.rows =
            s.db.grants.rows.map (Database.rebucket obj.id destBucket.id)) := by
  simp only [moveObject, runs_atomic, runs_bind, runs_ofExcept, runs_ofOption, runs_ensure,
    runs_database, runs_outside] at h
  obtain ⟨sourceName, _, ⟨hsource, rfl⟩, destName, _, ⟨hdest, rfl⟩, db, _, ⟨rfl, rfl⟩, obj,
    _, ⟨hobj, rfl⟩, _, _, ⟨hfree, rfl⟩, out, s₀, ⟨rfl, rfl⟩, h⟩ := h
  refine ⟨sourceName, destName, obj, hsource, hdest, hobj, hfree, ?_⟩
  rw [runs_ite] at h
  rcases h with ⟨hsame, h⟩ | ⟨hother, h⟩
  · simp only [runs_bind, runs_pure] at h
    obtain ⟨_, s₁, hupdate, rfl, rfl⟩ := h
    obtain ⟨hrewrote, hgrants⟩ := runs_updateObject hupdate
    refine ⟨rfl, ⟨hrewrote.buckets, ?_, hrewrote.companyQuotas, hrewrote.userQuotas,
      hrewrote.blobs, hrewrote.now, hrewrote.drawn, hrewrote.engine⟩, .inl ⟨hsame, hgrants⟩⟩
    obtain ⟨hmem, hbucketId, -⟩ := Database.objectNamed_eq_some hobj
    rw [hrewrote.objects]
    apply List.map_congr_left
    intro o ho
    by_cases hid : o.id = obj.id
    · -- the moved row is in the destination bucket already
      have ho' : o = obj := Database.object_eq_of_id ho hmem hid
      simp [Database.changed, relocated, ho', hbucketId, hsame]
    · simp [Database.changed, hid]
  · simp only [runs_bind, runs_ensure, @runs_execute (·.moveGrants _ _),
      runs_pure] at h
    obtain ⟨_, _, ⟨hcompany, rfl⟩, _, s₁, hupdate, _, s₂, ⟨out, db, hvisit, hmove, rfl⟩, rfl,
      rfl⟩ := h
    obtain ⟨hrewrote, hgrants⟩ := runs_updateObject hupdate
    obtain ⟨hbuckets, hobjects, hmoved, hquotas, huser⟩ := Database.moveGrants_eq_some hmove
    have hout := Outside.visit_eq_some hvisit
    refine ⟨rfl, ⟨?_, ?_, ?_, ?_, ?_, ?_, ?_, ?_⟩, .inr ⟨hother, hcompany, ?_⟩⟩
    · exact hbuckets.trans hrewrote.buckets
    · exact (congrArg Table.rows hobjects).trans hrewrote.objects
    · exact hquotas.trans hrewrote.companyQuotas
    · exact huser.trans hrewrote.userQuotas
    · rw [hout]
      exact hrewrote.blobs
    · rw [hout]
      exact hrewrote.now
    · rw [hout]
      exact hrewrote.drawn
    · exact (Database.moveGrants_engine hmove).trans hrewrote.engine
    · rw [hmoved, hgrants]

def renameAmong (objs : List StorageObject) (src dst : Text) (now : Time)
    (o : StorageObject) : StorageObject :=
  if ∃ x ∈ objs, x.id = o.id ∧ src ++ ['/'] <+: o.name then
    { o with name := renamedPath src dst o.name, updatedAt := now }
  else o

theorem renameAmong_nil (src dst : Text) (now : Time) : renameAmong [] src dst now = id := by
  funext o
  simp [renameAmong]

theorem Rewrote.trans {f g : StorageObject → StorageObject} {s₁ : World}
    (h : Rewrote f s s₁) (h' : Rewrote g s₁ s') : Rewrote (g ∘ f) s s' where
  buckets := h'.buckets.trans h.buckets
  objects := by rw [h'.objects, h.objects, List.map_map]
  companyQuotas := h'.companyQuotas.trans h.companyQuotas
  userQuotas := h'.userQuotas.trans h.userQuotas
  blobs := h'.blobs.trans h.blobs
  now := h'.now.trans h.now
  drawn := h'.drawn.trans h.drawn
  engine := h'.engine.trans h.engine

theorem Rewrote.congr {f g : StorageObject → StorageObject} (h : Rewrote f s s')
    (hfg : ∀ o ∈ s.db.objects.rows, f o = g o) : Rewrote g s s' where
  buckets := h.buckets
  objects := h.objects.trans (List.map_congr_left hfg)
  companyQuotas := h.companyQuotas
  userQuotas := h.userQuotas
  blobs := h.blobs
  now := h.now
  drawn := h.drawn
  engine := h.engine

theorem Rewrote.refl (s : World) : Rewrote id s s :=
  ⟨rfl, by simp, rfl, rfl, rfl, rfl, rfl, rfl⟩

theorem runs_renameOne {bucket : Bucket} {src dst : Text} {obj : StorageObject} {u : Unit}
    (hobj : obj ∈ s.db.objects.rows) (h : (renameOne bucket src dst obj).Runs s u s') :
    Rewrote (renameAmong [obj] src dst s.out.now) s s' ∧ s'.db.grants = s.db.grants := by
  rw [renameOne, runs_ite] at h
  rcases h with ⟨hout, h⟩ | ⟨hin, h⟩
  · rw [runs_pure] at h
    obtain ⟨-, rfl⟩ := h
    refine ⟨(Rewrote.refl s').congr fun o ho => ?_, rfl⟩
    have hno : ¬(obj.id = o.id ∧ src ++ ['/'] <+: o.name) := by
      rintro ⟨hid, hname⟩
      rw [Database.object_eq_of_id hobj ho hid] at hout
      exact hout hname
    simp [renameAmong, hno]
  · rw [not_not] at hin
    simp only [runs_bind, runs_database, runs_ensure, runs_outside] at h
    obtain ⟨db, _, ⟨rfl, rfl⟩, _, _, ⟨-, rfl⟩, out, s₀, ⟨rfl, rfl⟩, hupdate⟩ := h
    obtain ⟨hrewrote, hgrants⟩ := runs_updateObject hupdate
    refine ⟨hrewrote.congr fun o ho => ?_, hgrants⟩
    by_cases hid : obj.id = o.id
    · have ho' : o = obj := (Database.object_eq_of_id hobj ho hid).symm
      simp [Database.changed, renameAmong, ho', hin]
    · simp [Database.changed, renameAmong, hid, Ne.symm hid]

theorem forEach_renameOne_rewrote {bucket : Bucket} {src dst : Text}
    {objs : List StorageObject} {u : Unit} (hobjs : ∀ o ∈ objs, o ∈ s.db.objects.rows)
    (hnodup : (objs.map StorageObject.id).Nodup)
    (h : (forEach (renameOne bucket src dst) objs).Runs s u s') :
    Rewrote (renameAmong objs src dst s.out.now) s s' ∧ s'.db.grants = s.db.grants := by
  induction objs generalizing s with
  | nil =>
      rw [runs_forEach_nil] at h
      subst h
      rw [renameAmong_nil]
      exact ⟨.refl s', rfl⟩
  | cons obj objs ih =>
      rw [runs_forEach_cons] at h
      obtain ⟨s₁, hfirst, hrest⟩ := h
      obtain ⟨hrewrote, hgrants⟩ := runs_renameOne (hobjs obj (by simp)) hfirst
      obtain ⟨hnotin, hnodup'⟩ := List.nodup_cons.mp hnodup
      have hfresh : ∀ x ∈ objs, x.id ≠ obj.id := fun x hx hid =>
        hnotin (List.mem_map.mpr ⟨x, hx, hid⟩)
      have hobjs' : ∀ o ∈ objs, o ∈ s₁.db.objects.rows := by
        intro o ho
        rw [hrewrote.objects, List.mem_map]
        refine ⟨o, hobjs o (by simp [ho]), ?_⟩
        simp [renameAmong, Ne.symm (hfresh o ho)]
      obtain ⟨hrewrote', hgrants'⟩ := ih hobjs' hnodup' hrest
      rw [hrewrote.now] at hrewrote'
      refine ⟨(hrewrote.trans hrewrote').congr fun o ho => ?_, hgrants'.trans hgrants⟩
      by_cases hid : obj.id = o.id
      · have hrest' : ∀ x ∈ objs, x.id ≠ o.id := fun x hx => hid ▸ hfresh x hx
        have hnot : ∀ p : Text, ¬∃ x ∈ objs, x.id = o.id ∧ src ++ ['/'] <+: p := by
          rintro p ⟨x, hx, hxid, -⟩
          exact hrest' x hx hxid
        by_cases hin : src ++ ['/'] <+: o.name <;> simp [renameAmong, hid, hin, hnot]
      · simp [renameAmong, hid]

def renamedRow (bucketId : UUID) (src dst : Text) (now : Time) (o : StorageObject) :
    StorageObject :=
  if o.bucketId = bucketId ∧ src ++ ['/'] <+: o.name then
    { o with name := renamedPath src dst o.name, updatedAt := now }
  else o

theorem renameFolder_rewrote {bucket : Bucket} {sourcePath destPath : Text}
    {result : RenameResult}
    (h : (renameFolder bucket sourcePath destPath).Runs s result s') :
    ∃ source dest, safeObjectPath sourcePath = .ok source ∧
      safeObjectPath destPath = .ok dest ∧ s'.db.grants = s.db.grants ∧
      (stripSlash source = stripSlash dest ∧ s' = s ∨
        stripSlash source ≠ [] ∧ stripSlash dest ≠ [] ∧
        Rewrote (renamedRow bucket.id (stripSlash source) (stripSlash dest) s.out.now)
          s s') := by
  simp only [renameFolder, runs_atomic, runs_bind, runs_ofExcept, runs_ensure] at h
  obtain ⟨source, _, ⟨hsource, rfl⟩, dest, _, ⟨hdest, rfl⟩, _, s₀, ⟨⟨hsrc, hdst⟩, rfl⟩, h⟩ := h
  refine ⟨source, dest, hsource, hdest, ?_⟩
  rw [runs_ite] at h
  rcases h with ⟨hsame, h⟩ | ⟨-, h⟩
  · rw [runs_pure] at h
    obtain ⟨-, rfl⟩ := h
    exact ⟨rfl, .inl ⟨hsame, rfl⟩⟩
  · simp only [runs_bind, runs_ensure, runs_database, runs_pure] at h
    obtain ⟨_, _, ⟨-, rfl⟩, db, _, ⟨rfl, rfl⟩, _, _, ⟨-, rfl⟩, _, s₁, ⟨-, rfl⟩, _, s₂, hall,
      db, _, ⟨rfl, rfl⟩, -, rfl⟩ := h
    set src := stripSlash source with hsrcdef
    have hprefix : prefixFilter src = src ++ ['/'] := by
      have hstrip : stripSlash src = src := trim_trim isSlash source
      simp [prefixFilter, hstrip, hsrc]
    have hmem : ∀ o, o ∈ (objectsUnderPrefix s₁.db bucket src).insertionSort
        (fun a b => b.name.count '/' ≤ a.name.count '/') ↔
        o ∈ s₁.db.objects.rows ∧ o.bucketId = bucket.id ∧
          s₁.db.engine.StartsWith (src ++ ['/']) o.name := by
      intro o
      rw [List.mem_insertionSort, objectsUnderPrefix, hprefix,
        Database.mem_objectsStartingWith]
    have hnodup : (((objectsUnderPrefix s₁.db bucket src).insertionSort
        (fun a b => b.name.count '/' ≤ a.name.count '/')).map StorageObject.id).Nodup := by
      rw [((List.perm_insertionSort _ _).map _).nodup_iff]
      exact (s₁.db.objectIds_nodup).sublist (List.filter_sublist.map _)
    obtain ⟨hrewrote, hgrants⟩ :=
      forEach_renameOne_rewrote (fun o ho => ((hmem o).mp ho).1) hnodup hall
    refine ⟨hgrants, .inr ⟨hsrc, hdst, hrewrote.congr fun o ho => ?_⟩⟩
    have hiff : (∃ x ∈ (objectsUnderPrefix s₁.db bucket src).insertionSort
        (fun a b => b.name.count '/' ≤ a.name.count '/'),
          x.id = o.id ∧ src ++ ['/'] <+: o.name) ↔
        o.bucketId = bucket.id ∧ src ++ ['/'] <+: o.name := by
      constructor
      · rintro ⟨x, hx, hid, hname⟩
        obtain ⟨hxmem, hxbucket, -⟩ := (hmem x).mp hx
        rw [Database.object_eq_of_id hxmem ho hid] at hxbucket
        exact ⟨hxbucket, hname⟩
      · rintro ⟨hbucket, hname⟩
        exact ⟨o, (hmem o).mpr ⟨ho, hbucket, .of_isPrefix _ hname⟩, rfl, hname⟩
    simp only [renameAmong, renamedRow, hiff]

end StorageService.Storage
