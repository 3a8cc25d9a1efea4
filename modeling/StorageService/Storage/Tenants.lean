import StorageService.Storage.Placement

/-!
# What belongs to one company

A company has its rows, its counters and the content of its files.  An operation
on behalf of another company leaves all of it as it is, however it ends: objects
are reached through buckets of the acting company, and the blobs and grants of an
object are told from those of others by its id.
-/

namespace StorageService.Storage

open StorageService.Foundation
open StorageService.Foundation.Action

variable {env : Env} {companyId : Nat} {s s' : World}

structure Tenant where
  buckets : List Bucket
  objects : List StorageObject
  grants : List GrantRow
  contents : List (Option Bytes)
  quota : Option CompanyQuota
  userQuotas : Nat → Option UserQuota

def Database.objectsOf (db : Database) (companyId : Nat) : List StorageObject :=
  db.objects.rows.filter fun o => decide (o.companyId = companyId)

def World.tenant (w : World) (companyId : Nat) : Tenant where
  buckets := w.db.buckets.rows.filter fun b => decide (b.companyId = companyId)
  objects := w.db.objectsOf companyId
  grants := w.db.grants.rows.filter fun g => decide (g.companyId = companyId)
  contents := (w.db.objectsOf companyId).map fun o => w.out.blobs.lookup o.storageKey
  quota := w.db.companyQuotas companyId
  userQuotas := w.db.userQuotas companyId

@[simp] theorem Database.mem_objectsOf {db : Database} {o : StorageObject} :
    o ∈ db.objectsOf companyId ↔ o ∈ db.objects.rows ∧ o.companyId = companyId := by
  simp [Database.objectsOf]

theorem Sound.mem_objectsOf (h : Sound env s) {bucket : Bucket}
    (hbucket : bucket ∈ s.db.buckets.rows) (hcompany : bucket.companyId = companyId)
    {name : Text} {o : StorageObject} (hfound : s.db.objectNamed bucket.id name = some o) :
    o ∈ s.db.objectsOf companyId := by
  obtain ⟨hmem, hin, -⟩ := Database.objectNamed_eq_some hfound
  exact Database.mem_objectsOf.mpr
    ⟨hmem, (h.company_of_known hmem (known_of_mem hbucket) hin).trans hcompany⟩

def Spares (companyId : Nat) (s s' : World) : Prop := s'.tenant companyId = s.tenant companyId

section Spares

theorem spares_of (hbuckets : (s'.tenant companyId).buckets = (s.tenant companyId).buckets)
    (hobjects : s'.db.objectsOf companyId = s.db.objectsOf companyId)
    (hgrants : (s'.tenant companyId).grants = (s.tenant companyId).grants)
    (hquota : s'.db.companyQuotas companyId = s.db.companyQuotas companyId)
    (husers : s'.db.userQuotas companyId = s.db.userQuotas companyId)
    (hblobs : ∀ o ∈ s.db.objectsOf companyId,
      s'.out.blobs.lookup o.storageKey = s.out.blobs.lookup o.storageKey) :
    Spares companyId s s' := by
  have hcontents : (s'.db.objectsOf companyId).map (fun o => s'.out.blobs.lookup o.storageKey) =
      (s.db.objectsOf companyId).map fun o => s.out.blobs.lookup o.storageKey := by
    rw [hobjects]
    exact List.map_congr_left hblobs
  simp only [Spares, World.tenant, Tenant.mk.injEq]
  exact ⟨hbuckets, hobjects, hgrants, hcontents, hquota, husers⟩

theorem Spares.objects (h : Spares companyId s s') :
    s'.db.objectsOf companyId = s.db.objectsOf companyId :=
  congrArg Tenant.objects h

theorem Spares.grants (h : Spares companyId s s') :
    (s'.tenant companyId).grants = (s.tenant companyId).grants :=
  congrArg Tenant.grants h

theorem Spares.blobs (h : Spares companyId s s') {o : StorageObject}
    (ho : o ∈ s.db.objectsOf companyId) :
    s'.out.blobs.lookup o.storageKey = s.out.blobs.lookup o.storageKey := by
  have hcontents := congrArg Tenant.contents h
  simp only [World.tenant, h.objects] at hcontents
  exact List.map_inj_left.mp hcontents o ho

theorem spares_lenient (companyId : Nat) : Lenient (Spares companyId) where
  refl _ := rfl
  trans h h' := Eq.trans h' h
  rollback h := spares_of rfl rfl rfl rfl rfl fun _ ho => h.blobs ho
  fault _ _ := rfl

end Spares

/-! ## Rows and blobs of other companies -/

structure Foreign (companyId : Nat) (w : World) (id : UUID) : Prop where
  objects : ∀ o ∈ w.db.objectsOf companyId, o.id ≠ id ∧ ¬OwnedBy id o.storageKey
  grants : ∀ g ∈ (w.tenant companyId).grants, g.resource.object? ≠ some id

theorem Foreign.of_spares {id : UUID} (h : Foreign companyId s id)
    (hs : Spares companyId s s') : Foreign companyId s' id where
  objects := by
    rw [hs.objects]
    exact h.objects
  grants := by
    rw [hs.grants]
    exact h.grants

theorem foreign_of_mem (hsound : Sound env s) (hplaced : WellPlaced s.db) {obj : StorageObject}
    (hobj : obj ∈ s.db.objects.rows) (hne : obj.companyId ≠ companyId) :
    Foreign companyId s obj.id where
  objects := by
    intro o ho
    obtain ⟨hmem, hcompany⟩ := Database.mem_objectsOf.mp ho
    have hid : o.id ≠ obj.id := by
      intro hid
      rw [Database.object_eq_of_id hmem hobj hid] at hcompany
      exact hne hcompany
    exact ⟨hid, fun howned => hid ((hsound.keys o hmem).unique howned)⟩
  grants := by
    intro g hg href
    obtain ⟨hmem, hcompany⟩ := List.mem_filter.mp hg
    obtain ⟨⟨b, hb, hid, hsame⟩, hobject⟩ := hplaced.grants g hmem
    rw [decide_eq_true_eq] at hcompany
    apply hne
    rw [← hcompany, ← hsame]
    exact (hsound.company obj hobj b hb (hid.trans (hobject obj hobj href).symm)).symm

theorem foreign_drawn (henv : env.Lawful) (hsound : Sound env s) :
    Foreign companyId s (env.uuid4 s.out.drawn) := by
  have hfresh : ∀ o ∈ s.db.objects.rows, ¬OwnedBy (env.uuid4 s.out.drawn) o.storageKey := by
    intro o ho howned
    obtain ⟨n, hn, hallotted⟩ := hsound.allotted o ho
    exact hn.ne (henv.uuid4_injective (hallotted.unique howned))
  have hids : ∀ o ∈ s.db.objects.rows, o.id ≠ env.uuid4 s.out.drawn := by
    intro o ho hid
    exact hfresh o ho (hid ▸ hsound.keys o ho)
  constructor
  · intro o ho
    obtain ⟨hmem, -⟩ := Database.mem_objectsOf.mp ho
    exact ⟨hids o hmem, hfresh o hmem⟩
  · intro g hg href
    have hreferences := s.db.grantObject g (List.mem_filter.mp hg).1
    rw [href] at hreferences
    obtain ⟨o, ho, hid⟩ := hreferences
    exact hids o ho hid

/-! ## Steps -/

section Steps

variable {other : Nat}

theorem filter_append_other {ρ : Type} {p : ρ → Bool} {rows new : List ρ}
    (h : ∀ r ∈ new, p r = false) : (rows ++ new).filter p = rows.filter p := by
  have hnone : new.filter p = [] := List.filter_eq_nil_iff.mpr fun r hr => by simp [h r hr]
  rw [List.filter_append, hnone, List.append_nil]

theorem filter_filter_of_imp {ρ : Type} {p q : ρ → Bool} {rows : List ρ}
    (h : ∀ r ∈ rows, p r = true → q r = true) :
    (rows.filter q).filter p = rows.filter p := by
  rw [List.filter_filter]
  apply List.filter_congr
  intro r hr
  cases hp : p r with
  | false => rfl
  | true => simp [h r hr hp]

theorem filter_map_other {ρ : Type} {p : ρ → Bool} {f : ρ → ρ} {rows : List ρ}
    (hinside : ∀ r ∈ rows, p r = true → f r = r)
    (houtside : ∀ r ∈ rows, p r = false → p (f r) = false) :
    (rows.map f).filter p = rows.filter p := by
  induction rows with
  | nil => rfl
  | cons r rows ih =>
      rw [List.forall_mem_cons] at hinside houtside
      rw [List.map_cons, List.filter_cons, List.filter_cons, ih hinside.2 houtside.2]
      cases hp : p r with
      | true => simp [hinside.1 hp, hp]
      | false => simp [houtside.1 hp]

theorem drawUuid_spares (env : Env) : (drawUuid env).Within (Spares companyId) :=
  within_drawUuid env fun _ => rfl

theorem getOrCreateCompanyQuota_spares (env : Env) (hne : other ≠ companyId) :
    (getOrCreateCompanyQuota env other).Within (Spares companyId) := by
  have hC := (spares_lenient companyId).toComposable
  refine Within.bind hC (Within.database hC) fun db => ?_
  split
  · exact Within.pure hC _
  · refine Within.bind hC (Within.modifyDatabase fun s => ?_) fun _ => Within.pure hC _
    exact spares_of rfl rfl rfl (Function.update_of_ne hne.symm _ _) rfl fun _ _ => rfl

theorem setUserQuota_spares (hne : other ≠ companyId) (userId : Nat) (q : UserQuota) (s : World) :
    Spares companyId s { s with db := s.db.setUserQuota other userId q } := by
  refine spares_of rfl rfl rfl rfl ?_ fun _ _ => rfl
  funext user
  simp [Database.setUserQuota, hne.symm]

theorem applyUserDelta_spares (hne : other ≠ companyId) (company : CompanyQuota) (userId : Nat)
    (delta : Int) (s : World) :
    Spares companyId s { s with db := applyUserDelta other company userId delta s.db } := by
  unfold applyUserDelta
  split
  · exact setUserQuota_spares hne userId _ s
  · exact setUserQuota_spares hne userId _ s
  · rfl

theorem assertCanStore_spares (env : Env) (hne : other ≠ companyId) (userId : Option Nat)
    (additional replacing : Nat) :
    (assertCanStore env other userId additional replacing).Within (Spares companyId) := by
  have hR := spares_lenient companyId
  have hC := hR.toComposable
  refine Within.ite (Within.pure hC _) ?_
  refine Within.bind hC (within_reachOr hR _ _) fun _ => ?_
  refine Within.bind hC (getOrCreateCompanyQuota_spares env hne) fun company => ?_
  refine Within.bind hC (Within.ensure hC _ _) fun _ => ?_
  exact Within.bind hC (Within.database hC) fun db => Within.ensure hC _ _

theorem applyUsageDelta_spares (env : Env) (hne : other ≠ companyId) (userId : Option Nat)
    (delta : Int) : (applyUsageDelta env other userId delta).Within (Spares companyId) := by
  have hR := spares_lenient companyId
  have hC := hR.toComposable
  refine Within.atomic hC (Within.ite (Within.pure hC _) ?_)
  refine Within.bind hC (within_reachOr hR _ _) fun _ => ?_
  refine Within.bind hC (getOrCreateCompanyQuota_spares env hne) fun company => ?_
  refine Within.bind hC (Within.modifyDatabase fun s => ?_) fun _ => ?_
  · exact spares_of rfl rfl rfl (Function.update_of_ne hne.symm _ _) rfl fun _ _ => rfl
  · cases userId with
    | none => exact Within.pure hC _
    | some userId =>
        exact Within.modifyDatabase fun s => applyUserDelta_spares hne company userId delta s

theorem saveBlob_spares (henv : env.Lawful) {id : UUID} {key : Text}
    (hforeign : Foreign companyId s id) (hkey : OwnedBy id key) (data : Bytes) :
    Spares companyId s (saveBlob env key data s).2 := by
  have hR := spares_lenient companyId
  have hC := hR.toComposable
  refine hC.bind_at (within_reachOr hR _ _ s) fun _ s₁ hreach => ?_
  have hforeign₁ : Foreign companyId s₁ id :=
    hforeign.of_spares ((within_reachOr hR _ _).runs hreach)
  have hother : ∀ o ∈ s₁.db.objectsOf companyId, ∀ k, OwnedBy id k → o.storageKey ≠ k := by
    intro o ho k howned heq
    exact (hforeign₁.objects o ho).2 (heq ▸ howned)
  refine hC.bind_at ?_ fun _ s₂ _ => within_reachOr hR _ _ s₂
  refine spares_of rfl rfl rfl rfl rfl fun o ho => ?_
  change (Outside.save env key data s₁.out).blobs.lookup o.storageKey = _
  unfold Outside.save
  split
  · exact AList.lookup_insert_ne (hother o ho _ hkey)
  · exact AList.lookup_insert_ne (hother o ho _ (hkey.availableName henv _ _))

theorem deleteStorageKey_spares {id : UUID} {key : Text} (hforeign : Foreign companyId s id)
    (hkey : OwnedBy id key) : Spares companyId s (deleteStorageKey key s).2 := by
  have hR := spares_lenient companyId
  have hC := hR.toComposable
  refine hC.bind_at (within_reachOr hR _ _ s) fun _ s₁ hreach => ?_
  have hforeign₁ : Foreign companyId s₁ id :=
    hforeign.of_spares ((within_reachOr hR _ _).runs hreach)
  refine hC.bind_at ?_ fun _ s₂ _ => within_reachOr hR _ _ s₂
  refine spares_of rfl rfl rfl rfl rfl fun o ho => ?_
  refine AList.lookup_erase_ne ?_
  rintro rfl
  exact (hforeign₁.objects o ho).2 hkey

theorem createObject_spares {obj : StorageObject} (hne : obj.companyId ≠ companyId) :
    (execute (·.createObject obj)).Within (Spares companyId) := by
  apply within_execute (spares_lenient companyId)
  intro s db hdb
  obtain ⟨hbuckets, hobjects, hgrants, hquotas, husers, -⟩ := Database.createObject_eq_some hdb
  refine spares_of ?_ ?_ ?_ ?_ ?_ fun _ _ => rfl
  · simp only [World.tenant, hbuckets]
  · rw [Database.objectsOf, hobjects]
    exact filter_append_other fun o ho => by simp [List.mem_singleton.mp ho, hne]
  · simp only [World.tenant, hgrants]
  · exact congrFun hquotas companyId
  · exact congrFun husers companyId

theorem updateObject_spares {id : UUID} {f : StorageObject → StorageObject}
    (hforeign : Foreign companyId s id)
    (hf : ∀ o ∈ s.db.objects.rows, o.id = id → (f o).companyId ≠ companyId) :
    Spares companyId s (execute (·.updateObject id f) s).2 := by
  apply (spares_lenient companyId).execute_at
  intro db hdb
  obtain ⟨hbuckets, hobjects, hgrants, hquotas, husers⟩ := Database.updateObject_eq_some hdb
  refine spares_of ?_ ?_ ?_ ?_ ?_ fun _ _ => rfl
  · simp only [World.tenant, hbuckets]
  · rw [Database.objectsOf, hobjects]
    refine filter_map_other (fun o ho hours => ?_) fun o ho hours => ?_
    · have hmem : o ∈ s.db.objectsOf companyId := List.mem_filter.mpr ⟨ho, hours⟩
      exact Database.changed_of_ne (hforeign.objects o hmem).1
    · by_cases hid : o.id = id
      · simpa [Database.changed, hid] using hf o ho hid
      · rwa [Database.changed_of_ne hid]
  · simp only [World.tenant, hgrants]
  · exact congrFun hquotas companyId
  · exact congrFun husers companyId

theorem moveGrants_spares {id bucketId : UUID} (hforeign : Foreign companyId s id) :
    Spares companyId s (execute (·.moveGrants id bucketId) s).2 := by
  apply (spares_lenient companyId).execute_at
  intro db hdb
  obtain ⟨hbuckets, hobjects, hgrants, hquotas, husers⟩ := Database.moveGrants_eq_some hdb
  refine spares_of ?_ ?_ ?_ ?_ ?_ fun _ _ => rfl
  · simp only [World.tenant, hbuckets]
  · simp only [Database.objectsOf, hobjects]
  · simp only [World.tenant, hgrants]
    refine filter_map_other (fun g hg hours => ?_) fun g _ hours => ?_
    · exact if_neg (hforeign.grants g (List.mem_filter.mpr ⟨hg, hours⟩))
    · unfold Database.rebucket
      split <;> exact hours
  · exact congrFun hquotas companyId
  · exact congrFun husers companyId

theorem AddsGrants.spares {p : GrantRow → Prop} (h : AddsGrants p s s')
    (hp : ∀ g, p g → g.companyId ≠ companyId) : Spares companyId s s' := by
  obtain ⟨new, hrows, hnew⟩ := h.grants
  refine spares_of ?_ ?_ ?_ ?_ ?_ fun _ _ => by rw [h.blobs]
  · simp only [World.tenant, h.buckets]
  · simp only [Database.objectsOf, h.objects]
  · simp only [World.tenant, hrows]
    exact filter_append_other fun g hg => by simp [hp g (hnew g hg)]
  · rw [h.companyQuotas]
  · rw [h.userQuotas]

theorem createBucket_spares {bucket : Bucket} (hne : bucket.companyId ≠ companyId) :
    (execute (·.createBucket bucket)).Within (Spares companyId) := by
  apply within_execute (spares_lenient companyId)
  intro s db hdb
  obtain ⟨hrows, hobjects, hgrants, hquotas, husers, -⟩ := Database.createBucket_eq_some hdb
  refine spares_of ?_ ?_ ?_ ?_ ?_ fun _ _ => rfl
  · simp only [World.tenant, hrows]
    exact filter_append_other fun b hb => by simp [List.mem_singleton.mp hb, hne]
  · simp only [Database.objectsOf, hobjects]
  · simp only [World.tenant, hgrants]
  · exact congrFun hquotas companyId
  · exact congrFun husers companyId

theorem ensureCompanyBucket_spares (env : Env) (hne : other ≠ companyId) :
    (ensureCompanyBucket env other).Within (Spares companyId) := by
  have hR := spares_lenient companyId
  have hC := hR.toComposable
  intro s
  refine hC.database_at ?_
  cases hfound : s.db.bucketNamed other companyBucketName with
  | none =>
      have hrest : ∀ id, (do
          execute (·.createBucket (newCompanyBucket other id))
          reach .signal
          pure (newCompanyBucket other id) : Act Bucket).Within (Spares companyId) := fun id =>
        Within.bind hC (createBucket_spares hne) fun _ =>
          Within.bind hC (within_reachOr hR _ _) fun _ => Within.pure hC _
      exact Within.bind hC (drawUuid_spares env) hrest s
  | some bucket =>
      obtain ⟨hmem, hcompany, -⟩ := bucketNamed_eq_some.mp hfound
      dsimp only
      split
      · refine hC.bind_at (hR.execute_at fun db hdb => ?_) fun _ s₁ _ => Within.pure hC _ s₁
        cases hdb
        refine spares_of ?_ rfl rfl rfl rfl fun _ _ => rfl
        refine filter_map_other (fun b hb hours => ?_) fun b _ hours => ?_
        · have hid : b.id ≠ bucket.id := by
            intro hid
            rw [Database.bucket_eq_of_id hb hmem hid, decide_eq_true_eq, hcompany] at hours
            exact hne hours
          exact if_neg hid
        · split <;> exact hours
      · exact Within.pure hC _ s

end Steps

/-! ## Operations of other companies -/

def Deletion.AwayFrom (companyId : Nat) : Deletion → Prop
  | object obj => obj.companyId ≠ companyId
  | paths bucket _ _ | underPrefix bucket _ _ | wholeBucket bucket _ =>
      bucket.companyId ≠ companyId

/-- The operation is not one of the company: it works in another or, for a caller of none, fails. -/
def Operation.AwayFrom (companyId : Nat) : Operation → Prop
  | upload u => u.bucket.companyId ≠ companyId
  | delete d => d.AwayFrom companyId
  | rename bucket _ _ | move bucket _ _ _ | copy bucket _ _ _ _ | folderMarker bucket _ _ =>
      bucket.companyId ≠ companyId
  | createGrant principal _ | deleteGrant principal _ => principal.companyId ≠ some companyId
  | companyBucket other | companyLimit other _ _ | userLimit other _ _ => other ≠ companyId
  | addBucket bucket => ∀ id, (bucket id).companyId ≠ companyId

section Operations

variable {bucket destBucket : Bucket}

theorem createStored_spares (henv : env.Lawful) (hsound : Sound env s)
    (hne : bucket.companyId ≠ companyId) (name : Text) (data : Bytes) (ownerId : Option Nat)
    (size : Nat) (etag mimeType : Text) :
    Spares companyId s (createStored env bucket name data ownerId size etag mimeType s).2 := by
  have hC := (spares_lenient companyId).toComposable
  refine hC.bind_at (drawUuid_spares env s) fun objectId s₁ hdraw => ?_
  have hforeign : Foreign companyId s₁ objectId := by
    obtain ⟨rfl, -⟩ := runs_drawUuid.mp hdraw
    exact (foreign_drawn henv hsound).of_spares ((drawUuid_spares env).runs hdraw)
  have howned := ownedBy_buildStorageKey env bucket.companyId bucket.name name objectId
  refine hC.bind_at (saveBlob_spares henv hforeign howned data) fun _ s₂ _ => ?_
  refine hC.outside_at ?_
  exact Within.bind hC (createObject_spares hne) (fun _ => Within.pure hC _) s₂

theorem createFile_spares (henv : env.Lawful) (hsound : Sound env s)
    (hne : bucket.companyId ≠ companyId) (name : Text) (data : Bytes) (ownerId : Option Nat)
    (size : Nat) (etag mimeType : Text) :
    Spares companyId s (createFile env bucket name data ownerId size etag mimeType s).2 := by
  have hR := spares_lenient companyId
  have hC := hR.toComposable
  refine hC.bind_at (createStored_spares henv hsound hne name data ownerId size etag mimeType)
    fun obj s₁ hstored => ?_
  obtain ⟨-, -, ⟨-, -, hcompany, -⟩, -⟩ := runs_createStored hstored
  refine hC.bind_at (applyUsageDelta_spares env hne _ _ s₁) fun _ s₂ _ => ?_
  refine hC.bind_at ?_ fun _ s₃ _ => Within.bind hC (within_reachOr hR _ _)
    (fun _ => Within.pure hC _) s₃
  refine (applyDefaultPrivateOnCreate_addsGrants env obj obj.ownerId s₂).spares fun g hg => ?_
  rw [hg.2.companyId, hcompany]
  exact hne

theorem ensureFolderMarker_spares (henv : env.Lawful) (hsound : Sound env s)
    (hne : bucket.companyId ≠ companyId) (folderPath : Text) (ownerId : Option Nat) :
    Spares companyId s (ensureFolderMarker env bucket folderPath ownerId s).2 := by
  have hC := (spares_lenient companyId).toComposable
  refine hC.database_at ?_
  cases s.db.objectNamed bucket.id (folderPlaceholderPath folderPath) with
  | some existing => exact Within.pure hC existing s
  | none => exact createStored_spares henv hsound hne _ _ _ _ _ _

theorem overwriteObject_spares (henv : env.Lawful) (hsound : Sound env s)
    {existing : StorageObject} (hexisting : existing ∈ s.db.objects.rows)
    (hforeign : Foreign companyId s existing.id) (hne : bucket.companyId ≠ companyId)
    (hne' : existing.companyId ≠ companyId) (mimeType : Text) (data : Bytes)
    (ownerId : Option Nat) :
    Spares companyId s (overwriteObject env bucket existing mimeType data ownerId s).2 := by
  have hR := spares_lenient companyId
  have hC := hR.toComposable
  have hsave := saveBlob_spares henv hforeign (hsound.keys existing hexisting) data
  refine hC.bind_at hsave fun _ s₁ hrun => ?_
  rw [hrun] at hsave
  refine hC.outside_at ?_
  refine hC.bind_at (updateObject_spares (hforeign.of_spares hsave) fun _ _ _ => hne')
    fun _ s₂ _ => ?_
  refine hC.bind_at (applyUsageDelta_spares env hne _ _ s₂) fun _ s₃ _ => ?_
  exact Within.bind hC (within_reachOr hR _ _) (fun _ => Within.pure hC _) s₃

theorem uploadObject_spares (henv : env.Lawful) (hsound : Sound env s)
    (hplaced : WellPlaced s.db) (hbucket : bucket ∈ s.db.buckets.rows)
    (hne : bucket.companyId ≠ companyId) (path : Text) (data : Bytes) (ownerId : Option Nat)
    (contentType : Option Text) (upsert : Bool) :
    Spares companyId s (uploadObject env bucket path data ownerId contentType upsert s).2 := by
  have hC := (spares_lenient companyId).toComposable
  refine hC.atomic_at (hC.ofExcept_at fun name _ => ?_)
  refine hC.ensure_at fun _ => ?_
  refine hC.database_at ?_
  refine hC.ensure_at fun _ => ?_
  refine hC.ensure_at fun _ => ?_
  have hquota := assertCanStore_quotasOnly env bucket.companyId ownerId data.length
    (((s.db.objectNamed bucket.id name).map StorageObject.size).getD 0)
  have hspared := assertCanStore_spares env hne ownerId data.length
    (((s.db.objectNamed bucket.id name).map StorageObject.size).getD 0)
  refine hC.bind_at (hspared s) fun _ s₁ hrun => ?_
  have hsame := hquota.runs hrun
  have hsound₁ : Sound env s₁ := (Keeps.of_quotasOnly hsame).sound hsound
  cases hexisting : s.db.objectNamed bucket.id name with
  | some existing =>
      obtain ⟨hmem, hin, -⟩ := Database.objectNamed_eq_some hexisting
      have hcompany : existing.companyId ≠ companyId := by
        rw [hsound.company_of_known hmem (known_of_mem hbucket) hin]
        exact hne
      have hforeign := (foreign_of_mem hsound hplaced hmem hcompany).of_spares (hspared.runs hrun)
      rw [← hsame.objects] at hmem
      exact overwriteObject_spares henv hsound₁ hmem hforeign hne hcompany _ _ _
  | none => exact createFile_spares henv hsound₁ hne _ _ _ _ _ _

theorem copyObject_spares (henv : env.Lawful) (hsound : Sound env s)
    (hne : bucket.companyId ≠ companyId) (source dest : Text) (ownerId : Option Nat) :
    Spares companyId s (copyObject env bucket source destBucket dest ownerId s).2 := by
  have hC := (spares_lenient companyId).toComposable
  refine hC.atomic_at (hC.ofExcept_at fun sourceName _ => ?_)
  refine hC.ofExcept_at fun destName _ => ?_
  refine hC.database_at ?_
  refine hC.ofOption_at fun src _ => ?_
  refine hC.ensure_at fun _ => ?_
  refine hC.ensure_at fun hcompany => ?_
  rw [hcompany] at hne
  refine hC.bind_at (assertCanStore_spares env hne ownerId src.size 0 s) fun _ s₁ hrun => ?_
  have hsame := (assertCanStore_quotasOnly env destBucket.companyId ownerId src.size 0).runs hrun
  have hopen : (openBlob src.storageKey).Within (Spares companyId) :=
    Within.bind hC (Within.outside hC) fun _ => Within.ofOption hC _ _
  refine hC.bind_at (hopen s₁) fun data s₂ hdata => ?_
  simp only [openBlob, runs_bind, runs_outside, runs_ofOption] at hdata
  obtain ⟨out, _, ⟨rfl, rfl⟩, -, rfl⟩ := hdata
  exact createFile_spares henv ((Keeps.of_quotasOnly hsame).sound hsound) hne _ _ _ _ _ _

theorem moveObject_spares (hsound : Sound env s) (hplaced : WellPlaced s.db)
    (hbucket : bucket ∈ s.db.buckets.rows) (hne : bucket.companyId ≠ companyId)
    (source dest : Text) :
    Spares companyId s (moveObject bucket source destBucket dest s).2 := by
  have hC := (spares_lenient companyId).toComposable
  refine hC.atomic_at (hC.ofExcept_at fun sourceName _ => ?_)
  refine hC.ofExcept_at fun destName _ => ?_
  refine hC.database_at ?_
  refine hC.ofOption_at fun obj hobj => ?_
  obtain ⟨hmem, hin, -⟩ := Database.objectNamed_eq_some hobj
  refine hC.ensure_at fun _ => ?_
  refine hC.outside_at ?_
  have hcompany : obj.companyId ≠ companyId := by
    rw [hsound.company_of_known hmem (known_of_mem hbucket) hin]
    exact hne
  have hforeign := foreign_of_mem hsound hplaced hmem hcompany
  have hstays : ∀ o ∈ s.db.objects.rows, o.id = obj.id → o.companyId ≠ companyId := by
    intro o ho hid
    rw [Database.object_eq_of_id ho hmem hid]
    exact hcompany
  split
  · exact hC.bind_at (updateObject_spares hforeign hstays) fun _ s₁ _ => Within.pure hC _ s₁
  · refine hC.ensure_at fun _ => ?_
    have hmoved := updateObject_spares
      (f := fun o =>
        { o with bucketId := destBucket.id, name := destName, updatedAt := s.out.now })
      hforeign hstays
    refine hC.bind_at hmoved fun _ s₂ hrun => ?_
    rw [hrun] at hmoved
    exact hC.bind_at (moveGrants_spares (hforeign.of_spares hmoved)) fun _ s₃ _ =>
      Within.pure hC _ s₃

theorem renameFolder_spares (hsound : Sound env s) (hplaced : WellPlaced s.db)
    (hbucket : bucket ∈ s.db.buckets.rows) (hne : bucket.companyId ≠ companyId)
    (source dest : Text) : Spares companyId s (renameFolder bucket source dest s).2 := by
  have hC := (spares_lenient companyId).toComposable
  have hone : ∀ src dst obj s₁, Foreign companyId s₁ obj.id →
      Spares companyId s₁ (renameOne bucket src dst obj s₁).2 := by
    intro src dst obj s₁ hforeign
    unfold renameOne
    split
    · exact Within.pure hC _ s₁
    · refine hC.database_at ?_
      refine hC.ensure_at fun _ => ?_
      refine hC.outside_at ?_
      refine updateObject_spares hforeign fun o ho hid hcompany => ?_
      exact (hforeign.objects o (Database.mem_objectsOf.mpr ⟨ho, hcompany⟩)).1 hid
  refine hC.atomic_at (hC.ofExcept_at fun source' _ => ?_)
  refine hC.ofExcept_at fun dest' _ => ?_
  refine hC.ensure_at fun _ => ?_
  split
  · exact Within.pure hC _ s
  · refine hC.ensure_at fun _ => ?_
    refine hC.database_at ?_
    refine hC.ensure_at fun _ => ?_
    refine hC.ensure_at fun _ => ?_
    refine hC.bind_at (hC.forEach_at fun obj hobj t ht => hone _ _ _ t ?_) fun _ s₂ _ =>
      Within.bind hC (Within.database hC) (fun _ => Within.pure hC _) s₂
    rw [List.mem_insertionSort] at hobj
    obtain ⟨hmem, hin, -⟩ := Database.mem_objectsStartingWith.mp hobj
    refine (foreign_of_mem hsound hplaced hmem ?_).of_spares ht
    rw [hsound.company_of_known hmem (known_of_mem hbucket) hin]
    exact hne

theorem deleteObject_spares {obj : StorageObject} (hforeign : Foreign companyId s obj.id)
    (hkey : OwnedBy obj.id obj.storageKey) (hne : obj.companyId ≠ companyId) :
    Spares companyId s (deleteObject env obj s).2 := by
  have hR := spares_lenient companyId
  have hC := hR.toComposable
  refine hC.atomic_at (hC.bind_at (within_reachOr hR _ _ s) fun _ s₁ hreach => ?_)
  have hforeign₁ : Foreign companyId s₁ obj.id :=
    hforeign.of_spares ((within_reachOr hR _ _).runs hreach)
  have hrow : Spares companyId s₁ { s₁ with db := s₁.db.deleteObject obj.id } := by
    refine spares_of rfl ?_ ?_ rfl rfl fun _ _ => rfl
    · refine filter_filter_of_imp fun o ho hours => ?_
      have hmem : o ∈ s₁.db.objectsOf companyId := List.mem_filter.mpr ⟨ho, hours⟩
      simpa using (hforeign₁.objects o hmem).1
    · refine filter_filter_of_imp fun g hg hours => ?_
      simpa using hforeign₁.grants g (List.mem_filter.mpr ⟨hg, hours⟩)
  refine hC.bind_at hrow fun _ s₂ hrun => ?_
  rw [runs_modifyDatabase] at hrun
  subst hrun
  refine hC.bind_at (deleteStorageKey_spares (hforeign₁.of_spares hrow) hkey) fun _ s₃ _ => ?_
  refine hC.bind_at (applyUsageDelta_spares env hne _ _ s₃) fun _ s₄ _ => ?_
  exact within_reachOr hR _ _ s₄

theorem Deletion.objects_away {d : Deletion} (hsound : Sound env s) (loaded : d.Loaded s.db)
    (haway : d.AwayFrom companyId) :
    ∀ o ∈ d.objects s.db, o ∈ s.db.objects.rows ∧ o.companyId ≠ companyId := by
  intro o ho
  have hmem := d.objects_subset loaded o ho
  refine ⟨hmem, ?_⟩
  have hbucket : ∀ b ∈ s.db.buckets.rows, o.bucketId = b.id → b.companyId ≠ companyId →
      o.companyId ≠ companyId := by
    intro b hb hin hne
    rwa [hsound.company_of_known hmem (known_of_mem hb) hin]
  cases d with
  | object obj =>
      rw [objects, List.mem_singleton] at ho
      rwa [ho]
  | paths bucket principal names =>
      obtain ⟨raw, -, hraw⟩ := List.mem_filterMap.mp ho
      split at hraw
      · contradiction
      · exact hbucket bucket loaded (Database.objectNamed_eq_some hraw).2.1 haway
  | underPrefix bucket folderPath principal =>
      exact hbucket bucket loaded (Database.mem_objectsStartingWith.mp ho).2.1 haway
  | wholeBucket bucket principal =>
      exact hbucket bucket loaded (by simpa using (List.mem_filter.mp ho).2) haway

theorem Deletion.run_spares {d : Deletion} (hsound : Sound env s) (hplaced : WellPlaced s.db)
    (loaded : d.Loaded s.db) (haway : d.AwayFrom companyId) :
    Spares companyId s (d.run env s).2 := by
  have hC := (spares_lenient companyId).toComposable
  have hall : Spares companyId s (forEach (deleteObject env) (d.objects s.db) s).2 := by
    refine hC.forEach_at fun obj hobj t ht => ?_
    obtain ⟨hmem, hne⟩ := Deletion.objects_away hsound loaded haway obj hobj
    exact deleteObject_spares ((foreign_of_mem hsound hplaced hmem hne).of_spares ht)
      (hsound.keys obj hmem) hne
  rcases runs_or_fails (d.run env) s with ⟨u, hrun⟩ | hfail
  · obtain ⟨-, hloop⟩ := Deletion.runs_iff.mp hrun
    rwa [hloop] at hall
  · rcases Deletion.fails_iff.mp hfail with ⟨-, heq⟩ | ⟨-, s₁, ⟨e, hloop⟩, heq⟩
    · rw [heq]
      exact hC.refl s
    · rw [hloop] at hall
      rw [heq]
      exact hC.rollback hall

theorem createGrant_spares (henv : env.Lawful) (hsound : Sound env s)
    {principal : StoragePrincipal} (hne : principal.companyId ≠ some companyId)
    (data : GrantRequest) : Spares companyId s (createGrant env principal data s).2 := by
  have hC := (spares_lenient companyId).toComposable
  have hensure : ∀ c, principal.companyId = some c →
      (ensureCompanyBucket env c).Within (Spares companyId) := by
    rintro c hc
    exact ensureCompanyBucket_spares env fun heq => hne (heq ▸ hc)
  refine createGrant_at hC hensure fun fields bucket s₁ _ hbucket => ?_
  have hresolved := getAccessibleBucket_resolved hbucket
  have hother : bucket.companyId ≠ companyId := fun heq => hne (heq ▸ hresolved.company)
  have hsound₁ : Sound env s₁ :=
    (Keeps.of_contentKept hresolved.bucketsOnly.toContentKept).sound hsound
  have htarget : Spares companyId s₁
      (grantTarget env principal bucket fields.resourceType fields.resourceId s₁).2 := by
    cases fields.resourceType with
    | bucket => exact Within.pure hC _ s₁
    | object =>
        exact Within.bind hC (Within.database hC) (fun _ => Within.bind hC
          (Within.ofOption hC _ _) fun _ => Within.pure hC _) s₁
    | folder =>
        exact hC.bind_at (ensureFolderMarker_spares henv hsound₁ hother _ _)
          fun _ s₂ _ => Within.pure hC _ s₂
  refine hC.bind_at htarget fun resource s₂ _ => ?_
  have hrow : (createGrantRow env
      (requestedGrant principal bucket.companyId bucket fields resource)).Within
        (AddsGrants fun g => g.companyId = bucket.companyId) :=
    createGrantRow_addsGrants env fun _ _ => rfl
  exact (hrow s₂).spares fun g hg => hg ▸ hother

theorem deleteGrant_spares {principal : StoragePrincipal} {grantId : UUID}
    (hne : principal.companyId ≠ some companyId) :
    Spares companyId s (deleteGrant env principal grantId s).2 := by
  have hR := spares_lenient companyId
  have hensure : ∀ c, principal.companyId = some c →
      (ensureCompanyBucket env c).Within (Spares companyId) := by
    intro c hc
    exact ensureCompanyBucket_spares env fun heq => hne (heq ▸ hc)
  refine deleteGrant_at hR hensure fun row hrow hid hcompany s₁ hs₁ => ?_
  refine spares_of rfl rfl (filter_filter_of_imp fun g hg hours => ?_) rfl rfl fun _ _ => rfl
  have hmem : g ∈ (s₁.tenant companyId).grants := List.mem_filter.mpr ⟨hg, hours⟩
  rw [hs₁.grants] at hmem
  obtain ⟨hold, -⟩ := List.mem_filter.mp hmem
  simp only [Bool.not_eq_true', decide_eq_false_iff_not]
  intro heq
  rw [s.db.grants.eq_of_clash hold hrow (heq.trans hid.symm), decide_eq_true_eq] at hours
  exact hne (hours ▸ hcompany)

theorem addBucket_spares {bucket : UUID → Bucket} (hne : ∀ id, (bucket id).companyId ≠ companyId) :
    ((Operation.addBucket bucket).run env).Within (Spares companyId) := by
  have hR := spares_lenient companyId
  refine Within.bind hR.toComposable (drawUuid_spares env) fun id => ?_
  exact createBucket_spares (hne id)

/-- However an operation of others ends, it leaves the company as it was. -/
theorem Operation.run_spares (henv : env.Lawful) (hsound : Sound env s)
    (hplaced : WellPlaced s.db) {op : Operation} (loaded : op.Loaded s.db)
    (haway : op.AwayFrom companyId) : Spares companyId s (op.run env s).2 := by
  have hC := (spares_lenient companyId).toComposable
  cases op with
  | upload u =>
      exact hC.bind_at (uploadObject_spares henv hsound hplaced loaded haway _ _ _ _ _)
        fun _ s₁ _ => Within.pure hC _ s₁
  | delete d => exact d.run_spares hsound hplaced loaded haway
  | rename bucket source dest =>
      exact hC.bind_at (renameFolder_spares hsound hplaced loaded haway source dest)
        fun _ s₁ _ => Within.pure hC _ s₁
  | move bucket source destBucket dest =>
      exact hC.bind_at (moveObject_spares hsound hplaced loaded.1 haway source dest)
        fun _ s₁ _ => Within.pure hC _ s₁
  | copy bucket source destBucket dest ownerId =>
      exact hC.bind_at (copyObject_spares henv hsound haway source dest ownerId)
        fun _ s₁ _ => Within.pure hC _ s₁
  | folderMarker bucket folderPath ownerId =>
      exact hC.bind_at (ensureFolderMarker_spares henv hsound haway folderPath ownerId)
        fun _ s₁ _ => Within.pure hC _ s₁
  | createGrant principal data =>
      exact hC.bind_at (createGrant_spares henv hsound haway data)
        fun _ s₁ _ => Within.pure hC _ s₁
  | deleteGrant principal grantId => exact deleteGrant_spares haway
  | companyBucket other =>
      exact Within.bind hC (ensureCompanyBucket_spares env haway) (fun _ => Within.pure hC _) s
  | addBucket bucket => exact addBucket_spares haway s
  | companyLimit other maxBytes maxBytesPerUser =>
      have hset : ∀ quota, (modifyDatabase (·.setCompanyQuota other quota) : Act Unit).Within
          (Spares companyId) := fun quota => Within.modifyDatabase fun s =>
        spares_of rfl rfl rfl (Function.update_of_ne haway.symm _ _) rfl fun _ _ => rfl
      exact Within.bind hC (getOrCreateCompanyQuota_spares env haway) (fun _ => hset _) s
  | userLimit other userId maxBytes => exact setUserQuota_spares haway userId _ s

end Operations

/-! ## Runs -/

/-- Where only others are at work, nothing of the company changes. -/
theorem GuardedRun.spares (henv : env.Lawful) {w w' : World} (hw : Reachable env w)
    (h : GuardedRun env (fun _ op => op.AwayFrom companyId) w w') : Spares companyId w w' := by
  have hR := spares_lenient companyId
  induction h with
  | refl => exact hR.refl w
  | @tail v v' hrun hstep ih =>
      have hv : Reachable env v := GuardedRun.reachable hw hrun
      have hplaced : WellPlaced v.db := hv.wellPlaced henv
      refine hR.trans ih ?_
      cases hstep with
      | operation op fault loaded haway =>
          have hsound : Sound env (v.withFault fault) :=
            ((keeps_lenient env).fault v fault).sound (hv.sound henv)
          exact hR.trans (hR.fault v fault)
            (Operation.run_spares henv hsound hplaced loaded haway)
      | clock t later => exact rfl

end StorageService.Storage
