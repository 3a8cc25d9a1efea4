import StorageService.Storage.Effects

/-!
# What a successful request did

Requests resolve a bucket first, which may provision the company bucket, and
then check paths.  Resolving leaves objects and grants alone, so decisions are
the same before and after it.
-/

namespace StorageService.Storage

open StorageService.Foundation
open StorageService.Foundation.Action

variable {env : Env} {s s' : World}

/-! ## Buckets -/

structure ContentKept (s s' : World) : Prop where
  objects : s'.db.objects = s.db.objects
  companyQuotas : s'.db.companyQuotas = s.db.companyQuotas
  blobs : s'.out.blobs = s.out.blobs
  now : s'.out.now = s.out.now
  drawn : s.out.drawn ≤ s'.out.drawn
  engine : s'.db.engine = s.db.engine
  kept : ∀ b ∈ s.db.buckets.rows, ∃ b' ∈ s'.db.buckets.rows,
    b'.id = b.id ∧ b'.companyId = b.companyId ∧ b'.name = b.name
  known : ∀ b' ∈ s'.db.buckets.rows, (∃ b ∈ s.db.buckets.rows,
    b'.id = b.id ∧ b'.companyId = b.companyId ∧ b'.name = b.name) ∨
      ∀ b ∈ s.db.buckets.rows, b.id ≠ b'.id

theorem ContentKept.of_buckets {s s' : World} (hbuckets : s'.db.buckets = s.db.buckets)
    (hobjects : s'.db.objects = s.db.objects)
    (hquotas : s'.db.companyQuotas = s.db.companyQuotas)
    (hblobs : s'.out.blobs = s.out.blobs) (hnow : s'.out.now = s.out.now)
    (hdrawn : s.out.drawn ≤ s'.out.drawn) (hengine : s'.db.engine = s.db.engine) :
    ContentKept s s' := by
  refine ⟨hobjects, hquotas, hblobs, hnow, hdrawn, hengine, ?_, ?_⟩
  · intro b hb
    exact ⟨b, by rwa [hbuckets], rfl, rfl, rfl⟩
  · intro b hb
    rw [hbuckets] at hb
    exact .inl ⟨b, hb, rfl, rfl, rfl⟩

theorem contentKept_lenient : Lenient ContentKept where
  refl s := .of_buckets rfl rfl rfl rfl rfl le_rfl rfl
  trans := by
    intro s s₁ s₂ h h'
    refine ⟨h'.objects.trans h.objects, h'.companyQuotas.trans h.companyQuotas,
      h'.blobs.trans h.blobs, h'.now.trans h.now, h.drawn.trans h'.drawn,
      h'.engine.trans h.engine, ?_, ?_⟩
    · intro b hb
      obtain ⟨b₁, hb₁, hid, hcompany, hname⟩ := h.kept b hb
      obtain ⟨b₂, hb₂, hid', hcompany', hname'⟩ := h'.kept b₁ hb₁
      exact ⟨b₂, hb₂, hid'.trans hid, hcompany'.trans hcompany, hname'.trans hname⟩
    · intro b₂ hb₂
      rcases h'.known b₂ hb₂ with ⟨b₁, hb₁, hid', hcompany', hname'⟩ | hnew
      · rcases h.known b₁ hb₁ with ⟨b, hb, hid, hcompany, hname⟩ | hnew
        · exact .inl ⟨b, hb, hid'.trans hid, hcompany'.trans hcompany, hname'.trans hname⟩
        · exact .inr fun b hb => hid' ▸ hnew b hb
      · right
        intro b hb
        obtain ⟨b₁, hb₁, hid, -, -⟩ := h.kept b hb
        exact hid ▸ hnew b₁ hb₁
  rollback h := .of_buckets rfl rfl rfl h.blobs h.now h.drawn rfl
  fault _ _ := .of_buckets rfl rfl rfl rfl rfl le_rfl rfl

structure BucketsOnly (s s' : World) : Prop extends ContentKept s s' where
  grants : s'.db.grants = s.db.grants

theorem bucketsOnly_lenient : Lenient BucketsOnly where
  refl s := ⟨contentKept_lenient.refl s, rfl⟩
  trans h h' := ⟨contentKept_lenient.trans h.toContentKept h'.toContentKept,
    h'.grants.trans h.grants⟩
  rollback h := ⟨contentKept_lenient.rollback h.toContentKept, rfl⟩
  fault s f := ⟨contentKept_lenient.fault s f, rfl⟩

theorem BucketsOnly.of_createBucket {b : Bucket} {db : Database}
    (h : s.db.createBucket b = some db) : BucketsOnly s { s with db := db } := by
  obtain ⟨hrows, hobjects, hgrants, hquotas, -, hfree⟩ := Database.createBucket_eq_some h
  refine ⟨⟨hobjects, hquotas, rfl, rfl, le_rfl, Database.createBucket_engine h, ?_, ?_⟩, hgrants⟩
  · intro a ha
    exact ⟨a, by simp [hrows, ha], rfl, rfl, rfl⟩
  · intro a ha
    rw [hrows, List.mem_append, List.mem_singleton] at ha
    rcases ha with ha | rfl
    · exact .inl ⟨a, ha, rfl, rfl, rfl⟩
    · exact .inr fun c hc hid => hfree c hc (.inl hid)

theorem BucketsOnly.of_setCompanyBucket (s : World) (id : UUID) :
    BucketsOnly s { s with db := s.db.setCompanyBucket id } := by
  refine ⟨⟨rfl, rfl, rfl, rfl, le_rfl, rfl, ?_, ?_⟩, rfl⟩
  · intro b hb
    refine ⟨_, List.mem_map_of_mem hb, ?_⟩
    by_cases hid : b.id = id <;> simp [hid]
  · intro b hb
    obtain ⟨a, ha, rfl⟩ := List.mem_map.mp hb
    left
    refine ⟨a, ha, ?_⟩
    by_cases hid : a.id = id <;> simp [hid]

theorem createBucket_bucketsOnly (b : Bucket) :
    (execute (·.createBucket b)).Within BucketsOnly :=
  within_execute bucketsOnly_lenient fun _ _ hdb => .of_createBucket hdb

theorem setCompanyBucket_bucketsOnly (id : UUID) :
    (execute fun db => some (db.setCompanyBucket id)).Within BucketsOnly := by
  apply within_execute bucketsOnly_lenient
  intro s db hdb
  cases hdb
  exact .of_setCompanyBucket s id

theorem drawUuid_bucketsOnly (env : Env) : (drawUuid env).Within BucketsOnly :=
  within_drawUuid env fun _ =>
    ⟨.of_buckets rfl rfl rfl rfl rfl (Nat.le_succ _) rfl, rfl⟩

theorem ensureCompanyBucket_bucketsOnly (env : Env) (companyId : Nat) :
    (ensureCompanyBucket env companyId).Within BucketsOnly := by
  have hR := bucketsOnly_lenient.toComposable
  refine Within.bind hR (Within.database hR) fun db => ?_
  split
  · refine Within.bind hR (drawUuid_bucketsOnly env) fun id => ?_
    refine Within.bind hR (createBucket_bucketsOnly _) fun _ => ?_
    exact Within.bind hR (within_reachOr bucketsOnly_lenient _ _) fun _ => Within.pure hR _
  · refine Within.ite ?_ (Within.pure hR _)
    exact Within.bind hR (setCompanyBucket_bucketsOnly _) fun _ => Within.pure hR _

def Provisioned (companyId : Nat) (db : Database) : Prop :=
  ∃ b, db.bucketNamed companyId companyBucketName = some b ∧ b.kind = .company ∧
    b.isPublic = false

theorem bucketNamed_setCompanyBucket {db : Database} {companyId : Nat} {name : Text}
    {b : Bucket} (h : db.bucketNamed companyId name = some b) :
    (db.setCompanyBucket b.id).bucketNamed companyId name =
      some { b with kind := .company, isPublic := false, ownerId := none } := by
  rw [Database.bucketNamed] at h
  have hsame : (fun c : Bucket => decide (c.companyId = companyId ∧ c.name = name)) ∘
      (fun c : Bucket => if c.id = b.id then
        { c with kind := .company, isPublic := false, ownerId := none } else c) =
      fun c => decide (c.companyId = companyId ∧ c.name = name) := by
    funext c
    by_cases hc : c.id = b.id <;> simp [hc]
  simp only [Database.bucketNamed, Database.setCompanyBucket, Table.rows_rewrite,
    List.find?_map, hsame, h, Option.map_some, if_true]

theorem ensureCompanyBucket_provisioned {companyId : Nat} {b : Bucket}
    (h : (ensureCompanyBucket env companyId).Runs s b s') : Provisioned companyId s'.db := by
  simp only [ensureCompanyBucket, runs_bind, runs_database] at h
  obtain ⟨db, s₀, ⟨rfl, rfl⟩, h⟩ := h
  cases hfound : s₀.db.bucketNamed companyId companyBucketName with
  | none =>
      simp only [hfound, reach, runs_bind, runs_drawUuid, runs_execute, runs_reachOr,
        runs_pure] at h
      obtain ⟨id, s₁, ⟨rfl, rfl⟩, _, s₂, ⟨out, db, -, hcreate, rfl⟩, _, s₃,
        ⟨out', -, rfl⟩, rfl, rfl⟩ := h
      obtain ⟨hrows, -⟩ := Database.createBucket_eq_some hcreate
      rw [Database.bucketNamed] at hfound
      have hnew : db.bucketNamed companyId companyBucketName =
          some (newCompanyBucket companyId (env.uuid4 s₀.out.drawn)) := by
        rw [Database.bucketNamed, hrows, List.find?_append, hfound, Option.none_or]
        exact List.find?_cons_of_pos (by simp [newCompanyBucket])
      exact ⟨_, hnew, rfl, rfl⟩
  | some bucket =>
      simp only [hfound, runs_ite, runs_bind, runs_execute, runs_pure] at h
      rcases h with ⟨-, _, s₁, ⟨out, db, -, hset, rfl⟩, rfl, rfl⟩ | ⟨hok, rfl, rfl⟩
      · cases hset
        exact ⟨_, bucketNamed_setCompanyBucket hfound, rfl, rfl⟩
      · rw [not_or, not_not] at hok
        exact ⟨_, hfound, hok.1, by simpa using hok.2⟩

theorem ensureCompanyBucket_again {companyId : Nat} {b : Bucket}
    (hs : Provisioned companyId s.db) (h : (ensureCompanyBucket env companyId).Runs s b s') :
    s' = s := by
  obtain ⟨bucket, hfound, hkind, hpublic⟩ := hs
  simp only [ensureCompanyBucket, runs_bind, runs_database] at h
  obtain ⟨db, s₀, ⟨rfl, rfl⟩, h⟩ := h
  simp only [hfound, hkind, hpublic, ne_eq, not_true_eq_false, Bool.false_eq_true, or_self,
    if_false, runs_pure] at h
  exact h.2

def provisioned (b : Bucket) : Bucket :=
  if b.name = companyBucketName ∧ (b.kind ≠ .company ∨ b.isPublic) then
    { b with kind := .company, isPublic := false, ownerId := none }
  else b

@[simp] theorem provisioned_id (b : Bucket) : (provisioned b).id = b.id := by
  unfold provisioned
  split <;> rfl

@[simp] theorem provisioned_companyId (b : Bucket) : (provisioned b).companyId = b.companyId := by
  unfold provisioned
  split <;> rfl

@[simp] theorem provisioned_name (b : Bucket) : (provisioned b).name = b.name := by
  unfold provisioned
  split <;> rfl

theorem bucketNamed_eq_some {db : Database} {companyId : Nat} {name : Text} {b : Bucket} :
    db.bucketNamed companyId name = some b ↔
      b ∈ db.buckets.rows ∧ b.companyId = companyId ∧ b.name = name := by
  constructor
  · intro h
    have hfound := List.find?_some h
    simp only [decide_eq_true_eq] at hfound
    exact ⟨List.mem_of_find?_eq_some h, hfound⟩
  · rintro ⟨hb, rfl, rfl⟩
    apply db.buckets.find?_eq_some _ hb (by simp)
    intro c hc
    simp only [decide_eq_true_eq] at hc
    exact .inr ⟨hc.1.symm, hc.2.symm⟩

theorem ensureCompanyBucket_mem {companyId : Nat} {c : Bucket}
    (h : (ensureCompanyBucket env companyId).Runs s c s') {b : Bucket}
    (hb : b ∈ s.db.buckets.rows) (hcompany : b.companyId = companyId) :
    provisioned b ∈ s'.db.buckets.rows := by
  have hrow : ∀ {a : Bucket}, s.db.bucketNamed companyId companyBucketName = some a →
      b.name = companyBucketName → b = a := fun hfound hname =>
    Option.some.inj ((bucketNamed_eq_some.mpr ⟨hb, hcompany, hname⟩).symm.trans hfound)
  simp only [ensureCompanyBucket, runs_bind, runs_database] at h
  obtain ⟨db, s₀, ⟨rfl, rfl⟩, h⟩ := h
  cases hfound : s₀.db.bucketNamed companyId companyBucketName with
  | none =>
      simp only [hfound, reach, runs_bind, runs_drawUuid, runs_execute, runs_reachOr,
        runs_pure] at h
      obtain ⟨id, s₁, ⟨rfl, rfl⟩, _, s₂, ⟨out, db, -, hcreate, rfl⟩, _, s₃,
        ⟨out', -, rfl⟩, rfl, rfl⟩ := h
      obtain ⟨hrows, -⟩ := Database.createBucket_eq_some hcreate
      have hname : b.name ≠ companyBucketName := by
        intro hname
        rw [bucketNamed_eq_some.mpr ⟨hb, hcompany, hname⟩] at hfound
        contradiction
      rw [provisioned, if_neg fun hboth => hname hboth.1, hrows]
      exact List.mem_append_left _ hb
  | some a =>
      simp only [hfound, runs_ite, runs_bind, runs_execute, runs_pure] at h
      rcases h with ⟨hwrong, _, s₁, ⟨out, db, -, hset, rfl⟩, rfl, rfl⟩ | ⟨hok, rfl, rfl⟩
      · cases hset
        refine List.mem_map.mpr ⟨b, hb, ?_⟩
        by_cases hname : b.name = companyBucketName
        · obtain rfl := hrow hfound hname
          rw [if_pos rfl, provisioned, if_pos ⟨hname, hwrong⟩]
        · have hne : b.id ≠ a.id := by
            intro hid
            obtain ⟨ha, -, haname⟩ := bucketNamed_eq_some.mp hfound
            rw [Database.bucket_eq_of_id hb ha hid] at hname
            exact hname haname
          rw [if_neg hne, provisioned, if_neg fun hboth => hname hboth.1]
      · rw [provisioned, if_neg]
        · exact hb
        · rintro ⟨hname, hwrong⟩
          obtain rfl := hrow hfound hname
          exact hok hwrong

/-! ## Resolving a bucket -/

structure Resolved (principal : StoragePrincipal) (name : Text) (required : Permission)
    (bucket : Bucket) (s s' : World) : Prop where
  company : principal.companyId = some bucket.companyId
  bucketsOnly : BucketsOnly s s'
  provisioned : Provisioned bucket.companyId s'.db
  found : s'.db.bucketNamed bucket.companyId name = some bucket
  allowed : canAccessBucket s'.db s'.out.now principal bucket required = true

theorem Resolved.mem {principal : StoragePrincipal} {name : Text} {required : Permission}
    {bucket : Bucket} (h : Resolved principal name required bucket s s') :
    bucket ∈ s'.db.buckets.rows :=
  (bucketNamed_eq_some.mp h.found).1

theorem Resolved.name_eq {principal : StoragePrincipal} {name : Text} {required : Permission}
    {bucket : Bucket} (h : Resolved principal name required bucket s s') : bucket.name = name :=
  (bucketNamed_eq_some.mp h.found).2.2

theorem getAccessibleBucket_resolved {principal : StoragePrincipal} {name : Text}
    {required : Permission} {bucket : Bucket}
    (h : (getAccessibleBucket env principal name required).Runs s bucket s') :
    Resolved principal name required bucket s s' := by
  simp only [getAccessibleBucket, requireCompanyId, runs_bind, runs_ofOption, runs_database,
    runs_assertCanAccessBucket, runs_pure] at h
  obtain ⟨companyId, _, ⟨hcompany, rfl⟩, b, s₁, hensure, db, _, ⟨rfl, rfl⟩, found, _,
    ⟨hfound, rfl⟩, _, s₂, ⟨hallowed, rfl⟩, rfl, rfl⟩ := h
  have hc : bucket.companyId = companyId := by
    have := List.find?_some hfound
    simp only [decide_eq_true_eq] at this
    exact this.1
  subst hc
  exact ⟨hcompany, (ensureCompanyBucket_bucketsOnly env _).runs hensure,
    ensureCompanyBucket_provisioned hensure, hfound, hallowed⟩

/-- Once the company bucket is provisioned, resolving changes nothing. -/
theorem getAccessibleBucket_again {principal : StoragePrincipal} {name : Text}
    {required : Permission} {bucket : Bucket} {companyId : Nat}
    (hprincipal : principal.companyId = some companyId) (hs : Provisioned companyId s.db)
    (h : (getAccessibleBucket env principal name required).Runs s bucket s') :
    s' = s ∧ s.db.bucketNamed companyId name = some bucket ∧
      canAccessBucket s.db s.out.now principal bucket required = true := by
  simp only [getAccessibleBucket, requireCompanyId, runs_bind, runs_ofOption, runs_database,
    runs_assertCanAccessBucket, runs_pure, hprincipal, Option.some.injEq] at h
  obtain ⟨c, _, ⟨rfl, rfl⟩, b, s₁, hensure, db, _, ⟨rfl, rfl⟩, found, _, ⟨hfound, rfl⟩, _,
    s₂, ⟨hallowed, rfl⟩, rfl, rfl⟩ := h
  have hsame := ensureCompanyBucket_again hs hensure
  subst hsame
  exact ⟨rfl, hfound, hallowed⟩

/-! ## Decisions see objects and grants only -/

theorem activeGrants_congr {db db' : Database} (hobjects : db'.objects = db.objects)
    (hgrants : db'.grants = db.grants) (now : Time) (companyId : Nat) :
    activeGrants db' now companyId = activeGrants db now companyId := by
  have hbyId : db'.objectById = db.objectById := by
    funext id
    rw [Database.objectById, Database.objectById, hobjects]
  have hrelated : db'.selectRelated = db.selectRelated := by
    funext g
    simp only [Database.selectRelated, hbyId]
  rw [activeGrants, activeGrants, hgrants, hrelated]

theorem matchingGrants_congr {db db' : Database} (hobjects : db'.objects = db.objects)
    (hgrants : db'.grants = db.grants) (now : Time) (principal : StoragePrincipal)
    (bucket : Bucket) (path : Option Text) (objectId : Option UUID) :
    matchingGrants db' now principal bucket path objectId =
      matchingGrants db now principal bucket path objectId := by
  unfold matchingGrants
  cases principal.companyId with
  | none => rfl
  | some companyId => simp only [activeGrants_congr hobjects hgrants]

theorem BucketsOnly.evaluateAccess (h : BucketsOnly s s') (principal : StoragePrincipal)
    (bucket : Bucket) (path : Option Text) (objectId : Option UUID) (required : Permission) :
    evaluateAccess s'.db s'.out.now principal bucket path objectId required =
      evaluateAccess s.db s.out.now principal bucket path objectId required := by
  rw [h.now, Storage.evaluateAccess, Storage.evaluateAccess,
    matchingGrants_congr h.objects h.grants]

theorem Resolved.canAccessPath {principal : StoragePrincipal} {name : Text}
    {required : Permission} {bucket : Bucket} (h : Resolved principal name required bucket s s')
    (b : Bucket) (path : Text) (objectId : Option UUID) (needed : Permission) :
    canAccessPath s'.db s'.out.now principal b path objectId needed =
      canAccessPath s.db s.out.now principal b path objectId needed :=
  h.bucketsOnly.evaluateAccess principal b (some path) objectId needed

/-! ## Creating a grant -/

structure GrantAdded (g : GrantRow) (s s' : World) : Prop where
  buckets : s'.db.buckets = s.db.buckets
  objects : s'.db.objects = s.db.objects
  companyQuotas : s'.db.companyQuotas = s.db.companyQuotas
  grants : s'.db.grants.rows = s.db.grants.rows ++ [g]
  blobs : s'.out.blobs = s.out.blobs
  now : s'.out.now = s.out.now
  drawn : s.out.drawn ≤ s'.out.drawn

theorem createGrantRow_added {row : UUID → Time → GrantRow} {g : GrantRow}
    (h : (createGrantRow env row).Runs s g s') :
    g = row (env.uuid4 s.out.drawn) s.out.now ∧ GrantAdded g s s' := by
  simp only [createGrantRow, runs_bind, runs_drawUuid, runs_outside, runs_execute,
    runs_pure] at h
  obtain ⟨id, s₁, ⟨rfl, rfl⟩, out, _, ⟨rfl, rfl⟩, _, s₂, ⟨out', db, hvisit, hcreate, rfl⟩,
    rfl, rfl⟩ := h
  obtain ⟨hbuckets, hobjects, hgrants, hquotas, -⟩ := Database.createGrant_eq_some hcreate
  refine ⟨rfl, hbuckets, hobjects, hquotas, hgrants, ?_, ?_, ?_⟩ <;>
    rw [Outside.visit_eq_some hvisit]
  exact Nat.le_succ _

def MayManage (db : Database) (now : Time) (principal : StoragePrincipal) (bucket : Bucket)
    (fields : GrantFields) : Prop :=
  if fields.resourceType = .bucket then
    canAccessBucket db now principal bucket fields.required = true
  else canAccessPath db now principal bucket fields.resourceId none fields.required = true

theorem assertCanManageResource_spec {principal : StoragePrincipal} {fields : GrantFields}
    {bucket : Bucket} {s₀ : World} {u : Unit}
    (hbucket : Resolved principal fields.bucketName .read bucket s₀ s)
    (h : (assertCanManageResource env principal fields.bucketName fields.resourceType
      fields.resourceId fields.needAdmin).Runs s u s') :
    s' = s ∧ (isCompanyAdmin principal = true ∨
      MayManage s.db s.out.now principal bucket fields) := by
  simp only [assertCanManageResource, runs_bind] at h
  obtain ⟨b, s₁, hagain, h⟩ := h
  obtain ⟨rfl, hfound, -⟩ :=
    getAccessibleBucket_again hbucket.company hbucket.provisioned hagain
  have hb : b = bucket := Option.some.inj (hfound.symm.trans hbucket.found)
  subst hb
  simp only [runs_ite, runs_pure, runs_assertCanAccessBucket,
    runs_assertCanAccessPath] at h
  rcases h with ⟨hadmin, -, rfl⟩ | ⟨-, ⟨htype, hallowed, rfl⟩ | ⟨htype, hallowed, rfl⟩⟩
  · exact ⟨rfl, .inl hadmin⟩
  · exact ⟨rfl, .inr (by simpa [MayManage, GrantFields.required, htype] using hallowed)⟩
  · exact ⟨rfl, .inr (by simpa [MayManage, GrantFields.required, htype] using hallowed)⟩

theorem runs_assertCanOpenToCompany {companyId : Nat} {bucketName path : Text} {u : Unit}
    (h : (assertCanOpenToCompany companyId bucketName path).Runs s u s') : s' = s := by
  simp only [assertCanOpenToCompany, runs_bind, runs_database, runs_outside] at h
  obtain ⟨db, _, ⟨rfl, rfl⟩, out, s₀, ⟨rfl, rfl⟩, h⟩ := h
  split at h
  · exact (runs_pure.mp h).2
  · rw [runs_ite] at h
    rcases h with ⟨-, h⟩ | ⟨-, h⟩
    · exact (runs_pure.mp h).2
    · simp at h

theorem not_private_of_assertCanOpenToCompany {companyId : Nat} {bucketName path : Text}
    {u : Unit} (h : (assertCanOpenToCompany companyId bucketName path).Runs s u s')
    {folder : Text}
    (hnearest : nearestPrivateAncestorFolder s.db s.out.now companyId bucketName path =
      some folder) : folder = [] := by
  simp only [assertCanOpenToCompany, runs_bind, runs_database, runs_outside] at h
  obtain ⟨db, _, ⟨rfl, rfl⟩, out, s₀, ⟨rfl, rfl⟩, h⟩ := h
  rw [hnearest] at h
  simp only [runs_ite, runs_raise, and_false, or_false] at h
  exact h.1

theorem runs_createGrant {principal : StoragePrincipal} {data : GrantRequest} {g : GrantRow}
    (h : (createGrant env principal data).Runs s g s') :
    ∃ fields bucket s₁ s₂ resource, readGrantRequest env data = .ok fields ∧
      (getAccessibleBucket env principal fields.bucketName .read).Runs s bucket s₁ ∧
      (isCompanyAdmin principal = true ∨
        MayManage s₁.db s₁.out.now principal bucket fields) ∧
      (fields.opensToCompany = true → (assertCanOpenToCompany bucket.companyId
        fields.bucketName fields.resourceId).Runs s₁ () s₁) ∧
      (grantTarget env principal bucket fields.resourceType fields.resourceId).Runs s₁
        resource s₂ ∧
      (∃ id now, g = requestedGrant principal bucket.companyId bucket fields resource id
        now) ∧ GrantAdded g s₂ s' := by
  simp only [createGrant, requireCompanyId, runs_bind, runs_ofOption, runs_ofExcept] at h
  obtain ⟨c, _, ⟨hc, rfl⟩, fields, s₀, ⟨hfields, rfl⟩, bucket, s₁, hbucket, _, t, hmanage,
    h⟩ := h
  have hresolved := getAccessibleBucket_resolved hbucket
  obtain ⟨rfl, hallowed⟩ := assertCanManageResource_spec hresolved hmanage
  have hcompany : c = bucket.companyId := Option.some.inj (hc.symm.trans hresolved.company)
  subst hcompany
  have hrest : (fields.opensToCompany = true → (assertCanOpenToCompany bucket.companyId
        fields.bucketName fields.resourceId).Runs t () t) ∧
      ∃ resource s₂, (grantTarget env principal bucket fields.resourceType
        fields.resourceId).Runs t resource s₂ ∧
      (createGrantRow env (requestedGrant principal bucket.companyId bucket fields
        resource)).Runs s₂ g s' := by
    rw [runs_ite] at h
    rcases h with ⟨-, h⟩ | ⟨hnot, h⟩
    · rw [runs_bind] at h
      obtain ⟨_, t', hopen, h⟩ := h
      obtain rfl := runs_assertCanOpenToCompany hopen
      exact ⟨fun _ => hopen, runs_bind.mp h⟩
    · exact ⟨fun hopens => absurd hopens hnot, runs_bind.mp h⟩
  obtain ⟨hopen, resource, s₂, htarget, hrow⟩ := hrest
  obtain ⟨hg, hadded⟩ := createGrantRow_added hrow
  exact ⟨fields, bucket, t, s₂, resource, hfields, hbucket, hallowed, hopen, htarget,
    ⟨_, _, hg⟩, hadded⟩

theorem createGrant_cases {principal : StoragePrincipal} {data : GrantRequest} {g : GrantRow}
    (h : (createGrant env principal data).Runs s g s') :
    ∃ fields bucket s₁ s₂ resource, readGrantRequest env data = .ok fields ∧
      Resolved principal fields.bucketName .read bucket s s₁ ∧
      (isCompanyAdmin principal = true ∨
        MayManage s₁.db s₁.out.now principal bucket fields) ∧
      (grantTarget env principal bucket fields.resourceType fields.resourceId).Runs s₁
        resource s₂ ∧
      (∃ id now, g = requestedGrant principal bucket.companyId bucket fields resource id
        now) ∧ GrantAdded g s₂ s' := by
  obtain ⟨fields, bucket, s₁, s₂, resource, hread, hbucket, hmanage, -, hrest⟩ :=
    runs_createGrant h
  exact ⟨fields, bucket, s₁, s₂, resource, hread, getAccessibleBucket_resolved hbucket,
    hmanage, hrest⟩

/-! ## Deleting a grant -/

theorem BucketsOnly.contentKept {α : Type} {x : Act α} (h : x.Within BucketsOnly) :
    x.Within ContentKept := fun s => (h s).toContentKept

section Rules

variable {R : World → World → Prop}

theorem assertCanAccessBucket_within (hR : Composable R) (principal : StoragePrincipal)
    (bucket : Bucket) (required : Permission) :
    (assertCanAccessBucket principal bucket required).Within R :=
  Within.bind hR (Within.database hR) fun _ =>
    Within.bind hR (Within.outside hR) fun _ => Within.ensure hR _ _

theorem assertCanAccessPath_within (hR : Composable R) (principal : StoragePrincipal)
    (bucket : Bucket) (path : Text) (objectId : Option UUID) (required : Permission) :
    (assertCanAccessPath principal bucket path objectId required).Within R :=
  Within.bind hR (Within.database hR) fun _ =>
    Within.bind hR (Within.outside hR) fun _ => Within.ensure hR _ _

theorem assertCanOpenToCompany_within (hR : Composable R) (companyId : Nat)
    (bucketName path : Text) :
    (assertCanOpenToCompany companyId bucketName path).Within R := by
  refine Within.bind hR (Within.database hR) fun db => ?_
  refine Within.bind hR (Within.outside hR) fun out => ?_
  split
  · exact Within.pure hR _
  · exact Within.ite (Within.pure hR _) (Within.raise hR _)

theorem getAccessibleBucket_within (hR : Composable R) {principal : StoragePrincipal}
    (hensure : ∀ companyId, principal.companyId = some companyId →
      (ensureCompanyBucket env companyId).Within R) (name : Text) (required : Permission) :
    (getAccessibleBucket env principal name required).Within R := by
  intro s
  refine hR.ofOption_at fun companyId hcompany => ?_
  refine hR.bind_at (hensure companyId hcompany s) fun _ s₁ _ => ?_
  refine hR.database_at (hR.ofOption_at fun bucket _ => ?_)
  exact Within.bind hR (assertCanAccessBucket_within hR _ _ _) (fun _ => Within.pure hR _) s₁

theorem assertCanManageResource_within (hR : Composable R) {principal : StoragePrincipal}
    (hensure : ∀ companyId, principal.companyId = some companyId →
      (ensureCompanyBucket env companyId).Within R) (bucketName : Text)
    (resourceType : ResourceType) (resourcePath : Text) (admin : Bool) :
    (assertCanManageResource env principal bucketName resourceType resourcePath
      admin).Within R := by
  refine Within.bind hR (getAccessibleBucket_within hR hensure bucketName .read)
    fun bucket => ?_
  exact Within.ite (Within.pure hR _) (Within.ite (assertCanAccessBucket_within hR _ _ _)
    (assertCanAccessPath_within hR _ _ _ _ _))

theorem createGrant_at (hR : Composable R) {principal : StoragePrincipal}
    (hensure : ∀ companyId, principal.companyId = some companyId →
      (ensureCompanyBucket env companyId).Within R) {data : GrantRequest}
    (hgrant : ∀ fields bucket s₁, readGrantRequest env data = .ok fields →
      (getAccessibleBucket env principal fields.bucketName .read).Runs s bucket s₁ →
      R s₁ ((do
        let resource ← grantTarget env principal bucket fields.resourceType fields.resourceId
        createGrantRow env (requestedGrant principal bucket.companyId bucket fields
          resource) : Act GrantRow) s₁).2) :
    R s (createGrant env principal data s).2 := by
  refine hR.ofOption_at fun companyId hc => ?_
  refine hR.ofExcept_at fun fields hfields => ?_
  refine hR.bind_at (getAccessibleBucket_within hR hensure fields.bucketName .read s)
    fun bucket s₁ hbucket => ?_
  have hresolved := getAccessibleBucket_resolved hbucket
  obtain rfl : companyId = bucket.companyId :=
    Option.some.inj (hc.symm.trans hresolved.company)
  refine hR.bind_at (assertCanManageResource_within hR hensure fields.bucketName
    fields.resourceType fields.resourceId fields.needAdmin s₁) fun _ s₂ hmanage => ?_
  obtain ⟨rfl, -⟩ := assertCanManageResource_spec hresolved hmanage
  split
  · refine hR.bind_at (assertCanOpenToCompany_within hR _ fields.bucketName
      fields.resourceId s₂) fun _ s₃ hopen => ?_
    obtain rfl := runs_assertCanOpenToCompany hopen
    exact hgrant fields bucket s₃ hfields hbucket
  · exact hgrant fields bucket s₂ hfields hbucket

theorem deleteGrant_at (hR : Lenient R) {principal : StoragePrincipal} {grantId : UUID}
    (hensure : ∀ companyId, principal.companyId = some companyId →
      (ensureCompanyBucket env companyId).Within R)
    (hdelete : ∀ row ∈ s.db.grants.rows, row.id = grantId →
      principal.companyId = some row.companyId → ∀ s₁, R s s₁ →
        R s₁ { s₁ with db := s₁.db.deleteGrant grantId }) :
    R s (deleteGrant env principal grantId s).2 := by
  have hC := hR.toComposable
  refine hC.ofOption_at fun companyId hc => ?_
  refine hC.database_at ?_
  refine hC.ofOption_at fun row hrow => ?_
  have hfound := List.find?_some hrow
  simp only [decide_eq_true_eq] at hfound
  obtain ⟨rfl, rfl⟩ := hfound
  have hlast : ∀ t, R s t → R t ((do
      reach .rowDelete
      modifyDatabase (·.deleteGrant row.id) : Act Unit) t).2 := by
    intro t ht
    have hreach := within_reachOr hR (.interrupted .rowDelete) .rowDelete
    exact hC.bind_at (hreach t) fun _ t₁ hrun =>
      hdelete row (List.mem_of_find?_eq_some hrow) rfl hc t₁ (hC.trans ht (hreach.runs hrun))
  refine hC.ofOption_at fun grant _ => ?_
  refine hC.ensure_at fun _ => ?_
  have hopen : ∀ bucketName t, R s t → R t ((do
      if grant.effect = .deny ∧ grant.subjectType = .company ∧ grant.permission = .read ∧
          grant.resource.type ≠ .bucket then
        assertCanOpenToCompany row.companyId bucketName (resourcePath s.db grant)
      reach .rowDelete
      modifyDatabase (·.deleteGrant row.id) : Act Unit) t).2 := by
    intro bucketName t ht
    split
    · refine hC.bind_at (assertCanOpenToCompany_within hC _ _ _ t) fun _ t₁ hrun => ?_
      obtain rfl := runs_assertCanOpenToCompany hrun
      exact hlast t₁ ht
    · exact hlast t ht
  dsimp only
  split
  · have hmanage := assertCanManageResource_within hC hensure
      (((s.db.bucketById grant.bucketId).map Bucket.name).getD []) grant.resource.type
      (resourcePath s.db grant) (decide (grant.effect = .deny))
    exact hC.bind_at (hmanage s) fun _ t hrun => hopen _ t (hmanage.runs hrun)
  · exact hopen _ s (hC.refl s)

end Rules

theorem runs_deleteGrant {principal : StoragePrincipal} {grantId : UUID} {u : Unit}
    (h : (deleteGrant env principal grantId).Runs s u s') :
    ∃ companyId row d s₁, principal.companyId = some companyId ∧
      (row ∈ s.db.grants.rows ∧ row.id = grantId ∧ row.companyId = companyId) ∧
      s.db.selectRelated row = some d ∧ BucketsOnly s s₁ ∧
      (d.effect = .deny ∧ d.subjectType = .company ∧ d.permission = .read ∧
          d.resource.type ≠ .bucket →
        (assertCanOpenToCompany companyId
          (((s.db.bucketById d.bucketId).map Bucket.name).getD []) (resourcePath s.db d)).Runs
            s₁ () s₁) ∧
      s'.db = s₁.db.deleteGrant grantId ∧ s'.out.now = s₁.out.now := by
  simp only [deleteGrant, requireCompanyId, runs_bind, runs_ofOption, runs_database,
    runs_ensure] at h
  obtain ⟨companyId, _, ⟨hc, rfl⟩, db, _, ⟨rfl, rfl⟩, row, _, ⟨hrow, rfl⟩, d, _, ⟨hd, rfl⟩, _,
    s₀, ⟨-, rfl⟩, h⟩ := h
  have hfound := List.find?_some hrow
  simp only [decide_eq_true_eq] at hfound
  have hmem := List.mem_of_find?_eq_some hrow
  -- the two guards leave at most a provisioned bucket behind
  have hlast : ∀ {t : World}, (do
      reach .rowDelete
      modifyDatabase (·.deleteGrant row.id) : Act Unit).Runs t () s' →
      s'.db = t.db.deleteGrant grantId ∧ s'.out.now = t.out.now := by
    intro t hrun
    simp only [reach, runs_bind, runs_reachOr, runs_modifyDatabase] at hrun
    obtain ⟨_, _, ⟨out, hvisit, rfl⟩, rfl⟩ := hrun
    rw [Outside.visit_eq_some hvisit, hfound.1]
    exact ⟨rfl, rfl⟩
  have hguard : ∀ {t : World}, (do
      if d.effect = .deny ∧ d.subjectType = .company ∧ d.permission = .read ∧
          d.resource.type ≠ .bucket then
        assertCanOpenToCompany companyId
          (((s₀.db.bucketById d.bucketId).map Bucket.name).getD []) (resourcePath s₀.db d)
      reach .rowDelete
      modifyDatabase (·.deleteGrant row.id) : Act Unit).Runs t () s' →
      (d.effect = .deny ∧ d.subjectType = .company ∧ d.permission = .read ∧
          d.resource.type ≠ .bucket →
        (assertCanOpenToCompany companyId
          (((s₀.db.bucketById d.bucketId).map Bucket.name).getD []) (resourcePath s₀.db d)).Runs
            t () t) ∧
      s'.db = t.db.deleteGrant grantId ∧ s'.out.now = t.out.now := by
    intro t hrun
    rw [runs_ite] at hrun
    rcases hrun with ⟨-, hrun⟩ | ⟨hnot, hrun⟩
    · rw [runs_bind] at hrun
      obtain ⟨_, t', hopen, hrun⟩ := hrun
      obtain rfl := runs_assertCanOpenToCompany hopen
      exact ⟨fun _ => hopen, hlast hrun⟩
    · exact ⟨fun hyes => absurd hyes hnot, hlast hrun⟩
  rw [runs_ite] at h
  rcases h with ⟨-, h⟩ | ⟨-, h⟩
  · rw [runs_bind] at h
    obtain ⟨_, s₁, hmanage, h⟩ := h
    exact ⟨companyId, row, d, s₁, hc, ⟨hmem, hfound⟩, hd,
      (assertCanManageResource_within bucketsOnly_lenient.toComposable
        (fun companyId _ => ensureCompanyBucket_bucketsOnly env companyId) _ _ _ _).runs hmanage,
      hguard h⟩
  · exact ⟨companyId, row, d, s₀, hc, ⟨hmem, hfound⟩, hd, bucketsOnly_lenient.refl s₀, hguard h⟩

theorem deleteGrant_contentKept (env : Env) (principal : StoragePrincipal)
    (grantId : UUID) : (deleteGrant env principal grantId).Within ContentKept := fun _ =>
  deleteGrant_at contentKept_lenient
    (fun companyId _ => BucketsOnly.contentKept (ensureCompanyBucket_bucketsOnly env companyId))
    fun _ _ _ _ _ _ => .of_buckets rfl rfl rfl rfl rfl le_rfl rfl

/-! ## Relocation requests -/

theorem authorisedRelocation_cases {principal : StoragePrincipal} {copy : Bool}
    {srcBucketName srcPath dstBucketName dstPath : Text} {obj : StorageObject}
    (h : (authorisedRelocation env principal copy srcBucketName srcPath dstBucketName
      dstPath).Runs s obj s') :
    ∃ srcBucket dstBucket s₁,
      Resolved principal srcBucketName (if copy then .read else .write) srcBucket s s₁ ∧
      s₁.db.bucketNamed srcBucket.companyId dstBucketName = some dstBucket ∧
      canAccessPath s₁.db s₁.out.now principal srcBucket srcPath none
        (if copy then .read else .write) = true ∧
      canAccessPath s₁.db s₁.out.now principal dstBucket dstPath none .write = true ∧
      (copy = true ∧ (copyObject env srcBucket srcPath dstBucket dstPath
          (some principal.userId)).Runs s₁ obj s' ∨
        copy = false ∧ (moveObject srcBucket srcPath dstBucket dstPath).Runs s₁ obj s') := by
  simp only [authorisedRelocation, runs_bind, runs_assertCanAccessPath] at h
  obtain ⟨srcBucket, s₁, hsrc, dstBucket, s₂, hdst, _, _, ⟨hreadable, rfl⟩, _, t,
    ⟨hwritable, rfl⟩, h⟩ := h
  have hresolved := getAccessibleBucket_resolved hsrc
  obtain ⟨rfl, hfound, -⟩ :=
    getAccessibleBucket_again hresolved.company hresolved.provisioned hdst
  refine ⟨srcBucket, dstBucket, _, hresolved, hfound, hreadable, hwritable, ?_⟩
  cases copy with
  | true => exact .inl ⟨rfl, by simpa using h⟩
  | false => exact .inr ⟨rfl, by simpa using h⟩

theorem renamePrefix_cases {principal : StoragePrincipal} {bucketName source dest : Text}
    {result : RenameResult}
    (h : (renamePrefix env principal bucketName source dest).Runs s result s') :
    ∃ bucket s₁, Resolved principal bucketName .write bucket s s₁ ∧
      canAccessPath s₁.db s₁.out.now principal bucket (stripSlash source) none .write =
        true ∧
      canAccessPath s₁.db s₁.out.now principal bucket (stripSlash dest) none .write = true ∧
      (renameFolder bucket (stripSlash source) (stripSlash dest)).Runs s₁ result s' := by
  simp only [renamePrefix, runs_bind, runs_ensure, runs_ofExcept,
    runs_assertCanAccessPath] at h
  obtain ⟨bucket, s₁, hbucket, _, _, ⟨-, rfl⟩, _, _, ⟨-, rfl⟩, _, _, ⟨-, rfl⟩, _, _,
    ⟨hsource, rfl⟩, _, _, ⟨hdest, rfl⟩, h⟩ := h
  exact ⟨bucket, _, getAccessibleBucket_resolved hbucket, hsource, hdest, h⟩

end StorageService.Storage
