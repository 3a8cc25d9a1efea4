import StorageService.Storage.Canonical
import StorageService.Storage.Invariants

/-!
# What an operation may change

However an operation ends, what it did to buckets, objects and grants is a chain
of changes of a few kinds.  An invariant of these tables is proved one kind at a
time and then holds along every run whose operations meet a given condition.
-/

namespace StorageService.Storage

open StorageService.Foundation
open StorageService.Foundation.Action

variable {env : Env} {w s s' : World}

/-! ## Kinds of change -/

structure TablesKept (s s' : World) : Prop where
  buckets : s'.db.buckets = s.db.buckets
  objects : s'.db.objects = s.db.objects
  grants : s'.db.grants = s.db.grants

theorem TablesKept.of_db (h : s'.db = s.db) : TablesKept s s' :=
  ⟨congrArg _ h, congrArg _ h, congrArg _ h⟩

structure Provisions (env : Env) (s s' : World) : Prop extends BucketsOnly s s' where
  origin : ∀ b' ∈ s'.db.buckets.rows,
    (∃ b ∈ s.db.buckets.rows, b'.id = b.id ∧ b'.companyId = b.companyId ∧ b'.name = b.name ∧
      (b'.kind = .connector → b.kind = .connector)) ∨
    ∃ n, n < s'.out.drawn ∧ b'.id = env.uuid4 n ∧ b'.kind = .company

inductive CreatesAt (db : Database) : Operation → Bucket → Text → Option Nat → Prop where
  | upload {u : Upload} {name : Text} (named : safeObjectPath u.path = .ok name) :
      CreatesAt db (.upload u) u.bucket name u.ownerId
  | copy {bucket destBucket : Bucket} {source dest sourceName name : Text}
      {ownerId : Option Nat} {src : StorageObject}
      (sourceNamed : safeObjectPath source = .ok sourceName)
      (found : db.objectNamed bucket.id sourceName = some src)
      (named : safeObjectPath dest = .ok name) :
      CreatesAt db (.copy bucket source destBucket dest ownerId) destBucket name
        (ownerId <|> src.ownerId)

theorem CreatesAt.loaded {db : Database} {op : Operation} {bucket : Bucket} {name : Text}
    {ownerId : Option Nat} (h : CreatesAt db op bucket name ownerId) (loaded : op.Loaded db) :
    bucket ∈ db.buckets.rows := by
  cases h with
  | upload _ => exact loaded
  | copy _ _ _ => exact loaded.2

theorem CreatesAt.canonical {db : Database} {op : Operation} {bucket : Bucket} {name : Text}
    {ownerId : Option Nat} (h : CreatesAt db op bucket name ownerId) : Canonical name := by
  cases h with
  | upload named => exact canonical_of_safeObjectPath named
  | copy _ _ named => exact canonical_of_safeObjectPath named

theorem CreatesAt.upload_named {db : Database} {u : Upload} {bucket : Bucket} {name : Text}
    {ownerId : Option Nat} (h : CreatesAt db (.upload u) bucket name ownerId) :
    safeObjectPath u.path = .ok name := by
  cases h with
  | upload named => exact named

inductive Marks (env : Env) : Operation → Bucket → Text → Prop where
  | marker {bucket : Bucket} {folderPath : Text} {ownerId : Option Nat} :
      Marks env (.folderMarker bucket folderPath ownerId) bucket folderPath
  | grant {principal : StoragePrincipal} {data : GrantRequest} {fields : GrantFields}
      {bucket : Bucket} (read : readGrantRequest env data = .ok fields)
      (folder : fields.resourceType = .folder) :
      Marks env (.createGrant principal data) bucket fields.resourceId

def GrantFields.Names (db : Database) (bucket : Bucket) (fields : GrantFields)
    (resource : Resource UUID) : Prop :=
  match fields.resourceType with
  | .bucket => resource = .bucket
  | .object => ∃ o ∈ db.objects.rows, o.bucketId = bucket.id ∧ resource = .object o.id
  | .folder => ∃ o ∈ db.objects.rows, o.bucketId = bucket.id ∧
      o.name = folderPlaceholderPath fields.resourceId ∧ resource = .folder o.id

/-- One change on the way from `s` to `s'` of the operation that started in `w`. -/
inductive Change (env : Env) (w : World) : Operation → World → World → Prop where
  | kept {op : Operation} {s s' : World} (h : TablesKept s s') : Change env w op s s'
  | provisioned {op : Operation} {s s' : World} (h : Provisions env s s') :
      Change env w op s s'
  | bucketAdded {bucket : UUID → Bucket} {b : Bucket} {s' : World}
      (drawn : b.id = env.uuid4 w.out.drawn ∧ w.out.drawn < s'.out.drawn)
      (buckets : s'.db.buckets.rows = w.db.buckets.rows ++ [b])
      (objects : s'.db.objects = w.db.objects) (grants : s'.db.grants = w.db.grants) :
      Change env w (.addBucket bucket) w s'
  | created {op : Operation} {bucket : Bucket} {ownerId : Option Nat} {obj : StorageObject}
      {s' : World} {new : List GrantRow} (asked : CreatesAt w.db op bucket obj.name ownerId)
      (free : w.db.objectNamed bucket.id obj.name = none)
      (place : obj.bucketId = bucket.id ∧ obj.companyId = bucket.companyId)
      (buckets : s'.db.buckets = w.db.buckets)
      (objects : s'.db.objects.rows = w.db.objects.rows ++ [obj])
      (grants : s'.db.grants.rows = w.db.grants.rows ++ new)
      (granted : ∀ g ∈ new, ownerId ≠ none ∧ GrantedOn obj (ownResource obj) g) :
      Change env w op w s'
  | marked {op : Operation} {bucket : Bucket} {folderPath : Text} {obj : StorageObject}
      {s s' : World} (asked : Marks env op bucket folderPath)
      (name : obj.name = folderPlaceholderPath folderPath)
      (place : obj.bucketId = bucket.id ∧ obj.companyId = bucket.companyId)
      (buckets : s'.db.buckets = s.db.buckets)
      (objects : s'.db.objects.rows = s.db.objects.rows ++ [obj])
      (grants : s'.db.grants = s.db.grants) : Change env w op s s'
  | overwrote {u : Upload} {existing obj : StorageObject} {s' : World}
      (found : existing ∈ w.db.objects.rows)
      (same : obj.id = existing.id ∧ obj.bucketId = existing.bucketId ∧
        obj.name = existing.name ∧ obj.companyId = existing.companyId)
      (buckets : s'.db.buckets = w.db.buckets)
      (objects : s'.db.objects.rows =
        w.db.objects.rows.map (Database.changed existing.id fun _ => obj))
      (grants : s'.db.grants = w.db.grants) : Change env w (.upload u) w s'
  | removed {d : Deletion} {s' : World} (h : AllRemoved w (d.objects w.db) s') :
      Change env w (.delete d) w s'
  | renamed {bucket : Bucket} {source dest src dst : Text} {s' : World}
      (sourceNamed : safeObjectPath source = .ok src) (named : safeObjectPath dest = .ok dst)
      (nonempty : stripSlash src ≠ [] ∧ stripSlash dst ≠ [])
      (h : Rewrote (renamedRow bucket.id (stripSlash src) (stripSlash dst) w.out.now) w s')
      (grants : s'.db.grants = w.db.grants) : Change env w (.rename bucket source dest) w s'
  | moved {bucket destBucket : Bucket} {source dest sourceName name : Text}
      {obj : StorageObject} {s' : World} (sourceNamed : safeObjectPath source = .ok sourceName)
      (named : safeObjectPath dest = .ok name)
      (found : w.db.objectNamed bucket.id sourceName = some obj)
      (free : w.db.objectNamed destBucket.id name = none)
      (h : Rewrote (Database.changed obj.id (relocated destBucket.id name w.out.now)) w s')
      (grants : s'.db.grants = w.db.grants ∧ bucket.id = destBucket.id ∨
        s'.db.grants.rows = w.db.grants.rows.map (Database.rebucket obj.id destBucket.id) ∧
          bucket.companyId = destBucket.companyId) :
      Change env w (.move bucket source destBucket dest) w s'
  | granted {principal : StoragePrincipal} {data : GrantRequest} {fields : GrantFields}
      {bucket : Bucket} {resource : Resource UUID} {id : UUID} {now : Time} {s₁ s s' : World}
      (read : readGrantRequest env data = .ok fields)
      (resolved : Resolved principal fields.bucketName .read bucket w s₁)
      (provisions : Provisions env w s₁) (same : s.db.buckets = s₁.db.buckets)
      (names : fields.Names s.db bucket resource)
      (h : GrantAdded (requestedGrant principal bucket.companyId bucket fields resource id now)
        s s') : Change env w (.createGrant principal data) s s'
  | ungranted {principal : StoragePrincipal} {grantId : UUID} {s s' : World}
      (buckets : s'.db.buckets = s.db.buckets) (objects : s'.db.objects = s.db.objects)
      (grants : s'.db.grants.rows = s.db.grants.rows.filter fun g => decide (g.id ≠ grantId)) :
      Change env w (.deleteGrant principal grantId) s s'

structure Changed (env : Env) (w : World) (op : Operation) (s s' : World) : Prop where
  how : Change env w op s s'
  drawn : s.out.drawn ≤ s'.out.drawn

def Changes (env : Env) (w : World) (op : Operation) : World → World → Prop :=
  Relation.ReflTransGen (Changed env w op)

section Changes

variable {op : Operation}

theorem Changes.of_change (h : Change env w op s s') (drawn : s.out.drawn ≤ s'.out.drawn) :
    Changes env w op s s' := .single ⟨h, drawn⟩

theorem Changes.of_tablesKept (h : TablesKept s s') (drawn : s.out.drawn ≤ s'.out.drawn) :
    Changes env w op s s' := .of_change (.kept h) drawn

theorem Changes.drawn (h : Changes env w op s s') : s.out.drawn ≤ s'.out.drawn := by
  induction h with
  | refl => exact le_rfl
  | tail _ hlast ih => exact ih.trans hlast.drawn

theorem changes_lenient (env : Env) (w : World) (op : Operation) :
    Lenient (Changes env w op) where
  refl _ := .refl
  trans h h' := h.trans h'
  rollback h := .of_tablesKept ⟨rfl, rfl, rfl⟩ h.drawn
  fault _ _ := .of_tablesKept ⟨rfl, rfl, rfl⟩ le_rfl

theorem Changes.of_atomic {α : Type} {x : Act α}
    (drawn : s.out.drawn ≤ (atomic x s).2.out.drawn)
    (h : ∀ a s', (atomic x).Runs s a s' → Change env w op s s') :
    Changes env w op s (atomic x s).2 := by
  rcases runs_or_fails (atomic x) s with ⟨a, hrun⟩ | hfail
  · exact .of_change (h a _ hrun) drawn
  · obtain ⟨s₁, -, heq⟩ := fails_atomic.mp hfail
    exact .of_tablesKept (.of_db (by rw [heq])) drawn

theorem Changes.invariant {P : World → Prop} (h : Changes env w op s s') (hs : P s)
    (hchange : ∀ {s s'}, P s → Change env w op s s' → s.out.drawn ≤ s'.out.drawn → P s') :
    P s' := by
  induction h with
  | refl => exact hs
  | tail _ hlast ih => exact hchange ih hlast.how hlast.drawn

end Changes

/-! ## Provisioning -/

theorem provisions_lenient (env : Env) : Lenient (Provisions env) where
  refl s := ⟨bucketsOnly_lenient.refl s, fun b hb => .inl ⟨b, hb, rfl, rfl, rfl, id⟩⟩
  trans := by
    intro s s₁ s₂ h h'
    refine ⟨bucketsOnly_lenient.trans h.toBucketsOnly h'.toBucketsOnly, fun b₂ hb₂ => ?_⟩
    rcases h'.origin b₂ hb₂ with ⟨b₁, hb₁, hid', hcompany', hname', hkind'⟩ | hnew
    · rcases h.origin b₁ hb₁ with ⟨b, hb, hid, hcompany, hname, hkind⟩ | ⟨n, hn, hid, hkind⟩
      · exact .inl ⟨b, hb, hid'.trans hid, hcompany'.trans hcompany, hname'.trans hname,
          hkind ∘ hkind'⟩
      · refine .inr ⟨n, hn.trans_le h'.drawn, hid'.trans hid, ?_⟩
        cases hkind₂ : b₂.kind with
        | company => rfl
        | connector => simp [hkind' hkind₂] at hkind
    · exact .inr hnew
  rollback h := ⟨bucketsOnly_lenient.rollback h.toBucketsOnly,
    fun b hb => .inl ⟨b, hb, rfl, rfl, rfl, id⟩⟩
  fault s f := ⟨bucketsOnly_lenient.fault s f, fun b hb => .inl ⟨b, hb, rfl, rfl, rfl, id⟩⟩

theorem Provisions.of_buckets {s s' : World} (h : BucketsOnly s s')
    (hbuckets : s'.db.buckets = s.db.buckets) : Provisions env s s' := by
  refine ⟨h, fun b hb => ?_⟩
  rw [hbuckets] at hb
  exact .inl ⟨b, hb, rfl, rfl, rfl, id⟩

theorem setCompanyBucket_provisions (id : UUID) :
    (execute fun db => some (db.setCompanyBucket id)).Within (Provisions env) := by
  apply within_execute (provisions_lenient env)
  intro s db hdb
  cases hdb
  refine ⟨.of_setCompanyBucket s id, fun b' hb' => ?_⟩
  obtain ⟨b, hb, rfl⟩ := List.mem_map.mp hb'
  left
  refine ⟨b, hb, ?_⟩
  by_cases hid : b.id = id <;> simp [hid]

theorem createBucket_provisions {companyId n : Nat} (hn : n < s.out.drawn) :
    Provisions env s (execute (·.createBucket (newCompanyBucket companyId (env.uuid4 n)))
      s).2 := by
  apply (provisions_lenient env).execute_at
  intro db hdb
  refine ⟨.of_createBucket hdb, fun b' hb' => ?_⟩
  obtain ⟨hrows, -⟩ := Database.createBucket_eq_some hdb
  rw [hrows, List.mem_append, List.mem_singleton] at hb'
  rcases hb' with hb' | rfl
  · exact .inl ⟨b', hb', rfl, rfl, rfl, id⟩
  · exact .inr ⟨n, hn, rfl, rfl⟩

theorem ensureCompanyBucket_provisions (env : Env) (companyId : Nat) :
    (ensureCompanyBucket env companyId).Within (Provisions env) := by
  intro s
  have hL := provisions_lenient env
  have hR := hL.toComposable
  refine hR.database_at ?_
  cases hfound : s.db.bucketNamed companyId companyBucketName with
  | none =>
      refine hR.bind_at (.of_buckets (drawUuid_bucketsOnly env s) rfl) fun id s₁ hdraw => ?_
      obtain ⟨rfl, hs₁⟩ := runs_drawUuid.mp hdraw
      refine hR.bind_at (createBucket_provisions (by simp [hs₁])) fun _ s₂ _ => ?_
      exact hR.bind_at (within_reachOr hL _ _ s₂) fun _ s₃ _ => Within.pure hR _ s₃
  | some bucket =>
      have hrest : (if bucket.kind ≠ .company ∨ bucket.isPublic then do
          execute fun db => some (db.setCompanyBucket bucket.id)
          pure { bucket with kind := .company, isPublic := false, ownerId := none }
        else pure bucket : Act Bucket).Within (Provisions env) :=
        Within.ite (Within.bind hR (setCompanyBucket_provisions _) fun _ => Within.pure hR _)
          (Within.pure hR _)
      exact hrest s

theorem getAccessibleBucket_provisions (env : Env) (principal : StoragePrincipal)
    (name : Text) (required : Permission) :
    (getAccessibleBucket env principal name required).Within (Provisions env) :=
  getAccessibleBucket_within (provisions_lenient env).toComposable
    (fun companyId _ => ensureCompanyBucket_provisions env companyId) name required

theorem ensureCompanyBucket_changes (env : Env) (w : World) (op : Operation)
    (companyId : Nat) : (ensureCompanyBucket env companyId).Within (Changes env w op) := fun s =>
  have h := ensureCompanyBucket_provisions env companyId s
  .of_change (.provisioned h) h.drawn

/-! ## One lemma per operation -/

theorem Upload.changes (henv : env.Lawful) {u : Upload} (loaded : u.bucket ∈ s.db.buckets.rows) :
    Changes env s (.upload u) s (u.run env s).2 := by
  refine Changes.of_atomic (uploadObject_keeps henv (known_of_mem loaded) _ _ _ _ _).drawn
    fun obj s' hrun => ?_
  obtain ⟨name, mimeType, s₁, hname, hquota, hcases⟩ := runs_uploadObject hrun
  have hq := (assertCanStore_quotasOnly env _ _ _ _).runs hquota
  rcases hcases with ⟨existing, hfound, h⟩ | ⟨hfree, h⟩
  · obtain ⟨hmem, -⟩ := Database.objectNamed_eq_some hfound
    have hover := overwriteObject_overwrote h
    obtain ⟨_, _, hrow⟩ := hover.row
    have hplace : obj.id = existing.id ∧ obj.bucketId = existing.bucketId ∧
        obj.name = existing.name ∧ obj.companyId = existing.companyId := by
      rw [hrow]
      exact ⟨rfl, rfl, rfl, rfl⟩
    refine .overwrote hmem hplace (hover.buckets.trans hq.buckets) ?_
      (hover.grants.trans hq.grants)
    · rw [hover.objects, hq.objects]
  · obtain ⟨hcreated, hbucketId, rfl, hcompany, -⟩ := createFile_created h
    obtain ⟨new, hgrants, hnew⟩ := createFile_grants h
    exact .created (.upload hname) hfree ⟨hbucketId, hcompany⟩
      (hcreated.buckets.trans hq.buckets) (by rw [hcreated.objects, hq.objects])
      (by rw [hgrants, hq.grants]) hnew

theorem copyObject_changes (henv : env.Lawful) {bucket destBucket : Bucket}
    (loaded : destBucket ∈ s.db.buckets.rows) (source dest : Text) (ownerId : Option Nat) :
    Changes env s (.copy bucket source destBucket dest ownerId) s
      (copyObject env bucket source destBucket dest ownerId s).2 := by
  refine Changes.of_atomic (copyObject_keeps henv (known_of_mem loaded) _ _ _).drawn
    fun obj s' hrun => ?_
  obtain ⟨sourceName, name, src, data, s₁, hsource, hname, hfound, hfree, -, hquota, -, h⟩ :=
    runs_copyObject hrun
  have hq := (assertCanStore_quotasOnly env _ _ _ _).runs hquota
  obtain ⟨hcreated, hbucketId, rfl, hcompany, -⟩ := createFile_created h
  obtain ⟨new, hgrants, hnew⟩ := createFile_grants h
  exact .created (.copy hsource hfound hname) hfree ⟨hbucketId, hcompany⟩
    (hcreated.buckets.trans hq.buckets) (by rw [hcreated.objects, hq.objects])
    (by rw [hgrants, hq.grants]) hnew

theorem moveObject_changes {bucket destBucket : Bucket} (loaded : bucket ∈ s.db.buckets.rows)
    (loaded' : destBucket ∈ s.db.buckets.rows) (source dest : Text) :
    Changes env s (.move bucket source destBucket dest) s
      (moveObject bucket source destBucket dest s).2 := by
  have hkeeps : Keeps env s (moveObject bucket source destBucket dest s).2 :=
    moveObject_keeps (known_of_mem loaded) (known_of_mem loaded') source dest
  refine Changes.of_atomic hkeeps.drawn fun obj s' hrun => ?_
  obtain ⟨sourceName, name, obj, hsource, hname, hfound, hfree, -, hrewrote, hgrants⟩ :=
    moveObject_rewrote hrun
  refine .moved hsource hname hfound hfree hrewrote ?_
  rcases hgrants with ⟨hsame, hgrants⟩ | ⟨-, hcompany, hgrants⟩
  · exact .inl ⟨hgrants, hsame⟩
  · exact .inr ⟨hgrants, hcompany⟩

theorem renameFolder_changes (bucket : Bucket) (source dest : Text) :
    Changes env s (.rename bucket source dest) s (renameFolder bucket source dest s).2 := by
  have hkeeps : Keeps env s (renameFolder bucket source dest s).2 :=
    renameFolder_keeps bucket source dest s
  refine Changes.of_atomic hkeeps.drawn fun result s' hrun => ?_
  obtain ⟨src, dst, hsrc, hdst, hgrants, ⟨-, rfl⟩ | ⟨hne, hne', hrewrote⟩⟩ :=
    renameFolder_rewrote hrun
  · exact .kept ⟨rfl, rfl, rfl⟩
  · exact .renamed hsrc hdst ⟨hne, hne'⟩ hrewrote hgrants

theorem Deletion.changes (d : Deletion) :
    Changes env s (.delete d) s (d.run env s).2 := by
  have hkeeps : Keeps env s (d.run env s).2 := d.run_keeps s
  have hdrawn := hkeeps.drawn
  rcases runs_or_fails (d.run env) s with ⟨u, hrun⟩ | hfail
  · exact .of_change (.removed (forEach_deleteObject_allRemoved (runs_iff.mp hrun).2)) hdrawn
  · refine .of_tablesKept (.of_db ?_) hdrawn
    rcases fails_iff.mp hfail with ⟨-, heq⟩ | ⟨-, s₁, -, heq⟩
    · rw [heq]
    · rw [heq]

theorem not_fails_drawUuid : ¬(drawUuid env).Fails s s' := by
  intro h
  simp [drawUuid] at h

theorem fails_createStored {bucket : Bucket} {name : Text} {data : Bytes}
    {ownerId : Option Nat} {size : Nat} {etag mimeType : Text}
    (h : (createStored env bucket name data ownerId size etag mimeType).Fails s s') :
    s'.db = s.db := by
  simp only [createStored, fails_bind, not_fails_drawUuid, runs_drawUuid, fails_outside,
    runs_outside, fails_execute, fails_pure, and_false, exists_false, or_false, false_or] at h
  obtain ⟨id, s₁, ⟨rfl, rfl⟩, hsave | ⟨_, s₂, hsave, out, _, ⟨rfl, rfl⟩, hrow⟩⟩ := h
  · rcases fails_saveBlob hsave with ⟨-, rfl⟩ | ⟨-, hdb, -⟩
    · rfl
    · exact hdb
  · obtain ⟨hdb, -⟩ := runs_saveBlob hsave
    rcases hrow with ⟨-, rfl⟩ | ⟨_, -, rfl, -⟩
    · exact hdb
    · exact hdb

theorem ensureFolderMarker_changes (henv : env.Lawful) {op : Operation} {bucket : Bucket}
    {folderPath : Text} (hbucket : Known s.db bucket) (asked : Marks env op bucket folderPath)
    (ownerId : Option Nat) :
    Changes env w op s (ensureFolderMarker env bucket folderPath ownerId s).2 := by
  have hdrawn := (ensureFolderMarker_keeps henv hbucket folderPath ownerId).drawn
  rcases runs_or_fails (ensureFolderMarker env bucket folderPath ownerId) s with
    ⟨obj, hrun⟩ | hfail
  · rcases ensureFolderMarker_cases hrun with ⟨-, hsame⟩ |
      ⟨-, hcreated, hgrants, -, hbucketId, hname, hcompany, -⟩
    · rw [hsame]
      exact .refl
    · exact .of_change (.marked asked hname ⟨hbucketId, hcompany⟩ hcreated.buckets
        hcreated.objects hgrants) hdrawn
  · have hdb : (ensureFolderMarker env bucket folderPath ownerId s).2.db = s.db := by
      simp only [ensureFolderMarker, fails_bind, fails_database, runs_database,
        false_or] at hfail
      obtain ⟨db, _, ⟨rfl, rfl⟩, hfail⟩ := hfail
      split at hfail
      · simp at hfail
      · exact fails_createStored hfail
    exact .of_tablesKept (.of_db hdb) hdrawn

theorem grantTarget_names {principal : StoragePrincipal} {bucket : Bucket}
    {fields : GrantFields} {resource : Resource UUID}
    (h : (grantTarget env principal bucket fields.resourceType fields.resourceId).Runs s
      resource s') :
    fields.Names s'.db bucket resource := by
  unfold GrantFields.Names
  cases htype : fields.resourceType with
  | bucket =>
      rw [htype, grantTarget, runs_pure] at h
      exact h.1
  | object =>
      simp only [htype, grantTarget, runs_bind, runs_database, runs_ofOption, runs_pure] at h
      obtain ⟨db, _, ⟨rfl, rfl⟩, target, _, ⟨hfound, rfl⟩, rfl, rfl⟩ := h
      obtain ⟨hmem, hbucketId⟩ := resolveObject_eq_some hfound
      exact ⟨target, hmem, hbucketId, rfl⟩
  | folder =>
      simp only [htype, grantTarget, runs_bind, runs_pure] at h
      obtain ⟨marker, _, hmarker, rfl, rfl⟩ := h
      rcases ensureFolderMarker_cases hmarker with ⟨hfound, rfl⟩ |
        ⟨-, hcreated, -, -, hbucketId, hname, -⟩
      · obtain ⟨hmem, hbucketId, hname⟩ := Database.objectNamed_eq_some hfound
        exact ⟨marker, hmem, hbucketId, hname, rfl⟩
      · refine ⟨marker, ?_, hbucketId, hname, rfl⟩
        rw [hcreated.objects]
        exact List.mem_append_right _ (List.mem_singleton.mpr rfl)

theorem grantTarget_buckets {principal : StoragePrincipal} {bucket : Bucket}
    {resourceType : ResourceType} {resourceId : Text} {resource : Resource UUID}
    (h : (grantTarget env principal bucket resourceType resourceId).Runs s resource s') :
    s'.db.buckets = s.db.buckets := by
  cases resourceType with
  | bucket =>
      rw [grantTarget, runs_pure] at h
      rw [h.2]
  | object =>
      simp only [grantTarget, runs_bind, runs_database, runs_ofOption, runs_pure] at h
      obtain ⟨db, _, ⟨rfl, rfl⟩, target, _, ⟨-, rfl⟩, -, rfl⟩ := h
      rfl
  | folder =>
      simp only [grantTarget, runs_bind, runs_pure] at h
      obtain ⟨marker, _, hmarker, -, rfl⟩ := h
      rcases ensureFolderMarker_cases hmarker with ⟨-, rfl⟩ | ⟨-, hcreated, -⟩
      · rfl
      · exact hcreated.buckets

theorem grantTarget_changes (henv : env.Lawful) {principal : StoragePrincipal}
    {data : GrantRequest} {fields : GrantFields} {bucket : Bucket}
    (read : readGrantRequest env data = .ok fields) (hbucket : Known s.db bucket) :
    Changes env w (.createGrant principal data) s
      (grantTarget env principal bucket fields.resourceType fields.resourceId s).2 := by
  have hC := (changes_lenient env w (.createGrant principal data)).toComposable
  cases htype : fields.resourceType with
  | bucket => exact Within.pure hC _ s
  | object =>
      have hlookup : (grantTarget env principal bucket .object fields.resourceId).Within
          (Changes env w (.createGrant principal data)) :=
        Within.bind hC (Within.database hC) fun _ =>
          Within.bind hC (Within.ofOption hC _ _) fun _ => Within.pure hC _
      exact hlookup s
  | folder =>
      exact hC.bind_at (ensureFolderMarker_changes henv hbucket (.grant read htype) _)
        fun _ s₁ _ => Within.pure hC _ s₁

theorem fails_createGrantRow {row : UUID → Time → GrantRow}
    (h : (createGrantRow env row).Fails s s') : s'.db = s.db := by
  simp only [createGrantRow, fails_bind, not_fails_drawUuid, runs_drawUuid, fails_outside,
    runs_outside, fails_execute, fails_pure, and_false, exists_false, or_false, false_or] at h
  obtain ⟨id, s₁, ⟨rfl, rfl⟩, out, _, ⟨rfl, rfl⟩, ⟨-, rfl⟩ | ⟨_, -, rfl, -⟩⟩ := h
  · rfl
  · rfl

theorem createGrant_changes (henv : env.Lawful) (principal : StoragePrincipal)
    (data : GrantRequest) :
    Changes env s (.createGrant principal data) s (createGrant env principal data s).2 := by
  have hC := (changes_lenient env s (.createGrant principal data)).toComposable
  refine createGrant_at hC (fun companyId _ => ensureCompanyBucket_changes env s _ companyId) ?_
  intro fields bucket s₁ hread hbucket
  have hresolved := getAccessibleBucket_resolved hbucket
  have hprovisions := (getAccessibleBucket_provisions env principal fields.bucketName
    .read).runs hbucket
  have hknown : Known s₁.db bucket := known_of_mem (List.mem_of_find?_eq_some hresolved.found)
  refine hC.bind_at (grantTarget_changes henv hread hknown) fun resource s₂ htarget => ?_
  have hrow : AddsGrants (fun _ => True) s₂ (createGrantRow env
      (requestedGrant principal bucket.companyId bucket fields resource) s₂).2 :=
    createGrantRow_addsGrants env (fun _ _ => trivial) s₂
  rcases runs_or_fails (createGrantRow env (requestedGrant principal bucket.companyId bucket
    fields resource)) s₂ with ⟨g, hrun⟩ | hfail
  · obtain ⟨rfl, hadded⟩ := createGrantRow_added hrun
    exact .of_change (.granted hread hresolved hprovisions (grantTarget_buckets htarget)
      (grantTarget_names htarget) hadded) hadded.drawn
  · exact .of_tablesKept (.of_db (fails_createGrantRow hfail)) hrow.drawn

theorem deleteGrant_changes (principal : StoragePrincipal) (grantId : UUID) :
    Changes env s (.deleteGrant principal grantId) s
      (deleteGrant env principal grantId s).2 := by
  have hR := changes_lenient env s (.deleteGrant principal grantId)
  refine deleteGrant_at hR (fun companyId _ => ensureCompanyBucket_changes env s _ companyId)
    fun row _ _ _ s₁ _ => ?_
  exact .of_change (.ungranted rfl rfl (by simp [Database.deleteGrant])) le_rfl

theorem runs_addBucket {bucket : UUID → Bucket} {u : Unit}
    (h : ((Operation.addBucket bucket).run env).Runs s u s') :
    Change env s (.addBucket bucket) s s' := by
  simp only [Operation.run, runs_bind, runs_drawUuid, runs_execute] at h
  obtain ⟨id, s₁, ⟨rfl, rfl⟩, out, db, hvisit, hcreate, rfl⟩ := h
  obtain ⟨hrows, hobjects, hgrants, -⟩ := Database.createBucket_eq_some hcreate
  rw [Outside.visit_eq_some hvisit]
  exact .bucketAdded ⟨rfl, Nat.lt_succ_self _⟩ hrows hobjects hgrants

theorem fails_addBucket {bucket : UUID → Bucket}
    (h : ((Operation.addBucket bucket).run env).Fails s s') : s'.db = s.db := by
  simp only [Operation.run, fails_bind, not_fails_drawUuid, runs_drawUuid, fails_execute,
    false_or] at h
  obtain ⟨id, s₁, ⟨rfl, rfl⟩, ⟨-, rfl⟩ | ⟨_, -, rfl, -⟩⟩ := h
  · rfl
  · rfl

/-- However an operation ends, what it did is a chain of changes. -/
theorem Operation.run_changes (henv : env.Lawful) {op : Operation} (loaded : op.Loaded s.db) :
    Changes env s op s (op.run env s).2 := by
  have hC := (changes_lenient env s op).toComposable
  cases op with
  | upload u => exact hC.bind_at (u.changes henv loaded) fun _ s₁ _ => Within.pure hC _ s₁
  | delete d => exact d.changes
  | rename bucket source dest =>
      exact hC.bind_at (renameFolder_changes bucket source dest)
        fun _ s₁ _ => Within.pure hC _ s₁
  | move bucket source destBucket dest =>
      exact hC.bind_at (moveObject_changes loaded.1 loaded.2 source dest)
        fun _ s₁ _ => Within.pure hC _ s₁
  | copy bucket source destBucket dest ownerId =>
      exact hC.bind_at (copyObject_changes henv loaded.2 source dest ownerId)
        fun _ s₁ _ => Within.pure hC _ s₁
  | folderMarker bucket folderPath ownerId =>
      exact hC.bind_at (ensureFolderMarker_changes henv (known_of_mem loaded) .marker ownerId)
        fun _ s₁ _ => Within.pure hC _ s₁
  | createGrant principal data =>
      exact hC.bind_at (createGrant_changes henv principal data)
        fun _ s₁ _ => Within.pure hC _ s₁
  | deleteGrant principal grantId => exact deleteGrant_changes principal grantId
  | companyBucket companyId =>
      exact hC.bind_at (ensureCompanyBucket_changes env s _ companyId s)
        fun _ s₁ _ => Within.pure hC _ s₁
  | addBucket bucket =>
      have honly := addBucket_bucketsOnly env bucket s
      rcases runs_or_fails ((addBucket bucket).run env) s with ⟨u, hrun⟩ | hfail
      · exact .of_change (runs_addBucket hrun) honly.drawn
      · exact .of_tablesKept (.of_db (fails_addBucket hfail)) honly.drawn
  | companyLimit companyId maxBytes maxBytesPerUser =>
      have h := setCompanyLimit_quotasOnly env companyId maxBytes maxBytesPerUser s
      exact .of_tablesKept ⟨h.buckets, h.objects, h.grants⟩ h.drawn.ge
  | userLimit companyId userId maxBytes =>
      have h := setUserLimit_quotasOnly companyId userId maxBytes s
      exact .of_tablesKept ⟨h.buckets, h.objects, h.grants⟩ h.drawn.ge

/-! ## Runs of operations that meet a condition -/

inductive GuardedStep (env : Env) (allowed : Database → Operation → Prop) (w : World) :
    World → Prop where
  | operation (op : Operation) (fault : Option (Point × Nat)) (loaded : op.Loaded w.db)
      (ok : allowed w.db op) : GuardedStep env allowed w (op.run env (w.withFault fault)).2
  | clock (t : Time) (later : w.out.now ≤ t) :
      GuardedStep env allowed w { w with out := { w.out with now := t } }

def GuardedRun (env : Env) (allowed : Database → Operation → Prop) : World → World → Prop :=
  Relation.ReflTransGen (GuardedStep env allowed)

section Guarded

variable {allowed : Database → Operation → Prop}

theorem GuardedStep.step {w' : World} (h : GuardedStep env allowed w w') : Step env w w' := by
  cases h with
  | operation op fault loaded _ => exact .operation w op fault loaded
  | clock t later => exact .clock w t later

theorem GuardedRun.reachable {w' : World} (hw : Reachable env w)
    (h : GuardedRun env allowed w w') : Reachable env w' := by
  induction h with
  | refl => exact hw
  | tail _ hstep ih => exact ih.tail hstep.step

/-- What holds of the tables still does after a step when each change it may make keeps it. -/
theorem GuardedStep.invariant {P : World → Prop} (henv : env.Lawful)
    (hout : ∀ {w w' : World}, w'.db = w.db → w'.out.drawn = w.out.drawn → P w → P w')
    (hchange : ∀ {w₀ s s' : World} {op : Operation}, w₀.db = w.db → op.Loaded w₀.db →
      allowed w₀.db op → P w₀ → P s → Change env w₀ op s s' → s.out.drawn ≤ s'.out.drawn → P s')
    {w' : World} (hw : P w) (h : GuardedStep env allowed w w') : P w' := by
  cases h with
  | operation op fault loaded ok =>
      have hstart : P (w.withFault fault) := hout (w := w) rfl rfl hw
      exact (Operation.run_changes henv (s := w.withFault fault) loaded).invariant hstart
        fun hs => @hchange (w.withFault fault) _ _ _ rfl loaded ok hstart hs
  | clock t later => exact hout (w := w) rfl rfl hw

theorem GuardedRun.invariant {P : World → Prop} (henv : env.Lawful)
    (hout : ∀ {w w' : World}, w'.db = w.db → w'.out.drawn = w.out.drawn → P w → P w')
    (hchange : ∀ {w s s' : World} {op : Operation}, op.Loaded w.db → allowed w.db op → P w →
      P s → Change env w op s s' → s.out.drawn ≤ s'.out.drawn → P s') {w' : World} (hw : P w)
    (h : GuardedRun env allowed w w') : P w' := by
  induction h with
  | refl => exact hw
  | tail _ hstep ih => exact hstep.invariant henv hout (fun _ => hchange) ih

theorem GuardedRun.of_reachable (h : Reachable env w) :
    GuardedRun env (fun _ _ => True) (.initial env.engine) w := by
  induction h with
  | refl => exact .refl
  | tail _ hstep ih =>
      cases hstep with
      | operation op fault loaded => exact ih.tail (.operation op fault loaded trivial)
      | clock t later => exact ih.tail (.clock t later)

theorem GuardedRun.after {w' : World} (h : GuardedRun env allowed w w') {op : Operation}
    (ok : allowed w'.db op) (loaded : op.Loaded w'.db) :
    GuardedRun env allowed w (op.after env w') :=
  h.tail (.operation op none loaded ok)

end Guarded

end StorageService.Storage
