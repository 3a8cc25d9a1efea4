import StorageService.Storage.Requests

/-!
# What holds of every reachable world

Storage keys tell which object they belong to, blobs lie under keys of ids that
have been drawn, and an object belongs to the company of its bucket.  Operations
keep this however they end, so failed ones are covered too.
-/

namespace StorageService.Storage

open StorageService.Foundation
open StorageService.Foundation.Action

variable {env : Env} {s s' : World}

def Allotted (env : Env) (drawn : Nat) (key : Text) : Prop :=
  ∃ n < drawn, OwnedBy (env.uuid4 n) key

theorem Allotted.mono {m n : Nat} {key : Text} (h : Allotted env m key) (hmn : m ≤ n) :
    Allotted env n key := by
  obtain ⟨k, hk, howned⟩ := h
  exact ⟨k, hk.trans_le hmn, howned⟩

structure Sound (env : Env) (w : World) : Prop where
  engine : w.db.engine = env.engine
  keys : ∀ o ∈ w.db.objects.rows, OwnedBy o.id o.storageKey
  allotted : ∀ o ∈ w.db.objects.rows, Allotted env w.out.drawn o.storageKey
  blobs : ∀ key, w.out.blobs.lookup key ≠ none → Allotted env w.out.drawn key
  company : ∀ o ∈ w.db.objects.rows, ∀ b ∈ w.db.buckets.rows, b.id = o.bucketId →
    b.companyId = o.companyId

theorem sound_initial (env : Env) : Sound env (.initial env.engine) where
  engine := rfl
  keys := by simp [World.initial, Database.empty]
  allotted := by simp [World.initial, Database.empty]
  blobs key h := absurd (AList.lookup_empty key) h
  company := by simp [World.initial, Database.empty]

theorem lookup_eq_none_of_drawn (henv : env.Lawful) {w : World} (hw : Sound env w) {key : Text}
    (hkey : OwnedBy (env.uuid4 w.out.drawn) key) : w.out.blobs.lookup key = none := by
  by_contra hblob
  obtain ⟨n, hn, howned⟩ := hw.blobs key hblob
  exact hn.ne (henv.uuid4_injective (howned.unique hkey))

def Known (db : Database) (bucket : Bucket) : Prop :=
  ∃ b ∈ db.buckets.rows, b.id = bucket.id ∧ b.companyId = bucket.companyId

theorem known_of_mem {db : Database} {bucket : Bucket} (h : bucket ∈ db.buckets.rows) :
    Known db bucket :=
  ⟨bucket, h, rfl, rfl⟩

theorem Known.company {db : Database} {bucket b : Bucket} (h : Known db bucket)
    (hb : b ∈ db.buckets.rows) (hid : b.id = bucket.id) : b.companyId = bucket.companyId := by
  obtain ⟨c, hc, hcid, hcompany⟩ := h
  rw [Database.bucket_eq_of_id hb hc (hid.trans hcid.symm), hcompany]

theorem Sound.company_of_known {w : World} (h : Sound env w) {o : StorageObject}
    (ho : o ∈ w.db.objects.rows) {bucket : Bucket} (hbucket : Known w.db bucket)
    (hid : o.bucketId = bucket.id) : o.companyId = bucket.companyId := by
  obtain ⟨b, hb, hbid, hcompany⟩ := hbucket
  rw [← h.company o ho b hb (hbid.trans hid.symm), hcompany]

/-! ## Soundness is kept -/

structure Keeps (env : Env) (s s' : World) : Prop where
  sound : Sound env s → Sound env s'
  drawn : s.out.drawn ≤ s'.out.drawn

theorem keeps_lenient (env : Env) : Lenient (Keeps env) where
  refl _ := ⟨id, le_rfl⟩
  trans h h' := ⟨h'.sound ∘ h.sound, h.drawn.trans h'.drawn⟩
  rollback h :=
    ⟨fun hs => ⟨hs.engine, hs.keys, fun o ho => (hs.allotted o ho).mono h.drawn,
      (h.sound hs).blobs, hs.company⟩, h.drawn⟩
  fault _ _ := ⟨fun hs => ⟨hs.engine, hs.keys, hs.allotted, hs.blobs, hs.company⟩, le_rfl⟩

theorem keeps_composable (env : Env) : Composable (Keeps env) :=
  (keeps_lenient env).toComposable

theorem Keeps.of_contentKept (h : ContentKept s s') : Keeps env s s' where
  drawn := h.drawn
  sound hs := by
    refine ⟨h.engine.trans hs.engine, ?_, ?_, ?_, ?_⟩
    · rw [h.objects]
      exact hs.keys
    · rw [h.objects]
      exact fun o ho => (hs.allotted o ho).mono h.drawn
    · rw [h.blobs]
      exact fun key hkey => (hs.blobs key hkey).mono h.drawn
    · rw [h.objects]
      intro o ho b' hb' hid
      rcases h.known b' hb' with ⟨b, hb, hid', hcompany, -⟩ | hnew
      · rw [hcompany]
        exact hs.company o ho b hb (hid'.symm.trans hid)
      · obtain ⟨b, hb, hbid⟩ := s.db.objectBucket o ho
        exact absurd (hbid.trans hid.symm) (hnew b hb)

theorem Keeps.of_quotasOnly (h : QuotasOnly s s') : Keeps env s s' where
  drawn := h.drawn.ge
  sound hs := by
    refine ⟨h.engine.trans hs.engine, ?_, ?_, ?_, ?_⟩
    · rw [h.objects]
      exact hs.keys
    · rw [h.objects, h.drawn]
      exact hs.allotted
    · rw [h.blobs, h.drawn]
      exact hs.blobs
    · rw [h.objects, h.buckets]
      exact hs.company

theorem Keeps.of_addsGrantsOn {resource : Resource UUID} (h : AddsGrantsOn resource s s') :
    Keeps env s s' :=
  .of_contentKept (.of_buckets h.buckets h.objects h.companyQuotas h.blobs h.now h.drawn h.engine)

theorem Keeps.of_rows (hengine : s'.db.engine = s.db.engine)
    (hdrawn : s'.out.drawn = s.out.drawn)
    (hobjects : ∀ o' ∈ s'.db.objects.rows, ∃ o ∈ s.db.objects.rows, o'.id = o.id ∧
      o'.storageKey = o.storageKey)
    (hblobs : ∀ key, s'.out.blobs.lookup key ≠ none → s.out.blobs.lookup key ≠ none)
    (hcompany : Sound env s → ∀ o ∈ s'.db.objects.rows, ∀ b ∈ s'.db.buckets.rows,
      b.id = o.bucketId → b.companyId = o.companyId) : Keeps env s s' where
  drawn := hdrawn.ge
  sound hs := by
    refine ⟨hengine.trans hs.engine, ?_, ?_, ?_, hcompany hs⟩
    · intro o' ho'
      obtain ⟨o, ho, hid, hkey⟩ := hobjects o' ho'
      rw [hid, hkey]
      exact hs.keys o ho
    · intro o' ho'
      obtain ⟨o, ho, -, hkey⟩ := hobjects o' ho'
      rw [hkey, hdrawn]
      exact hs.allotted o ho
    · intro key hkey
      rw [hdrawn]
      exact hs.blobs key (hblobs key hkey)

/-! ## Blobs and rows -/

theorem Outside.save_keeps (henv : env.Lawful) {key : Text} {data : Bytes}
    (hkey : Sound env s → Allotted env s.out.drawn key) :
    Keeps env s { s with out := s.out.save env key data } := by
  unfold Outside.save
  split
  · refine ⟨fun hs => ⟨hs.engine, hs.keys, hs.allotted, fun k hk => ?_, hs.company⟩, le_rfl⟩
    by_cases hkk : k = key
    · rw [hkk]
      exact hkey hs
    · rw [AList.lookup_insert_ne hkk] at hk
      exact hs.blobs k hk
  · refine ⟨fun hs => ⟨hs.engine, hs.keys, fun o ho => (hs.allotted o ho).mono (Nat.le_succ _),
      fun k hk => ?_, hs.company⟩, Nat.le_succ _⟩
    by_cases hkk : k = env.availableName s.out.drawn s.out.blobs key
    · obtain ⟨n, hn, howned⟩ := hkey hs
      rw [hkk]
      exact ⟨n, hn.trans (Nat.lt_succ_self _), howned.availableName henv _ _⟩
    · rw [AList.lookup_insert_ne hkk] at hk
      exact (hs.blobs k hk).mono (Nat.le_succ _)

theorem saveBlob_keeps (henv : env.Lawful) {key : Text} {data : Bytes}
    (hkey : Sound env s → Allotted env s.out.drawn key) :
    Keeps env s (saveBlob env key data s).2 := by
  have hR := keeps_lenient env
  have hC := keeps_composable env
  refine hC.bind_at (within_reachOr hR _ _ s) fun _ s₁ hreach => ?_
  obtain ⟨out, hvisit, rfl⟩ := runs_reachOr.mp hreach
  rw [Outside.visit_eq_some hvisit]
  refine hC.bind_at (Outside.save_keeps henv fun hs => hkey ?_) fun _ s₂ _ =>
    within_reachOr hR _ _ s₂
  exact ((hR.fault _ s.out.fault).sound hs :)

theorem updateObject_keeps {id : UUID} {f : StorageObject → StorageObject}
    (hkey : ∀ o ∈ s.db.objects.rows, o.id = id → (f o).storageKey = o.storageKey)
    (hcompany : Sound env s → ∀ o ∈ s.db.objects.rows, o.id = id →
      ∀ b ∈ s.db.buckets.rows, b.id = (f o).bucketId → b.companyId = (f o).companyId) :
    Keeps env s (execute (·.updateObject id f) s).2 := by
  apply (keeps_lenient env).execute_at
  intro db hdb
  obtain ⟨hbuckets, hobjects, -⟩ := Database.updateObject_eq_some hdb
  refine .of_rows (Database.updateObject_engine hdb) rfl ?_ (fun _ hkey => hkey) fun hs => ?_
  · rw [hobjects]
    intro o' ho'
    obtain ⟨o, ho, rfl⟩ := List.mem_map.mp ho'
    refine ⟨o, ho, Database.changed_id _ _ _, ?_⟩
    by_cases hid : o.id = id
    · simpa [Database.changed, hid] using hkey o ho hid
    · rw [Database.changed_of_ne hid]
  · rw [hobjects, hbuckets]
    intro o' ho' b hb hbid
    obtain ⟨o, ho, rfl⟩ := List.mem_map.mp ho'
    by_cases hid : o.id = id
    · simp only [Database.changed, hid, if_true] at hbid ⊢
      exact hcompany hs o ho hid b hb hbid
    · rw [Database.changed_of_ne hid] at hbid ⊢
      exact hs.company o ho b hb hbid

theorem createObject_keeps {obj : StorageObject} (hkey : OwnedBy obj.id obj.storageKey)
    (hallotted : Allotted env s.out.drawn obj.storageKey) {bucket : Bucket}
    (hbucket : Known s.db bucket) (hid : obj.bucketId = bucket.id)
    (hcompany : obj.companyId = bucket.companyId) :
    Keeps env s (execute (·.createObject obj) s).2 := by
  apply (keeps_lenient env).execute_at
  intro db hdb
  obtain ⟨hbuckets, hobjects, -⟩ := Database.createObject_eq_some hdb
  refine ⟨fun hs => ⟨(Database.createObject_engine hdb).trans hs.engine, ?_, ?_, hs.blobs, ?_⟩,
    le_rfl⟩
  · rw [hobjects, List.forall_mem_append, List.forall_mem_singleton]
    exact ⟨hs.keys, hkey⟩
  · rw [hobjects, List.forall_mem_append, List.forall_mem_singleton]
    exact ⟨hs.allotted, hallotted⟩
  · rw [hobjects, hbuckets, List.forall_mem_append, List.forall_mem_singleton]
    refine ⟨hs.company, fun b hb hbid => ?_⟩
    rw [hcompany]
    exact hbucket.company hb (hbid.trans hid)

/-! ## Creating objects -/

theorem drawUuid_keeps (env : Env) : (drawUuid env).Within (Keeps env) :=
  (drawUuid_bucketsOnly env).mono fun h => .of_contentKept h.toContentKept

theorem applyUsageDelta_keeps (env : Env) (companyId : Nat) (userId : Option Nat)
    (delta : Int) : (applyUsageDelta env companyId userId delta).Within (Keeps env) :=
  (applyUsageDelta_quotasOnly env companyId userId delta).mono .of_quotasOnly

theorem createStored_keeps (henv : env.Lawful) {bucket : Bucket}
    (hbucket : Known s.db bucket) (name : Text) (data : Bytes) (ownerId : Option Nat)
    (size : Nat) (etag mimeType : Text) :
    Keeps env s (createStored env bucket name data ownerId size etag mimeType s).2 := by
  have hC := keeps_composable env
  refine hC.bind_at (drawUuid_keeps env s) fun objectId s₁ hdraw => ?_
  obtain ⟨rfl, hs₁⟩ := runs_drawUuid.mp hdraw
  have howned := ownedBy_buildStorageKey env bucket.companyId bucket.name name
    (env.uuid4 s.out.drawn)
  have hallotted : Allotted env s₁.out.drawn
      (buildStorageKey env bucket.companyId bucket.name name (env.uuid4 s.out.drawn)) := by
    rw [hs₁]
    exact ⟨_, Nat.lt_succ_self _, howned⟩
  have hsaved : Keeps env s₁ (saveBlob env _ data s₁).2 := saveBlob_keeps henv fun _ => hallotted
  refine hC.bind_at hsaved fun _ s₂ hsave => ?_
  obtain ⟨hdb, -⟩ := runs_saveBlob hsave
  rw [hsave] at hsaved
  have hbucket₂ : Known s₂.db bucket := by rwa [hdb, hs₁]
  refine hC.outside_at ?_
  exact hC.bind_at (createObject_keeps howned (hallotted.mono hsaved.drawn) hbucket₂ rfl rfl)
    fun _ s₃ _ => Within.pure hC _ s₃

theorem createFile_keeps (henv : env.Lawful) {bucket : Bucket}
    (hbucket : Known s.db bucket) (name : Text) (data : Bytes) (ownerId : Option Nat)
    (size : Nat) (etag mimeType : Text) :
    Keeps env s (createFile env bucket name data ownerId size etag mimeType s).2 := by
  have hC := keeps_composable env
  refine hC.bind_at (createStored_keeps henv hbucket name data ownerId size etag mimeType)
    fun obj s₁ _ => ?_
  have hrest : (do
      applyUsageDelta env bucket.companyId obj.ownerId size
      applyDefaultPrivateOnCreate env obj obj.ownerId
      reach .signal
      pure obj : Act StorageObject).Within (Keeps env) := by
    refine Within.bind hC (applyUsageDelta_keeps env _ _ _) fun _ => ?_
    refine Within.bind hC ((applyDefaultPrivateOnCreate_addsGrantsOn env obj _).mono
      .of_addsGrantsOn) fun _ => ?_
    exact Within.bind hC (within_reachOr (keeps_lenient env) _ _) fun _ => Within.pure hC _
  exact hrest s₁

theorem ensureFolderMarker_keeps (henv : env.Lawful) {bucket : Bucket}
    (hbucket : Known s.db bucket) (folderPath : Text) (ownerId : Option Nat) :
    Keeps env s (ensureFolderMarker env bucket folderPath ownerId s).2 := by
  have hC := keeps_composable env
  refine hC.database_at ?_
  cases hfound : s.db.objectNamed bucket.id (folderPlaceholderPath folderPath) with
  | some existing => exact Within.pure hC existing s
  | none => exact createStored_keeps henv hbucket _ _ _ _ _ _

/-! ## Uploads -/

theorem overwriteObject_keeps (henv : env.Lawful) {bucket : Bucket}
    {existing : StorageObject} (hexisting : existing ∈ s.db.objects.rows) (mimeType : Text)
    (data : Bytes) (ownerId : Option Nat) :
    Keeps env s (overwriteObject env bucket existing mimeType data ownerId s).2 := by
  have hC := keeps_composable env
  refine hC.bind_at (saveBlob_keeps henv fun hs => hs.allotted existing hexisting)
    fun _ s₁ hsave => ?_
  obtain ⟨hdb, -⟩ := runs_saveBlob hsave
  refine hC.outside_at ?_
  rw [← hdb] at hexisting
  have hsame : ∀ o ∈ s₁.db.objects.rows, o.id = existing.id → o = existing :=
    fun o ho hid => Database.object_eq_of_id ho hexisting hid
  refine hC.bind_at (updateObject_keeps (fun o ho hid => ?_) fun hs o ho hid b hb hbid => ?_)
    fun _ s₂ _ => ?_
  · rw [hsame o ho hid]
    rfl
  · exact hs.company existing hexisting b hb hbid
  · have hrest : (do
        applyUsageDelta env bucket.companyId ownerId ((data.length : Int) - existing.size)
        reach .signal
        pure (overwritten env existing mimeType data ownerId s₁.out.now) :
          Act StorageObject).Within (Keeps env) :=
      Within.bind hC (applyUsageDelta_keeps env _ _ _) fun _ =>
        Within.bind hC (within_reachOr (keeps_lenient env) _ _) fun _ => Within.pure hC _
    exact hrest s₂

theorem uploadObject_keeps (henv : env.Lawful) {bucket : Bucket}
    (hbucket : Known s.db bucket) (path : Text) (data : Bytes) (ownerId : Option Nat)
    (contentType : Option Text) (upsert : Bool) :
    Keeps env s (uploadObject env bucket path data ownerId contentType upsert s).2 := by
  have hC := keeps_composable env
  refine hC.atomic_at (hC.ofExcept_at fun name _ => ?_)
  refine hC.ensure_at fun _ => ?_
  refine hC.database_at ?_
  refine hC.ensure_at fun _ => ?_
  refine hC.ensure_at fun _ => ?_
  have hquota := assertCanStore_quotasOnly env bucket.companyId ownerId data.length
    (((s.db.objectNamed bucket.id name).map StorageObject.size).getD 0)
  refine hC.bind_at (.of_quotasOnly (hquota s)) fun _ s₁ hrun => ?_
  have hsame := hquota.runs hrun
  cases hexisting : s.db.objectNamed bucket.id name with
  | some existing =>
      obtain ⟨hmem, -⟩ := Database.objectNamed_eq_some hexisting
      rw [← hsame.objects] at hmem
      exact overwriteObject_keeps henv hmem _ _ _
  | none =>
      have hbucket' : Known s₁.db bucket := by
        rwa [Known, hsame.buckets]
      exact createFile_keeps henv hbucket' _ _ _ _ _ _

/-! ## Copies and relocation -/

theorem copyObject_keeps (henv : env.Lawful) {bucket destBucket : Bucket}
    (hdest : Known s.db destBucket) (sourcePath destPath : Text) (ownerId : Option Nat) :
    Keeps env s (copyObject env bucket sourcePath destBucket destPath ownerId s).2 := by
  have hC := keeps_composable env
  refine hC.atomic_at (hC.ofExcept_at fun sourceName _ => ?_)
  refine hC.ofExcept_at fun destName _ => ?_
  refine hC.database_at ?_
  refine hC.ofOption_at fun src _ => ?_
  refine hC.ensure_at fun _ => ?_
  refine hC.ensure_at fun _ => ?_
  have hquota := assertCanStore_quotasOnly env destBucket.companyId ownerId src.size 0
  refine hC.bind_at (.of_quotasOnly (hquota s)) fun _ s₁ hrun => ?_
  have hsame := hquota.runs hrun
  have hopen : (openBlob src.storageKey).Within (Keeps env) :=
    Within.bind hC (Within.outside hC) fun _ => Within.ofOption hC _ _
  refine hC.bind_at (hopen s₁) fun data s₂ hdata => ?_
  simp only [openBlob, runs_bind, runs_outside, runs_ofOption] at hdata
  obtain ⟨out, _, ⟨rfl, rfl⟩, -, rfl⟩ := hdata
  have hdest' : Known s₂.db destBucket := by
    rwa [Known, hsame.buckets]
  exact createFile_keeps henv hdest' _ _ _ _ _ _

theorem moveObject_keeps {bucket destBucket : Bucket} (hbucket : Known s.db bucket)
    (hdest : Known s.db destBucket) (sourcePath destPath : Text) :
    Keeps env s (moveObject bucket sourcePath destBucket destPath s).2 := by
  have hC := keeps_composable env
  refine hC.atomic_at (hC.ofExcept_at fun sourceName _ => ?_)
  refine hC.ofExcept_at fun destName _ => ?_
  refine hC.database_at ?_
  refine hC.ofOption_at fun obj hobj => ?_
  obtain ⟨hmem, hbucketId, -⟩ := Database.objectNamed_eq_some hobj
  have hsame : ∀ o ∈ s.db.objects.rows, o.id = obj.id → o = obj :=
    fun o ho hid => Database.object_eq_of_id ho hmem hid
  refine hC.ensure_at fun _ => ?_
  refine hC.outside_at ?_
  split
  · refine hC.bind_at (updateObject_keeps (fun _ _ _ => rfl) fun hs o ho hid b hb hbid => ?_)
      fun _ s₁ _ => Within.pure hC _ s₁
    exact hs.company o ho b hb hbid
  · refine hC.ensure_at fun hcompany => ?_
    refine hC.bind_at (updateObject_keeps (fun _ _ _ => rfl) fun hs o ho hid b hb hbid => ?_)
      fun _ s₂ _ => ?_
    · -- the object is of the company of its old bucket, which is that of the new one
      rw [hsame o ho hid]
      exact (hdest.company hb hbid).trans (hcompany.symm.trans
        (hs.company_of_known hmem hbucket hbucketId).symm)
    · have hrest : (do
          execute (·.moveGrants obj.id destBucket.id)
          pure { obj with
            bucketId := destBucket.id, name := destName, updatedAt := s.out.now } :
              Act StorageObject).Within (Keeps env) := by
        refine Within.bind hC (within_execute (keeps_lenient env) fun s db hdb => ?_)
          fun _ => Within.pure hC _
        obtain ⟨hbuckets, hobjects, -, hquotas, -⟩ := Database.moveGrants_eq_some hdb
        exact .of_contentKept (.of_buckets hbuckets hobjects hquotas rfl rfl le_rfl
          (Database.moveGrants_engine hdb))
      exact hrest s₂

theorem renameFolder_keeps (bucket : Bucket) (sourcePath destPath : Text) :
    (renameFolder bucket sourcePath destPath).Within (Keeps env) := by
  have hC := keeps_composable env
  have hone : ∀ src dst obj, (renameOne bucket src dst obj).Within (Keeps env) := by
    intro src dst obj
    refine Within.ite (Within.pure hC _) ?_
    refine Within.bind hC (Within.database hC) fun db => ?_
    refine Within.bind hC (Within.ensure hC _ _) fun _ => ?_
    refine Within.bind hC (Within.outside hC) fun out s => ?_
    exact updateObject_keeps (fun _ _ _ => rfl) fun hs o ho _ b hb hbid =>
      hs.company o ho b hb hbid
  refine Within.atomic hC (Within.bind hC (Within.ofExcept hC _) fun source => ?_)
  refine Within.bind hC (Within.ofExcept hC _) fun dest => ?_
  refine Within.bind hC (Within.ensure hC _ _) fun _ => ?_
  refine Within.ite (Within.pure hC _) ?_
  refine Within.bind hC (Within.ensure hC _ _) fun _ => ?_
  refine Within.bind hC (Within.database hC) fun db => ?_
  refine Within.bind hC (Within.ensure hC _ _) fun _ => ?_
  refine Within.bind hC (Within.ensure hC _ _) fun _ => ?_
  refine Within.bind hC (Within.forEach hC (hone _ _) _) fun _ => ?_
  exact Within.bind hC (Within.database hC) fun db => Within.pure hC _

/-! ## Deletions -/

theorem deleteObject_keeps (obj : StorageObject) :
    (deleteObject env obj).Within (Keeps env) := by
  have hC := keeps_composable env
  have hreach := fun p => within_reachOr (keeps_lenient env) (.interrupted p) p
  refine Within.atomic hC (Within.bind hC (hreach _) fun _ => ?_)
  refine Within.bind hC (Within.modifyDatabase fun s => ?_) fun _ => ?_
  · refine .of_rows rfl rfl (fun o ho => ?_) (fun _ hkey => hkey) fun hs o ho => ?_
    · exact ⟨o, (List.mem_filter.mp ho).1, rfl, rfl⟩
    · exact hs.company o (List.mem_filter.mp ho).1
  · have hblob : (deleteStorageKey obj.storageKey).Within (Keeps env) := by
      refine Within.bind hC (hreach _) fun _ => ?_
      refine Within.bind hC (Within.modifyOutside fun s => ?_) fun _ => hreach _
      refine .of_rows rfl rfl (fun o ho => ⟨o, ho, rfl, rfl⟩) (fun key hkey => ?_)
        fun hs => hs.company
      by_cases hk : key = obj.storageKey
      · subst hk
        exact absurd (AList.lookup_erase _ _) hkey
      · rwa [AList.lookup_erase_ne hk] at hkey
    refine Within.bind hC hblob fun _ => ?_
    exact Within.bind hC (applyUsageDelta_keeps env _ _ _) fun _ => hreach _

theorem Deletion.run_keeps (d : Deletion) : (d.run env).Within (Keeps env) := by
  intro s
  have hall : (forEach (deleteObject env) (d.objects s.db)).Within (Keeps env) :=
    Within.forEach (keeps_composable env) deleteObject_keeps _
  rcases runs_or_fails (d.run env) s with ⟨u, hrun⟩ | hfail
  · exact hall.runs (Deletion.runs_iff.mp hrun).2
  · rcases Deletion.fails_iff.mp hfail with ⟨-, heq⟩ | ⟨-, s₁, hfirst, heq⟩
    · rw [heq]
      exact (keeps_composable env).refl s
    · rw [heq]
      exact (keeps_composable env).rollback (hall.fails hfirst)

/-! ## Grants and buckets -/

theorem grantTarget_keeps (henv : env.Lawful) {bucket : Bucket} (hbucket : Known s.db bucket)
    (principal : StoragePrincipal) (resourceType : ResourceType) (resourceId : Text) :
    Keeps env s (grantTarget env principal bucket resourceType resourceId s).2 := by
  have hC := keeps_composable env
  cases resourceType with
  | bucket => exact Within.pure hC _ s
  | object =>
      have hlookup : (grantTarget env principal bucket .object resourceId).Within
          (Keeps env) :=
        Within.bind hC (Within.database hC) fun _ =>
          Within.bind hC (Within.ofOption hC _ _) fun _ => Within.pure hC _
      exact hlookup s
  | folder =>
      exact hC.bind_at (ensureFolderMarker_keeps henv hbucket resourceId _)
        fun _ s₁ _ => Within.pure hC _ s₁

theorem ensureCompanyBucket_keeps (env : Env) (companyId : Nat) :
    (ensureCompanyBucket env companyId).Within (Keeps env) :=
  (ensureCompanyBucket_bucketsOnly env companyId).mono fun h => .of_contentKept h.toContentKept

theorem createGrant_keeps (henv : env.Lawful) (principal : StoragePrincipal)
    (data : GrantRequest) : (createGrant env principal data).Within (Keeps env) := by
  intro s
  have hC := keeps_composable env
  refine createGrant_at hC (fun companyId _ => ensureCompanyBucket_keeps env companyId)
    fun fields bucket s₁ _ hbucket => ?_
  have hknown : Known s₁.db bucket :=
    known_of_mem (List.mem_of_find?_eq_some (getAccessibleBucket_resolved hbucket).found)
  refine hC.bind_at (grantTarget_keeps henv hknown principal _ _) fun resource s₂ _ => ?_
  have hrow : ∀ id now, (requestedGrant principal bucket.companyId bucket fields resource id
      now).resource = resource := fun _ _ => rfl
  exact .of_addsGrantsOn (createGrantRow_addsGrantsOn env hrow s₂)

theorem addBucket_bucketsOnly (env : Env) (bucket : UUID → Bucket) :
    ((Operation.addBucket bucket).run env).Within BucketsOnly :=
  Within.bind bucketsOnly_lenient.toComposable (drawUuid_bucketsOnly env) fun _ =>
    createBucket_bucketsOnly _

theorem setCompanyLimit_quotasOnly (env : Env) (companyId : Nat) (maxBytes : Int)
    (maxBytesPerUser : Option Int) :
    (Operation.setCompanyLimit env companyId maxBytes maxBytesPerUser).Within QuotasOnly :=
  Within.bind quotasOnly_lenient.toComposable
    (getOrCreateCompanyQuota_quotasOnly env companyId) fun _ =>
      modifyDatabase_quotasOnly fun _ => ⟨rfl, rfl, rfl, rfl⟩

theorem setUserLimit_quotasOnly (companyId userId : Nat) (maxBytes : Int) :
    (Operation.setUserLimit companyId userId maxBytes).Within QuotasOnly :=
  modifyDatabase_quotasOnly fun _ => ⟨rfl, rfl, rfl, rfl⟩

/-! ## Runs -/

theorem Operation.run_keeps (henv : env.Lawful) {op : Operation} (loaded : op.Loaded s.db) :
    Keeps env s (op.run env s).2 := by
  have hC := keeps_composable env
  cases op with
  | upload u =>
      exact hC.bind_at (uploadObject_keeps henv (known_of_mem loaded) _ _ _ _ _)
        fun _ s₁ _ => Within.pure hC _ s₁
  | delete d => exact d.run_keeps s
  | rename bucket source dest =>
      exact Within.bind hC (renameFolder_keeps bucket source dest)
        (fun _ => Within.pure hC _) s
  | move bucket source destBucket dest =>
      exact hC.bind_at (moveObject_keeps (known_of_mem loaded.1) (known_of_mem loaded.2) _ _)
        fun _ s₁ _ => Within.pure hC _ s₁
  | copy bucket source destBucket dest ownerId =>
      exact hC.bind_at (copyObject_keeps henv (known_of_mem loaded.2) _ _ _)
        fun _ s₁ _ => Within.pure hC _ s₁
  | folderMarker bucket folderPath ownerId =>
      exact hC.bind_at (ensureFolderMarker_keeps henv (known_of_mem loaded) _ _)
        fun _ s₁ _ => Within.pure hC _ s₁
  | createGrant principal data =>
      exact Within.bind hC (createGrant_keeps henv principal data)
        (fun _ => Within.pure hC _) s
  | deleteGrant principal grantId =>
      exact .of_contentKept (deleteGrant_contentKept env principal grantId s)
  | companyBucket companyId =>
      exact Within.bind hC (ensureCompanyBucket_keeps env companyId)
        (fun _ => Within.pure hC _) s
  | addBucket bucket =>
      exact .of_contentKept (addBucket_bucketsOnly env bucket s).toContentKept
  | companyLimit companyId maxBytes maxBytesPerUser =>
      exact .of_quotasOnly (setCompanyLimit_quotasOnly env companyId maxBytes _ s)
  | userLimit companyId userId maxBytes =>
      exact .of_quotasOnly (setUserLimit_quotasOnly companyId userId maxBytes s)

theorem Step.sound {w w' : World} (henv : env.Lawful) (h : Step env w w')
    (hw : Sound env w) : Sound env w' := by
  cases h with
  | operation op fault loaded =>
      exact (Operation.run_keeps henv (s := w.withFault fault) loaded).sound
        (((keeps_lenient env).fault w fault).sound hw)
  | clock t later => exact ⟨hw.engine, hw.keys, hw.allotted, hw.blobs, hw.company⟩

theorem Reachable.sound {w : World} (henv : env.Lawful) (h : Reachable env w) :
    Sound env w := by
  induction h with
  | refl => exact sound_initial env
  | tail _ hstep ih => exact hstep.sound henv ih

end StorageService.Storage
