import StorageService.Storage.Tree

/-!
# Files after a failing operation

An operation that raises leaves the rows as they were.  Their blobs are still there
too where new ones get keys of their own.  Only an upload to a file that exists could
replace a blob, and nothing raises there unless a fault strikes.
-/

namespace StorageService.Storage

open StorageService.Foundation
open StorageService.Foundation.Action

variable {env : Env} {s s' : World} {bucket destBucket : Bucket}

/-! ## New blobs -/

theorem saveBlob_blobsStay (henv : env.Lawful) {key : Text} (data : Bytes)
    (hfree : s.out.blobs.lookup key = none) : BlobsStay s (saveBlob env key data s).2 := by
  have hC := blobsStay_lenient.toComposable
  refine hC.bind_at (within_reachOr blobsStay_lenient _ _ s) fun _ s₁ hreach => ?_
  obtain ⟨out, hvisit, rfl⟩ := runs_reachOr.mp hreach
  rw [Outside.visit_eq_some hvisit]
  have hsave : BlobsStay { s with out := { s.out with fault := out.fault } }
      { s with out := Outside.save env key data { s.out with fault := out.fault } } := by
    intro other old hold
    refine Outside.lookup_save_of_stored henv hold (.inl ?_)
    rintro rfl
    exact absurd (hold.symm.trans hfree) (Option.some_ne_none old)
  exact hC.bind_at hsave fun _ s₂ _ => within_reachOr blobsStay_lenient _ _ s₂

theorem createStored_blobsStay (henv : env.Lawful) (hsound : Sound env s) (name : Text)
    (data : Bytes) (ownerId : Option Nat) (size : Nat) (etag mimeType : Text) :
    BlobsStay s (createStored env bucket name data ownerId size etag mimeType s).2 := by
  have hC := blobsStay_lenient.toComposable
  refine hC.bind_at (.of_eq rfl) fun objectId s₁ hdraw => ?_
  obtain ⟨rfl, rfl⟩ := runs_drawUuid.mp hdraw
  have hfree := lookup_eq_none_of_drawn henv hsound
    (ownedBy_buildStorageKey env bucket.companyId bucket.name name (env.uuid4 s.out.drawn))
  refine hC.bind_at (saveBlob_blobsStay henv data hfree) fun _ s₂ _ => ?_
  have hrow : ∀ o : StorageObject, (do
      execute (·.createObject o)
      pure o : Act StorageObject).Within BlobsStay := fun o =>
    Within.bind hC (within_execute blobsStay_lenient fun _ _ _ => .of_eq rfl) fun _ =>
      Within.pure hC _
  exact Within.bind hC (Within.outside hC) (fun _ => hrow _) s₂

theorem createFile_blobsStay (henv : env.Lawful) (hsound : Sound env s) (name : Text)
    (data : Bytes) (ownerId : Option Nat) (size : Nat) (etag mimeType : Text) :
    BlobsStay s (createFile env bucket name data ownerId size etag mimeType s).2 := by
  have hC := blobsStay_lenient.toComposable
  refine hC.bind_at (createStored_blobsStay henv hsound name data ownerId size etag mimeType)
    fun obj s₁ _ => ?_
  have hrest : (do
      applyUsageDelta env bucket.companyId obj.ownerId size
      applyDefaultPrivateOnCreate env obj obj.ownerId
      reach .signal
      pure obj : Act StorageObject).Within BlobsStay := by
    refine Within.bind hC ((applyUsageDelta_quotasOnly env _ _ _).mono
      fun h => .of_eq h.blobs) fun _ => ?_
    refine Within.bind hC ((applyDefaultPrivateOnCreate_addsGrantsOn env obj _).mono
      fun h => .of_eq h.blobs) fun _ => ?_
    exact Within.bind hC (within_reachOr blobsStay_lenient _ _) fun _ => Within.pure hC _
  exact hrest s₁

/-! ## No fault, no failure -/

def Calm (s s' : World) : Prop := s.out.fault = none → s'.out = s.out

theorem calm_composable : Composable Calm where
  refl _ _ := rfl
  trans h h' hfault := (h' (by rw [h hfault, hfault])).trans (h hfault)
  rollback h := h

theorem reachOr_calm (e : Failure) (p : Point) : (reachOr e p).Within Calm := by
  intro s hfault
  rcases runs_or_fails (reachOr e p) s with ⟨u, hrun⟩ | hfail
  · obtain ⟨out, hvisit, heq⟩ := runs_reachOr.mp hrun
    rw [heq]
    exact eq_of_visit hfault hvisit
  · rw [(fails_reachOr.mp hfail).2]

theorem not_fails_reachOr (hfault : s.out.fault = none) (e : Failure) (p : Point) :
    ¬(reachOr e p).Fails s s' := by
  simp [hfault]

theorem getOrCreateCompanyQuota_calm (env : Env) (companyId : Nat) :
    (getOrCreateCompanyQuota env companyId).Within Calm := by
  refine Within.bind calm_composable (Within.database calm_composable) fun db => ?_
  split
  · exact Within.pure calm_composable _
  · exact Within.bind calm_composable (Within.modifyDatabase fun _ _ => rfl) fun _ =>
      Within.pure calm_composable _

theorem applyUsageDelta_calm (env : Env) (companyId : Nat) (userId : Option Nat) (delta : Int) :
    (applyUsageDelta env companyId userId delta).Within Calm := by
  have hC := calm_composable
  refine Within.atomic hC (Within.ite (Within.pure hC _) ?_)
  refine Within.bind hC (reachOr_calm _ _) fun _ => ?_
  refine Within.bind hC (getOrCreateCompanyQuota_calm env companyId) fun company => ?_
  refine Within.bind hC (Within.modifyDatabase fun _ _ => rfl) fun _ => ?_
  split
  · exact Within.pure hC _
  · exact Within.modifyDatabase fun _ _ => rfl

theorem not_fails_applyUsageDelta (hfault : s.out.fault = none) (companyId : Nat)
    (userId : Option Nat) (delta : Int) :
    ¬(applyUsageDelta env companyId userId delta).Fails s s' := by
  rw [applyUsageDelta, fails_atomic]
  rintro ⟨s₁, h, -⟩
  by_cases hdelta : delta = 0
  · simp [hdelta] at h
  · simp only [hdelta, if_false, reach, fails_bind, not_fails_reachOr hfault,
      fails_getOrCreateCompanyQuota, fails_modifyDatabase, false_or] at h
    obtain ⟨_, _, -, _, _, -, _, _, -, h⟩ := h
    split at h <;> simp at h

theorem Outside.save_fault (env : Env) (key : Text) (data : Bytes) (out : Outside) :
    (out.save env key data).fault = out.fault := by
  unfold Outside.save
  split <;> rfl

theorem not_fails_saveBlob (hfault : s.out.fault = none) (key : Text) (data : Bytes) :
    ¬(saveBlob env key data).Fails s s' := by
  simp only [saveBlob, fails_bind, not_fails_reachOr hfault, runs_reachOr, runs_modifyOutside,
    fails_modifyOutside, fails_reachOr, false_or]
  rintro ⟨_, _, ⟨out, hvisit, rfl⟩, _, _, rfl, hstruck, -⟩
  rw [Outside.save_fault, eq_of_visit hfault hvisit, hfault] at hstruck
  contradiction

theorem runs_saveBlob_quiet (hfault : s.out.fault = none) {key : Text} {data : Bytes} {u : Unit}
    (h : (saveBlob env key data).Runs s u s') : s'.out.fault = none := by
  simp only [saveBlob, runs_bind, runs_reachOr, runs_modifyOutside] at h
  obtain ⟨_, _, ⟨out, hvisit, rfl⟩, _, _, rfl, out', hvisit', rfl⟩ := h
  have hsaved : (Outside.save env key data out).fault = none := by
    rw [Outside.save_fault, eq_of_visit hfault hvisit, hfault]
  rw [eq_of_visit hsaved hvisit', hsaved]

theorem updateObject_of_samePlace {db : Database} {existing obj : StorageObject}
    (hexisting : existing ∈ db.objects.rows) (hid : obj.id = existing.id)
    (hbucket : obj.bucketId = existing.bucketId) (hname : obj.name = existing.name) :
    ∃ db', db.updateObject existing.id (fun _ => obj) = some db' := by
  have hsame : ∀ o ∈ db.objects.rows,
      (Database.changed existing.id (fun _ => obj) o).bucketId = o.bucketId ∧
        (Database.changed existing.id (fun _ => obj) o).name = o.name := by
    intro o ho
    by_cases heq : o.id = existing.id
    · obtain rfl := Database.object_eq_of_id ho hexisting heq
      simp [Database.changed, hbucket, hname]
    · rw [Database.changed_of_ne heq]
      exact ⟨rfl, rfl⟩
  have hrewritable : db.objects.Rewritable (Database.changed existing.id fun _ => obj) := by
    rw [Table.Rewritable, List.pairwise_map]
    refine db.objects.unique.imp_of_mem fun {a b} ha hb hab hclash => hab ?_
    rw [StorageObject.Clash, Database.changed_id, Database.changed_id, (hsame a ha).1,
      (hsame a ha).2, (hsame b hb).1, (hsame b hb).2] at hclash
    exact hclash
  have hbuckets : ∀ o ∈ db.objects.rows.map (Database.changed existing.id fun _ => obj),
      ∃ b ∈ db.buckets.rows, b.id = o.bucketId := by
    intro o' ho'
    obtain ⟨o, ho, rfl⟩ := List.mem_map.mp ho'
    rw [(hsame o ho).1]
    exact db.objectBucket o ho
  rw [Database.updateObject, dif_pos ⟨hrewritable, hbuckets⟩]
  exact ⟨_, rfl⟩

theorem not_fails_overwriteObject (hfault : s.out.fault = none) {existing : StorageObject}
    (hexisting : existing ∈ s.db.objects.rows) (mimeType : Text) (data : Bytes)
    (ownerId : Option Nat) :
    ¬(overwriteObject env bucket existing mimeType data ownerId).Fails s s' := by
  simp only [overwriteObject, reach, fails_bind, not_fails_saveBlob hfault, fails_outside,
    runs_outside, fails_execute, runs_execute, fails_pure, false_or, or_false, and_false,
    exists_false]
  rintro ⟨_, _, hsave, out, s₁, ⟨rfl, rfl⟩, h⟩
  have hquiet := runs_saveBlob_quiet hfault hsave
  obtain ⟨hdb, -⟩ := runs_saveBlob hsave
  rw [← hdb] at hexisting
  rcases h with (⟨hstruck, -⟩ | ⟨out, -, -, hnone⟩) | ⟨_, s₂, ⟨out, db, hvisit, -, rfl⟩, h⟩
  · rw [hquiet] at hstruck
    contradiction
  · have hupdates : ∃ db', s₁.db.updateObject existing.id
        (fun _ => overwritten env existing mimeType data ownerId s₁.out.now) = some db' :=
      updateObject_of_samePlace hexisting rfl rfl rfl
    rw [hnone] at hupdates
    simp at hupdates
  · have hquiet' : out.fault = none := by rw [eq_of_visit hquiet hvisit, hquiet]
    rcases h with hdelta | ⟨_, s₃, hdelta, hsignal⟩
    · exact not_fails_applyUsageDelta hquiet' _ _ _ hdelta
    · have hout := (applyUsageDelta_calm env _ _ _).runs hdelta hquiet'
      exact not_fails_reachOr (by rw [hout]; exact hquiet') _ _ hsignal

theorem assertCanStore_quiet {companyId : Nat} {userId : Option Nat} {additional replacing : Nat}
    {u : Unit} (hfault : s.out.fault = none)
    (h : (assertCanStore env companyId userId additional replacing).Runs s u s') :
    s'.out.fault = none := by
  rcases (runs_assertCanStore h).2 with ⟨-, hout⟩ | ⟨-, hvisit⟩
  · rw [hout, hfault]
  · rw [eq_of_visit hfault hvisit, hfault]

/-! ## What is left of a failure -/

structure NothingLost (s s' : World) : Prop where
  db : s'.db = s.db
  blobs : BlobsStay s s'

theorem NothingLost.replays (h : NothingLost s s') (hs : Backed s) : Replays s s' [] :=
  .of_blobsStay hs h.db h.blobs

theorem uploadObject_nothingLost (henv : env.Lawful) (hsound : Sound env s)
    (hfault : s.out.fault = none) {path : Text} {data : Bytes} {ownerId : Option Nat}
    {contentType : Option Text} {upsert : Bool}
    (h : (uploadObject env bucket path data ownerId contentType upsert).Fails s s') :
    NothingLost s s' := by
  rw [uploadObject, fails_atomic] at h
  obtain ⟨s₁, h, rfl⟩ := h
  refine ⟨rfl, ?_⟩
  simp only [fails_bind, fails_ofExcept, runs_ofExcept, fails_ensure, runs_ensure,
    fails_database, runs_database, false_or] at h
  obtain ⟨-, rfl⟩ | ⟨name, _, ⟨-, rfl⟩, ⟨-, rfl⟩ | ⟨_, _, ⟨-, rfl⟩, db, _, ⟨rfl, rfl⟩,
    ⟨-, rfl⟩ | ⟨_, _, ⟨-, rfl⟩, ⟨-, rfl⟩ | ⟨_, s₂, ⟨-, rfl⟩, h⟩⟩⟩⟩ := h
  · exact .of_eq rfl
  · exact .of_eq rfl
  · exact .of_eq rfl
  · exact .of_eq rfl
  · have hquota := assertCanStore_quotasOnly env bucket.companyId ownerId data.length
      (((s₂.db.objectNamed bucket.id name).map StorageObject.size).getD 0)
    rcases h with hfail | ⟨_, s₃, hrun, h⟩
    · exact .of_eq (hquota.fails hfail).blobs
    · have hsame := hquota.runs hrun
      cases hexisting : s₂.db.objectNamed bucket.id name with
      | some existing =>
          simp only [hexisting] at h hrun
          have hmem := (Database.objectNamed_eq_some hexisting).1
          rw [← hsame.objects] at hmem
          exact absurd h (not_fails_overwriteObject (assertCanStore_quiet hfault hrun) hmem _ _ _)
      | none =>
          simp only [hexisting] at h
          obtain ⟨e, he⟩ := h
          have hsound' := (Keeps.of_quotasOnly hsame).sound hsound
          have hstay : BlobsStay s₃ (createFile env bucket name data ownerId data.length
            (contentEtag env data) (normalizeMimeType env contentType name) s₃).2 :=
              createFile_blobsStay henv hsound' _ _ _ _ _ _
          rw [he] at hstay
          exact blobsStay_lenient.trans (.of_eq hsame.blobs) hstay

theorem copyObject_nothingLost (henv : env.Lawful) (hsound : Sound env s) {source dest : Text}
    {ownerId : Option Nat}
    (h : (copyObject env bucket source destBucket dest ownerId).Fails s s') :
    NothingLost s s' := by
  rw [copyObject, fails_atomic] at h
  obtain ⟨s₁, h, rfl⟩ := h
  refine ⟨rfl, ?_⟩
  simp only [openBlob, fails_bind, fails_ofExcept, runs_ofExcept, fails_ensure, runs_ensure,
    fails_database, runs_database, fails_ofOption, runs_ofOption, fails_outside, runs_outside,
    runs_bind, false_or] at h
  obtain ⟨-, rfl⟩ | ⟨sourceName, _, ⟨-, rfl⟩, ⟨-, rfl⟩ | ⟨destName, _, ⟨-, rfl⟩, db, _,
    ⟨rfl, rfl⟩, ⟨-, rfl⟩ | ⟨src, _, ⟨-, rfl⟩, ⟨-, rfl⟩ | ⟨_, _, ⟨-, rfl⟩, ⟨-, rfl⟩ |
    ⟨_, s₂, ⟨-, rfl⟩, h⟩⟩⟩⟩⟩ := h
  · exact .of_eq rfl
  · exact .of_eq rfl
  · exact .of_eq rfl
  · exact .of_eq rfl
  · exact .of_eq rfl
  · have hquota := assertCanStore_quotasOnly env destBucket.companyId ownerId src.size 0
    rcases h with hfail | ⟨_, _, hrun, ⟨out, _, ⟨rfl, rfl⟩, -, rfl⟩ | ⟨content, s₃,
      ⟨out, _, ⟨rfl, rfl⟩, -, rfl⟩, e, he⟩⟩
    · exact .of_eq (hquota.fails hfail).blobs
    · exact .of_eq (hquota.runs hrun).blobs
    · have hsame := hquota.runs hrun
      have hsound' := (Keeps.of_quotasOnly hsame).sound hsound
      have hstay : BlobsStay s₃ (createFile env destBucket destName content
          (ownerId <|> src.ownerId) src.size src.etag src.mimeType s₃).2 :=
        createFile_blobsStay henv hsound' _ _ _ _ _ _
      rw [he] at hstay
      exact blobsStay_lenient.trans (.of_eq hsame.blobs) hstay

theorem moveObject_nothingLost {source dest : Text}
    (h : (moveObject bucket source destBucket dest).Fails s s') : NothingLost s s' := by
  have hC := sameBlobs_lenient.toComposable
  have hsame : (moveObject bucket source destBucket dest).Within SameBlobs := by
    refine Within.atomic hC (Within.bind hC (Within.ofExcept hC _) fun _ => ?_)
    refine Within.bind hC (Within.ofExcept hC _) fun _ => ?_
    refine Within.bind hC (Within.database hC) fun db => ?_
    refine Within.bind hC (Within.ofOption hC _ _) fun obj => ?_
    refine Within.bind hC (Within.ensure hC _ _) fun _ => ?_
    refine Within.bind hC (Within.outside hC) fun out => ?_
    have hwrite : ∀ statement, (execute statement).Within SameBlobs := fun _ =>
      within_execute sameBlobs_lenient fun _ _ _ => rfl
    split
    · exact Within.bind hC (hwrite _) fun _ => Within.pure hC _
    · refine Within.bind hC (Within.ensure hC _ _) fun _ => ?_
      exact Within.bind hC (hwrite _) fun _ => Within.bind hC (hwrite _) fun _ =>
        Within.pure hC _
  refine ⟨?_, .of_eq (hsame.fails h)⟩
  rw [moveObject, fails_atomic] at h
  obtain ⟨s₁, -, rfl⟩ := h
  rfl

end StorageService.Storage
