import StorageService.Results.Addressing
import StorageService.Results.Decisions

/-!
# Two ways to an object

A request by path passes a check on the bucket before the one on the object; a
request by id only the latter.
-/

namespace StorageService.Results

open StorageService.Foundation
open StorageService.Foundation.Action
open StorageService.Storage

section Routes

variable {env : Env} {w : World}

theorem bucketsMinted_of_reachable (henv : env.Lawful) (h : Reachable env w) :
    BucketsMinted env w := by
  have hinitial : BucketsMinted env (.initial env.engine) := (addressable_initial env).minted
  refine (GuardedRun.of_reachable h).invariant henv ?_ ?_ hinitial
  · intro w w' hdb hdrawn h
    exact h.of_buckets (congrArg _ hdb) hdrawn.ge
  · intro w s s' op _ _ _ hs hchange hdrawn
    exact hs.change hchange hdrawn

def Permits (principal : StoragePrincipal) (bucket : Bucket) (required : Permission)
    (heard : List Grant) : Prop :=
  (∀ g ∈ heard, ¬(g.effect = .deny ∧ denyBlocks g.permission required = true)) ∧
    ((∃ g ∈ heard, g.effect = .allow ∧ permissionAtLeast g.permission required = true) ∨
      (∀ g ∈ heard, g.effect = .deny) ∧ kindDefaultAllows principal bucket required = true)

instance (principal : StoragePrincipal) (bucket : Bucket) (required : Permission)
    (heard : List Grant) : Decidable (Permits principal bucket required heard) :=
  inferInstanceAs (Decidable (_ ∧ _))

theorem evaluateAccess_eq_true_iff {db : Database} {now : Time} {principal : StoragePrincipal}
    {bucket : Bucket} {path : Option Text} {objectId : Option UUID} {required : Permission}
    (hcompany : principal.companyId = some bucket.companyId) :
    evaluateAccess db now principal bucket path objectId required = true ↔
      Permits principal bucket required (topGrants db now principal bucket path objectId) := by
  rw [evaluateAccess_eq_ruling _ _ _ _ _ hcompany, ruling_eq_true_iff, Permits, topGrants]
  simp only [ne_eq, grantVerdict_eq_refuse, grantVerdict_eq_permit, grantVerdict_eq_silent]
  refine and_congr_right fun hno => or_congr_right (and_congr_left fun _ => ?_)
  refine forall₂_congr fun g hg => and_iff_left_of_imp fun hdeny => ?_
  exact Bool.eq_false_iff.mpr fun hblocks => hno g hg ⟨hdeny, hblocks⟩

structure RoutesAgree (env : Env) (w : World) (principal : StoragePrincipal) (bucket : Bucket)
    (o : StorageObject) (required : Permission) : Prop where
  byPath : (∃ r w', (getAccessibleObject env principal bucket.name o.name required).Runs
      (w.withFault none) r w') ↔
    evaluateAccess w.db w.out.now principal bucket (some o.name) (some o.id) required = true
  byId : required = .read → ∀ objectId, uuidOfText objectId = some o.id →
    ((∃ r w', (getAccessibleObject env principal bucket.name o.name .read).Runs
        (w.withFault none) r w') ↔
      ∃ item w', (resolveItemById principal objectId).Runs (w.withFault none) item w')

/--
What is permitted on the object is permitted on its bucket, once that is put
right, and putting it right does not open the object.
-/
structure GateOpen (w : World) (principal : StoragePrincipal) (bucket : Bucket)
    (o : StorageObject) (required : Permission) : Prop where
  gate : Permits principal bucket required
      (topGrants w.db w.out.now principal bucket (some o.name) (some o.id)) →
    Permits principal (provisioned bucket) required
      (topGrants w.db w.out.now principal bucket none none)
  kind : Permits principal (provisioned bucket) required
      (topGrants w.db w.out.now principal bucket none none) →
    Permits principal (provisioned bucket) required
      (topGrants w.db w.out.now principal bucket (some o.name) (some o.id)) →
    Permits principal bucket required
      (topGrants w.db w.out.now principal bucket (some o.name) (some o.id))

theorem topGrants_provisioned (db : Database) (now : Time) (principal : StoragePrincipal)
    (bucket : Bucket) (path : Option Text) (objectId : Option UUID) :
    topGrants db now principal (provisioned bucket) path objectId =
      topGrants db now principal bucket path objectId := by
  simp only [topGrants, matchingGrants, resourceMatchesGrant, provisioned_id]

theorem Permits.provisioned {principal : StoragePrincipal} {bucket : Bucket}
    {required : Permission} {heard : List Grant} (h : Permits principal bucket required heard) :
    Permits principal (provisioned bucket) required heard := by
  refine ⟨h.1, h.2.imp_right fun hdefault => ⟨hdefault.1, ?_⟩⟩
  have hold := hdefault.2
  unfold Storage.provisioned
  split
  · unfold kindDefaultAllows at hold ⊢
    split at hold
    · contradiction
    · rename_i hcompany
      rw [if_neg hcompany]
      cases hkind : bucket.kind with
      | company => simpa [hkind] using hold
      | connector =>
          have hread : required = .read := by simpa [hkind] using hold
          simp [hread]
  · exact hold

theorem resolveItemById_runs_iff {o : StorageObject} (ho : o ∈ w.db.objects.rows) {b : Bucket}
    (hb : b ∈ w.db.buckets.rows) (hid : b.id = o.bucketId)
    (hcompany : b.companyId = o.companyId) {principal : StoragePrincipal} {objectId : Text}
    (hobjectId : uuidOfText objectId = some o.id) :
    (∃ item w', (resolveItemById principal objectId).Runs w item w') ↔
      canAccessPath w.db w.out.now principal b o.name (some o.id) .read = true := by
  constructor
  · rintro ⟨item, w', h⟩
    simp only [resolveItemById, runs_bind, runs_ofOption, runs_database, runs_ensure,
      runs_assertCanAccessPath, runs_pure] at h
    obtain ⟨uid, _, ⟨huid, rfl⟩, _, _, ⟨rfl, rfl⟩, o', _, ⟨hfound, rfl⟩, b', _,
      ⟨hbucket, rfl⟩, _, _, ⟨-, rfl⟩, _, _, ⟨hallowed, rfl⟩, -, -⟩ := h
    obtain rfl : uid = o.id := Option.some.inj (huid.symm.trans hobjectId)
    obtain rfl : o' = o := Option.some.inj
      (hfound.symm.trans (Database.objectById_eq_some.mpr ⟨ho, rfl⟩))
    rw [← hid] at hbucket
    obtain rfl : b' = b := Option.some.inj (hbucket.symm.trans (Database.bucketById_of_mem hb))
    exact hallowed
  · intro hallowed
    exact ⟨_, _, resolveItemById_runs ho hb hid hcompany hobjectId hallowed⟩

theorem byPath_iff (henv : env.Lawful) (hw : Reachable env w) {o : StorageObject}
    (ho : o ∈ w.db.objects.rows) (hname : Canonical o.name) {bucket : Bucket}
    (hb : bucket ∈ w.db.buckets.rows) (hid : bucket.id = o.bucketId)
    {principal : StoragePrincipal} (hcompany : principal.companyId = some bucket.companyId)
    (required : Permission) :
    (∃ r w', (getAccessibleObject env principal bucket.name o.name required).Runs
        (w.withFault none) r w') ↔
      Permits principal (provisioned bucket) required
          (topGrants w.db w.out.now principal bucket none none) ∧
        Permits principal (provisioned bucket) required
          (topGrants w.db w.out.now principal bucket (some o.name) (some o.id)) := by
  have hminted : BucketsMinted env (w.withFault none) :=
    (bucketsMinted_of_reachable henv hw).of_buckets rfl le_rfl
  have hcompany' : principal.companyId = some (provisioned bucket).companyId := by
    rw [hcompany, provisioned_companyId]
  rw [getAccessibleObject_runs_iff (s := w.withFault none) henv hminted rfl ho hname hb hid
    hcompany, canAccessBucket, canAccessPath, evaluateAccess_eq_true_iff hcompany',
    evaluateAccess_eq_true_iff hcompany', topGrants_provisioned, topGrants_provisioned]
  rfl

/--
The routes agree about an object stored under its canonical name if and only if
the gate of its bucket is open to what the object permits.
-/
theorem routesAgree_iff (henv : env.Lawful) (hw : Reachable env w)
    (principal : StoragePrincipal) (bucket : Bucket) (hb : bucket ∈ w.db.buckets.rows)
    (hcompany : principal.companyId = some bucket.companyId) (o : StorageObject)
    (ho : o ∈ w.db.objects.rows) (hid : bucket.id = o.bucketId) (hname : Canonical o.name)
    (required : Permission) :
    RoutesAgree env w principal bucket o required ↔
      GateOpen w principal bucket o required := by
  have hpath := fun required => byPath_iff henv hw ho hname hb hid hcompany required
  have hobject (needed : Permission) :
      evaluateAccess w.db w.out.now principal bucket (some o.name) (some o.id) needed = true ↔
        Permits principal bucket needed
          (topGrants w.db w.out.now principal bucket (some o.name) (some o.id)) :=
    evaluateAccess_eq_true_iff hcompany
  constructor
  · rintro ⟨hbyPath, -⟩
    rw [hpath, hobject] at hbyPath
    exact ⟨fun h => (hbyPath.mpr h).1, fun h h' => hbyPath.mp ⟨h, h'⟩⟩
  · rintro ⟨hgate, hkind⟩
    have hbyPath : (∃ r w', (getAccessibleObject env principal bucket.name o.name required).Runs
        (w.withFault none) r w') ↔
        evaluateAccess w.db w.out.now principal bucket (some o.name) (some o.id) required =
          true := by
      rw [hpath, hobject]
      exact ⟨fun h => hkind h.1 h.2, fun h => ⟨hgate h, h.provisioned⟩⟩
    refine ⟨hbyPath, ?_⟩
    rintro rfl objectId hobjectId
    have hsame := (hw.sound henv).company o ho bucket hb hid
    rw [hbyPath, resolveItemById_runs_iff (w := w.withFault none) ho hb hid hsame hobjectId]
    rfl

theorem routesAgree_iff_privateFolder : ∃ o ∈ privateFolder.db.objects.rows,
    o.name = ['a', '/', 'x'] ∧
      RoutesAgree (sampleEnv false) privateFolder (member 1) sampleBucket o .write := by
  have hfile : ∃ o ∈ privateFolder.db.objects.rows, o.name = ['a', '/', 'x'] ∧ Plain o.name ∧
      sampleBucket.id = o.bucketId ∧
      Permits (member 1) sampleBucket .write
        (topGrants privateFolder.db 0 (member 1) sampleBucket (some o.name) (some o.id)) ∧
      Permits (member 1) (provisioned sampleBucket) .write
        (topGrants privateFolder.db 0 (member 1) sampleBucket none none) := by
    decide +kernel
  obtain ⟨o, ho, hname, hplain, hid, hobject, hbucket⟩ := hfile
  exact ⟨o, ho, hname, (routesAgree_iff (sampleEnv_lawful false) privateFolder_reachable
    (member 1) sampleBucket (by decide +kernel) rfl o ho hid hplain.canonical .write).mpr
      ⟨fun _ => hbucket, fun _ _ => hobject⟩⟩

def closedOverFile : World :=
  play (sampleEnv false)
    [.companyBucket 1, .upload (sampleUpload ['x'] [97] 1),
      .createGrant (staffMember 9)
        (denyRequest ['b', 'u', 'c', 'k', 'e', 't'] companyBucketName ['r', 'e', 'a', 'd'])]
    .initial

theorem closedOverFile_reachable : Reachable (sampleEnv false) closedOverFile :=
  Reachable.play .refl (by decide +kernel)

/-- The grant on the file lets its creator read, and the bucket does not let it pass. -/
theorem not_routesAgree :
    ¬∀ w, Reachable (sampleEnv false) w → ∀ principal : StoragePrincipal,
      ∀ bucket ∈ w.db.buckets.rows, principal.companyId = some bucket.companyId →
      ∀ o ∈ w.db.objects.rows, bucket.id = o.bucketId → Canonical o.name →
      ∀ required, RoutesAgree (sampleEnv false) w principal bucket o required := by
  intro h
  have hfile : ∃ o ∈ closedOverFile.db.objects.rows, Plain o.name ∧
      sampleBucket.id = o.bucketId ∧
      evaluateAccess closedOverFile.db closedOverFile.out.now (member 1) sampleBucket
        (some o.name) (some o.id) .read = true ∧
      ¬Permits (member 1) (provisioned sampleBucket) .read
        (topGrants closedOverFile.db closedOverFile.out.now (member 1) sampleBucket none
          none) := by
    decide +kernel
  obtain ⟨o, ho, hplain, hid, hallowed, hclosed⟩ := hfile
  have hbucket : sampleBucket ∈ closedOverFile.db.buckets.rows := by decide +kernel
  have hagree := h closedOverFile closedOverFile_reachable (member 1) sampleBucket hbucket rfl o
    ho hid hplain.canonical .read
  have hreached := hagree.byPath.mpr hallowed
  rw [byPath_iff (sampleEnv_lawful false) closedOverFile_reachable ho hplain.canonical hbucket
    hid rfl] at hreached
  exact hclosed hreached.1

end Routes

end StorageService.Results
