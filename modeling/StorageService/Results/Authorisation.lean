import StorageService.Results.Decisions

/-!
# What a request was authorised for

The endpoints check the strings a caller sends; the operations act on the
objects these strings name.  The decision is the same where the same grants are
heard about both.
-/

namespace StorageService.Results

open StorageService.Foundation
open StorageService.Foundation.Action
open StorageService.Storage

variable {env : Env}

/-! ## Strings and objects about which the same grants are heard -/

/-- The same most specific active grants of the caller match both requests. -/
def HeardAlike (db : Database) (now : Time) (principal : StoragePrincipal) (bucket : Bucket)
    (path : Text) (objectId : Option UUID) (path' : Text) (objectId' : Option UUID) : Prop :=
  ∀ g, g ∈ topGrants db now principal bucket (some path) objectId ↔
    g ∈ topGrants db now principal bucket (some path') objectId'

section HeardAlike

variable {db : Database} {now : Time} {principal : StoragePrincipal} {bucket : Bucket}

theorem HeardAlike.evaluateAccess {path path' : Text} {objectId objectId' : Option UUID}
    (h : HeardAlike db now principal bucket path objectId path' objectId')
    {required : Permission}
    (hallowed : canAccessPath db now principal bucket path objectId required = true) :
    evaluateAccess db now principal bucket (some path') objectId' required = true := by
  rw [← evaluateAccess_of_topGrants h]
  exact hallowed

theorem matchingGrants_of_bucket_id {bucket' : Bucket} (hid : bucket'.id = bucket.id)
    (path : Option Text) (objectId : Option UUID) :
    matchingGrants db now principal bucket' path objectId =
      matchingGrants db now principal bucket path objectId := by
  unfold matchingGrants resourceMatchesGrant
  simp only [hid]

theorem matchingGrants_of_new_bucket (hnew : ∀ b ∈ db.buckets.rows, b.id ≠ bucket.id)
    (path : Option Text) (objectId : Option UUID) :
    matchingGrants db now principal bucket path objectId = [] := by
  cases hcompany : principal.companyId with
  | none => simp [matchingGrants, hcompany]
  | some companyId =>
      rw [List.eq_nil_iff_forall_not_mem]
      intro g hg
      obtain ⟨hactive, -, hmatch⟩ := (mem_matchingGrants hcompany).mp hg
      obtain ⟨-, hrow, -⟩ := mem_activeGrants.mp hactive
      obtain ⟨b, hb, hid⟩ := db.grantBucket g.row hrow
      have hne : g.bucketId ≠ bucket.id := fun h => hnew b hb (hid.trans h)
      simp [resourceMatchesGrant, hne] at hmatch

theorem HeardAlike.of_matchingGrants {path path' : Text} {objectId objectId' : Option UUID}
    (h : ∀ g, g ∈ matchingGrants db now principal bucket (some path) objectId ↔
      g ∈ matchingGrants db now principal bucket (some path') objectId') :
    HeardAlike db now principal bucket path objectId path' objectId' := by
  intro g
  simp only [topGrants, mem_top, h]

theorem HeardAlike.of_normalizePath {path path' : Text}
    (h : normalizePath path = normalizePath path') (objectId : Option UUID) :
    HeardAlike db now principal bucket path objectId path' objectId := by
  apply HeardAlike.of_matchingGrants
  intro g
  unfold matchingGrants resourceMatchesGrant
  simp only [Option.getD_some, h]

theorem HeardAlike.of_name {o : StorageObject} (ho : o ∈ db.objects.rows)
    (hname : normalizePath o.name ≠ []) :
    HeardAlike db now principal bucket o.name none o.name (some o.id) := by
  apply HeardAlike.of_matchingGrants
  intro g
  cases hcompany : principal.companyId with
  | none => simp [matchingGrants, hcompany]
  | some companyId =>
      rw [mem_matchingGrants hcompany, mem_matchingGrants hcompany]
      refine and_congr_right fun hactive => and_congr_right fun _ => ?_
      obtain ⟨-, -, hrows⟩ := mem_activeGrants.mp hactive
      unfold resourceMatchesGrant
      split
      · exact Iff.rfl
      · cases hresource : g.resource with
        | bucket => exact Iff.rfl
        | folder marker => exact Iff.rfl
        | object target =>
            by_cases hid : o.id = target.id
            · -- the grant is on the object itself, found by its name as by its id
              have htarget : target ∈ db.objects.rows :=
                hrows target (by simp [hresource, Resource.object?])
              obtain rfl : o = target := Database.object_eq_of_id ho htarget hid
              simp [hname]
            · simp [hid]

theorem HeardAlike.of_fresh_id (path : Text) {id : UUID}
    (hfresh : ∀ o ∈ db.objects.rows, o.id ≠ id) :
    HeardAlike db now principal bucket path none path (some id) := by
  apply HeardAlike.of_matchingGrants
  intro g
  cases hcompany : principal.companyId with
  | none => simp [matchingGrants, hcompany]
  | some companyId =>
      rw [mem_matchingGrants hcompany, mem_matchingGrants hcompany]
      refine and_congr_right fun hactive => and_congr_right fun _ => ?_
      obtain ⟨-, -, hrows⟩ := mem_activeGrants.mp hactive
      unfold resourceMatchesGrant
      split
      · exact Iff.rfl
      · cases hresource : g.resource with
        | bucket => exact Iff.rfl
        | folder marker => exact Iff.rfl
        | object target =>
            have hne := hfresh target (hrows target (by simp [hresource, Resource.object?]))
            simp [hne.symm]

theorem HeardAlike.trans {path path' path'' : Text} {id id' id'' : Option UUID}
    (h : HeardAlike db now principal bucket path id path' id')
    (h' : HeardAlike db now principal bucket path' id' path'' id'') :
    HeardAlike db now principal bucket path id path'' id'' := fun g => (h g).trans (h' g)

theorem HeardAlike.of_provisioned {w w₁ : World} {path path' : Text}
    {id id' : Option UUID} (hkept : BucketsOnly w w₁) (hbucket : bucket ∈ w₁.db.buckets.rows)
    (h : ∀ b ∈ w.db.buckets.rows, b.id = bucket.id → b.companyId = bucket.companyId →
      b.name = bucket.name → HeardAlike w.db now principal b path id path' id') :
    HeardAlike w.db now principal bucket path id path' id' := by
  rcases hkept.known bucket hbucket with ⟨b, hb, hid, hcompany, hname⟩ | hnew
  · have halike := h b hb hid.symm hcompany.symm hname.symm
    intro g
    simpa only [topGrants, matchingGrants_of_bucket_id hid] using halike g
  · apply HeardAlike.of_matchingGrants
    intro g
    simp only [matchingGrants_of_new_bucket hnew]

theorem BucketsOnly.heardAlike {w w₁ : World} (h : BucketsOnly w w₁) {path path' : Text}
    {id id' : Option UUID} :
    HeardAlike w₁.db w₁.out.now principal bucket path id path' id' ↔
      HeardAlike w.db w.out.now principal bucket path id path' id' := by
  simp only [HeardAlike, topGrants, h.now, matchingGrants_congr h.objects h.grants]

end HeardAlike

/-! ## Renaming a folder -/

/--
Whoever renames a folder may write each object it renames, as far as the grants
heard about the object are those heard about the folder path as given.
-/
theorem evaluateAccess_of_renamePrefix {w w' : World} {fault : Option (Point × Nat)}
    {principal : StoragePrincipal} {bucketName source dest : Text} {result : RenameResult}
    (h : (renamePrefix env principal bucketName source dest).Runs (w.withFault fault) result
      w') (o o' : StorageObject) (ho : o ∈ w.db.objects.rows) (ho' : o' ∈ w'.db.objects.rows)
    (hid : o'.id = o.id) (hrenamed : o'.name ≠ o.name) (bucket : Bucket)
    (hbucket : bucket ∈ w'.db.buckets.rows) (hbucketId : bucket.id = o.bucketId)
    (halike : HeardAlike w.db w.out.now principal bucket (stripSlash source) none o.name
      (some o.id)) :
    evaluateAccess w.db w.out.now principal bucket (some o.name) (some o.id) .write = true := by
  obtain ⟨b, s₁, hresolved, hallowed, -, hrename⟩ := renamePrefix_cases h
  obtain ⟨src, dst, -, -, -, ⟨-, rfl⟩ | ⟨-, -, hrewrote⟩⟩ := renameFolder_rewrote hrename
  · -- source and destination are the same folder
    rw [hresolved.bucketsOnly.objects] at ho'
    obtain rfl : o' = o := Database.object_eq_of_id ho' ho hid
    contradiction
  · have hmapped : renamedRow b.id (stripSlash src) (stripSlash dst) s₁.out.now o ∈
        w'.db.objects.rows := by
      rw [hrewrote.objects, hresolved.bucketsOnly.objects]
      exact List.mem_map_of_mem ho
    have hids : (renamedRow b.id (stripSlash src) (stripSlash dst) s₁.out.now o).id = o.id := by
      unfold renamedRow
      split <;> rfl
    obtain rfl := Database.object_eq_of_id ho' hmapped (hid.trans hids.symm)
    have hinside : o.bucketId = b.id := by
      by_contra hne
      simp [renamedRow, hne] at hrenamed
    have hb : b ∈ w'.db.buckets.rows := by
      rw [hrewrote.buckets]
      exact List.mem_of_find?_eq_some hresolved.found
    obtain rfl : bucket = b :=
      Database.bucket_eq_of_id hbucket hb (hbucketId.trans hinside)
    rw [hresolved.canAccessPath] at hallowed
    exact halike.evaluateAccess hallowed

theorem HeardAlike.of_eq {db : Database} {now : Time} {principal : StoragePrincipal}
    {bucket : Bucket} {path path' : Text} {id id' : Option UUID}
    (h : topGrants db now principal bucket (some path) id =
      topGrants db now principal bucket (some path') id') :
    HeardAlike db now principal bucket path id path' id' := fun g => by rw [h]

def renamedBy (userId : Nat) (source dest : Text) (w : World) : World :=
  (renamePrefix (sampleEnv false) (member userId) companyBucketName source dest
    (w.withFault none)).2

theorem renamedBy_runs (userId : Nat) (source dest : Text) (w : World)
    (h : (renamePrefix (sampleEnv false) (member userId) companyBucketName source dest
      (w.withFault none)).1.toOption.any (fun _ => true) = true) :
    ∃ result, (renamePrefix (sampleEnv false) (member userId) companyBucketName source
      dest).Runs (w.withFault none) result (renamedBy userId source dest w) := by
  obtain ⟨result, hrun, -⟩ := runs_of_any h
  exact ⟨result, hrun⟩

theorem evaluateAccess_of_renamePrefix_privateFolder : ∃ o ∈ privateFolder.db.objects.rows,
    o.name = ['a', '/', 'x'] ∧
      evaluateAccess privateFolder.db privateFolder.out.now (member 1) sampleBucket
        (some o.name) (some o.id) .write = true := by
  obtain ⟨result, hrun⟩ := renamedBy_runs 1 ['a'] ['c'] privateFolder (by decide +kernel)
  have hrenamed : ∃ o ∈ privateFolder.db.objects.rows,
      ∃ o' ∈ (renamedBy 1 ['a'] ['c'] privateFolder).db.objects.rows,
      (o'.id = o.id ∧ o'.name ≠ o.name ∧ o.name = ['a', '/', 'x']) ∧
      sampleBucket.id = o.bucketId ∧
      topGrants privateFolder.db privateFolder.out.now (member 1) sampleBucket
          (some (stripSlash ['a'])) none =
        topGrants privateFolder.db privateFolder.out.now (member 1) sampleBucket (some o.name)
          (some o.id) := by
    decide +kernel
  obtain ⟨o, ho, o', ho', ⟨hid, hchanged, hname⟩, hbucket, htop⟩ := hrenamed
  exact ⟨o, ho, hname, evaluateAccess_of_renamePrefix hrun o o' ho ho' hid hchanged
    sampleBucket (by decide +kernel) hbucket (.of_eq htop)⟩

def privateFile : World :=
  play (sampleEnv false)
    [.companyBucket 1, .upload (sampleUpload ['b', '/', 'x'] [97] 1)] .initial

theorem privateFile_reachable : Reachable (sampleEnv false) privateFile :=
  Reachable.play .refl (by decide +kernel)

/-- Member 2 renames the folder although the file in it is closed to them. -/
theorem not_evaluateAccess_of_renamePrefix :
    ¬∀ (w w' : World) (fault : Option (Point × Nat)) (principal : StoragePrincipal)
      (bucketName source dest : Text) (result : RenameResult), Reachable (sampleEnv false) w →
      (renamePrefix (sampleEnv false) principal bucketName source dest).Runs
        (w.withFault fault) result w' →
      ∀ o ∈ w.db.objects.rows, ∀ o' ∈ w'.db.objects.rows, o'.id = o.id → o'.name ≠ o.name →
      ∀ bucket ∈ w'.db.buckets.rows, bucket.id = o.bucketId →
        evaluateAccess w.db w.out.now principal bucket (some o.name) (some o.id) .write =
          true := by
  intro h
  obtain ⟨result, hrun⟩ := renamedBy_runs 2 ['b'] ['c'] privateFile (by decide +kernel)
  have hrenamed : ∃ o ∈ privateFile.db.objects.rows,
      ∃ o' ∈ (renamedBy 2 ['b'] ['c'] privateFile).db.objects.rows,
      o'.id = o.id ∧ o'.name ≠ o.name ∧ sampleBucket.id = o.bucketId ∧
      evaluateAccess privateFile.db privateFile.out.now (member 2) sampleBucket (some o.name)
        (some o.id) .write = false := by
    decide +kernel
  obtain ⟨o, ho, o', ho', hid, hchanged, hbucket, hrefused⟩ := hrenamed
  have hallowed := h privateFile (renamedBy 2 ['b'] ['c'] privateFile) none (member 2)
    companyBucketName ['b'] ['c'] result privateFile_reachable hrun o ho o' ho' hid hchanged
    sampleBucket (by decide +kernel) hbucket
  rw [hrefused] at hallowed
  contradiction

/-! ## Moving and copying -/

inductive RelocationRequest where
  | rest (fromPath toPath : Text)
  | webdav (path destination : Text)

namespace RelocationRequest

def run (env : Env) (principal : StoragePrincipal) (copy : Bool) :
    RelocationRequest → Act StorageObject
  | rest fromPath toPath => objectRelocation env principal copy fromPath toPath
  | webdav path destination => moveOrCopy env principal copy path destination

def source (env : Env) : RelocationRequest → Text × Text
  | rest fromPath _ => partitionSlash fromPath
  | webdav path _ => parsePath env path

def destination (env : Env) : RelocationRequest → Option (Text × Text)
  | rest _ toPath => some (partitionSlash toPath)
  | webdav _ destination => (destinationDavPath env destination).map (parsePath env)

theorem runs_authorisedRelocation {r : RelocationRequest} {principal : StoragePrincipal}
    {copy : Bool} {s s' : World} {obj : StorageObject}
    (h : (r.run env principal copy).Runs s obj s') :
    ∃ dst, r.destination env = some dst ∧
      (authorisedRelocation env principal copy (r.source env).1 (r.source env).2 dst.1
        dst.2).Runs s obj s' := by
  cases r with
  | rest fromPath toPath =>
      simp only [run, objectRelocation, requireCompanyId, runs_bind, runs_ofOption,
        runs_ensure] at h
      obtain ⟨_, _, ⟨-, rfl⟩, _, _, ⟨-, rfl⟩, h⟩ := h
      exact ⟨_, rfl, h⟩
  | webdav path dest =>
      simp only [run, moveOrCopy, requireCompanyId, runs_bind, runs_ofOption,
        runs_ensure] at h
      obtain ⟨_, _, ⟨-, rfl⟩, tail, _, ⟨htail, rfl⟩, _, _, ⟨-, rfl⟩, h⟩ := h
      exact ⟨_, by simp [destination, htail], h⟩

end RelocationRequest

structure Transferred (copy : Bool) (srcBucket : Bucket) (srcPath : Text) (dstBucket : Bucket)
    (dstPath : Text) (src obj : StorageObject) (s s' : World) : Prop where
  found : src ∈ s.db.objects.rows ∧ src.bucketId = srcBucket.id
  sourceName : safeObjectPath srcPath = .ok src.name
  placed : obj ∈ s'.db.objects.rows ∧ obj.bucketId = dstBucket.id
  destName : safeObjectPath dstPath = .ok obj.name
  same : copy = false → obj.id = src.id

theorem copyObject_transferred {srcBucket dstBucket : Bucket} {srcPath dstPath : Text}
    {ownerId : Option Nat} {obj : StorageObject} {s s' : World}
    (h : (copyObject env srcBucket srcPath dstBucket dstPath ownerId).Runs s obj s') :
    s'.db.buckets = s.db.buckets ∧
      ∃ src, Transferred true srcBucket srcPath dstBucket dstPath src obj s s' := by
  obtain ⟨sourceName, destName, src, data, hsource, hdest, hsrc, -, -, hcreated, hbucket,
    hname, -⟩ := copyObject_created h
  obtain ⟨hmem, hsrcBucket, rfl⟩ := Database.objectNamed_eq_some hsrc
  subst hname
  refine ⟨hcreated.buckets, src, ⟨hmem, hsrcBucket⟩, hsource, ⟨?_, hbucket⟩, hdest, ?_⟩
  · simp [hcreated.objects]
  · intro hcopy
    contradiction

theorem moveObject_transferred {srcBucket dstBucket : Bucket} {srcPath dstPath : Text}
    {obj : StorageObject} {s s' : World}
    (h : (moveObject srcBucket srcPath dstBucket dstPath).Runs s obj s') :
    s'.db.buckets = s.db.buckets ∧
      ∃ src, Transferred false srcBucket srcPath dstBucket dstPath src obj s s' := by
  obtain ⟨sourceName, destName, src, hsource, hdest, hsrc, -, rfl, hrewrote, -⟩ :=
    moveObject_rewrote h
  obtain ⟨hmem, hsrcBucket, rfl⟩ := Database.objectNamed_eq_some hsrc
  refine ⟨hrewrote.buckets, src, ⟨hmem, hsrcBucket⟩, hsource, ⟨?_, rfl⟩, hdest,
    fun _ => rfl⟩
  rw [hrewrote.objects, List.mem_map]
  exact ⟨src, hmem, by simp [Database.changed, relocated]⟩

/--
In the buckets of that name, the grants heard about the string are those heard
about the object name it stands for.
-/
def SpelledAlike (w : World) (principal : StoragePrincipal) (place : Text × Text) : Prop :=
  ∀ b ∈ w.db.buckets.rows, principal.companyId = some b.companyId → b.name = place.1 →
    ∀ name, safeObjectPath place.2 = .ok name →
      HeardAlike w.db w.out.now principal b place.2 none name none

theorem mem_of_bucketNamed {db : Database} {companyId : Nat} {name : Text} {b : Bucket}
    (h : db.bucketNamed companyId name = some b) :
    b ∈ db.buckets.rows ∧ b.companyId = companyId ∧ b.name = name := by
  have hfound := List.find?_some h
  simp only [decide_eq_true_eq] at hfound
  exact ⟨List.mem_of_find?_eq_some h, hfound⟩

/--
Before the request the caller was permitted on the stored name of the source
and on the name the result ends up under.
-/
def PermittedByName (env : Env) (principal : StoragePrincipal) (copy : Bool)
    (r : RelocationRequest) (obj : StorageObject) (w w' : World) : Prop :=
  ∃ dst srcBucket dstBucket src, r.destination env = some dst ∧
    (srcBucket ∈ w'.db.buckets.rows ∧ srcBucket.name = (r.source env).1) ∧
    (dstBucket ∈ w'.db.buckets.rows ∧ dstBucket.name = dst.1) ∧
    Transferred copy srcBucket (r.source env).2 dstBucket dst.2 src obj w w' ∧
    evaluateAccess w.db w.out.now principal srcBucket (some src.name) none
      (if copy then .read else .write) = true ∧
    evaluateAccess w.db w.out.now principal dstBucket (some obj.name) none .write = true

/--
A move or a copy that succeeds was permitted on the stored names, as far as both
places are spelled alike.
-/
theorem permittedByName_of_relocation {w w' : World} {fault : Option (Point × Nat)}
    {principal : StoragePrincipal} {copy : Bool} {r : RelocationRequest} {obj : StorageObject}
    (h : (r.run env principal copy).Runs (w.withFault fault) obj w')
    (hsource : SpelledAlike w principal (r.source env))
    (hdest : ∀ dst, r.destination env = some dst → SpelledAlike w principal dst) :
    PermittedByName env principal copy r obj w w' := by
  obtain ⟨dst, hdst, hrun⟩ := RelocationRequest.runs_authorisedRelocation h
  obtain ⟨srcBucket, dstBucket, s₁, hresolved, hdstFound, hreadable, hwritable, hact⟩ :=
    authorisedRelocation_cases hrun
  obtain ⟨hsrcMem, -, hsrcName⟩ := mem_of_bucketNamed hresolved.found
  obtain ⟨hdstMem, hdstCompany, hdstName⟩ := mem_of_bucketNamed hdstFound
  have hobjects : s₁.db.objects = w.db.objects := hresolved.bucketsOnly.objects
  have htransferred : w'.db.buckets = s₁.db.buckets ∧ ∃ src,
      Transferred copy srcBucket (r.source env).2 dstBucket dst.2 src obj s₁ w' := by
    rcases hact with ⟨rfl, hcopy⟩ | ⟨rfl, hmove⟩
    · exact copyObject_transferred hcopy
    · exact moveObject_transferred hmove
  obtain ⟨hbuckets, src, hmoved⟩ := htransferred
  rw [hresolved.canAccessPath] at hreadable hwritable
  refine ⟨dst, srcBucket, dstBucket, src, hdst, ⟨hbuckets ▸ hsrcMem, hsrcName⟩,
    ⟨hbuckets ▸ hdstMem, hdstName⟩,
    ⟨hobjects ▸ hmoved.found, hmoved.sourceName, hmoved.placed, hmoved.destName, hmoved.same⟩,
    ?_, ?_⟩
  · refine HeardAlike.evaluateAccess (HeardAlike.of_provisioned hresolved.bucketsOnly hsrcMem
      fun b hb _ hcompany hname => ?_) hreadable
    exact hsource b hb (by rw [hcompany]; exact hresolved.company) (hname.trans hsrcName) _
      hmoved.sourceName
  · refine HeardAlike.evaluateAccess (HeardAlike.of_provisioned hresolved.bucketsOnly hdstMem
      fun b hb _ hcompany hname => ?_) hwritable
    exact hdest dst hdst b hb (by rw [hcompany, hdstCompany]; exact hresolved.company)
      (hname.trans hdstName) _ hmoved.destName

def relocatedBy (userId : Nat) (r : RelocationRequest) (w : World) : World :=
  (r.run (sampleEnv false) (member userId) false (w.withFault none)).2

theorem relocatedBy_runs (userId : Nat) (r : RelocationRequest) (w : World)
    (h : (r.run (sampleEnv false) (member userId) false
      (w.withFault none)).1.toOption.any (fun _ => true) = true) :
    ∃ obj, (r.run (sampleEnv false) (member userId) false).Runs (w.withFault none) obj
      (relocatedBy userId r w) := by
  obtain ⟨obj, hrun, -⟩ := runs_of_any h
  exact ⟨obj, hrun⟩

def moveToY (slashes : Text) : RelocationRequest :=
  .rest (companyBucketName ++ ['/', 'b'] ++ slashes ++ ['x']) (companyBucketName ++ ['/', 'y'])

theorem SpelledAlike.of_normalizePath {w : World} {principal : StoragePrincipal}
    {place : Text × Text} (name : Text) (hname : safeObjectPath place.2 = .ok name)
    (h : normalizePath place.2 = normalizePath name) : SpelledAlike w principal place := by
  intro b _ _ _ name' hname'
  cases hname.symm.trans hname'
  exact .of_normalizePath h none

theorem permittedByName_of_relocation_privateFile : ∃ obj,
    PermittedByName (sampleEnv false) (member 1) false (moveToY ['/']) obj privateFile
      (relocatedBy 1 (moveToY ['/']) privateFile) := by
  obtain ⟨obj, hrun⟩ := relocatedBy_runs 1 (moveToY ['/']) privateFile (by decide +kernel)
  refine ⟨obj, permittedByName_of_relocation hrun ?_ ?_⟩
  · exact .of_normalizePath ['b', '/', 'x'] rfl rfl
  · intro dst hdst
    cases hdst
    exact .of_normalizePath ['y'] rfl rfl

/-- Member 2 moves the same file away by doubling a slash in its name. -/
theorem not_permittedByName_of_relocation :
    ¬∀ (w w' : World) (fault : Option (Point × Nat)) (principal : StoragePrincipal)
      (copy : Bool) (r : RelocationRequest) (obj : StorageObject),
      Reachable (sampleEnv false) w →
      (r.run (sampleEnv false) principal copy).Runs (w.withFault fault) obj w' →
        PermittedByName (sampleEnv false) principal copy r obj w w' := by
  intro h
  obtain ⟨obj, hrun⟩ :=
    relocatedBy_runs 2 (moveToY ['/', '/']) privateFile (by decide +kernel)
  obtain ⟨dst, srcBucket, dstBucket, src, -, ⟨hbucket, -⟩, -, hmoved, hallowed, -⟩ :=
    h privateFile _ none (member 2) false (moveToY ['/', '/']) obj privateFile_reachable hrun
  have hrefused : ∀ o ∈ privateFile.db.objects.rows,
      ∀ b ∈ (relocatedBy 2 (moveToY ['/', '/']) privateFile).db.buckets.rows,
      evaluateAccess privateFile.db privateFile.out.now (member 2) b (some o.name) none
        .write = false := by
    decide +kernel
  simp [hrefused src hmoved.found.1 srcBucket hbucket] at hallowed

/-! ## Creating a grant -/

theorem resolveObject_congr {db db' : Database} (hobjects : db'.objects = db.objects)
    {bucket bucket' : Bucket} (hid : bucket'.id = bucket.id) (resourceId : Text) :
    resolveObject db' bucket' resourceId = resolveObject db bucket resourceId := by
  simp only [resolveObject, Database.objectNamed, hobjects, hid]

def grantedPath (resource : Resource UUID) (target : StorageObject) : Text :=
  match resource with
  | .folder _ => folderPathOf target
  | .bucket | .object _ => target.name

/--
The grants heard about the text that names the resource are those heard about
the object it resolves to, or about the folder and its marker.
-/
def NamedAlike (w : World) (principal : StoragePrincipal) (bucket : Bucket)
    (fields : GrantFields) : Prop :=
  match fields.resourceType with
  | .bucket => True
  | .object => ∀ o, resolveObject w.db bucket fields.resourceId = some o →
      HeardAlike w.db w.out.now principal bucket fields.resourceId none o.name (some o.id)
  | .folder =>
      HeardAlike w.db w.out.now principal bucket fields.resourceId none
        (folderPathFromPlaceholder (folderPlaceholderPath fields.resourceId))
        ((w.db.objectNamed bucket.id (folderPlaceholderPath fields.resourceId)).map
          StorageObject.id)

theorem NamedAlike.of_name {w : World} {principal : StoragePrincipal} {bucket : Bucket}
    {fields : GrantFields} (htype : fields.resourceType = .object)
    (hid : uuidOfText fields.resourceId = none) (hname : normalizePath fields.resourceId ≠ []) :
    NamedAlike w principal bucket fields := by
  simp only [NamedAlike, htype]
  intro o ho
  have hnamed : w.db.objectNamed bucket.id fields.resourceId = some o := by
    simpa [resolveObject, hid] using ho
  obtain ⟨hmem, -, heq⟩ := Database.objectNamed_eq_some hnamed
  rw [← heq] at hname ⊢
  exact .of_name hmem hname

theorem NamedAlike.of_provisioned {principal : StoragePrincipal} {bucket : Bucket}
    {fields : GrantFields} {w w₁ : World} (hkept : BucketsOnly w w₁)
    (hbucket : bucket ∈ w₁.db.buckets.rows)
    (h : ∀ b ∈ w.db.buckets.rows, b.companyId = bucket.companyId → b.name = bucket.name →
      NamedAlike w principal b fields) : NamedAlike w₁ principal bucket fields := by
  cases htype : fields.resourceType with
  | bucket => simp [NamedAlike, htype]
  | object =>
      simp only [NamedAlike, htype] at h ⊢
      intro o ho
      refine (BucketsOnly.heardAlike hkept).mpr (HeardAlike.of_provisioned hkept hbucket ?_)
      intro b hb hid hcompany hname
      apply h b hb hcompany hname
      rw [← ho]
      exact resolveObject_congr hkept.objects.symm hid _
  | folder =>
      simp only [NamedAlike, htype] at h ⊢
      refine (BucketsOnly.heardAlike hkept).mpr (HeardAlike.of_provisioned hkept hbucket ?_)
      intro b hb hid hcompany hname
      have hmarker := h b hb hcompany hname
      simpa only [Database.objectNamed, hkept.objects, hid] using hmarker

theorem required_eq (fields : GrantFields) :
    fields.required =
      if fields.effect = .deny ∨ fields.permission = .admin then .admin else .write := by
  by_cases h : fields.effect = .deny ∨ fields.permission = .admin <;>
    simp [GrantFields.required, GrantFields.needAdmin, requiredPermission, h]

/-- What `grantTarget` finds or makes is treated like the text that named it. -/
theorem grantTarget_heardAlike {principal : StoragePrincipal} {bucket : Bucket}
    {fields : GrantFields} {s s' : World} {resource : Resource UUID}
    (h : (grantTarget env principal bucket fields.resourceType fields.resourceId).Runs s
      resource s') (halike : NamedAlike s principal bucket fields) {target : StorageObject}
    (htarget : target ∈ s'.db.objects.rows) (hresource : resource.object? = some target.id) :
    fields.resourceType ≠ .bucket ∧ s'.db.buckets = s.db.buckets ∧
      HeardAlike s.db s.out.now principal bucket fields.resourceId none
        (grantedPath resource target) (some target.id) := by
  cases htype : fields.resourceType with
  | bucket =>
      simp only [grantTarget, htype, runs_pure] at h
      obtain ⟨rfl, rfl⟩ := h
      simp [Resource.object?] at hresource
  | object =>
      simp only [grantTarget, htype, runs_bind, runs_database, runs_ofOption, runs_pure] at h
      obtain ⟨db, _, ⟨rfl, rfl⟩, o, _, ⟨hresolve, rfl⟩, rfl, rfl⟩ := h
      simp only [NamedAlike, htype] at halike
      have hid : o.id = target.id := by simpa [Resource.object?] using hresource
      obtain rfl : o = target :=
        Database.object_eq_of_id (resolveObject_eq_some hresolve).1 htarget hid
      exact ⟨by simp, rfl, halike o hresolve⟩
  | folder =>
      simp only [grantTarget, htype, runs_bind, runs_pure] at h
      obtain ⟨marker, s₁, hmarker, rfl, rfl⟩ := h
      simp only [NamedAlike, htype] at halike
      have hid : marker.id = target.id := by simpa [Resource.object?] using hresource
      rcases ensureFolderMarker_cases hmarker with
        ⟨hfound, rfl⟩ | ⟨hnone, hcreated, -, -, -, hname, -⟩
      · obtain ⟨hmem, -, hname⟩ := Database.objectNamed_eq_some hfound
        obtain rfl : marker = target := Database.object_eq_of_id hmem htarget hid
        refine ⟨by simp, rfl, ?_⟩
        rw [hfound] at halike
        rw [grantedPath, folderPathOf, hname]
        exact halike
      · have hmem : marker ∈ s'.db.objects.rows := by simp [hcreated.objects]
        obtain rfl : marker = target := Database.object_eq_of_id hmem htarget hid
        refine ⟨by simp, hcreated.buckets, ?_⟩
        rw [hnone] at halike
        rw [grantedPath, folderPathOf, hname]
        refine halike.trans (HeardAlike.of_fresh_id _ fun o ho hclash => ?_)
        exact hcreated.free o ho (.inl hclash)

/--
Whoever is granted on an object may manage that object, as far as the text
naming the resource is treated like the object itself.
-/
theorem evaluateAccess_of_createGrant {w w' : World} {fault : Option (Point × Nat)}
    {principal : StoragePrincipal} {data : GrantRequest} {g : GrantRow}
    (h : (createGrant env principal data).Runs (w.withFault fault) g w')
    (hadmin : isCompanyAdmin principal = false) (target : StorageObject)
    (htarget : target ∈ w'.db.objects.rows) (hresource : g.resource.object? = some target.id)
    (bucket : Bucket) (hbucket : bucket ∈ w'.db.buckets.rows) (hid : bucket.id = g.bucketId)
    (halike : ∀ fields, readGrantRequest env data = .ok fields →
      ∀ b ∈ w.db.buckets.rows, principal.companyId = some b.companyId →
        b.name = fields.bucketName → NamedAlike w principal b fields) :
    evaluateAccess w.db w.out.now principal bucket (some (grantedPath g.resource target))
      (some target.id) (if g.effect = .deny ∨ g.permission = .admin then .admin else .write) =
      true := by
  obtain ⟨fields, b, s₁, s₂, resource, hfields, hresolved, hmanage, hrun, ⟨id, now, rfl⟩,
    hadded⟩ := createGrant_cases h
  obtain ⟨hb, -, hbname⟩ := mem_of_bucketNamed hresolved.found
  have hmayManage : MayManage s₁.db s₁.out.now principal b fields := by
    simpa [hadmin] using hmanage
  rw [hadded.objects] at htarget
  have hnamed : NamedAlike s₁ principal b fields :=
    NamedAlike.of_provisioned hresolved.bucketsOnly hb fun c hc hcompany hname =>
      halike fields hfields c hc (by rw [hcompany]; exact hresolved.company)
        (hname.trans hbname)
  obtain ⟨htype, hbuckets, hheard⟩ := grantTarget_heardAlike hrun hnamed htarget hresource
  obtain rfl : bucket = b := by
    rw [hadded.buckets, hbuckets] at hbucket
    exact Database.bucket_eq_of_id hbucket hb hid
  rw [MayManage, if_neg htype] at hmayManage
  have hpermitted := hheard.evaluateAccess hmayManage
  rw [hresolved.bucketsOnly.evaluateAccess, required_eq] at hpermitted
  exact hpermitted

def grantedBy (userId : Nat) (data : GrantRequest) (w : World) : World :=
  (createGrant (sampleEnv false) (member userId) data (w.withFault none)).2

theorem grantedBy_runs (userId : Nat) (data : GrantRequest) (w : World)
    {p : GrantRow → Bool}
    (h : (createGrant (sampleEnv false) (member userId) data
      (w.withFault none)).1.toOption.any p = true) :
    ∃ g, (createGrant (sampleEnv false) (member userId) data).Runs (w.withFault none) g
      (grantedBy userId data w) ∧ p g = true := by
  obtain ⟨g, hrun, hg⟩ := runs_of_any h
  exact ⟨g, hrun, hg⟩

def privateFileId : UUID := (sampleEnv false).uuid4 1

def shareObject (resourceId : Text) : GrantRequest :=
  allowRequest ['o', 'b', 'j', 'e', 'c', 't'] resourceId ['w', 'r', 'i', 't', 'e']

def onPrivateFile (g : GrantRow) : Bool :=
  decide (g.resource = .object privateFileId ∧ g.bucketId = sampleBucket.id ∧
    g.effect = .allow ∧ g.permission = .write)

theorem evaluateAccess_of_createGrant_privateFile : ∃ target ∈ privateFile.db.objects.rows,
    target.id = privateFileId ∧
      evaluateAccess privateFile.db privateFile.out.now (member 1) sampleBucket
        (some target.name) (some target.id) .write = true := by
  obtain ⟨g, hrun, hg⟩ := grantedBy_runs 1 (shareObject ['b', '/', 'x']) privateFile
    (p := onPrivateFile) (by decide +kernel)
  simp only [onPrivateFile, decide_eq_true_eq] at hg
  obtain ⟨hresource, hbucketId, heffect, hpermission⟩ := hg
  have hfile : ∃ target ∈ privateFile.db.objects.rows, target.id = privateFileId ∧
      target ∈ (grantedBy 1 (shareObject ['b', '/', 'x']) privateFile).db.objects.rows := by
    decide +kernel
  obtain ⟨target, htarget, hid, htarget'⟩ := hfile
  have hobject : g.resource.object? = some target.id := by
    simp [hresource, hid, Resource.object?]
  have halike : ∀ fields,
      readGrantRequest (sampleEnv false) (shareObject ['b', '/', 'x']) = .ok fields →
      ∀ b ∈ privateFile.db.buckets.rows, (member 1).companyId = some b.companyId →
        b.name = fields.bucketName → NamedAlike privateFile (member 1) b fields := by
    intro fields hfields b _ _ _
    have hread : (readGrantRequest (sampleEnv false)
        (shareObject ['b', '/', 'x'])).toOption.all (fun fields =>
          decide (fields.resourceType = .object ∧ fields.resourceId = ['b', '/', 'x'])) =
        true := by
      decide +kernel
    rw [hfields] at hread
    obtain ⟨htype, hresourceId⟩ : fields.resourceType = .object ∧
        fields.resourceId = ['b', '/', 'x'] := by
      simpa [Except.toOption] using hread
    apply NamedAlike.of_name htype <;> rw [hresourceId] <;> decide +kernel
  have hallowed := evaluateAccess_of_createGrant hrun rfl target htarget' hobject sampleBucket
    (by decide +kernel) hbucketId.symm halike
  simp only [grantedPath, hresource, heffect, hpermission] at hallowed
  exact ⟨target, htarget, hid, hallowed⟩

/-- Member 2, to whom the file is closed, shares it by its UUID. -/
theorem not_evaluateAccess_of_createGrant :
    ¬∀ (w w' : World) (fault : Option (Point × Nat)) (principal : StoragePrincipal)
      (data : GrantRequest) (g : GrantRow), Reachable (sampleEnv false) w →
      (createGrant (sampleEnv false) principal data).Runs (w.withFault fault) g w' →
      isCompanyAdmin principal = false →
      ∀ target ∈ w'.db.objects.rows, g.resource.object? = some target.id →
      ∀ bucket ∈ w'.db.buckets.rows, bucket.id = g.bucketId →
        evaluateAccess w.db w.out.now principal bucket (some (grantedPath g.resource target))
          (some target.id)
          (if g.effect = .deny ∨ g.permission = .admin then .admin else .write) = true := by
  intro h
  obtain ⟨g, hrun, hg⟩ := grantedBy_runs 2 (shareObject (uuidText privateFileId)) privateFile
    (p := onPrivateFile) (by decide +kernel)
  simp only [onPrivateFile, decide_eq_true_eq] at hg
  obtain ⟨hresource, hbucketId, heffect, hpermission⟩ := hg
  have hfile : ∃ target ∈
      (grantedBy 2 (shareObject (uuidText privateFileId)) privateFile).db.objects.rows,
      target.id = privateFileId ∧
        evaluateAccess privateFile.db privateFile.out.now (member 2) sampleBucket
          (some target.name) (some target.id) .write = false := by
    decide +kernel
  obtain ⟨target, htarget, hid, hrefused⟩ := hfile
  have hobject : g.resource.object? = some target.id := by
    simp [hresource, hid, Resource.object?]
  have hallowed := h privateFile
    (grantedBy 2 (shareObject (uuidText privateFileId)) privateFile) none (member 2)
    (shareObject (uuidText privateFileId)) g privateFile_reachable hrun rfl target htarget
    hobject sampleBucket (by decide +kernel) hbucketId.symm
  simp only [grantedPath, hresource, heffect, hpermission, reduceCtorEq, or_self, if_false,
    hrefused] at hallowed

end StorageService.Results
