import StorageService.Results.Coverage
import StorageService.Storage.Changes

/-!
# Stored names and how they are reached

Names enter through `safeObjectPath`, save those of folder markers.  As long as
these are canonical too, every object is found again under its stored name and
under the path its id resolves to.
-/

namespace StorageService.Results

open StorageService.Foundation
open StorageService.Foundation.Action
open StorageService.Storage

variable {env : Env} {w s s' : World}

/-! ## Canonical names stay canonical -/

def MarksCanonical (env : Env) (_ : Database) (op : Operation) : Prop :=
  ∀ bucket folderPath, Marks env op bucket folderPath →
    Canonical (folderPlaceholderPath folderPath)

structure Addressable (env : Env) (w : World) : Prop where
  canonical : ∀ o ∈ w.db.objects.rows, Canonical o.name
  minted : ∀ b ∈ w.db.buckets.rows, ∃ n < w.out.drawn, b.id = env.uuid4 n

theorem addressable_initial (env : Env) : Addressable env (.initial env.engine) where
  canonical := by simp [World.initial, Database.empty]
  minted := by simp [World.initial, Database.empty]

def BucketsMinted (env : Env) (w : World) : Prop :=
  ∀ b ∈ w.db.buckets.rows, ∃ n < w.out.drawn, b.id = env.uuid4 n

theorem BucketsMinted.of_buckets (h : BucketsMinted env s)
    (hbuckets : s'.db.buckets = s.db.buckets) (hdrawn : s.out.drawn ≤ s'.out.drawn) :
    BucketsMinted env s' := by
  rw [BucketsMinted, hbuckets]
  intro b hb
  obtain ⟨n, hn, hid⟩ := h b hb
  exact ⟨n, hn.trans_le hdrawn, hid⟩

theorem BucketsMinted.change {op : Operation} (hs : BucketsMinted env s)
    (h : Change env w op s s') (hdrawn : s.out.drawn ≤ s'.out.drawn) : BucketsMinted env s' := by
  cases h with
  | kept h => exact hs.of_buckets h.buckets hdrawn
  | provisioned h =>
      intro b' hb'
      rcases h.origin b' hb' with ⟨b, hb, hid, -⟩ | ⟨n, hn, hid, -⟩
      · obtain ⟨n, hn, hbid⟩ := hs b hb
        exact ⟨n, hn.trans_le hdrawn, hid.trans hbid⟩
      · exact ⟨n, hn, hid⟩
  | bucketAdded drawn buckets _ _ =>
      rw [BucketsMinted, buckets]
      intro b hb
      rcases List.mem_append.mp hb with hb | hb
      · obtain ⟨n, hn, hid⟩ := hs b hb
        exact ⟨n, hn.trans_le hdrawn, hid⟩
      · rw [List.mem_singleton.mp hb]
        exact ⟨_, drawn.2, drawn.1⟩
  | created _ _ _ buckets => exact hs.of_buckets buckets hdrawn
  | marked _ _ _ buckets => exact hs.of_buckets buckets hdrawn
  | overwrote _ _ buckets => exact hs.of_buckets buckets hdrawn
  | removed h => exact hs.of_buckets h.buckets hdrawn
  | renamed _ _ _ h => exact hs.of_buckets h.buckets hdrawn
  | moved _ _ _ _ h => exact hs.of_buckets h.buckets hdrawn
  | granted _ _ _ _ _ h => exact hs.of_buckets h.buckets hdrawn
  | ungranted buckets => exact hs.of_buckets buckets hdrawn

theorem canonical_renamedPath {src dst name : Text} (hname : Canonical name)
    ( hprefix : src ++ ['/'] <+: name) (hdst : Canonical dst) :
    Canonical (renamedPath src dst name) := by
  obtain ⟨rest, rfl⟩ := hprefix
  have hsplit : src ++ ['/'] ++ rest = src ++ '/' :: rest := by simp
  rw [hsplit] at hname ⊢
  rw [renamedPath, List.drop_left]
  exact Canonical.append_iff.mpr ⟨hdst, (Canonical.append_iff.mp hname).2⟩

theorem Addressable.change {op : Operation} (hs : Addressable env s)
    (h : Change env w op s s') (hdrawn : s.out.drawn ≤ s'.out.drawn)
    (ok : MarksCanonical env w.db op) : Addressable env s' := by
  refine ⟨?_, BucketsMinted.change hs.minted h hdrawn⟩
  -- only new, renamed and moved objects have other names than before
  cases h with
  | kept h =>
      rw [h.objects]
      exact hs.canonical
  | provisioned h =>
      rw [h.objects]
      exact hs.canonical
  | bucketAdded _ _ objects _ =>
      rw [objects]
      exact hs.canonical
  | @created _ bucket ownerId obj _ _ asked _ _ _ objects _ _ =>
      rw [objects, List.forall_mem_append, List.forall_mem_singleton]
      exact ⟨hs.canonical, asked.canonical⟩
  | @marked _ bucket folderPath obj _ _ asked name _ _ objects _ =>
      rw [objects, List.forall_mem_append, List.forall_mem_singleton, name]
      exact ⟨hs.canonical, ok _ _ asked⟩
  | @overwrote u existing obj _ found same _ objects _ =>
      rw [objects, List.forall_mem_map]
      intro o ho
      by_cases hid : o.id = existing.id
      · simp only [Database.changed, hid, if_true, same.2.2.1]
        exact hs.canonical existing found
      · rw [Database.changed_of_ne hid]
        exact hs.canonical o ho
  | removed h => exact fun o ho => hs.canonical o ((h.objects o).mp ho).1
  | @renamed bucket source dest src dst _ sourceNamed named _ h _ =>
      rw [h.objects, List.forall_mem_map]
      intro o ho
      unfold renamedRow
      split
      · rename_i hinside
        refine canonical_renamedPath (hs.canonical o ho) hinside.2 ?_
        have hdst := canonical_of_safeObjectPath named
        rwa [hdst.stripSlash_eq]
      · exact hs.canonical o ho
  | @moved bucket destBucket source dest sourceName name obj _ _ named _ _ h _ =>
      rw [h.objects, List.forall_mem_map]
      intro o ho
      by_cases hid : o.id = obj.id
      · simp only [Database.changed, hid, if_true, relocated]
        exact canonical_of_safeObjectPath named
      · rw [Database.changed_of_ne hid]
        exact hs.canonical o ho
  | granted _ _ _ same _ h =>
      rw [h.objects]
      exact hs.canonical
  | ungranted buckets objects _ =>
      rw [objects]
      exact hs.canonical

theorem addressable_of_guardedRun (henv : env.Lawful) {w' : World} (hw : Addressable env w)
    (h : GuardedRun env (MarksCanonical env) w w') : Addressable env w' := by
  refine h.invariant henv ?_ ?_ hw
  · intro w w' hdb hdrawn h
    refine ⟨?_, BucketsMinted.of_buckets h.minted (congrArg _ hdb) hdrawn.ge⟩
    rw [hdb]
    exact h.canonical
  · intro w s s' op _ ok _ hs hchange hdrawn
    exact hs.change hchange hdrawn ok

/-! ## Finding an object again -/

theorem evaluateAccess_read_congr {db : Database} {now : Time} {principal : StoragePrincipal}
    {b b' : Bucket} (hid : b'.id = b.id) (hcompany : b'.companyId = b.companyId)
    (path : Option Text) (objectId : Option UUID) :
    evaluateAccess db now principal b' path objectId .read =
      evaluateAccess db now principal b path objectId .read := by
  have hmatching : matchingGrants db now principal b' path objectId =
      matchingGrants db now principal b path objectId := by
    simp only [matchingGrants, resourceMatchesGrant, hid]
  by_cases hprincipal : principal.companyId = some b.companyId
  · have hdefault : ∀ c : Bucket, c.companyId = b.companyId →
        kindDefaultAllows principal c .read = true := by
      intro c hc
      cases hkind : c.kind <;> simp [kindDefaultAllows, hprincipal, hc, hkind]
    rw [evaluateAccess_eq_ruling _ _ _ _ _ (hprincipal.trans (congrArg some hcompany.symm)),
      evaluateAccess_eq_ruling _ _ _ _ _ hprincipal, hmatching, hdefault b' hcompany,
      hdefault b rfl]
  · simp [evaluateAccess, hprincipal, hcompany]

theorem ensureCompanyBucket_runs (henv : env.Lawful)
    (hminted : ∀ b ∈ s.db.buckets.rows, ∃ n < s.out.drawn, b.id = env.uuid4 n)
    (hfault : s.out.fault = none) (companyId : Nat) :
    ∃ b s', (ensureCompanyBucket env companyId).Runs s b s' := by
  cases hfound : s.db.bucketNamed companyId companyBucketName with
  | none =>
      have hfree : s.db.buckets.Free
          (newCompanyBucket companyId (env.uuid4 s.out.drawn)) := by
        intro a ha hclash
        rcases hclash with hid | ⟨hcompany, hname⟩
        · obtain ⟨n, hn, hn'⟩ := hminted a ha
          exact absurd (henv.uuid4_injective (hn'.symm.trans hid)) hn.ne
        · have hnone := List.find?_eq_none.mp hfound a ha
          simp only [decide_eq_true_eq] at hnone
          exact hnone ⟨hcompany, hname⟩
      have hcreate : ∃ db, s.db.createBucket
          (newCompanyBucket companyId (env.uuid4 s.out.drawn)) = some db := by
        simp [Database.createBucket, hfree]
      obtain ⟨db, hdb⟩ := hcreate
      refine ⟨newCompanyBucket companyId (env.uuid4 s.out.drawn),
        ⟨db, { s.out with drawn := s.out.drawn + 1 }⟩, ?_⟩
      simp [ensureCompanyBucket, hfound, reach, visit_of_fault_none, hfault, hdb]
  | some b =>
      by_cases hwrong : b.kind ≠ .company ∨ b.isPublic
      · refine ⟨{ b with kind := .company, isPublic := false, ownerId := none },
          { s with db := s.db.setCompanyBucket b.id }, ?_⟩
        simp only [ensureCompanyBucket, runs_bind, runs_database]
        refine ⟨s.db, s, ⟨rfl, rfl⟩, ?_⟩
        simp only [hfound, if_pos hwrong]
        simp [visit_of_fault_none, hfault]
      · refine ⟨b, s, ?_⟩
        simp only [ensureCompanyBucket, runs_bind, runs_database]
        refine ⟨s.db, s, ⟨rfl, rfl⟩, ?_⟩
        simp only [hfound, if_neg hwrong, runs_pure, and_self]

theorem getAccessibleBucket_eq_provisioned {principal : StoragePrincipal} {b b' : Bucket}
    {required : Permission} (hb : b ∈ s.db.buckets.rows)
    (hcompany : principal.companyId = some b.companyId)
    (h : (getAccessibleBucket env principal b.name required).Runs s b' s') :
    b' = provisioned b := by
  simp only [getAccessibleBucket, requireCompanyId, hcompany, runs_bind, runs_ofOption,
    runs_database, runs_assertCanAccessBucket, runs_pure, Option.some.injEq] at h
  obtain ⟨_, _, ⟨rfl, rfl⟩, _, s₁, hensure, _, _, ⟨rfl, rfl⟩, found, _, ⟨hfound, rfl⟩, _, _,
    ⟨-, rfl⟩, rfl, rfl⟩ := h
  have hmem := ensureCompanyBucket_mem hensure hb rfl
  have hsame := bucketNamed_eq_some.mpr
    ⟨hmem, provisioned_companyId b, provisioned_name b⟩
  exact Option.some.inj (hfound.symm.trans hsame)

/-- Without faults a bucket is resolved exactly where the check on it passes. -/
theorem getAccessibleBucket_runs_iff (henv : env.Lawful) (hminted : BucketsMinted env s)
    (hfault : s.out.fault = none) {b : Bucket} (hb : b ∈ s.db.buckets.rows)
    {principal : StoragePrincipal} (hcompany : principal.companyId = some b.companyId)
    (required : Permission) :
    (∃ s', (getAccessibleBucket env principal b.name required).Runs s (provisioned b) s') ↔
      canAccessBucket s.db s.out.now principal (provisioned b) required = true := by
  constructor
  · rintro ⟨s', h⟩
    have hresolved := getAccessibleBucket_resolved h
    have hallowed := hresolved.allowed
    rwa [canAccessBucket, hresolved.bucketsOnly.evaluateAccess] at hallowed
  · intro hallowed
    obtain ⟨c, s', hensure⟩ := ensureCompanyBucket_runs henv hminted hfault b.companyId
    have hkept := (ensureCompanyBucket_bucketsOnly env b.companyId).runs hensure
    have hfound := bucketNamed_eq_some.mpr ⟨ensureCompanyBucket_mem hensure hb rfl,
      provisioned_companyId b, provisioned_name b⟩
    have hallowed' : canAccessBucket s'.db s'.out.now principal (provisioned b) required =
        true := by
      rwa [canAccessBucket, hkept.evaluateAccess]
    refine ⟨s', ?_⟩
    simp only [getAccessibleBucket, requireCompanyId, hcompany, runs_bind, runs_ofOption,
      runs_database, runs_assertCanAccessBucket, runs_pure]
    exact ⟨_, s, ⟨rfl, rfl⟩, c, s', hensure, _, s', ⟨rfl, rfl⟩, _, s', ⟨hfound, rfl⟩, (), s',
      ⟨hallowed', rfl⟩, rfl, rfl⟩

theorem getAccessibleBucket_runs (henv : env.Lawful) (h : Addressable env s)
    (hfault : s.out.fault = none) {b : Bucket} (hb : b ∈ s.db.buckets.rows)
    {principal : StoragePrincipal}
    (hallowed : canAccessBucket s.db s.out.now principal b .read = true) :
    ∃ b' s', (getAccessibleBucket env principal b.name .read).Runs s b' s' ∧
      BucketsOnly s s' ∧ b'.id = b.id ∧ b'.companyId = b.companyId := by
  have hcompany : principal.companyId = some b.companyId := by
    by_contra hne
    simp [canAccessBucket, evaluateAccess, hne] at hallowed
  have hallowed' : canAccessBucket s.db s.out.now principal (provisioned b) .read = true := by
    rwa [canAccessBucket, evaluateAccess_read_congr (provisioned_id b) (provisioned_companyId b)]
  obtain ⟨s', hrun⟩ :=
    (getAccessibleBucket_runs_iff henv h.minted hfault hb hcompany .read).mpr hallowed'
  exact ⟨provisioned b, s', hrun, (getAccessibleBucket_resolved hrun).bucketsOnly,
    provisioned_id b, provisioned_companyId b⟩

theorem getAccessibleObject_runs_iff (henv : env.Lawful) (hminted : BucketsMinted env s)
    (hfault : s.out.fault = none) {o : StorageObject} (ho : o ∈ s.db.objects.rows)
    (hname : Canonical o.name) {b : Bucket} (hb : b ∈ s.db.buckets.rows)
    (hid : b.id = o.bucketId) {principal : StoragePrincipal}
    (hcompany : principal.companyId = some b.companyId) (required : Permission) :
    (∃ r s', (getAccessibleObject env principal b.name o.name required).Runs s r s') ↔
      canAccessBucket s.db s.out.now principal (provisioned b) required = true ∧
        canAccessPath s.db s.out.now principal (provisioned b) o.name (some o.id) required =
          true := by
  have hfound : ∀ {s' : World}, BucketsOnly s s' →
      s'.db.objectNamed (provisioned b).id o.name = some o := by
    intro s' hkept
    rw [provisioned_id, hid, Database.objectNamed, hkept.objects]
    exact Database.objectNamed_of_mem ho
  rw [← getAccessibleBucket_runs_iff henv hminted hfault hb hcompany required]
  simp only [getAccessibleObject, runs_bind, runs_ofExcept, runs_database, runs_ofOption,
    runs_assertCanAccessPath, runs_pure]
  constructor
  · rintro ⟨_, _, b', s₁, hrun, name, _, ⟨hsafe, rfl⟩, _, _, ⟨rfl, rfl⟩, o', _,
      ⟨hobject, rfl⟩, _, _, ⟨hallowed, rfl⟩, rfl, rfl⟩
    obtain rfl := getAccessibleBucket_eq_provisioned hb hcompany hrun
    have hresolved := getAccessibleBucket_resolved hrun
    obtain rfl : o.name = name := Except.ok.inj (hname.symm.trans hsafe)
    obtain rfl : o = o' := Option.some.inj ((hfound hresolved.bucketsOnly).symm.trans hobject)
    exact ⟨⟨_, hrun⟩, (hresolved.canAccessPath _ _ _ _).symm.trans hallowed⟩
  · rintro ⟨⟨s', hrun⟩, hallowed⟩
    have hresolved := getAccessibleBucket_resolved hrun
    exact ⟨_, _, _, s', hrun, o.name, s', ⟨hname, rfl⟩, _, s', ⟨rfl, rfl⟩, o, s',
      ⟨hfound hresolved.bucketsOnly, rfl⟩, (), s',
      ⟨(hresolved.canAccessPath _ _ _ _).trans hallowed, rfl⟩, rfl, rfl⟩

theorem getAccessibleObject_eq {o : StorageObject} (ho : o ∈ s.db.objects.rows)
    (hname : Canonical o.name) {b : Bucket} (hb : b ∈ s.db.buckets.rows)
    (hid : b.id = o.bucketId) {principal : StoragePrincipal}
    (hcompany : principal.companyId = some b.companyId) {required : Permission}
    {r : Bucket × StorageObject}
    (h : (getAccessibleObject env principal b.name o.name required).Runs s r s') :
    r = (provisioned b, o) := by
  simp only [getAccessibleObject, runs_bind, runs_ofExcept, runs_database, runs_ofOption,
    runs_assertCanAccessPath, runs_pure] at h
  obtain ⟨b', s₁, hrun, name, _, ⟨hsafe, rfl⟩, _, _, ⟨rfl, rfl⟩, o', _, ⟨hobject, rfl⟩, _, _,
    ⟨-, rfl⟩, rfl, rfl⟩ := h
  obtain rfl := getAccessibleBucket_eq_provisioned hb hcompany hrun
  have hkept := (getAccessibleBucket_resolved hrun).bucketsOnly
  obtain rfl : o.name = name := Except.ok.inj (hname.symm.trans hsafe)
  rw [provisioned_id, hid, Database.objectNamed, hkept.objects] at hobject
  exact congrArg _ (Option.some.inj (hobject.symm.trans (Database.objectNamed_of_mem ho)))

theorem getAccessibleObject_runs (henv : env.Lawful) (h : Addressable env s)
    (hfault : s.out.fault = none) {o : StorageObject} (ho : o ∈ s.db.objects.rows) {b : Bucket}
    (hb : b ∈ s.db.buckets.rows) (hid : b.id = o.bucketId) {principal : StoragePrincipal}
    (hbucket : canAccessBucket s.db s.out.now principal b .read = true)
    (hpath : canAccessPath s.db s.out.now principal b o.name (some o.id) .read = true) :
    ∃ b' s', (getAccessibleObject env principal b.name o.name .read).Runs s (b', o) s' := by
  have hcompany : principal.companyId = some b.companyId := by
    by_contra hne
    simp [canAccessBucket, evaluateAccess, hne] at hbucket
  have hread (path : Option Text) (objectId : Option UUID) :
      evaluateAccess s.db s.out.now principal (provisioned b) path objectId .read =
        evaluateAccess s.db s.out.now principal b path objectId .read :=
    evaluateAccess_read_congr (provisioned_id b) (provisioned_companyId b) path objectId
  obtain ⟨r, s', hrun⟩ := (getAccessibleObject_runs_iff henv h.minted hfault ho
    (h.canonical o ho) hb hid hcompany .read).mpr
      ⟨(hread _ _).trans hbucket, (hread _ _).trans hpath⟩
  rw [getAccessibleObject_eq ho (h.canonical o ho) hb hid hcompany hrun] at hrun
  exact ⟨provisioned b, s', hrun⟩

/-! ## Listing a folder -/

theorem mem_sortByKey {α : Type} {key : α → Text} {descending : Bool} {l : List α} {a : α} :
    a ∈ sortByKey key descending l ↔ a ∈ l := by
  unfold sortByKey
  split <;> simp

theorem slice_all {α : Type} {l : List α} {limit : Int} (h : (l.length : Int) ≤ limit) :
    slice 0 (0 + limit) l = l := by
  have hstart : sliceIndex l.length 0 = 0 := by simp [sliceIndex]
  have hstop : sliceIndex l.length (0 + limit) = l.length := by
    have hnonneg : ¬0 + limit < 0 := by omega
    rw [sliceIndex, if_neg hnonneg]
    omega
  rw [slice, hstart, hstop]
  simp

theorem marker_of_placeholder {o : StorageObject} (hname : Canonical o.name) (bucket : Bucket)
    (h : (resolvedItem bucket o).type = .folder) :
    o.name = prefixFilter (resolvedItem bucket o).path ++ folderPlaceholderName := by
  by_cases hplaceholder : isPlaceholder o.name = true
  · simp only [resolvedItem, hplaceholder, if_true]
    split
    · rename_i hroot
      rw [hroot]
      rfl
    · rename_i hne
      obtain ⟨folder, hfolder⟩ := (by simpa [isPlaceholder] using hplaceholder :
        o.name = folderPlaceholderName ∨ placeholderSuffix <:+ o.name).resolve_left hne
      rw [← hfolder] at hname ⊢
      have htake : (folder ++ placeholderSuffix).take ((folder ++ placeholderSuffix).length -
          (folderPlaceholderName.length + 1)) = folder := by
        simp [placeholderSuffix]
      rw [htake, prefixFilter_eq (Canonical.append_iff.mp hname).1]
      simp [placeholderSuffix]
  · simp [resolvedItem, hplaceholder] at h

theorem mem_fileEntries (bucket : Bucket) {pre : Text} (grants : List Grant)
    {objs : List StorageObject} {o : StorageObject} (ho : o ∈ objs)
    (hname : o.name = pre ++ folderPlaceholderName) :
    ∃ access, ListEntry.file o access ∈ fileEntries bucket pre grants objs := by
  refine ⟨_, List.mem_map.mpr ⟨o, List.mem_filter.mpr ⟨ho, ?_⟩, rfl⟩⟩
  rw [hname, List.drop_left]
  decide

theorem objectList_runs (henv : env.Lawful) (h : Addressable env s)
    (hfault : s.out.fault = none) {o : StorageObject} (ho : o ∈ s.db.objects.rows) {b : Bucket}
    (hb : b ∈ s.db.buckets.rows) (hid : b.id = o.bucketId) {principal : StoragePrincipal}
    (hbucket : canAccessBucket s.db s.out.now principal b .read = true)
    (hpath : canAccessPath s.db s.out.now principal b o.name (some o.id) .read = true)
    (display : Display) {request : ListRequest}
    (hname : o.name = prefixFilter request.pre ++ folderPlaceholderName)
    (hsearch : request.search = []) (hoffset : request.offset = 0) :
    ∃ total : Nat, ∀ limit : Int, total ≤ limit → ∃ entries s',
      (objectList env display principal b.name { request with limit := limit }).Runs s
        entries s' ∧ ∃ access, ListEntry.file o access ∈ entries := by
  obtain ⟨b', s', hrun, hkept, hid', hcompany⟩ := getAccessibleBucket_runs henv h hfault hb hbucket
  have hallowed : canAccessPath s'.db s'.out.now principal b' o.name (some o.id) .read = true := by
    rw [canAccessPath, evaluateAccess_read_congr hid' hcompany, hkept.evaluateAccess]
    exact hpath
  have hlisted : o ∈ listedObjects s'.db s'.out.now display principal b'
      (prefixFilter request.pre) request.search := by
    rw [hsearch, mem_listedObjects]
    refine ⟨Database.mem_objectsStartingWith_of_isPrefix ?_ (hid.symm.trans hid'.symm) ?_, hallowed⟩
    · rwa [hkept.objects]
    · rw [hname]
      exact List.prefix_append ..
  obtain ⟨access, hentry⟩ := mem_fileEntries b'
    (activeGrants s'.db s'.out.now b'.companyId) hlisted hname
  refine ⟨(allEntries env display s'.db s'.out.now principal b' request).length,
    fun limit hlimit => ⟨listObjects env display s'.db s'.out.now principal b'
      { request with limit := limit }, s', ?_, access, ?_⟩⟩
  · simp only [objectList, runs_bind, runs_database, runs_outside, runs_pure]
    exact ⟨b', s', hrun, _, s', ⟨rfl, rfl⟩, _, s', ⟨rfl, rfl⟩, rfl, rfl⟩
  · simp only [listObjects, hoffset]
    rw [slice_all]
    · exact List.mem_append_right _ (mem_sortByKey.mpr hentry)
    · exact hlimit

/-! ## Every object is reached -/

/-- Given back as a path, the item leads to the object again. -/
def LeadsTo (env : Env) (w : World) (principal : StoragePrincipal) (item : ResolvedItem)
    (o : StorageObject) : Prop :=
  match item.type with
  | .file => ∃ b w', (getAccessibleObject env principal item.bucket item.path .read).Runs
      (w.withFault none) (b, o) w'
  | .folder => ∀ (display : Display) (request : ListRequest), request.pre = item.path →
      request.search = [] → request.offset = 0 →
      ∃ total : Nat, ∀ limit : Int, total ≤ limit → ∃ entries w',
        (objectList env display principal item.bucket { request with limit := limit }).Runs
          (w.withFault none) entries w' ∧ ∃ access, ListEntry.file o access ∈ entries

/-- The object has a canonical name of its own under which its readers reach it. -/
structure Addressed (env : Env) (w : World) (o : StorageObject) : Prop where
  canonical : Canonical o.name
  unique : ∀ o' ∈ w.db.objects.rows, o'.bucketId = o.bucketId → o'.name = o.name → o' = o
  reached : ∀ bucket ∈ w.db.buckets.rows, bucket.id = o.bucketId →
    ∀ principal : StoragePrincipal,
    canAccessBucket w.db w.out.now principal bucket .read = true →
    canAccessPath w.db w.out.now principal bucket o.name (some o.id) .read = true →
      (∃ b w', (getAccessibleObject env principal bucket.name o.name .read).Runs
        (w.withFault none) (b, o) w') ∧
      ∀ objectId, uuidOfText objectId = some o.id →
        ∃ item, (resolveItemById principal objectId).Runs (w.withFault none) item
          (w.withFault none) ∧ item.id = o.id ∧ LeadsTo env w principal item o

theorem resolveItemById_runs {o : StorageObject} (ho : o ∈ s.db.objects.rows) {b : Bucket}
    (hb : b ∈ s.db.buckets.rows) (hid : b.id = o.bucketId) (hcompany : b.companyId = o.companyId)
    {principal : StoragePrincipal} {objectId : Text} (hobjectId : uuidOfText objectId = some o.id)
    (hpath : canAccessPath s.db s.out.now principal b o.name (some o.id) .read = true) :
    (resolveItemById principal objectId).Runs s (resolvedItem b o) s := by
  have hprincipal : principal.companyId = some o.companyId := by
    rw [← hcompany]
    by_contra hne
    simp [canAccessPath, evaluateAccess, hne] at hpath
  have hfound : s.db.objectById o.id = some o := Database.objectById_eq_some.mpr ⟨ho, rfl⟩
  have hbucket : s.db.bucketById o.bucketId = some b := by
    rw [← hid]
    exact Database.bucketById_of_mem hb
  simp only [resolveItemById, runs_bind, runs_ofOption, runs_database, runs_ensure,
    runs_assertCanAccessPath, runs_pure]
  exact ⟨o.id, s, ⟨hobjectId, rfl⟩, _, s, ⟨rfl, rfl⟩, o, s, ⟨hfound, rfl⟩, b, s, ⟨hbucket, rfl⟩,
    (), s, ⟨.inr hprincipal, rfl⟩, (), s, ⟨hpath, rfl⟩, rfl, rfl⟩

/-- As long as markers have canonical names, every object is addressed by its stored name. -/
theorem addressed_of_marksCanonical (henv : env.Lawful)
    (h : GuardedRun env (MarksCanonical env) (.initial env.engine) w) (o : StorageObject)
    (ho : o ∈ w.db.objects.rows) : Addressed env w o := by
  have haddressable := addressable_of_guardedRun henv (addressable_initial env) h
  have hsound := (GuardedRun.reachable .refl h).sound henv
  have hcanonical := haddressable.canonical o ho
  refine ⟨hcanonical, fun o' ho' hbucket hname => ?_, ?_⟩
  · exact w.db.objects.eq_of_clash ho' ho (.inr ⟨hbucket, hname⟩)
  · intro bucket hb hid principal hbucket hpath
    have hstart : Addressable env (w.withFault none) :=
      ⟨haddressable.canonical, haddressable.minted⟩
    refine ⟨getAccessibleObject_runs henv hstart rfl ho hb hid hbucket hpath,
      fun objectId hobjectId => ⟨resolvedItem bucket o, ?_, ?_, ?_⟩⟩
    · exact resolveItemById_runs (s := w.withFault none) ho hb hid
        (hsound.company o ho bucket hb hid) hobjectId hpath
    · unfold resolvedItem
      split <;> rfl
    · have hbucketName : (resolvedItem bucket o).bucket = bucket.name := by
        unfold resolvedItem
        split <;> rfl
      unfold LeadsTo
      rw [hbucketName]
      split
      · rename_i htype
        have hpathName : (resolvedItem bucket o).path = o.name := by
          unfold resolvedItem at htype ⊢
          split
          · rename_i hplaceholder
            simp [hplaceholder] at htype
          · rfl
        rw [hpathName]
        exact getAccessibleObject_runs henv hstart rfl ho hb hid hbucket hpath
      · rename_i htype
        intro display request hpre hsearch hoffset
        refine objectList_runs henv hstart rfl ho hb hid hbucket hpath display ?_ hsearch hoffset
        rw [hpre]
        exact marker_of_placeholder hcanonical bucket htype

def singleFile : World :=
  Operation.after (sampleEnv false) (.upload (sampleUpload ['x'] [97] 1))
    (Operation.after (sampleEnv false) (.companyBucket 1) .initial)

theorem addressed_of_marksCanonical_singleFile :
    ∃ o ∈ singleFile.db.objects.rows, o.name = ['x'] ∧
      Addressed (sampleEnv false) singleFile o := by
  have hrun : GuardedRun (sampleEnv false) (MarksCanonical (sampleEnv false)) .initial
      singleFile := by
    refine GuardedRun.after (GuardedRun.after .refl ?_ ?_) ?_ ?_
    · intro bucket folderPath hmarks
      cases hmarks
    · trivial
    · intro bucket folderPath hmarks
      cases hmarks
    · decide +kernel
  have hfile : ∃ o ∈ singleFile.db.objects.rows, o.name = ['x'] := by
    decide +kernel
  obtain ⟨o, ho, hname⟩ := hfile
  exact ⟨o, ho, hname, addressed_of_marksCanonical (sampleEnv_lawful false) hrun o ho⟩

def doubledSlash : World :=
  play (sampleEnv false)
    [.companyBucket 1, .createGrant (member 1) (allowRequest ['f', 'o', 'l', 'd', 'e', 'r']
      ['a', '/', '/', 'b'] ['r', 'e', 'a', 'd'])] .initial

theorem not_addressed :
    ¬∀ w : World, Reachable (sampleEnv false) w → ∀ o ∈ w.db.objects.rows,
      Addressed (sampleEnv false) w o := by
  intro h
  have hmarker : ∃ o ∈ doubledSlash.db.objects.rows, [] ∈ o.name.splitOn '/' := by
    decide +kernel
  obtain ⟨o, ho, hempty⟩ := hmarker
  have hreachable : Reachable (sampleEnv false) doubledSlash :=
    Reachable.play .refl (by decide +kernel)
  have hcanonical := (h doubledSlash hreachable o ho).canonical
  exact ((canonical_iff.mp hcanonical).2 [] hempty).1 rfl

end StorageService.Results
