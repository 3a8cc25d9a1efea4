import StorageService.Results.Authorisation
import StorageService.Storage.Changes

/-!
# What creating and deleting grants opens and closes

Connector buckets, whose default lets nobody write; grants made without admin,
which may still close a path; and private folders, below which nothing is to be
opened to the company.
-/

namespace StorageService.Results

open StorageService.Foundation
open StorageService.Foundation.Action
open StorageService.Storage

variable {env : Env}

/-! ## Connector buckets -/

def ConnectorsClosed (db : Database) : Prop :=
  ∀ g ∈ db.grants.rows, ∀ b ∈ db.buckets.rows, b.id = g.bucketId → b.kind = .connector →
    g.effect = .allow → g.subjectType ≠ .group → g.permission = .read

def AsksReadOnly (env : Env) (db : Database) : Operation → Prop
  | .createGrant principal data => ∀ fields, readGrantRequest env data = .ok fields →
      ∀ b ∈ db.buckets.rows, principal.companyId = some b.companyId →
        b.name = fields.bucketName → b.kind = .connector → b.name ≠ companyBucketName →
        fields.effect = .allow → fields.subjectType ≠ .group → fields.permission = .read
  | .deleteGrant _ _ => True
  | _ => False

theorem kindDefaultAllows_connector {principal : StoragePrincipal} {bucket : Bucket}
    (hkind : bucket.kind = .connector) {required : Permission} (hrequired : required ≠ .read) :
    kindDefaultAllows principal bucket required = false := by
  simp [kindDefaultAllows, hkind, hrequired]

/-- On a connector bucket only a grant lets somebody do more than read. -/
theorem evaluateAccess_connector {db : Database} (hclosed : ConnectorsClosed db) (now : Time)
    {bucket : Bucket} (hbucket : bucket ∈ db.buckets.rows) (hkind : bucket.kind = .connector)
    (principal : StoragePrincipal) (path : Option Text) (objectId : Option UUID)
    {required : Permission} (hrequired : required ≠ .read) :
    evaluateAccess db now principal bucket path objectId required = false := by
  by_cases hcompany : principal.companyId = some bucket.companyId
  swap
  · simp [evaluateAccess, hcompany]
  rw [evaluateAccess_eq_ruling _ _ _ _ _ hcompany, ← Bool.not_eq_true, ruling_eq_true_iff]
  rintro ⟨-, ⟨g, hg, hpermit⟩ | ⟨-, hdefault⟩⟩
  · obtain ⟨hactive, hsubject, hmatch⟩ := (mem_matchingGrants hcompany).mp (mem_top.mp hg).1
    have hbucketId : bucket.id = g.bucketId := by
      by_contra hne
      simp [resourceMatchesGrant, Ne.symm hne] at hmatch
    have hgroup : g.subjectType ≠ .group := by
      intro hgroup
      simp [subjectMatches, hcompany, hgroup] at hsubject
    cases heffect : g.effect with
    | deny =>
        rw [grantVerdict_of_deny required heffect] at hpermit
        split at hpermit <;> simp at hpermit
    | allow =>
        have hread : g.permission = .read :=
          hclosed g.row (mem_activeGrants.mp hactive).2.1 bucket hbucket hbucketId hkind heffect
            hgroup
        cases required <;> simp [grantVerdict, heffect, hread, permissionAtLeast,
          permissionRank] at hpermit hrequired
  · rw [kindDefaultAllows_connector hkind hrequired] at hdefault
    contradiction

theorem connector_of_resolved {principal : StoragePrincipal} {name : Text}
    {required : Permission} {bucket : Bucket} {s s₁ : World}
    (hresolved : Resolved principal name required bucket s s₁) (hprovisions : Provisions env s s₁)
    (hkind : bucket.kind = .connector) :
    ∃ b ∈ s.db.buckets.rows, b.kind = .connector ∧ principal.companyId = some b.companyId ∧
      b.name = name ∧ b.name ≠ companyBucketName := by
  have hmem : bucket ∈ s₁.db.buckets.rows := List.mem_of_find?_eq_some hresolved.found
  have hname : bucket.name = name := by
    have := List.find?_some hresolved.found
    simp only [decide_eq_true_eq] at this
    exact this.2
  rcases hprovisions.origin bucket hmem with
    ⟨b, hb, -, hcompany, hbname, hconnector⟩ | ⟨_, -, -, hcompanyKind⟩
  · refine ⟨b, hb, hconnector hkind, hcompany ▸ hresolved.company, hbname ▸ hname, ?_⟩
    intro hcompanyName
    obtain ⟨c, hc, hckind, -⟩ := hresolved.provisioned
    have hfound := hresolved.found
    rw [← hname, hbname, hcompanyName, hc] at hfound
    obtain rfl : c = bucket := Option.some.inj hfound
    rw [hkind] at hckind
    contradiction
  · rw [hkind] at hcompanyKind
    contradiction

theorem ConnectorsClosed.of_provisions {s s' : World} (hclosed : ConnectorsClosed s.db)
    (h : Provisions env s s') : ConnectorsClosed s'.db := by
  intro g hg b' hb' hid hkind
  rw [h.grants] at hg
  rcases h.origin b' hb' with ⟨b, hb, hbid, -, -, hconnector⟩ | ⟨_, -, -, hcompany⟩
  · exact hclosed g hg b hb (hbid.symm.trans hid) (hconnector hkind)
  · rw [hkind] at hcompany
    contradiction

theorem ConnectorsClosed.of_change {w s s' : World} {op : Operation}
    (ok : AsksReadOnly env w.db op) (hclosed : ConnectorsClosed s.db)
    (h : Change env w op s s') : ConnectorsClosed s'.db := by
  cases h with
  | kept h =>
      unfold ConnectorsClosed
      rw [h.grants, h.buckets]
      exact hclosed
  | provisioned h => exact hclosed.of_provisions h
  | bucketAdded => exact ok.elim
  | created asked => cases asked <;> exact ok.elim
  | marked _ _ _ buckets _ grants =>
      unfold ConnectorsClosed
      rw [grants, buckets]
      exact hclosed
  | overwrote => exact ok.elim
  | removed => exact ok.elim
  | renamed => exact ok.elim
  | moved => exact ok.elim
  | ungranted buckets _ grants =>
      intro g hg b hb
      rw [grants] at hg
      rw [buckets] at hb
      exact hclosed g (List.mem_filter.mp hg).1 b hb
  | @granted principal data fields bucket resource id now s₁ _ _ read resolved provisions same
      names h =>
      intro g hg b hb hid hkind
      rw [h.buckets] at hb
      rw [h.grants, List.mem_append, List.mem_singleton] at hg
      rcases hg with hg | rfl
      · exact hclosed g hg b hb hid hkind
      · -- the new grant is on the bucket of the request
        rw [same] at hb
        obtain rfl : b = bucket :=
          Database.bucket_eq_of_id hb (List.mem_of_find?_eq_some resolved.found) hid
        obtain ⟨b₀, hb₀, hkind₀, hcompany, hname, hother⟩ :=
          connector_of_resolved resolved provisions hkind
        exact ok fields read b₀ hb₀ hcompany hname hkind₀ hother

/--
Connector buckets are read-only in every state reached by creating and deleting
grants, as long as nobody asks for a grant that allows more than reading there.
-/
theorem connector_readOnly (henv : env.Lawful) {w w' : World} (hclosed : ConnectorsClosed w.db)
    (h : GuardedRun env (AsksReadOnly env) w w') (bucket : Bucket)
    (hbucket : bucket ∈ w'.db.buckets.rows) (hkind : bucket.kind = .connector)
    (principal : StoragePrincipal) (path : Option Text) (objectId : Option UUID)
    (required : Permission) (hrequired : required ≠ .read) :
    evaluateAccess w'.db w'.out.now principal bucket path objectId required = false := by
  have hclosed' : ConnectorsClosed w'.db := by
    refine h.invariant (P := fun w => ConnectorsClosed w.db) henv ?_ ?_ hclosed
    · intro w w' hdb _ hw
      rwa [hdb]
    · intro w s s' op _ ok _ hs hchange _
      exact hs.of_change ok hchange
  exact evaluateAccess_connector hclosed' _ hbucket hkind principal path objectId hrequired

def withConnector : World :=
  play (sampleEnv false)
    [.companyBucket 1,
      .addBucket fun id => { newCompanyBucket 1 id with name := ['m'], kind := .connector }]
    .initial

theorem withConnector_reachable : Reachable (sampleEnv false) withConnector :=
  Reachable.play .refl (by decide +kernel)

def grantOnConnector (permission : Text) : Operation :=
  .createGrant { member 1 with isCompanyOwner := true }
    (allowRequest ['b', 'u', 'c', 'k', 'e', 't'] ['m'] permission)

def connectorBucket : Bucket :=
  { newCompanyBucket 1 ((sampleEnv false).uuid4 1) with name := ['m'], kind := .connector }

theorem grantOnConnector_asksReadOnly (db : Database) :
    AsksReadOnly (sampleEnv false) db (grantOnConnector ['r', 'e', 'a', 'd']) := by
  intro fields hread _ _ _ _ _ _ _ _
  have hpermission : (readGrantRequest (sampleEnv false)
      (allowRequest ['b', 'u', 'c', 'k', 'e', 't'] ['m'] ['r', 'e', 'a', 'd'])).toOption.all
        (fun fields => decide (fields.permission = .read)) = true := by
    decide +kernel
  rw [hread] at hpermission
  simpa [Except.toOption] using hpermission

theorem connector_readOnly_withConnector :
    evaluateAccess ((grantOnConnector ['r', 'e', 'a', 'd']).after (sampleEnv false)
      withConnector).db 0 (member 2) connectorBucket none none .write = false := by
  have hclosed : ConnectorsClosed withConnector.db := by
    intro g hg
    have hnone : withConnector.db.grants.rows = [] := by decide +kernel
    rw [hnone] at hg
    simp at hg
  have hrun : GuardedRun (sampleEnv false) (AsksReadOnly (sampleEnv false)) withConnector _ :=
    .after .refl (grantOnConnector_asksReadOnly _) trivial
  exact connector_readOnly (sampleEnv_lawful false) hclosed hrun connectorBucket
    (by decide +kernel) rfl (member 2) none none .write (by decide)

/-- An owner can let a member write to a connector bucket. -/
theorem not_connector_readOnly :
    ¬∀ w w' : World, Reachable (sampleEnv false) w → w.db.grants.rows = [] →
      GuardedRun (sampleEnv false)
        (fun _ op => (∃ principal data, op = .createGrant principal data) ∨
          ∃ principal grantId, op = .deleteGrant principal grantId) w w' →
      ∀ bucket ∈ w'.db.buckets.rows, bucket.kind = .connector →
      ∀ principal path objectId required, required ≠ .read →
        evaluateAccess w'.db w'.out.now principal bucket path objectId required = false := by
  intro h
  have hrefused := h withConnector
    ((grantOnConnector ['w', 'r', 'i', 't', 'e']).after (sampleEnv false) withConnector)
    withConnector_reachable (by decide +kernel) (.after .refl (.inl ⟨_, _, rfl⟩) trivial)
    connectorBucket (by decide +kernel) rfl (member 2) none none .write (by decide)
  have hallowed : evaluateAccess ((grantOnConnector ['w', 'r', 'i', 't', 'e']).after
      (sampleEnv false) withConnector).db ((grantOnConnector ['w', 'r', 'i', 't', 'e']).after
        (sampleEnv false) withConnector).out.now (member 2) connectorBucket none none
      .write = true := by
    decide +kernel
  rw [hrefused] at hallowed
  contradiction

/-! ## The grants before and after -/

theorem exists_joined (db : Database) {row : GrantRow} (h : row ∈ db.grants.rows) :
    ∃ d : Grant, db.selectRelated row = some d := by
  have href := db.grantObject row h
  unfold Database.selectRelated
  cases hresource : row.resource with
  | bucket => exact ⟨_, rfl⟩
  | folder i | object i =>
      rw [hresource] at href
      obtain ⟨o, ho, hid⟩ := href
      have hfound : db.objectById i = some o := Database.objectById_eq_some.mpr ⟨ho, hid⟩
      simp [Resource.lookup, hfound]

theorem mem_activeGrants_of_objects {db db' : Database} (hgrants : db'.grants = db.grants)
    (hobjects : ∀ o ∈ db.objects.rows, o ∈ db'.objects.rows) {now : Time} {companyId : Nat}
    {g : Grant} : g ∈ activeGrants db' now companyId ↔ g ∈ activeGrants db now companyId := by
  rw [mem_activeGrants, mem_activeGrants, hgrants]
  refine and_congr_right fun _ => and_congr_right fun hrow => ?_
  constructor
  · intro hjoin o ho
    -- the row refers to an object of the old table, which has that id in the new one too
    have href := db.grantObject g.row hrow
    have hresource : g.row.resource.object? = some o.id := by
      simp [StorageAccessGrant.row, Resource.object?_map, ho]
    rw [hresource] at href
    obtain ⟨p, hp, hid⟩ := href
    rwa [← Database.object_eq_of_id (hobjects p hp) (hjoin o ho) hid]
  · exact fun hjoin o ho => hobjects o (hjoin o ho)

structure GrantsWith (d : Grant) (w w' : World) : Prop where
  now : w'.out.now = w.out.now
  joined : w'.db.selectRelated d.row = some d
  active : ∀ now companyId g, g ∈ activeGrants w'.db now companyId ↔
    g ∈ activeGrants w.db now companyId ∨
      (d.companyId = companyId ∧ d.active now = true) ∧ g = d

theorem grantTarget_rows {principal : StoragePrincipal} {bucket : Bucket}
    {resourceType : ResourceType} {resourceId : Text} {resource : Resource UUID}
    {s s' : World}
    (h : (grantTarget env principal bucket resourceType resourceId).Runs s resource s') :
    s'.db.grants = s.db.grants ∧ s'.out.now = s.out.now ∧
      ∀ o ∈ s.db.objects.rows, o ∈ s'.db.objects.rows := by
  cases resourceType with
  | bucket =>
      rw [grantTarget, runs_pure] at h
      rw [h.2]
      exact ⟨rfl, rfl, fun o ho => ho⟩
  | object =>
      simp only [grantTarget, runs_bind, runs_database, runs_ofOption, runs_pure] at h
      obtain ⟨db, _, ⟨rfl, rfl⟩, target, _, ⟨-, rfl⟩, -, rfl⟩ := h
      exact ⟨rfl, rfl, fun o ho => ho⟩
  | folder =>
      simp only [grantTarget, runs_bind, runs_pure] at h
      obtain ⟨marker, _, hmarker, -, rfl⟩ := h
      rcases ensureFolderMarker_cases hmarker with ⟨-, rfl⟩ | ⟨-, hcreated, hgrants, -⟩
      · exact ⟨rfl, rfl, fun o ho => ho⟩
      · refine ⟨hgrants, hcreated.now, fun o ho => ?_⟩
        rw [hcreated.objects]
        exact List.mem_append_left _ ho

theorem createGrant_grantsWith {w w' : World} {fault : Option (Point × Nat)}
    {principal : StoragePrincipal} {data : GrantRequest} {g : GrantRow}
    (h : (createGrant env principal data).Runs (w.withFault fault) g w') :
    ∃ d : Grant, d.row = g ∧ GrantsWith d w w' := by
  obtain ⟨fields, bucket, s₁, s₂, resource, -, hresolved, -, htarget, -, hadded⟩ :=
    createGrant_cases h
  have hrow : g ∈ w'.db.grants.rows := by
    rw [hadded.grants]
    exact List.mem_append_right _ (List.mem_singleton.mpr rfl)
  obtain ⟨d, hd⟩ := exists_joined w'.db hrow
  obtain ⟨rfl, hobject⟩ := Database.selectRelated_eq_some.mp hd
  obtain ⟨hgrants, hnow, hobjects⟩ := grantTarget_rows htarget
  refine ⟨d, rfl, ?_, hd, fun now companyId x => ?_⟩
  · rw [hadded.now, hnow, hresolved.bucketsOnly.now]
    rfl
  · rw [hadded.objects] at hobject
    rw [mem_activeGrants_of_added hobject hadded.objects hadded.grants,
      mem_activeGrants_of_objects hgrants hobjects,
      activeGrants_congr hresolved.bucketsOnly.objects hresolved.bucketsOnly.grants]
    rfl

theorem GrantsWith.mem_matchingGrants {d : Grant} {w w' : World} (h : GrantsWith d w w')
    {principal : StoragePrincipal} {bucket : Bucket} {path : Option Text}
    {objectId : Option UUID} {companyId : Nat} (hcompany : principal.companyId = some companyId)
    {g : Grant} :
    g ∈ matchingGrants w'.db w'.out.now principal bucket path objectId ↔
      g ∈ matchingGrants w.db w.out.now principal bucket path objectId ∨
        ((d.companyId = companyId ∧ d.active w.out.now = true) ∧
          subjectMatches d principal = true ∧
          resourceMatchesGrant d bucket path objectId = true) ∧ g = d := by
  rw [Storage.mem_matchingGrants hcompany, Storage.mem_matchingGrants hcompany, h.active, h.now]
  constructor
  · rintro ⟨hold | ⟨hd, rfl⟩, hmatch⟩
    · exact .inl ⟨hold, hmatch⟩
    · exact .inr ⟨⟨hd, hmatch⟩, rfl⟩
  · rintro (⟨hold, hmatch⟩ | ⟨⟨hd, hmatch⟩, rfl⟩)
    · exact ⟨.inl hold, hmatch⟩
    · exact ⟨.inr ⟨hd, rfl⟩, hmatch⟩

/-! ## Grants made without admin -/

def LacksAdmin (env : Env) (w : World) (principal : StoragePrincipal) (data : GrantRequest) :
    Prop :=
  ∀ fields, readGrantRequest env data = .ok fields →
    ∀ b ∈ w.db.buckets.rows, principal.companyId = some b.companyId →
      b.name = fields.bucketName →
      evaluateAccess w.db w.out.now principal b
        (if fields.resourceType = .bucket then none else some fields.resourceId) none .admin =
        false

/--
The allow `d`, about to be added, would be heard about the request, is too weak
for it, and no grant of its rank that is there already permits the request.
-/
structure Eclipses (db : Database) (now : Time) (principal : StoragePrincipal)
    (bucket : Bucket) (path : Option Text) (objectId : Option UUID) (required : Permission)
    (d : Grant) : Prop where
  company : d.companyId = bucket.companyId
  active : d.active now = true
  subject : subjectMatches d principal = true
  resource : resourceMatchesGrant d bucket path objectId = true
  weak : permissionAtLeast d.permission required = false
  above : ∀ s ∈ matchingGrants db now principal bucket path objectId,
    grantSpecificity s ≤ grantSpecificity d ∧
      (grantSpecificity s = grantSpecificity d →
        ¬(s.effect = .allow ∧ permissionAtLeast s.permission required = true))

theorem grantVerdict_of_allow (required : Permission) {g : Grant} (hallow : g.effect = .allow) :
    grantVerdict required g =
      if permissionAtLeast g.permission required then .permit else .weak := by
  simp [grantVerdict, hallow]

theorem kindDefaultAllows_mono (principal : StoragePrincipal) {b b' : Bucket}
    (required : Permission) (hcompany : b'.companyId = b.companyId)
    (hkind : b'.kind = .connector → b.kind = .connector)
    (h : kindDefaultAllows principal b required = true) :
    kindDefaultAllows principal b' required = true := by
  unfold kindDefaultAllows at h ⊢
  rw [hcompany]
  split at h
  · contradiction
  · rename_i hsame
    rw [if_neg hsame]
    cases hb' : b'.kind with
    | connector => simpa [hkind hb'] using h
    | company =>
        cases hb : b.kind with
        | company => simpa [hb] using h
        | connector =>
            obtain rfl : required = .read := by simpa [hb] using h
            rfl

theorem GrantsWith.permitted_iff {d : Grant} {w w' : World} (h : GrantsWith d w w')
    (hallow : d.effect = .allow) {principal : StoragePrincipal} {b b' : Bucket}
    (hid : b'.id = b.id) (hsame : b'.companyId = b.companyId)
    (hkind : b'.kind = .connector → b.kind = .connector) {path : Option Text}
    {objectId : Option UUID} {required : Permission}
    (hpermitted : evaluateAccess w.db w.out.now principal b path objectId required = true) :
    evaluateAccess w'.db w'.out.now principal b' path objectId required = true ↔
      ¬Eclipses w.db w.out.now principal b' path objectId required d := by
  have hcompany := companyId_of_evaluateAccess hpermitted
  have hcompany' : principal.companyId = some b'.companyId := by rw [hcompany, hsame]
  rw [evaluateAccess_eq_ruling _ _ _ _ _ hcompany] at hpermitted
  rw [evaluateAccess_eq_ruling _ _ _ _ _ hcompany']
  have hdefault := fun hd =>
    kindDefaultAllows_mono principal required hsame hkind hd
  rw [← matchingGrants_of_bucket_id hid] at hpermitted
  by_cases hheard : (d.companyId = b'.companyId ∧ d.active w.out.now = true) ∧
      subjectMatches d principal = true ∧ resourceMatchesGrant d b' path objectId = true
  · have hmem : ∀ g, g ∈ matchingGrants w'.db w'.out.now principal b' path objectId ↔
        g ∈ d :: matchingGrants w.db w.out.now principal b' path objectId := by
      intro g
      rw [h.mem_matchingGrants hcompany', List.mem_cons, or_comm]
      simp only [hheard, and_self, true_and]
    have hverdict := grantVerdict_of_allow required hallow
    rw [ruling_congr hmem, ruling_cons_of_permitted (by rw [hverdict]; split <;> simp) hdefault
      hpermitted, not_iff_not]
    constructor
    · rintro ⟨hweak, habove⟩
      obtain ⟨⟨hdcompany, hactive⟩, hsubject, hresource⟩ := hheard
      refine ⟨hdcompany, hactive, hsubject, hresource, ?_, ?_⟩
      · by_contra hstrong
        simp [hverdict, hstrong] at hweak
      · intro s hs
        obtain ⟨hle, hpermit⟩ := habove s hs
        exact ⟨hle, fun heq hboth => hpermit heq (grantVerdict_eq_permit.mpr hboth)⟩
    · intro heclipses
      refine ⟨by simp [hverdict, heclipses.weak], fun s hs => ?_⟩
      obtain ⟨hle, hnot⟩ := heclipses.above s hs
      exact ⟨hle, fun heq hpermit => hnot heq (grantVerdict_eq_permit.mp hpermit)⟩
  · -- the new grant is not heard, so the same grants decide
    have hmem : ∀ g, g ∈ matchingGrants w'.db w'.out.now principal b' path objectId ↔
        g ∈ matchingGrants w.db w.out.now principal b' path objectId := by
      intro g
      rw [h.mem_matchingGrants hcompany']
      exact ⟨fun hg => hg.resolve_right fun hd => hheard hd.1, .inl⟩
    rw [ruling_congr hmem]
    refine iff_of_true (ruling_mono hdefault hpermitted) fun heclipses => hheard ?_
    exact ⟨⟨heclipses.company, heclipses.active⟩, heclipses.subject, heclipses.resource⟩

theorem createGrant_bucket {w w' : World} {fault : Option (Point × Nat)}
    {principal : StoragePrincipal} {data : GrantRequest} {g : GrantRow}
    (h : (createGrant env principal data).Runs (w.withFault fault) g w') {b b' : Bucket}
    (hb : b ∈ w.db.buckets.rows) (hb' : b' ∈ w'.db.buckets.rows) (hid : b'.id = b.id) :
    b'.companyId = b.companyId ∧ (b'.kind = .connector → b.kind = .connector) := by
  obtain ⟨fields, bucket, s₁, s₂, resource, -, hbucket, -, -, htarget, -, hadded⟩ :=
    runs_createGrant h
  have hprovisions := (getAccessibleBucket_provisions env principal fields.bucketName
    .read).runs hbucket
  rw [hadded.buckets, grantTarget_buckets htarget] at hb'
  rcases hprovisions.origin b' hb' with ⟨a, ha, haid, hcompany, -, hkind⟩ | ⟨_, -, -, hkind⟩
  · obtain rfl : a = b := Database.bucket_eq_of_id ha hb (haid.symm.trans hid)
    exact ⟨hcompany, hkind⟩
  · rcases hprovisions.known b' hb' with ⟨a, ha, haid, hcompany, -⟩ | hnew
    · obtain rfl : a = b := Database.bucket_eq_of_id ha hb (haid.symm.trans hid)
      exact ⟨hcompany, fun hconnector => by simp [hkind] at hconnector⟩
    · exact absurd hid.symm (hnew b hb)

theorem kindDefaultAllows_admin {principal : StoragePrincipal}
    (hadmin : isCompanyAdmin principal = false) (bucket : Bucket) :
    kindDefaultAllows principal bucket .admin = false := by
  have hno : (principal.isCompanyOwner || principal.isStaff) = false := hadmin
  unfold kindDefaultAllows
  split
  · rfl
  · cases bucket.kind with
    | company => simpa using hno
    | connector => simp

theorem LacksAdmin.not_mayManage {w s₁ : World} {principal : StoragePrincipal}
    {data : GrantRequest} {fields : GrantFields} {bucket : Bucket}
    (hlacks : LacksAdmin env w principal data) (hadmin : isCompanyAdmin principal = false)
    (hread : readGrantRequest env data = .ok fields)
    (hresolved : Resolved principal fields.bucketName .read bucket w s₁)
    (hneed : fields.needAdmin = true) :
    ¬MayManage s₁.db s₁.out.now principal bucket fields := by
  intro hmay
  have hrequired : fields.required = .admin := by simp [GrantFields.required, hneed,
    requiredPermission]
  have hallowed : evaluateAccess w.db w.out.now principal bucket
      (if fields.resourceType = .bucket then none else some fields.resourceId) none .admin =
      true := by
    rw [← hresolved.bucketsOnly.evaluateAccess]
    unfold MayManage at hmay
    split at hmay
    · rename_i htype
      simpa [canAccessBucket, hrequired, htype] using hmay
    · rename_i htype
      simpa [canAccessPath, hrequired, htype] using hmay
  rw [evaluateAccess_eq_ruling _ _ _ _ _ hresolved.company, kindDefaultAllows_admin hadmin]
    at hallowed
  obtain ⟨hmem, -, hname⟩ := mem_of_bucketNamed hresolved.found
  rcases hresolved.bucketsOnly.known bucket hmem with ⟨b, hb, hid, hcompany, hbname⟩ | hnew
  · have hrefused := hlacks fields hread b hb (hcompany ▸ hresolved.company)
      (hbname.symm.trans hname)
    rw [evaluateAccess_eq_ruling _ _ _ _ _ (hcompany ▸ hresolved.company),
      kindDefaultAllows_admin hadmin, ← matchingGrants_of_bucket_id hid, hallowed] at hrefused
    contradiction
  · rw [matchingGrants_of_new_bucket hnew] at hallowed
    simp [ruling, top] at hallowed

/--
A grant made without admin is an allow of read or write.  It takes a permission
from somebody exactly when it eclipses, as a weaker allow, what they had.
-/
theorem permitted_after_createGrant_iff {w w' : World} {fault : Option (Point × Nat)}
    {principal : StoragePrincipal} {data : GrantRequest} {g : GrantRow}
    (hadmin : isCompanyAdmin principal = false) (hlacks : LacksAdmin env w principal data)
    (h : (createGrant env principal data).Runs (w.withFault fault) g w') :
    ∃ d : Grant, w'.db.selectRelated g = some d ∧ d.effect = .allow ∧ d.permission ≠ .admin ∧
      ∀ (q : StoragePrincipal) (b b' : Bucket), b ∈ w.db.buckets.rows →
        b' ∈ w'.db.buckets.rows → b'.id = b.id →
        ∀ (path : Option Text) (objectId : Option UUID) (required : Permission),
        evaluateAccess w.db w.out.now q b path objectId required = true →
        (evaluateAccess w'.db w'.out.now q b' path objectId required = true ↔
          ¬Eclipses w.db w.out.now q b' path objectId required d) := by
  obtain ⟨d, rfl, hwith⟩ := createGrant_grantsWith h
  obtain ⟨fields, bucket, s₁, s₂, resource, hread, hresolved, hmanage, -, ⟨id, now, hrow⟩, -⟩ :=
    createGrant_cases h
  have hneed : fields.needAdmin = false := by
    rw [← Bool.not_eq_true]
    intro hneed
    have hmay := hmanage.resolve_left (by simp [hadmin])
    exact LacksAdmin.not_mayManage (w := w.withFault fault) hlacks hadmin hread hresolved hneed hmay
  obtain ⟨heffect, hpermission⟩ : fields.effect ≠ .deny ∧ fields.permission ≠ .admin := by
    simpa [GrantFields.needAdmin] using hneed
  have hdeffect : d.effect = fields.effect := congrArg StorageAccessGrant.effect hrow
  have hdpermission : d.permission = fields.permission :=
    congrArg StorageAccessGrant.permission hrow
  have hallow : d.effect = .allow := by
    rw [hdeffect]
    cases heff : fields.effect with
    | allow => rfl
    | deny => exact absurd heff heffect
  refine ⟨d, hwith.joined, hallow, hdpermission ▸ hpermission, ?_⟩
  intro q b b' hb hb' hid path objectId required hpermitted
  obtain ⟨hsame, hkind⟩ := createGrant_bucket h hb hb' hid
  exact hwith.permitted_iff hallow hid hsame hkind hpermitted

def emptyCompany : World := play (sampleEnv false) [.companyBucket 1] .initial

theorem emptyCompany_reachable : Reachable (sampleEnv false) emptyCompany :=
  Reachable.play .refl (by decide +kernel)

def allowReadBucket : GrantRequest :=
  allowRequest ['b', 'u', 'c', 'k', 'e', 't'] companyBucketName ['r', 'e', 'a', 'd']

theorem lacksAdmin_emptyCompany :
    LacksAdmin (sampleEnv false) emptyCompany (member 1) allowReadBucket := by
  intro fields hread b hb hcompany hname
  have hnone : matchingGrants emptyCompany.db emptyCompany.out.now (member 1) b
      (if fields.resourceType = .bucket then none else some fields.resourceId) none = [] := by
    have hrows : emptyCompany.db.grants.rows = [] := by decide +kernel
    simp [matchingGrants, activeGrants, hrows, member]
  rw [evaluateAccess_eq_ruling _ _ _ _ _ hcompany, hnone, kindDefaultAllows_admin rfl]
  rfl

theorem permitted_after_createGrant_iff_emptyCompany :
    evaluateAccess (grantedBy 1 allowReadBucket emptyCompany).db 0 (member 2) sampleBucket none
      none .read = true := by
  obtain ⟨g, hrun, -⟩ := grantedBy_runs 1 allowReadBucket emptyCompany (p := fun _ => true)
    (by decide +kernel)
  obtain ⟨d, -, -, -, hiff⟩ := permitted_after_createGrant_iff rfl lacksAdmin_emptyCompany hrun
  refine (hiff (member 2) sampleBucket sampleBucket (by decide +kernel) (by decide +kernel) rfl
    none none .read (by decide +kernel)).mpr fun heclipses => ?_
  have hweak := heclipses.weak
  cases hpermission : d.permission <;>
    simp [hpermission, permissionAtLeast, permissionRank] at hweak

/-- Allowed to read by somebody without admin, member 2 may no longer write. -/
theorem not_permitted_after_createGrant :
    ¬∀ (w w' : World) (fault : Option (Point × Nat)) (principal : StoragePrincipal)
      (data : GrantRequest) (g : GrantRow), Reachable (sampleEnv false) w →
      isCompanyAdmin principal = false → LacksAdmin (sampleEnv false) w principal data →
      (createGrant (sampleEnv false) principal data).Runs (w.withFault fault) g w' →
      ∀ (q : StoragePrincipal) (b : Bucket), b ∈ w.db.buckets.rows → b ∈ w'.db.buckets.rows →
      ∀ (path : Option Text) (required : Permission),
        evaluateAccess w.db w.out.now q b path none required = true →
        evaluateAccess w'.db w'.out.now q b path none required = true := by
  intro h
  obtain ⟨g, hrun, -⟩ := grantedBy_runs 1 allowReadBucket emptyCompany (p := fun _ => true)
    (by decide +kernel)
  have hallowed := h emptyCompany (grantedBy 1 allowReadBucket emptyCompany) none (member 1)
    allowReadBucket g emptyCompany_reachable rfl lacksAdmin_emptyCompany hrun (member 2)
    sampleBucket (by decide +kernel) (by decide +kernel) none .write (by decide +kernel)
  have hrefused : evaluateAccess (grantedBy 1 allowReadBucket emptyCompany).db
      (grantedBy 1 allowReadBucket emptyCompany).out.now (member 2) sampleBucket none none
      .write = false := by
    decide +kernel
  rw [hrefused] at hallowed
  contradiction

/-! ## Private folders -/

/--
The call made (`made`) or deleted the grant `d`; `spelled` is the path its guard
is asked about, as the request spells it or as the deleted grant has it.
-/
inductive Regrants (env : Env) (w : World) (w' : World) : Bool → Text → Grant → Prop where
  | created {principal : StoragePrincipal} {data : GrantRequest} {fields : GrantFields}
      {fault : Option (Point × Nat)} {g : GrantRow} {d : Grant}
      (read : readGrantRequest env data = .ok fields)
      (run : (createGrant env principal data).Runs (w.withFault fault) g w')
      (joined : w'.db.selectRelated g = some d) : Regrants env w w' true fields.resourceId d
  | deleted {principal : StoragePrincipal} {fault : Option (Point × Nat)} {d : Grant}
      (run : (deleteGrant env principal d.id).Runs (w.withFault fault) () w')
      (row : d.row ∈ w.db.grants.rows) (joined : w.db.selectRelated d.row = some d) :
      Regrants env w w' false (resourcePath w.db d) d

structure PrivateAbove (db : Database) (now : Time) (d above : Grant) : Prop where
  active : above ∈ activeGrants db now d.companyId
  bucketId : above.bucketId = d.bucketId
  denies : deniesCompanyRead d.companyId above = true
  proper : ∃ marker, above.resource = .folder marker ∧
    folderMatches (folderPathOf marker) (resourcePath db d) = true ∧
    normalizePath (folderPathOf marker) ≠ normalizePath (resourcePath db d)

def GuardReaches (w : World) (spelled : Text) (d : Grant) : Prop :=
  ∃ above marker, PrivateAbove w.db w.out.now d above ∧ above.resource = .folder marker ∧
    marker.name = folderPlaceholderPath (folderPathOf marker) ∧
    folderPathOf marker ∈ ancestorFolderPrefixes spelled

/--
If a folder above is private, then the guard reaches one where the company gets
an allow or loses a deny of reading, and the company does not get a deny of
anything but reading, which no guard looks at.
-/
def GuardCovers (w : World) (made : Bool) (spelled : Text) (d : Grant) : Prop :=
  (∃ above, PrivateAbove w.db w.out.now d above) → d.subjectType = .company →
    match made, d.effect with
    | true, .allow => GuardReaches w spelled d
    | true, .deny => d.permission = .read
    | false, .allow => True
    | false, .deny => d.permission = .read → GuardReaches w spelled d

def NoUserGrant (db : Database) (now : Time) (principal : StoragePrincipal) (bucket : Bucket)
    (path : Text) (objectId : Option UUID) : Prop :=
  ∀ g ∈ matchingGrants db now principal bucket (some path) objectId, g.subjectType = .user →
    g.resource.type = .bucket

theorem resourcePath_congr (db db' : Database) {d : Grant} (htype : d.resource.type ≠ .bucket) :
    resourcePath db d = resourcePath db' d := by
  unfold resourcePath
  cases hresource : d.resource with
  | bucket => simp [hresource, Resource.type] at htype
  | folder marker => rfl
  | object target => rfl

theorem PrivateAbove.ne {db : Database} {now : Time} {d above : Grant}
    (h : PrivateAbove db now d above) : above ≠ d := by
  rintro rfl
  obtain ⟨marker, hresource, -, hne⟩ := h.proper
  exact hne (by simp [resourcePath, hresource])

theorem PrivateAbove.congr {db db' : Database} {now : Time} {d above : Grant}
    (htype : d.resource.type ≠ .bucket) (h : PrivateAbove db' now d above)
    (hactive : above ∈ activeGrants db now d.companyId) : PrivateAbove db now d above :=
  ⟨hactive, h.bucketId, h.denies, by rw [resourcePath_congr db db' htype]; exact h.proper⟩

theorem not_above_of_assertCanOpenToCompany {w s : World} {d above : Grant}
    {marker : StorageObject} {bucket : Bucket} {spelled : Text} {u : Unit}
    (hkept : BucketsOnly w s) (hbucket : bucket ∈ s.db.buckets.rows)
    (hid : bucket.id = d.bucketId) (habove : PrivateAbove w.db w.out.now d above)
    (hresource : above.resource = .folder marker)
    (hname : marker.name = folderPlaceholderPath (folderPathOf marker))
    (hancestor : folderPathOf marker ∈ ancestorFolderPrefixes spelled) :
    ¬(assertCanOpenToCompany d.companyId bucket.name spelled).Runs s u s := by
  intro hopen
  have hactive : above ∈ activeGrants s.db s.out.now d.companyId := by
    rw [hkept.now, activeGrants_congr hkept.objects hkept.grants]
    exact habove.active
  have hfound : (s.db.bucketById above.bucketId).map Bucket.name = some bucket.name := by
    rw [habove.bucketId, ← hid, Database.bucketById_of_mem hbucket]
    rfl
  obtain ⟨folder, hnearest, hne⟩ := nearestPrivateAncestorFolder_of_mem hactive hfound
    habove.denies hresource hname hancestor
  exact hne (not_private_of_assertCanOpenToCompany hopen hnearest)

theorem subject_of_heard {d : Grant} {principal : StoragePrincipal}
    (hsubject : subjectMatches d principal = true) (huser : d.subjectType ≠ .user) :
    d.subjectType = .company := by
  cases htype : d.subjectType with
  | user => exact absurd htype huser
  | company => rfl
  | group => cases hcompany : principal.companyId <;>
      simp [subjectMatches, hcompany, htype] at hsubject

theorem GuardCovers.createGrant {w w' : World} {fault : Option (Point × Nat)}
    {principal : StoragePrincipal} {data : GrantRequest} {fields : GrantFields} {d : Grant}
    (hcovers : GuardCovers w true fields.resourceId d)
    (hread : readGrantRequest env data = .ok fields)
    (hrun : (createGrant env principal data).Runs (w.withFault fault) d.row w')
    (hwith : GrantsWith d w w') (htype : d.resource.type ≠ .bucket) {bucket : Bucket}
    {q : StoragePrincipal} {objectId : Option UUID}
    (hnone : NoUserGrant w'.db w'.out.now q bucket (resourcePath w'.db d) objectId)
    (hrefused : evaluateAccess w.db w.out.now q bucket (some (resourcePath w'.db d)) objectId
      .read = false)
    (hallowed : evaluateAccess w'.db w'.out.now q bucket (some (resourcePath w'.db d)) objectId
      .read = true) (above : Grant) : ¬PrivateAbove w'.db w'.out.now d above := by
  intro habove
  have hcompany := companyId_of_evaluateAccess hallowed
  have hold : PrivateAbove w.db w.out.now d above := by
    rw [hwith.now] at habove
    refine habove.congr htype ?_
    exact ((hwith.active _ _ _).mp habove.active).resolve_right fun h => habove.ne h.2
  -- the new grant is heard, or nothing would have changed
  by_cases hheard : (d.companyId = bucket.companyId ∧ d.active w.out.now = true) ∧
      subjectMatches d q = true ∧
      resourceMatchesGrant d bucket (some (resourcePath w'.db d)) objectId = true
  swap
  · have hsame : evaluateAccess w.db w.out.now q bucket (some (resourcePath w'.db d)) objectId
        .read = evaluateAccess w'.db w.out.now q bucket (some (resourcePath w'.db d)) objectId
        .read := by
      apply evaluateAccess_of_matchingGrants
      intro g
      rw [← hwith.now, hwith.mem_matchingGrants hcompany, hwith.now]
      exact ⟨.inl, fun hg => hg.resolve_right fun hd => hheard hd.1⟩
    rw [hsame, ← hwith.now, hallowed] at hrefused
    contradiction
  have hmem : ∀ g, g ∈ matchingGrants w'.db w'.out.now q bucket
      (some (resourcePath w'.db d)) objectId ↔
      g ∈ d :: matchingGrants w.db w.out.now q bucket (some (resourcePath w'.db d))
        objectId := by
    intro g
    rw [hwith.mem_matchingGrants hcompany, List.mem_cons, or_comm]
    simp only [hheard, and_self, true_and]
  have huser : d.subjectType ≠ .user := fun h =>
    htype (hnone d ((hmem d).mpr (List.mem_cons_self ..)) h)
  have hsubject := subject_of_heard hheard.2.1 huser
  have hguard := hcovers ⟨above, hold⟩ hsubject
  obtain ⟨fields', b, s₁, s₂, resource, hread', hbucket, -, hopen, htarget, ⟨id, now, hrow⟩,
    -⟩ := runs_createGrant hrun
  obtain rfl : fields' = fields := by
    rw [hread] at hread'
    exact (Except.ok.inj hread').symm
  have hresolved := getAccessibleBucket_resolved hbucket
  obtain ⟨hb, -, hbname⟩ := mem_of_bucketNamed hresolved.found
  have hdcompany : d.companyId = b.companyId := congrArg StorageAccessGrant.companyId hrow
  have hdbucket : d.bucketId = b.id := congrArg StorageAccessGrant.bucketId hrow
  have hdeffect : d.effect = fields'.effect := congrArg StorageAccessGrant.effect hrow
  have hdsubject : d.subjectType = fields'.subjectType :=
    congrArg StorageAccessGrant.subjectType hrow
  cases heffect : d.effect with
  | allow =>
      rw [heffect] at hguard
      obtain ⟨above', marker, habove', hresource, hname, hancestor⟩ := hguard
      have hresourceType : fields'.resourceType ≠ .bucket := by
        intro hbucketType
        rw [hbucketType, grantTarget, runs_pure] at htarget
        have hmap : d.resource.map StorageObject.id = .bucket :=
          (congrArg StorageAccessGrant.resource hrow).trans htarget.1
        cases hd : d.resource with
        | bucket => simp [hd, Resource.type] at htype
        | folder marker => simp [hd, Resource.map] at hmap
        | object target => simp [hd, Resource.map] at hmap
      have hopens : fields'.opensToCompany = true := by
        simp [GrantFields.opensToCompany, ← hdeffect, ← hdsubject, heffect, hsubject,
          hresourceType]
      refine not_above_of_assertCanOpenToCompany hresolved.bucketsOnly hb hdbucket.symm habove'
        hresource hname hancestor (u := ()) ?_
      rw [hdcompany, hbname]
      exact hopen hopens
  | deny =>
      have hverdict : grantVerdict .read d = .refuse := by
        rw [heffect] at hguard
        have hpermission : d.permission = .read := hguard
        simp [grantVerdict, heffect, hpermission, denyBlocks]
      rw [evaluateAccess_eq_ruling _ _ _ _ _ hcompany] at hrefused hallowed
      rw [ruling_congr hmem, ruling_cons_of_refused (.inl hverdict) hrefused, hverdict] at hallowed
      simp at hallowed

theorem mem_activeGrants_of_deleted {w s w' : World} {d : Grant}
    (hrow : d.row ∈ w.db.grants.rows) (hd : w.db.selectRelated d.row = some d)
    (hkept : BucketsOnly w s) (hdeleted : w'.db = s.db.deleteGrant d.id) {now : Time}
    {companyId : Nat} {g : Grant} :
    g ∈ activeGrants w'.db now companyId ↔ g ∈ activeGrants w.db now companyId ∧ g ≠ d := by
  have hgrants : (s.db.deleteGrant d.id).grants = (w.db.deleteGrant d.id).grants := by
    simp only [Database.deleteGrant, hkept.grants]
  have hsame : activeGrants (s.db.deleteGrant d.id) now companyId =
      activeGrants (w.db.deleteGrant d.id) now companyId :=
    activeGrants_congr (by exact hkept.objects) hgrants now companyId
  rw [hdeleted, hsame, mem_activeGrants_deleteGrant hrow hd]

theorem GuardCovers.deleteGrant {w w' : World} {fault : Option (Point × Nat)}
    {principal : StoragePrincipal} {d : Grant}
    (hcovers : GuardCovers w false (resourcePath w.db d) d)
    (hrun : (deleteGrant env principal d.id).Runs (w.withFault fault) () w')
    (hrow : d.row ∈ w.db.grants.rows) (hjoined : w.db.selectRelated d.row = some d)
    (htype : d.resource.type ≠ .bucket) {bucket : Bucket}
    {q : StoragePrincipal} {path : Text} {objectId : Option UUID}
    (hnone : NoUserGrant w.db w.out.now q bucket path objectId)
    (hrefused : evaluateAccess w.db w.out.now q bucket (some path) objectId .read = false)
    (hallowed : evaluateAccess w'.db w'.out.now q bucket (some path) objectId .read = true)
    (above : Grant) : ¬PrivateAbove w'.db w'.out.now d above := by
  intro habove
  have hcompany := companyId_of_evaluateAccess hallowed
  obtain ⟨companyId, row, d', s₁, -, ⟨hmem, hid, hrowCompany⟩, hjoined', hkept, hopen, hdeleted,
    hnow⟩ := runs_deleteGrant hrun
  obtain rfl : row = d.row := w.db.grants.eq_of_clash hmem hrow hid
  obtain rfl : d' = d := Option.some.inj (hjoined'.symm.trans hjoined)
  have hnow' : w'.out.now = w.out.now := hnow.trans hkept.now
  have hactive : ∀ {companyId : Nat} {g : Grant}, g ∈ activeGrants w'.db w.out.now companyId ↔
      g ∈ activeGrants w.db w.out.now companyId ∧ g ≠ d' :=
    mem_activeGrants_of_deleted (w := w.withFault fault) hrow hjoined hkept hdeleted
  have hold : PrivateAbove w.db w.out.now d' above := by
    rw [hnow'] at habove
    exact habove.congr htype (hactive.mp habove.active).1
  have hmatching : ∀ g, g ∈ matchingGrants w'.db w.out.now q bucket (some path) objectId ↔
      g ∈ matchingGrants w.db w.out.now q bucket (some path) objectId ∧ g ≠ d' := by
    intro g
    rw [mem_matchingGrants hcompany, mem_matchingGrants hcompany, hactive]
    exact and_right_comm
  -- what was refused rested on the deleted grant, a deny the guard looks at
  have hground : d' ∈ refusalGrounds w.db w.out.now q bucket (some path) objectId .read := by
    have hruling := hrefused
    rw [hnow'] at hallowed
    rw [evaluateAccess_eq_ruling _ _ _ _ _ hcompany] at hruling hallowed
    by_contra hnot
    have hsubset : ∀ g ∈ matchingGrants w'.db w.out.now q bucket (some path) objectId,
        g ∈ matchingGrants w.db w.out.now q bucket (some path) objectId := fun g hg =>
      ((hmatching g).mp hg).1
    cases hgrounds : refusalGrounds w.db w.out.now q bucket (some path) objectId .read with
    | nil =>
        have hnil := grounds_eq_nil hgrounds
        have hmem : ∀ g, g ∈ matchingGrants w'.db w.out.now q bucket (some path) objectId ↔
            g ∈ matchingGrants w.db w.out.now q bucket (some path) objectId :=
          fun g => ⟨hsubset g, fun hg => by simp [hnil] at hg⟩
        rw [ruling_congr hmem, hruling] at hallowed
        contradiction
    | cons g grounds' =>
        have hg : g ∈ refusalGrounds w.db w.out.now q bucket (some path) objectId .read := by
          rw [hgrounds]
          exact List.mem_cons_self ..
        have hne : g ≠ d' := by
          rintro rfl
          exact hnot hg
        have hmem' := (hmatching g).mpr ⟨(mem_top.mp (mem_top_of_mem_grounds hg)).1, hne⟩
        rw [refused_of_mem_grounds hsubset hruling hg hmem'] at hallowed
        contradiction
  obtain ⟨heffect, hblocks⟩ : d'.effect = .deny ∧ denyBlocks d'.permission .read = true := by
    simpa [grantVerdict_refuse] using
      beq_iff_eq.mpr (refuse_of_mem_refusalGrounds hcompany hrefused hground)
  have hpermission : d'.permission = .read := denyBlocks_read.mp hblocks
  have hheard := (mem_top.mp (mem_top_of_mem_grounds hground)).1
  have hsubject : d'.subjectType = .company :=
    subject_of_heard ((mem_matchingGrants hcompany).mp hheard).2.1 fun huser =>
      htype (hnone d' hheard huser)
  have hguard := hcovers ⟨above, hold⟩ hsubject
  rw [heffect] at hguard
  obtain ⟨above', marker, habove', hresource, hname, hancestor⟩ := hguard hpermission
  obtain ⟨b, hb, hbid⟩ := w.db.grantBucket d'.row hrow
  obtain ⟨b', hb', hbid', -, hbname⟩ := hkept.kept b hb
  refine not_above_of_assertCanOpenToCompany (w := w.withFault fault) hkept hb'
    (hbid'.trans hbid) habove' hresource hname hancestor (u := ()) ?_
  have hfound : (w.db.bucketById d'.bucketId).map Bucket.name = some b.name := by
    have := Database.bucketById_of_mem hb
    rw [hbid] at this
    exact congrArg (Option.map Bucket.name) this
  have hopened := hopen ⟨heffect, hsubject, hpermission, htype⟩
  rw [← hrowCompany] at hopened
  change (assertCanOpenToCompany d'.companyId
    (((w.db.bucketById d'.bucketId).map Bucket.name).getD []) (resourcePath w.db d')).Runs s₁ ()
      s₁ at hopened
  rwa [hfound, Option.getD_some, ← hbname] at hopened

/--
Nothing is opened to the company below a private folder: whoever has no grants
of their own and can read a path only since the call reads it below no folder
that is closed to the company, where the guard covers the path.
-/
theorem not_privateAbove_of_opened {w w' : World} {made : Bool} {spelled : Text} {d : Grant}
    (h : Regrants env w w' made spelled d) (hcovers : GuardCovers w made spelled d)
    (htype : d.resource.type ≠ .bucket) (bucket : Bucket) (q : StoragePrincipal)
    (objectId : Option UUID)
    (hnone : NoUserGrant w.db w.out.now q bucket (resourcePath w'.db d) objectId ∧
      NoUserGrant w'.db w'.out.now q bucket (resourcePath w'.db d) objectId)
    (hrefused : evaluateAccess w.db w.out.now q bucket (some (resourcePath w'.db d)) objectId
      .read = false)
    (hallowed : evaluateAccess w'.db w'.out.now q bucket (some (resourcePath w'.db d)) objectId
      .read = true) : ¬∃ above, PrivateAbove w'.db w'.out.now d above := by
  rintro ⟨above, habove⟩
  cases h with
  | @created principal data fields fault g _ read run joined =>
      obtain ⟨d', hrow, hwith⟩ := createGrant_grantsWith run
      obtain rfl : d' = d := by
        have hjoined := hwith.joined
        rw [hrow, joined] at hjoined
        exact (Option.some.inj hjoined).symm
      rw [← hrow] at run
      exact hcovers.createGrant read run hwith htype hnone.2 hrefused hallowed above habove
  | deleted run row joined =>
      exact hcovers.deleteGrant run row joined htype hnone.1 hrefused hallowed above habove

def ungrantedBy (userId : Nat) (id : UUID) (w : World) : World :=
  (deleteGrant (sampleEnv false) (member userId) id (w.withFault none)).2

theorem ungrantedBy_runs (userId : Nat) (id : UUID) (w : World)
    (h : (deleteGrant (sampleEnv false) (member userId) id
      (w.withFault none)).1.toOption.any (fun _ => true) = true) :
    (deleteGrant (sampleEnv false) (member userId) id).Runs (w.withFault none) ()
      (ungrantedBy userId id w) := by
  obtain ⟨_, hrun, -⟩ := runs_of_any h
  exact hrun

/-- Member 2, who has no grants of their own, can read an object only since the call. -/
def opened (w w' : World) (d : Grant) : Bool :=
  let path := resourcePath w'.db d
  decide (d.resource.type = .object ∧
    (∀ g ∈ matchingGrants w.db w.out.now (member 2) sampleBucket (some path) none,
      g.subjectType ≠ .user) ∧
    (∀ g ∈ matchingGrants w'.db w'.out.now (member 2) sampleBucket (some path) none,
      g.subjectType ≠ .user) ∧
    evaluateAccess w.db w.out.now (member 2) sampleBucket (some path) none .read = false ∧
    evaluateAccess w'.db w'.out.now (member 2) sampleBucket (some path) none .read = true)

theorem not_privateAbove_of_opened_privateFile :
    ∃ d ∈ activeGrants privateFile.db privateFile.out.now 1, d.effect = .deny ∧
      ¬∃ above, PrivateAbove (ungrantedBy 1 d.id privateFile).db
        (ungrantedBy 1 d.id privateFile).out.now d above := by
  have hdeny : ∃ d ∈ activeGrants privateFile.db privateFile.out.now 1, d.effect = .deny ∧
      (deleteGrant (sampleEnv false) (member 1) d.id
        (privateFile.withFault none)).1.toOption.any (fun _ => true) = true ∧
      opened privateFile (ungrantedBy 1 d.id privateFile) d = true := by
    decide +kernel
  obtain ⟨d, hd, heffect, hany, hopened⟩ := hdeny
  simp only [opened, decide_eq_true_eq] at hopened
  obtain ⟨htype, hbefore, hafter, hrefused, hallowed⟩ := hopened
  have hnone : ∀ g ∈ activeGrants privateFile.db privateFile.out.now 1,
      g.resource.type ≠ .folder := by
    decide +kernel
  obtain ⟨⟨hcompany, -⟩, hrow, hjoined⟩ := mem_activeGrants.mp hd
  have hregrants : Regrants (sampleEnv false) privateFile (ungrantedBy 1 d.id privateFile) false
      _ d := .deleted (ungrantedBy_runs 1 d.id privateFile hany) hrow
    (Database.selectRelated_eq_some.mpr ⟨rfl, hjoined⟩)
  refine ⟨d, hd, heffect, not_privateAbove_of_opened hregrants ?_ ?_ sampleBucket (member 2) none
    ⟨fun g hg huser => absurd huser (hbefore g hg), fun g hg huser => absurd huser (hafter g hg)⟩
    hrefused hallowed⟩
  · rintro ⟨above, habove⟩
    obtain ⟨marker, hresource, -⟩ := habove.proper
    have hactive := habove.active
    rw [hcompany] at hactive
    exact absurd (by rw [hresource]; rfl) (hnone above hactive)
  · simp [htype]

def publishObject (resourceId : Text) : GrantRequest :=
  sampleRequest ['a', 'l', 'l', 'o', 'w'] ['c', 'o', 'm', 'p', 'a', 'n', 'y'] ['1']
    ['o', 'b', 'j', 'e', 'c', 't'] resourceId ['r', 'e', 'a', 'd']

def publishPrivate : GrantRequest := publishObject (uuidText ((sampleEnv false).uuid4 4))

def privateAbove (w : World) (d : Grant) : Bool :=
  (activeGrants w.db w.out.now d.companyId).any fun above =>
    decide (above.bucketId = d.bucketId) && deniesCompanyRead d.companyId above &&
      above.resource.object?.any fun marker => decide (above.resource = .folder marker ∧
        folderMatches (folderPathOf marker) (resourcePath w.db d) = true ∧
        normalizePath (folderPathOf marker) ≠ normalizePath (resourcePath w.db d))

theorem privateAbove_iff {w : World} {d : Grant} :
    privateAbove w d = true ↔ ∃ above, PrivateAbove w.db w.out.now d above := by
  simp only [privateAbove, List.any_eq_true, Bool.and_eq_true, decide_eq_true_eq,
    Option.any_eq_true]
  constructor
  · rintro ⟨above, hactive, ⟨hbucket, hdenies⟩, marker, -, hproper⟩
    exact ⟨above, hactive, hbucket, hdenies, marker, hproper⟩
  · rintro ⟨above, hactive, hbucket, hdenies, marker, hresource, hproper⟩
    exact ⟨above, hactive, ⟨hbucket, hdenies⟩, marker, by simp [hresource, Resource.object?],
      hresource, hproper⟩

/-- Member 1 publishes a file in the private folder by its UUID. -/
theorem not_not_privateAbove_of_opened :
    ¬∀ (w w' : World) (made : Bool) (spelled : Text) (d : Grant),
      Reachable (sampleEnv false) w → Regrants (sampleEnv false) w w' made spelled d →
      d.resource.type ≠ .bucket →
      ∀ (bucket : Bucket) (q : StoragePrincipal) (objectId : Option UUID),
      NoUserGrant w.db w.out.now q bucket (resourcePath w'.db d) objectId ∧
        NoUserGrant w'.db w'.out.now q bucket (resourcePath w'.db d) objectId →
      evaluateAccess w.db w.out.now q bucket (some (resourcePath w'.db d)) objectId
        .read = false →
      evaluateAccess w'.db w'.out.now q bucket (some (resourcePath w'.db d)) objectId
        .read = true → ¬∃ above, PrivateAbove w'.db w'.out.now d above := by
  intro h
  obtain ⟨g, hrun, hg⟩ := grantedBy_runs 1 publishPrivate privateFolder
    (p := fun g => ((grantedBy 1 publishPrivate privateFolder).db.selectRelated g).any fun d =>
      opened privateFolder (grantedBy 1 publishPrivate privateFolder) d &&
        privateAbove (grantedBy 1 publishPrivate privateFolder) d) (by decide +kernel)
  simp only [Option.any_eq_true, Bool.and_eq_true, opened, decide_eq_true_eq] at hg
  obtain ⟨d, hjoined, ⟨htype, hbefore, hafter, hrefused, hallowed⟩, habove⟩ := hg
  obtain ⟨fields, hread⟩ : ∃ fields,
      readGrantRequest (sampleEnv false) publishPrivate = .ok fields := by
    obtain ⟨fields, _, _, _, _, hread, -⟩ := runs_createGrant hrun
    exact ⟨fields, hread⟩
  exact h privateFolder (grantedBy 1 publishPrivate privateFolder) true fields.resourceId d
    privateFolder_reachable (.created hread hrun hjoined) (by simp [htype]) sampleBucket
    (member 2) none
    ⟨fun g hg huser => absurd huser (hbefore g hg), fun g hg huser => absurd huser (hafter g hg)⟩
    hrefused hallowed (privateAbove_iff.mp habove)

end StorageService.Results
