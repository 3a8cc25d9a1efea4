import StorageService.Storage.Requests

/-!
# Changing the grants and the decision

How the answer of `evaluateAccess` moves when a grant is added, when objects are
deleted and when objects are created.
-/

namespace StorageService.Results

open StorageService.Foundation
open StorageService.Foundation.Action
open StorageService.Storage

variable {env : Env}

/-! ## One more grant -/

theorem mem_activeGrants_of_added {db db' : Database} {d : Grant}
    (hobject : ∀ o, d.resource.object? = some o → o ∈ db.objects.rows)
    (hobjects : db'.objects = db.objects) (hgrants : db'.grants.rows = db.grants.rows ++ [d.row])
    {now : Time} {companyId : Nat} {g : Grant} :
    g ∈ activeGrants db' now companyId ↔ g ∈ activeGrants db now companyId ∨
      (d.companyId = companyId ∧ d.active now = true) ∧ g = d := by
  have hself : db.selectRelated d.row = some d :=
    Database.selectRelated_eq_some.mpr ⟨rfl, hobject⟩
  have hnew : (g.row = d.row ∧ ∀ o, g.resource.object? = some o → o ∈ db.objects.rows) ↔
      g = d := by
    rw [← Database.selectRelated_eq_some, hself, Option.some.injEq, eq_comm]
  simp only [mem_activeGrants, hgrants, hobjects, List.mem_append, List.mem_singleton,
    or_and_right, and_or_left, hnew]
  refine or_congr_right (and_congr_left ?_)
  rintro rfl
  rfl

theorem mem_activeGrants_createGrant {db db' : Database} {d : Grant}
    (hobject : ∀ o, d.resource.object? = some o → o ∈ db.objects.rows)
    (hadd : db.createGrant d.row = some db') {now : Time} {companyId : Nat} {g : Grant} :
    g ∈ activeGrants db' now companyId ↔ g ∈ activeGrants db now companyId ∨
      (d.companyId = companyId ∧ d.active now = true) ∧ g = d := by
  obtain ⟨-, hobjects, hgrants, -, -⟩ := Database.createGrant_eq_some hadd
  exact mem_activeGrants_of_added hobject hobjects hgrants

theorem mem_activeGrants_deleteGrant {db : Database} {d : Grant}
    (hrow : d.row ∈ db.grants.rows) (hd : db.selectRelated d.row = some d) {now : Time}
    {companyId : Nat} {g : Grant} :
    g ∈ activeGrants (db.deleteGrant d.id) now companyId ↔
      g ∈ activeGrants db now companyId ∧ g ≠ d := by
  have hgrants : (db.deleteGrant d.id).grants.rows =
      db.grants.rows.filter fun g => decide (g.id ≠ d.id) := by
    simp [Database.deleteGrant]
  have hobjects : (db.deleteGrant d.id).objects = db.objects := rfl
  rw [mem_activeGrants, mem_activeGrants, hobjects, hgrants, List.mem_filter, decide_eq_true_eq]
  constructor
  · rintro ⟨hactive, ⟨hmem, hne⟩, hjoin⟩
    exact ⟨⟨hactive, hmem, hjoin⟩, fun heq => hne (congrArg StorageAccessGrant.id heq)⟩
  · rintro ⟨⟨hactive, hmem, hjoin⟩, hne⟩
    refine ⟨hactive, ⟨hmem, fun hid => hne ?_⟩, hjoin⟩
    have hsame : g.row = d.row := db.grants.eq_of_clash hmem hrow hid
    have hg : db.selectRelated g.row = some g :=
      Database.selectRelated_eq_some.mpr ⟨rfl, hjoin⟩
    rw [hsame, hd] at hg
    exact (Option.some.inj hg).symm

/--
The grant `d`, about to be added, would be heard alone, would not block, and
the bucket is open by default: the deny displaces whatever refused so far.
-/
structure Displaces (db : Database) (now : Time) (principal : StoragePrincipal)
    (bucket : Bucket) (path : Option Text) (objectId : Option UUID) (required : Permission)
    (d : Grant) : Prop where
  company : d.companyId = bucket.companyId
  active : d.active now = true
  subject : subjectMatches d principal = true
  resource : resourceMatchesGrant d bucket path objectId = true
  passes : denyBlocks d.permission required = false
  above : ∀ g ∈ activeGrants db now bucket.companyId, subjectMatches g principal = true →
    resourceMatchesGrant g bucket path objectId = true →
      grantSpecificity g < grantSpecificity d
  openByDefault : kindDefaultAllows principal bucket required = true

theorem grantVerdict_of_deny (required : Permission) {g : Grant}
    (hdeny : g.effect = .deny) :
    grantVerdict required g = if denyBlocks g.permission required then .refuse else .silent := by
  simp [grantVerdict, hdeny]

private theorem company_of_default {principal : StoragePrincipal} {bucket : Bucket}
    {required : Permission} (h : kindDefaultAllows principal bucket required = true) :
    principal.companyId = some bucket.companyId := by
  by_contra hne
  simp [kindDefaultAllows, hne] at h

/--
A refused request stays refused when a deny is added, except exactly when the
deny is too weak to block it and is heard alone in a bucket open by default.
-/
theorem refused_after_deny_iff (db db' : Database) (now : Time)
    (principal : StoragePrincipal) (bucket : Bucket) (path : Option Text)
    (objectId : Option UUID) (required : Permission) (d : Grant)
    (hobject : ∀ o, d.resource.object? = some o → o ∈ db.objects.rows)
    (hdeny : d.effect = .deny) (hadd : db.createGrant d.row = some db')
    (hrefused : evaluateAccess db now principal bucket path objectId required = false) :
    evaluateAccess db' now principal bucket path objectId required = false ↔
      ¬Displaces db now principal bucket path objectId required d := by
  by_cases hcompany : principal.companyId = some bucket.companyId
  swap
  · -- another company: refused before and after, and the default never permits
    have hno : ¬Displaces db now principal bucket path objectId required d := fun h =>
      hcompany (company_of_default h.openByDefault)
    simp [evaluateAccess, hcompany, hno]
  rw [evaluateAccess_eq_ruling _ _ _ _ _ hcompany] at hrefused ⊢
  by_cases hmatch : (d.companyId = bucket.companyId ∧ d.active now = true) ∧
      subjectMatches d principal = true ∧ resourceMatchesGrant d bucket path objectId = true
  · obtain ⟨⟨hdcompany, hactive⟩, hsubject, hresource⟩ := hmatch
    have hverdict := grantVerdict_of_deny required hdeny
    have hmem : ∀ g, g ∈ matchingGrants db' now principal bucket path objectId ↔
        g ∈ d :: matchingGrants db now principal bucket path objectId := by
      intro g
      rw [mem_matchingGrants hcompany, List.mem_cons, mem_matchingGrants hcompany,
        mem_activeGrants_createGrant hobject hadd]
      constructor
      · rintro ⟨hold | ⟨-, rfl⟩, hs, hr⟩
        · exact .inr ⟨hold, hs, hr⟩
        · exact .inl rfl
      · rintro (rfl | ⟨hold, hs, hr⟩)
        · exact ⟨.inr ⟨⟨hdcompany, hactive⟩, rfl⟩, hsubject, hresource⟩
        · exact ⟨.inl hold, hs, hr⟩
    rw [ruling_congr hmem]
    have hiff := ruling_cons_of_refused (d := d)
      (by rw [hverdict]; split <;> simp) hrefused
    rw [← Bool.not_eq_true, hiff, not_iff_not]
    constructor
    · rintro ⟨hsilent, habove, hdefault⟩
      refine ⟨hdcompany, hactive, hsubject, hresource, ?_, ?_, hdefault⟩
      · by_contra hblocks
        simp [hverdict, hblocks] at hsilent
      · intro g hg hs hr
        exact habove g ((mem_matchingGrants hcompany).mpr ⟨hg, hs, hr⟩)
    · intro hdisplaces
      refine ⟨by simp [hverdict, hdisplaces.passes], ?_, hdisplaces.openByDefault⟩
      intro g hg
      obtain ⟨hactiveg, hs, hr⟩ := (mem_matchingGrants hcompany).mp hg
      exact hdisplaces.above g hactiveg hs hr
  · have hmem : ∀ g, g ∈ matchingGrants db' now principal bucket path objectId ↔
        g ∈ matchingGrants db now principal bucket path objectId := by
      intro g
      rw [mem_matchingGrants hcompany, mem_matchingGrants hcompany,
        mem_activeGrants_createGrant hobject hadd]
      constructor
      · rintro ⟨hold | ⟨hd, rfl⟩, hs, hr⟩
        · exact ⟨hold, hs, hr⟩
        · exact absurd ⟨hd, hs, hr⟩ hmatch
      · rintro ⟨hold, hs, hr⟩
        exact ⟨.inl hold, hs, hr⟩
    rw [ruling_congr hmem]
    refine iff_of_true hrefused fun hdisplaces => hmatch ?_
    exact ⟨⟨hdisplaces.company, hdisplaces.active⟩, hdisplaces.subject, hdisplaces.resource⟩

def closedBucket : World :=
  play (sampleEnv false)
    [.companyBucket 1,
      .createGrant (staffMember 9)
        (denyRequest ['b', 'u', 'c', 'k', 'e', 't'] companyBucketName ['r', 'e', 'a', 'd'])]
    .initial

def memberDeny (permission : Permission) : Grant where
  id := 7
  companyId := 1
  bucketId := sampleBucket.id
  subjectType := .user
  subjectId := ['2']
  resource := .bucket
  permission := permission
  effect := .deny
  createdById := some 9
  createdAt := 0
  expiresAt := none
  notes := []

def withMemberDeny (permission : Permission) : Database :=
  (closedBucket.db.createGrant (memberDeny permission).row).getD closedBucket.db

theorem createGrant_memberDeny (permission : Permission) :
    closedBucket.db.createGrant (memberDeny permission).row =
      some (withMemberDeny permission) := by
  have hsome : (closedBucket.db.createGrant (memberDeny permission).row).isSome = true := by
    cases permission <;> decide +kernel
  obtain ⟨db, hdb⟩ := Option.isSome_iff_exists.mp hsome
  simp [withMemberDeny, hdb]

theorem refused_after_deny_iff_closedBucket :
    evaluateAccess (withMemberDeny .read) 0 (member 2) sampleBucket (some ['a']) none
        .read = false ↔
      ¬Displaces closedBucket.db 0 (member 2) sampleBucket (some ['a']) none .read
        (memberDeny .read) :=
  refused_after_deny_iff closedBucket.db (withMemberDeny .read) 0 (member 2) sampleBucket
    (some ['a']) none .read (memberDeny .read) (by simp [memberDeny, Resource.object?]) rfl
    (createGrant_memberDeny .read) (by decide +kernel)

/-- Denying a member of the company to write lets that member read. -/
theorem not_refused_after_deny :
    ¬∀ (db db' : Database) (now : Time) (principal : StoragePrincipal) (bucket : Bucket)
      (path : Option Text) (objectId : Option UUID) (required : Permission) (d : GrantRow),
      d.effect = .deny → d.active now = true → db.createGrant d = some db' →
      evaluateAccess db now principal bucket path objectId required = false →
        evaluateAccess db' now principal bucket path objectId required = false := by
  intro h
  have hrefused := h closedBucket.db (withMemberDeny .write) 0 (member 2) sampleBucket
    (some ['a']) none .read (memberDeny .write).row rfl rfl (createGrant_memberDeny .write)
    (by decide +kernel)
  revert hrefused
  decide +kernel

/-! ## Deleting objects -/

def refusalGrounds (db : Database) (now : Time) (principal : StoragePrincipal)
    (bucket : Bucket) (path : Option Text) (objectId : Option UUID)
    (required : Permission) : List Grant :=
  grounds grantSpecificity (grantVerdict required)
    (matchingGrants db now principal bucket path objectId)

theorem refuse_of_mem_refusalGrounds {db : Database} {now : Time}
    {principal : StoragePrincipal} {bucket : Bucket} {path : Option Text}
    {objectId : Option UUID} {d : Grant}
    (hcompany : principal.companyId = some bucket.companyId)
    (hrefused : evaluateAccess db now principal bucket path objectId .read = false)
    (hd : d ∈ refusalGrounds db now principal bucket path objectId .read) :
    grantVerdict .read d = .refuse := by
  have hdefault : kindDefaultAllows principal bucket .read = true := by
    cases hkind : bucket.kind <;> simp [kindDefaultAllows, hcompany, hkind]
  rw [evaluateAccess_eq_ruling _ _ _ _ _ hcompany, hdefault] at hrefused
  refine refuse_of_mem_grounds (fun g _ => ?_) hrefused hd
  cases heffect : g.effect with
  | allow => simp [grantVerdict, heffect, permissionAtLeast, permissionRank]
  | deny => cases hblocks : denyBlocks g.permission .read <;>
      simp [grantVerdict, heffect, hblocks]

def HangsOn (objs : List StorageObject) (g : Grant) : Prop :=
  ∃ o ∈ objs, g.row.resource.object? = some o.id

instance (objs : List StorageObject) (g : Grant) : Decidable (HangsOn objs g) :=
  inferInstanceAs (Decidable (∃ o ∈ objs, _))

/-- After a deletion the grants on the deleted objects are gone, and no others. -/
theorem mem_matchingGrants_of_allRemoved {s s' : World} {objs : List StorageObject}
    (h : AllRemoved s objs s') {now : Time} {principal : StoragePrincipal} {bucket : Bucket}
    {path : Option Text} {objectId : Option UUID} {g : Grant} :
    g ∈ matchingGrants s'.db now principal bucket path objectId ↔
      g ∈ matchingGrants s.db now principal bucket path objectId ∧ ¬HangsOn objs g := by
  cases hcompany : principal.companyId with
  | none => simp [matchingGrants, hcompany]
  | some companyId =>
      have hkept : ¬HangsOn objs g → ∀ o, g.resource.object? = some o →
          ∀ obj ∈ objs, o.id ≠ obj.id := by
        intro hnot o ho obj hobj hid
        refine hnot ⟨obj, hobj, ?_⟩
        simp [StorageAccessGrant.row, Resource.object?_map, ho, hid]
      rw [mem_matchingGrants hcompany, mem_matchingGrants hcompany, mem_activeGrants,
        mem_activeGrants, h.grants]
      simp only [h.objects]
      constructor
      · rintro ⟨⟨hactive, ⟨hrow, hnot⟩, hrows⟩, hmatch⟩
        refine ⟨⟨⟨hactive, hrow, fun o ho => (hrows o ho).1⟩, hmatch⟩, ?_⟩
        rintro ⟨obj, hobj, href⟩
        exact hnot obj hobj href
      · rintro ⟨⟨⟨hactive, hrow, hrows⟩, hmatch⟩, hnot⟩
        refine ⟨⟨hactive, ⟨hrow, fun obj hobj href => hnot ⟨obj, hobj, href⟩⟩, ?_⟩, hmatch⟩
        exact fun o ho => ⟨hrows o ho, hkept hnot o ho⟩

/--
What was refused before a deletion is refused after it, unless every grant the
refusal rested on hung on a deleted object.
-/
theorem refused_after_deletion {w w' : World} {d : Deletion}
    (h : Succeeds env (.delete d) w w') (principal : StoragePrincipal) (bucket : Bucket)
    (path : Option Text) (objectId : Option UUID) (required : Permission)
    (hrefused : evaluateAccess w.db w.out.now principal bucket path objectId required = false)
    (hkept : refusalGrounds w.db w.out.now principal bucket path objectId required = [] ∨
      ∃ g ∈ refusalGrounds w.db w.out.now principal bucket path objectId required,
        ¬HangsOn (d.objects w.db) g) :
    evaluateAccess w'.db w'.out.now principal bucket path objectId required = false := by
  have hremoved := h.allRemoved
  by_cases hcompany : principal.companyId = some bucket.companyId
  swap
  · simp [evaluateAccess, hcompany]
  rw [evaluateAccess_eq_ruling _ _ _ _ _ hcompany] at hrefused ⊢
  rw [hremoved.now]
  have hsubset : ∀ g ∈ matchingGrants w'.db w.out.now principal bucket path objectId,
      g ∈ matchingGrants w.db w.out.now principal bucket path objectId := fun g hg =>
    ((mem_matchingGrants_of_allRemoved hremoved).mp hg).1
  rcases hkept with hnil | ⟨g, hground, hnot⟩
  · rw [← hrefused]
    have hnone := grounds_eq_nil hnil
    apply ruling_congr
    intro g
    refine ⟨hsubset g, fun hg => ?_⟩
    simp [hnone] at hg
  · have hg := mem_top.mp (mem_top_of_mem_grounds hground)
    exact refused_of_mem_grounds hsubset hrefused hground
      ((mem_matchingGrants_of_allRemoved hremoved).mpr ⟨hg.1, hnot⟩)

def privateFolder : World :=
  play (sampleEnv false)
    [.companyBucket 1,
      .upload (sampleUpload (folderPlaceholderPath ['a']) [] 1),
      .upload (sampleUpload ['a', '/', 'x'] [97] 1),
      .upload (sampleUpload ['a', '/', 'y'] [98] 1)]
    .initial

theorem privateFolder_reachable : Reachable (sampleEnv false) privateFolder :=
  Reachable.play .refl (by decide +kernel)

def deleteFromFolder (path : Text) : Deletion := .paths sampleBucket (member 1) [path]

def withoutObject (path : Text) : World :=
  (Operation.delete (deleteFromFolder path)).after (sampleEnv false) privateFolder

theorem deleteFromFolder_succeeds {path : Text}
    (hok : (((Operation.delete (deleteFromFolder path)).run (sampleEnv false)
      (privateFolder.withFault none)).1.toOption.any fun _ => true) = true) :
    Succeeds (sampleEnv false) (.delete (deleteFromFolder path)) privateFolder
      (withoutObject path) :=
  have hbucket : sampleBucket ∈ privateFolder.db.buckets.rows := by decide +kernel
  .after hbucket hok

theorem refused_after_deletion_privateFolder :
    evaluateAccess (withoutObject ['a', '/', 'y']).db 0 (member 2) sampleBucket
      (some ['a', '/', 'x']) none .read = false :=
  refused_after_deletion (deleteFromFolder_succeeds (by decide +kernel)) (member 2)
    sampleBucket (some ['a', '/', 'x']) none .read (by decide +kernel)
    (.inr (by decide +kernel))

/-- Deleting the marker of the folder opens its files to member 2. -/
theorem not_refused_after_deletion :
    ¬∀ (w w' : World) (d : Deletion), Reachable (sampleEnv false) w →
      Succeeds (sampleEnv false) (.delete d) w w' →
      ∀ o ∈ w'.db.objects.rows, ∀ bucket ∈ w'.db.buckets.rows, bucket.id = o.bucketId →
      ∀ (principal : StoragePrincipal) (required : Permission),
        principal.companyId = some bucket.companyId →
        evaluateAccess w.db w.out.now principal bucket (some o.name) (some o.id) required =
          false →
        evaluateAccess w'.db w'.out.now principal bucket (some o.name) (some o.id) required =
          false := by
  intro h
  have hrefused := h privateFolder (withoutObject (folderPlaceholderPath ['a'])) _
    privateFolder_reachable (deleteFromFolder_succeeds (by decide +kernel))
  have hopen : ∃ o ∈ (withoutObject (folderPlaceholderPath ['a'])).db.objects.rows,
      sampleBucket.id = o.bucketId ∧
        evaluateAccess privateFolder.db privateFolder.out.now (member 2) sampleBucket
          (some o.name) (some o.id) .read = false ∧
        evaluateAccess (withoutObject (folderPlaceholderPath ['a'])).db
          (withoutObject (folderPlaceholderPath ['a'])).out.now (member 2) sampleBucket
          (some o.name) (some o.id) .read = true := by
    decide +kernel
  obtain ⟨o, ho, hbucket, hbefore, hafter⟩ := hopen
  have hno := hrefused o ho sampleBucket (by decide +kernel) hbucket (member 2) .read rfl
    hbefore
  rw [hafter] at hno
  exact Bool.noConfusion hno

/-! ## Creating objects -/

inductive Creates (env : Env) (w : World) (obj : StorageObject) (w' : World) : Prop where
  | upload (u : Upload) (fault : Option (Point × Nat)) (loaded : u.bucket ∈ w.db.buckets.rows)
      (hrun : (u.run env).Runs (w.withFault fault) obj w')
      (hnew : u.existing w.db = none)
  | copy (bucket destBucket : Bucket) (source dest : Text) (ownerId : Option Nat)
      (fault : Option (Point × Nat))
      (loaded : bucket ∈ w.db.buckets.rows ∧ destBucket ∈ w.db.buckets.rows)
      (hrun : (copyObject env bucket source destBucket dest ownerId).Runs (w.withFault fault)
        obj w')

theorem Creates.created {w w' : World} {obj : StorageObject} (h : Creates env w obj w') :
    ∃ fault data, Created env (w.withFault fault) obj data w' := by
  cases h with
  | upload u fault loaded hrun hnew =>
      obtain ⟨name, hname, ⟨existing, hexisting, -⟩ | ⟨-, hcreated, -⟩⟩ :=
        uploadObject_cases hrun
      · have hnone : w.db.objectNamed u.bucket.id name = none := by
          simpa [Upload.existing, hname] using hnew
        exact absurd (hexisting.symm.trans hnone) (by simp)
      · exact ⟨fault, u.data, hcreated⟩
  | copy bucket destBucket source dest ownerId fault loaded hrun =>
      obtain ⟨-, -, -, data, -, -, -, -, -, hcreated, -⟩ := copyObject_created hrun
      exact ⟨fault, data, hcreated⟩

def covers (obj : StorageObject) (path : Text) : Bool :=
  if placeholderSuffix <:+ normalizePath obj.name then
    folderMatches (folderPathOf obj) (normalizePath path)
  else decide (normalizePath obj.name = normalizePath path)

/-- A grant on `obj` itself matches another object only where `obj` covers its name. -/
theorem covers_of_resourceMatchesGrant {g : Grant} {obj o : StorageObject} {bucket : Bucket}
    (hown : g.row.resource = ownResource obj) (hobj : g.resource.object? = some obj)
    (hne : o.id ≠ obj.id)
    (hmatch : resourceMatchesGrant g bucket (some o.name) (some o.id) = true) :
    covers obj o.name = true := by
  unfold resourceMatchesGrant at hmatch
  unfold ownResource at hown
  unfold covers
  cases hresource : g.resource with
  | bucket => simp [hresource, Resource.object?] at hobj
  | folder marker =>
      obtain rfl : marker = obj := by simpa [hresource, Resource.object?] using hobj
      split at hmatch
      · contradiction
      · split at hown
        · rename_i hmarker
          simpa [hresource, hmarker] using hmatch
        · simp [StorageAccessGrant.row, hresource, Resource.map] at hown
  | object target =>
      obtain rfl : target = obj := by simpa [hresource, Resource.object?] using hobj
      split at hmatch
      · contradiction
      · split at hown
        · simp [StorageAccessGrant.row, hresource, Resource.map] at hown
        · rename_i hfile
          simp only [hresource, Option.some.injEq, hne, if_false, Option.getD_some,
            decide_eq_true_eq] at hmatch
          simpa [hfile] using hmatch.2

/--
Creating an object leaves the decisions about all other objects alone, but for
those inside the folder a new marker stands for or named like a new file.
-/
theorem evaluateAccess_after_creation {w w' : World} {obj : StorageObject}
    (h : Creates env w obj w') (o : StorageObject) (ho : o ∈ w.db.objects.rows)
    (hout : covers obj o.name = false) (principal : StoragePrincipal) (bucket : Bucket)
    (required : Permission) :
    evaluateAccess w'.db w'.out.now principal bucket (some o.name) (some o.id) required =
      evaluateAccess w.db w.out.now principal bucket (some o.name) (some o.id) required := by
  obtain ⟨fault, data, hcreated⟩ := h.created
  rw [hcreated.now]
  cases hcompany : principal.companyId with
  | none => simp [evaluateAccess, hcompany]
  | some companyId =>
      obtain ⟨new, hgrants, hown⟩ := hcreated.grants
      have hfresh : ∀ p ∈ w.db.objects.rows, p.id ≠ obj.id := fun p hp hid =>
        hcreated.free p hp (.inl hid)
      apply evaluateAccess_of_matchingGrants
      intro g
      rw [mem_matchingGrants hcompany, mem_matchingGrants hcompany,
        mem_activeGrants_of_granted hfresh hcreated.objects hgrants
          fun g hg => by rw [hown g hg, ownResource_object?]]
      constructor
      · rintro ⟨hold | ⟨-, hrow, hobj⟩, hsubject, hresource⟩
        · exact ⟨hold, hsubject, hresource⟩
        · have hcovers := covers_of_resourceMatchesGrant (hown g.row hrow) hobj (hfresh o ho)
            hresource
          rw [hout] at hcovers
          contradiction
      · rintro ⟨hactive, hmatches⟩
        exact ⟨.inl hactive, hmatches⟩

def openedFile : World :=
  play (sampleEnv false)
    [.companyBucket 1, .upload (sampleUpload ['b', '/', 'x'] [97] 1),
      .deleteGrant (member 1) ((sampleEnv false).uuid4 2)]
    .initial

theorem openedFile_reachable : Reachable (sampleEnv false) openedFile :=
  Reachable.play .refl (by decide +kernel)

def openedFileWith (path : Text) : World :=
  ((sampleUpload path [] 1).run (sampleEnv false) (openedFile.withFault none)).2

theorem creates_openedFileWith (path : Text) {p : StorageObject → Bool}
    (hok : (((sampleUpload path [] 1).run (sampleEnv false)
      (openedFile.withFault none)).1.toOption.any p) = true)
    (hnew : (sampleUpload path [] 1).existing openedFile.db = none) :
    ∃ obj, Creates (sampleEnv false) openedFile obj (openedFileWith path) ∧ p obj = true := by
  have hbucket : sampleBucket ∈ openedFile.db.buckets.rows := by decide +kernel
  obtain ⟨obj, hrun, hobj⟩ := runs_of_any hok
  exact ⟨obj, .upload _ none hbucket hrun hnew, hobj⟩

theorem evaluateAccess_after_creation_openedFile : ∃ o ∈ openedFile.db.objects.rows,
    evaluateAccess (openedFileWith (folderPlaceholderPath ['c'])).db
        (openedFileWith (folderPlaceholderPath ['c'])).out.now (member 2) sampleBucket
        (some o.name) (some o.id) .read =
      evaluateAccess openedFile.db openedFile.out.now (member 2) sampleBucket
        (some o.name) (some o.id) .read := by
  obtain ⟨obj, hcreates, houtside⟩ := creates_openedFileWith (folderPlaceholderPath ['c'])
    (p := fun obj => openedFile.db.objects.rows.all fun o => !covers obj o.name)
    (by decide +kernel) (by decide +kernel)
  have hsome : ∃ o, o ∈ openedFile.db.objects.rows := ⟨_, List.head_mem (by decide +kernel)⟩
  obtain ⟨o, ho⟩ := hsome
  have hout : covers obj o.name = false := by simpa using List.all_eq_true.mp houtside o ho
  exact ⟨o, ho, evaluateAccess_after_creation hcreates o ho hout (member 2) sampleBucket .read⟩

/-- Creating a folder around a file that is open to the company closes it. -/
theorem not_evaluateAccess_after_creation :
    ¬∀ (w w' : World) (obj : StorageObject), Reachable (sampleEnv false) w →
      Creates (sampleEnv false) w obj w' → ∀ o ∈ w.db.objects.rows,
      ∀ bucket ∈ w.db.buckets.rows, bucket.id = o.bucketId →
      ∀ (principal : StoragePrincipal) (required : Permission),
        principal.companyId = some bucket.companyId →
        evaluateAccess w'.db w'.out.now principal bucket (some o.name) (some o.id) required =
          evaluateAccess w.db w.out.now principal bucket (some o.name) (some o.id)
            required := by
  intro h
  obtain ⟨obj, hcreates, -⟩ := creates_openedFileWith (folderPlaceholderPath ['b'])
    (p := fun _ => true) (by decide +kernel) (by decide +kernel)
  have hclosed : ∃ o ∈ openedFile.db.objects.rows, sampleBucket.id = o.bucketId ∧
      evaluateAccess (openedFileWith (folderPlaceholderPath ['b'])).db
          (openedFileWith (folderPlaceholderPath ['b'])).out.now (member 2) sampleBucket
          (some o.name) (some o.id) .read = false ∧
        evaluateAccess openedFile.db openedFile.out.now (member 2) sampleBucket
          (some o.name) (some o.id) .read = true := by
    decide +kernel
  obtain ⟨o, ho, hbucket, hafter, hbefore⟩ := hclosed
  have hsame := h _ _ obj openedFile_reachable hcreates o ho sampleBucket (by decide +kernel)
    hbucket (member 2) .read rfl
  rw [hafter, hbefore] at hsame
  exact Bool.noConfusion hsame

end StorageService.Results
