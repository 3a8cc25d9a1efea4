import StorageService.Foundation.Ruling
import StorageService.Storage.Backends

/-!
# Access decisions

The first half of `access.py`: which grants match a request, how specific they
are, and the decision.  `evaluateGrants` follows the source; it is shown to be
the ruling over ranked rules, whose general laws the results below use.
-/

namespace StorageService.Storage

open StorageService.Foundation
open StorageService.Foundation.Action

structure StoragePrincipal where
  userId : Nat
  companyId : Option Nat
  isStaff : Bool
  isCompanyOwner : Bool
  deriving DecidableEq, Repr

def companyBucketName : Text := ['c', 'o', 'm', 'p', 'a', 'n', 'y']

/-! ## Permissions -/

def permissionRank : Permission → Nat
  | .read => 0
  | .write => 1
  | .admin => 2

def permissionAtLeast (granted required : Permission) : Bool :=
  decide (permissionRank required ≤ permissionRank granted)

/-- Deny read blocks everything; deny write blocks write and admin; deny admin blocks admin. -/
def denyBlocks (denied required : Permission) : Bool :=
  decide (permissionRank denied ≤ permissionRank required)

theorem denyBlocks_read {denied : Permission} :
    denyBlocks denied .read = true ↔ denied = .read := by
  cases denied <;> decide

def requiredPermission (write admin : Bool) : Permission :=
  if admin then .admin else if write then .write else .read

/-! ## Matching -/

def folderPathOf (marker : StorageObject) : Text := folderPathFromPlaceholder marker.name

def resourceMatchesGrant (grant : Grant) (bucket : Bucket) (path : Option Text)
    (objectId : Option UUID) : Bool :=
  if grant.bucketId ≠ bucket.id then false
  else
    let path := normalizePath (path.getD [])
    match grant.resource with
    | .bucket => true
    | .folder marker => folderMatches (folderPathOf marker) path
    | .object target =>
        if objectId = some target.id then true
        else decide (path ≠ [] ∧ normalizePath target.name = path)

def subjectMatches (grant : Grant) (principal : StoragePrincipal) : Bool :=
  match principal.companyId with
  | none => false
  | some companyId =>
      match grant.subjectType with
      | .user => decide (grant.subjectId = decimal principal.userId)
      | .company => decide (grant.subjectId = decimal companyId)
      | .group => false

def StorageAccessGrant.active {ρ : Type} (now : Time) (g : StorageAccessGrant ρ) : Bool :=
  match g.expiresAt with
  | none => true
  | some t => decide (now < t)

def activeGrants (db : Database) (now : Time) (companyId : Nat) : List Grant :=
  (db.grants.rows.filter fun g => decide (g.companyId = companyId) && g.active now).filterMap
    db.selectRelated

theorem mem_activeGrants {db : Database} {now : Time} {companyId : Nat} {g : Grant} :
    g ∈ activeGrants db now companyId ↔
      (g.companyId = companyId ∧ g.active now = true) ∧ g.row ∈ db.grants.rows ∧
        ∀ o, g.resource.object? = some o → o ∈ db.objects.rows := by
  simp only [activeGrants, List.mem_filterMap, List.mem_filter, Bool.and_eq_true,
    decide_eq_true_eq, Database.selectRelated_eq_some]
  constructor
  · rintro ⟨_, ⟨hrow, hactive⟩, rfl, hrows⟩
    exact ⟨hactive, hrow, hrows⟩
  · rintro ⟨hactive, hrow, hrows⟩
    exact ⟨g.row, ⟨hrow, hactive⟩, rfl, hrows⟩

theorem mem_activeGrants_of_granted {db db' : Database} {obj : StorageObject}
    {new : List GrantRow} (hfresh : ∀ p ∈ db.objects.rows, p.id ≠ obj.id)
    (hobjects : db'.objects.rows = db.objects.rows ++ [obj])
    (hgrants : db'.grants.rows = db.grants.rows ++ new)
    (hnew : ∀ g ∈ new, g.resource.object? = some obj.id) {now : Time} {companyId : Nat}
    {g : Grant} :
    g ∈ activeGrants db' now companyId ↔ g ∈ activeGrants db now companyId ∨
      (g.companyId = companyId ∧ g.active now = true) ∧ g.row ∈ new ∧
        g.resource.object? = some obj := by
  have href : g.row.resource.object? = g.resource.object?.map StorageObject.id := by
    rw [StorageAccessGrant.row, Resource.object?_map]
  rw [mem_activeGrants, mem_activeGrants, hobjects, hgrants]
  simp only [List.mem_append, List.mem_singleton]
  constructor
  · rintro ⟨hactive, hrow | hrow, hrows⟩
    · refine .inl ⟨hactive, hrow, fun o ho => (hrows o ho).resolve_right ?_⟩
      rintro rfl
      -- no old grant refers to the fresh id
      have hreferences := db.grantObject g.row hrow
      rw [href, ho] at hreferences
      obtain ⟨p, hp, hid⟩ := hreferences
      exact hfresh p hp hid
    · have hon := hnew g.row hrow
      rw [href, Option.map_eq_some_iff] at hon
      obtain ⟨o, ho, hid⟩ := hon
      obtain rfl := (hrows o ho).resolve_left fun hmem => hfresh o hmem hid
      exact .inr ⟨hactive, hrow, ho⟩
  · rintro (⟨hactive, hrow, hrows⟩ | ⟨hactive, hrow, ho⟩)
    · exact ⟨hactive, .inl hrow, fun o ho => .inl (hrows o ho)⟩
    · refine ⟨hactive, .inr hrow, fun o ho' => .inr ?_⟩
      exact Option.some.inj (ho'.symm.trans ho)

/-! ## The decision -/

def kindDefaultAllows (principal : StoragePrincipal) (bucket : Bucket)
    (required : Permission) : Bool :=
  if principal.companyId ≠ some bucket.companyId then false
  else
    match bucket.kind with
    | .company =>
        if required = .admin then principal.isCompanyOwner || principal.isStaff else true
    | .connector => decide (required = .read)

def subjectScore : SubjectType → Nat
  | .user => 3
  | .group => 2
  | .company => 1

def folderDepth (folderPath : Text) : Nat :=
  if folderPath = [] then 0 else ((normalizePath folderPath).splitOn '/').length

def resourceScore : Resource StorageObject → Nat
  | .object _ => 1000
  | .folder marker => 100 + folderDepth (folderPathOf marker)
  | .bucket => 1

/-- Higher wins.  Resource specificity first, then subject. -/
def grantSpecificity (grant : Grant) : Nat ×ₗ Nat :=
  toLex (resourceScore grant.resource, subjectScore grant.subjectType)

def evaluateGrants (principal : StoragePrincipal) (bucket : Bucket) (required : Permission)
    (grants : List Grant) : Bool :=
  match (grants.map grantSpecificity).max? with
  | none => kindDefaultAllows principal bucket required
  | some best =>
      let top := grants.filter fun g => decide (grantSpecificity g = best)
      let allows := top.filter fun g => decide (g.effect = .allow)
      if top.any fun g => decide (g.effect = .deny) && denyBlocks g.permission required then
        false
      else if allows.any fun g => permissionAtLeast g.permission required then true
      -- an allow that is too weak must not fall through to the open default
      else if allows ≠ [] then false
      else kindDefaultAllows principal bucket required

def matchingGrants (db : Database) (now : Time) (principal : StoragePrincipal)
    (bucket : Bucket) (path : Option Text) (objectId : Option UUID) : List Grant :=
  match principal.companyId with
  | none => []
  | some companyId =>
      (activeGrants db now companyId).filter fun g =>
        subjectMatches g principal && resourceMatchesGrant g bucket path objectId

theorem mem_matchingGrants {db : Database} {now : Time} {principal : StoragePrincipal}
    {bucket : Bucket} {path : Option Text} {objectId : Option UUID} {companyId : Nat}
    (hcompany : principal.companyId = some companyId) {g : Grant} :
    g ∈ matchingGrants db now principal bucket path objectId ↔
      g ∈ activeGrants db now companyId ∧ subjectMatches g principal = true ∧
        resourceMatchesGrant g bucket path objectId = true := by
  simp [matchingGrants, hcompany]

def evaluateAccess (db : Database) (now : Time) (principal : StoragePrincipal)
    (bucket : Bucket) (path : Option Text) (objectId : Option UUID)
    (required : Permission) : Bool :=
  if principal.companyId ≠ some bucket.companyId then false
  else
    evaluateGrants principal bucket required
      (matchingGrants db now principal bucket path objectId)

theorem companyId_of_evaluateAccess {db : Database} {now : Time} {principal : StoragePrincipal}
    {bucket : Bucket} {path : Option Text} {objectId : Option UUID} {required : Permission}
    (h : evaluateAccess db now principal bucket path objectId required = true) :
    principal.companyId = some bucket.companyId := by
  by_contra hne
  simp [evaluateAccess, hne] at h

/-! ## The decision as a ruling -/

def grantVerdict (required : Permission) (g : Grant) : Verdict :=
  match g.effect with
  | .deny => if denyBlocks g.permission required then .refuse else .silent
  | .allow => if permissionAtLeast g.permission required then .permit else .weak

theorem grantVerdict_refuse (required : Permission) (g : Grant) :
    (grantVerdict required g == .refuse) =
      (decide (g.effect = .deny) && denyBlocks g.permission required) := by
  cases heffect : g.effect with
  | allow => cases h : permissionAtLeast g.permission required <;>
      simp [grantVerdict, heffect, h]
  | deny => cases h : denyBlocks g.permission required <;> simp [grantVerdict, heffect, h]

theorem grantVerdict_permit (required : Permission) (g : Grant) :
    (grantVerdict required g == .permit) =
      (decide (g.effect = .allow) && permissionAtLeast g.permission required) := by
  cases heffect : g.effect with
  | allow => cases h : permissionAtLeast g.permission required <;>
      simp [grantVerdict, heffect, h]
  | deny => cases h : denyBlocks g.permission required <;> simp [grantVerdict, heffect, h]

theorem grantVerdict_weak (required : Permission) (g : Grant) :
    (grantVerdict required g == .weak) =
      (decide (g.effect = .allow) && !permissionAtLeast g.permission required) := by
  cases heffect : g.effect with
  | allow => cases h : permissionAtLeast g.permission required <;>
      simp [grantVerdict, heffect, h]
  | deny => cases h : denyBlocks g.permission required <;> simp [grantVerdict, heffect, h]

theorem grantVerdict_eq_refuse {required : Permission} {g : Grant} :
    grantVerdict required g = .refuse ↔
      g.effect = .deny ∧ denyBlocks g.permission required = true := by
  rw [← beq_iff_eq, grantVerdict_refuse, Bool.and_eq_true, decide_eq_true_eq]

theorem grantVerdict_eq_permit {required : Permission} {g : Grant} :
    grantVerdict required g = .permit ↔
      g.effect = .allow ∧ permissionAtLeast g.permission required = true := by
  rw [← beq_iff_eq, grantVerdict_permit, Bool.and_eq_true, decide_eq_true_eq]

theorem grantVerdict_eq_silent {required : Permission} {g : Grant} :
    grantVerdict required g = .silent ↔
      g.effect = .deny ∧ denyBlocks g.permission required = false := by
  cases heffect : g.effect with
  | allow => cases h : permissionAtLeast g.permission required <;>
      simp [grantVerdict, heffect, h]
  | deny => cases h : denyBlocks g.permission required <;> simp [grantVerdict, heffect, h]

private theorem filter_best_eq_top {grants : List Grant} {best : Nat ×ₗ Nat}
    (hmax : (grants.map grantSpecificity).max? = some best) :
    grants.filter (fun g => decide (grantSpecificity g = best)) =
      top grantSpecificity grants := by
  obtain ⟨hmem, hle⟩ := List.max?_eq_some_iff.mp hmax
  apply List.filter_congr
  intro g hg
  have hg' : grantSpecificity g ≤ best := hle _ (List.mem_map_of_mem hg)
  rw [Bool.eq_iff_iff, List.all_eq_true, decide_eq_true_eq]
  simp only [decide_eq_true_eq]
  constructor
  · rintro rfl s hs
    exact hle _ (List.mem_map_of_mem hs)
  · intro hall
    obtain ⟨s, hs, rfl⟩ := List.mem_map.mp hmem
    exact le_antisymm hg' (hall s hs)

theorem evaluateGrants_eq_ruling (principal : StoragePrincipal) (bucket : Bucket)
    (required : Permission) (grants : List Grant) :
    evaluateGrants principal bucket required grants =
      ruling grantSpecificity (grantVerdict required)
        (kindDefaultAllows principal bucket required) grants := by
  cases hmax : (grants.map grantSpecificity).max? with
  | none =>
      have hnil : grants = [] := by simpa using List.max?_eq_none_iff.mp hmax
      simp [evaluateGrants, ruling, top, hnil]
  | some best =>
      simp only [evaluateGrants, hmax, filter_best_eq_top hmax, ruling, grantVerdict_refuse,
        grantVerdict_permit, grantVerdict_weak, List.any_filter]
      split
      · rfl
      · split
        · rfl
        · -- no allow is strong enough, so any allow there is is a weak one
          rename_i hpermit
          have hweak : (top grantSpecificity grants).filter
              (fun g => decide (g.effect = .allow)) ≠ [] ↔
              (top grantSpecificity grants).any (fun g => decide (g.effect = .allow) &&
                !permissionAtLeast g.permission required) = true := by
            rw [List.any_eq_true, ne_eq, List.filter_eq_nil_iff]
            push Not
            refine exists_congr fun g => and_congr_right fun hg => ?_
            have hnot := List.any_eq_false.mp (Bool.eq_false_iff.mpr hpermit) g hg
            cases hat : permissionAtLeast g.permission required <;> simp_all
          simp only [hweak]

def topGrants (db : Database) (now : Time) (principal : StoragePrincipal)
    (bucket : Bucket) (path : Option Text) (objectId : Option UUID) : List Grant :=
  top grantSpecificity (matchingGrants db now principal bucket path objectId)

theorem evaluateAccess_eq_ruling (db : Database) (now : Time) {principal : StoragePrincipal}
    {bucket : Bucket} (path : Option Text) (objectId : Option UUID) (required : Permission)
    (hcompany : principal.companyId = some bucket.companyId) :
    evaluateAccess db now principal bucket path objectId required =
      ruling grantSpecificity (grantVerdict required)
        (kindDefaultAllows principal bucket required)
        (matchingGrants db now principal bucket path objectId) := by
  simp [evaluateAccess, hcompany, evaluateGrants_eq_ruling]

/-- Requests about which the same grants are heard get the same answer. -/
theorem evaluateAccess_of_topGrants {db db' : Database} {now : Time}
    {principal : StoragePrincipal} {bucket : Bucket} {path path' : Option Text}
    {objectId objectId' : Option UUID}
    (h : ∀ g, g ∈ topGrants db now principal bucket path objectId ↔
      g ∈ topGrants db' now principal bucket path' objectId') (required : Permission) :
    evaluateAccess db now principal bucket path objectId required =
      evaluateAccess db' now principal bucket path' objectId' required := by
  by_cases hcompany : principal.companyId = some bucket.companyId
  · rw [evaluateAccess_eq_ruling _ _ _ _ _ hcompany,
      evaluateAccess_eq_ruling _ _ _ _ _ hcompany]
    exact ruling_of_top h
  · simp [evaluateAccess, hcompany]

theorem evaluateAccess_of_matchingGrants {db db' : Database} {now : Time}
    {principal : StoragePrincipal} {bucket : Bucket} {path path' : Option Text}
    {objectId objectId' : Option UUID}
    (h : ∀ g, g ∈ matchingGrants db now principal bucket path objectId ↔
      g ∈ matchingGrants db' now principal bucket path' objectId') (required : Permission) :
    evaluateAccess db now principal bucket path objectId required =
      evaluateAccess db' now principal bucket path' objectId' required := by
  apply evaluateAccess_of_topGrants
  intro g
  simp only [topGrants, mem_top, h]

/-! ## Guards -/

def requireCompanyId (principal : StoragePrincipal) : Act Nat :=
  ofOption (.storageError "JWT is missing company_id." 403 "missing_company")
    principal.companyId

def canAccessBucket (db : Database) (now : Time) (principal : StoragePrincipal)
    (bucket : Bucket) (required : Permission) : Bool :=
  evaluateAccess db now principal bucket none none required

def canAccessPath (db : Database) (now : Time) (principal : StoragePrincipal)
    (bucket : Bucket) (path : Text) (objectId : Option UUID) (required : Permission) : Bool :=
  evaluateAccess db now principal bucket (some path) objectId required

def assertCanAccessBucket (principal : StoragePrincipal) (bucket : Bucket)
    (required : Permission) : Act Unit := do
  let db ← database
  let out ← outside
  ensure (canAccessBucket db out.now principal bucket required)
    (.storageError "You do not have access to this bucket." 403 "bucket_access_denied")

def assertCanAccessPath (principal : StoragePrincipal) (bucket : Bucket) (path : Text)
    (objectId : Option UUID) (required : Permission) : Act Unit := do
  let db ← database
  let out ← outside
  ensure (canAccessPath db out.now principal bucket path objectId required)
    (.storageError "You do not have access to this path." 403 "path_access_denied")

@[simp] theorem runs_assertCanAccessBucket {principal : StoragePrincipal} {bucket : Bucket}
    {required : Permission} {s s' : World} {u : Unit} :
    (assertCanAccessBucket principal bucket required).Runs s u s' ↔
      canAccessBucket s.db s.out.now principal bucket required = true ∧ s' = s := by
  simp [assertCanAccessBucket, and_comm]

@[simp] theorem runs_assertCanAccessPath {principal : StoragePrincipal} {bucket : Bucket}
    {path : Text} {objectId : Option UUID} {required : Permission} {s s' : World} {u : Unit} :
    (assertCanAccessPath principal bucket path objectId required).Runs s u s' ↔
      canAccessPath s.db s.out.now principal bucket path objectId required = true ∧
        s' = s := by
  simp [assertCanAccessPath, and_comm]

@[simp] theorem fails_assertCanAccessPath {principal : StoragePrincipal} {bucket : Bucket}
    {path : Text} {objectId : Option UUID} {required : Permission} {s s' : World} :
    (assertCanAccessPath principal bucket path objectId required).Fails s s' ↔
      canAccessPath s.db s.out.now principal bucket path objectId required = false ∧
        s' = s := by
  simp [assertCanAccessPath, and_comm]

def newCompanyBucket (companyId : Nat) (id : UUID) : Bucket where
  id := id
  name := companyBucketName
  companyId := companyId
  kind := .company
  isPublic := false
  fileSizeLimit := none
  allowedMimeTypes := []
  ownerId := none

def ensureCompanyBucket (env : Env) (companyId : Nat) : Act Bucket := do
  let db ← database
  match db.bucketNamed companyId companyBucketName with
  | none =>
      let id ← drawUuid env
      execute (·.createBucket (newCompanyBucket companyId id))
      reach .signal
      pure (newCompanyBucket companyId id)
  | some bucket =>
      if bucket.kind ≠ .company ∨ bucket.isPublic then
        execute fun db => some (db.setCompanyBucket bucket.id)
        pure { bucket with kind := .company, isPublic := false, ownerId := none }
      else pure bucket

def getAccessibleBucket (env : Env) (principal : StoragePrincipal) (name : Text)
    (required : Permission) : Act Bucket := do
  let companyId ← requireCompanyId principal
  let _ ← ensureCompanyBucket env companyId
  let db ← database
  let bucket ← ofOption (.storageError "Bucket not found" 404 "bucket_not_found")
    (db.bucketNamed companyId name)
  assertCanAccessBucket principal bucket required
  pure bucket

end StorageService.Storage
