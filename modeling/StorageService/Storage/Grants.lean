import StorageService.Storage.Services

/-!
# Creating and deleting grants

`grants.py`.  A request body is given by its fields as text, the way the source
reads them: a missing or false value is the empty text.
-/

namespace StorageService.Storage

open StorageService.Foundation
open StorageService.Foundation.Action

structure GrantRequest where
  subjectType : Text
  subjectId : Text
  resourceType : Text
  resourceId : Text
  permission : Text
  effect : Text
  bucket : Text
  expiresAt : Text
  notes : Text

/-! ## Values of the choice fields -/

def subjectTypeChoices : List (Text × SubjectType) :=
  [(['u', 's', 'e', 'r'], .user), (['g', 'r', 'o', 'u', 'p'], .group),
    (['c', 'o', 'm', 'p', 'a', 'n', 'y'], .company)]

def resourceTypeChoices : List (Text × ResourceType) :=
  [(['b', 'u', 'c', 'k', 'e', 't'], .bucket), (['f', 'o', 'l', 'd', 'e', 'r'], .folder),
    (['o', 'b', 'j', 'e', 'c', 't'], .object)]

def permissionChoices : List (Text × Permission) :=
  [(['r', 'e', 'a', 'd'], .read), (['w', 'r', 'i', 't', 'e'], .write),
    (['a', 'd', 'm', 'i', 'n'], .admin)]

def effectChoices : List (Text × Effect) :=
  [(['a', 'l', 'l', 'o', 'w'], .allow), (['d', 'e', 'n', 'y'], .deny)]

def choice {α : Type} (choices : List (Text × α)) (value : Text) : Option α :=
  (choices.find? fun c => decide (c.1 = value)).map Prod.snd

def invalidRequest (message code : String) : Failure := .storageError message 400 code

/-- The trimmed resource id; only the type decides how its absence is reported. -/
def normalizeResourceId (resourceType resourceId : Text) : Except Failure Text :=
  let rid := normalizePath resourceId
  match choice resourceTypeChoices resourceType with
  | some .bucket =>
      if rid = [] then
        .error (invalidRequest "resource_id (bucket name) is required" "invalid_resource")
      else .ok rid
  | some .folder | some .object =>
      if rid = [] then .error (invalidRequest "resource_id is required" "invalid_resource")
      else .ok rid
  | none => .ok rid

def parseExpiresAt (env : Env) (value : Text) : Except Failure (Option Time) :=
  if value = [] then .ok none
  else
    match env.parseDatetime value with
    | .error message => .error (.valueError message)
    | .ok none =>
        .error (invalidRequest "expires_at must be an ISO-8601 datetime." "invalid_expires_at")
    | .ok (some t) => .ok (some t)

/-! ## Who may manage a resource -/

def isCompanyAdmin (principal : StoragePrincipal) : Bool :=
  principal.isCompanyOwner || principal.isStaff

def assertCanManageResource (env : Env) (principal : StoragePrincipal) (bucketName : Text)
    (resourceType : ResourceType) (resourcePath : Text) (admin : Bool) : Act Unit := do
  let bucket ← getAccessibleBucket env principal bucketName .read
  let required := requiredPermission (!admin) admin
  if isCompanyAdmin principal then pure ()
  else if resourceType = .bucket then assertCanAccessBucket principal bucket required
  else assertCanAccessPath principal bucket resourcePath none required

def resolveObject (db : Database) (bucket : Bucket) (resourceId : Text) :
    Option StorageObject :=
  ((uuidOfText resourceId).bind fun uid =>
    db.objects.rows.find? fun o => decide (o.bucketId = bucket.id ∧ o.id = uid)) <|>
  db.objectNamed bucket.id resourceId

theorem resolveObject_eq_some {db : Database} {bucket : Bucket} {resourceId : Text}
    {o : StorageObject} (h : resolveObject db bucket resourceId = some o) :
    o ∈ db.objects.rows ∧ o.bucketId = bucket.id := by
  simp only [resolveObject, Option.orElse_eq_orElse, Option.orElse_eq_or,
    Option.or_eq_some_iff] at h
  rcases h with h | ⟨-, h⟩
  · obtain ⟨uid, -, hfind⟩ := Option.bind_eq_some_iff.mp h
    have hfound := List.find?_some hfind
    simp only [decide_eq_true_eq] at hfound
    exact ⟨List.mem_of_find?_eq_some hfind, hfound.1⟩
  · obtain ⟨hmem, hbucketId, -⟩ := Database.objectNamed_eq_some h
    exact ⟨hmem, hbucketId⟩

/-! ## Creating a grant -/

def grantTarget (env : Env) (principal : StoragePrincipal) (bucket : Bucket)
    (resourceType : ResourceType) (resourceId : Text) : Act (Resource UUID) :=
  match resourceType with
  | .bucket => pure .bucket
  | .object => do
      let db ← database
      let target ← ofOption objectNotFound (resolveObject db bucket resourceId)
      pure (.object target.id)
  | .folder => do
      let marker ← ensureFolderMarker env bucket resourceId (some principal.userId)
      pure (.folder marker.id)

structure GrantFields where
  subjectType : SubjectType
  subjectId : Text
  resourceType : ResourceType
  resourceId : Text
  permission : Permission
  effect : Effect
  bucketName : Text
  expiresAt : Option Time
  notes : Text

def present {α : Type} (message code : String) : Option α → Except Failure α
  | some a => .ok a
  | none => .error (invalidRequest message code)

def readGrantRequest (env : Env) (data : GrantRequest) : Except Failure GrantFields := do
  let resourceTypeText := strip data.resourceType
  let resourceId ← normalizeResourceId resourceTypeText data.resourceId
  let expiresAt ← parseExpiresAt env data.expiresAt
  let subjectType ← present "Invalid subject_type" "invalid_subject_type"
    (choice subjectTypeChoices (strip data.subjectType))
  let subjectId := strip data.subjectId
  let _ ← present "subject_id is required" "invalid_subject_id"
    (if subjectId = [] then none else some subjectId)
  let resourceType ← present "Invalid resource_type" "invalid_resource_type"
    (choice resourceTypeChoices resourceTypeText)
  let permission ← present "Invalid permission" "invalid_permission"
    (if data.permission = [] then some .read
      else choice permissionChoices (strip data.permission))
  let effect ← present "Invalid effect" "invalid_effect"
    (if data.effect = [] then some .allow else choice effectChoices (strip data.effect))
  let bucketName :=
    if resourceType = .bucket then resourceId
    else if strip data.bucket = [] then companyBucketName
    else strip data.bucket
  pure
    { subjectType := subjectType, subjectId := subjectId, resourceType := resourceType,
      resourceId := resourceId, permission := permission, effect := effect,
      bucketName := bucketName, expiresAt := expiresAt, notes := data.notes.take 255 }

/-- A deny, and granting admin, need admin; everything else needs write. -/
def GrantFields.needAdmin (fields : GrantFields) : Bool :=
  decide (fields.effect = .deny ∨ fields.permission = .admin)

/-- A company allow on a nested path would pierce a private parent folder. -/
def GrantFields.opensToCompany (fields : GrantFields) : Bool :=
  decide (fields.effect = .allow ∧ fields.subjectType = .company ∧
    fields.resourceType ≠ .bucket)

def GrantFields.required (fields : GrantFields) : Permission :=
  requiredPermission (!fields.needAdmin) fields.needAdmin

def requestedGrant (principal : StoragePrincipal) (companyId : Nat) (bucket : Bucket)
    (fields : GrantFields) (resource : Resource UUID) (id : UUID) (now : Time) :
    GrantRow where
  id := id
  companyId := companyId
  bucketId := bucket.id
  subjectType := fields.subjectType
  subjectId := fields.subjectId
  resource := resource
  permission := fields.permission
  effect := fields.effect
  createdById := some principal.userId
  createdAt := now
  expiresAt := fields.expiresAt
  notes := fields.notes

def createGrant (env : Env) (principal : StoragePrincipal) (data : GrantRequest) :
    Act GrantRow := do
  let companyId ← requireCompanyId principal
  let fields ← ofExcept (readGrantRequest env data)
  let bucket ← getAccessibleBucket env principal fields.bucketName .read
  assertCanManageResource env principal fields.bucketName fields.resourceType
    fields.resourceId fields.needAdmin
  if fields.opensToCompany then
    assertCanOpenToCompany companyId fields.bucketName fields.resourceId
  let resource ← grantTarget env principal bucket fields.resourceType fields.resourceId
  createGrantRow env (requestedGrant principal companyId bucket fields resource)

/-! ## Deleting a grant -/

def Resource.type {ρ : Type} : Resource ρ → ResourceType
  | .bucket => .bucket
  | .folder _ => .folder
  | .object _ => .object

def resourcePath (db : Database) (grant : Grant) : Text :=
  match grant.resource with
  | .bucket => ((db.bucketById grant.bucketId).map Bucket.name).getD []
  | .folder marker => folderPathOf marker
  | .object target => normalizePath target.name

def grantNotFound : Failure := .storageError "Grant not found" 404 "grant_not_found"

def deleteGrant (env : Env) (principal : StoragePrincipal) (grantId : UUID) : Act Unit := do
  let companyId ← requireCompanyId principal
  let db ← database
  let row ← ofOption grantNotFound
    (db.grants.rows.find? fun g => decide (g.id = grantId ∧ g.companyId = companyId))
  let grant ← ofOption grantNotFound (db.selectRelated row)
  ensure (isCompanyAdmin principal ∨ grant.createdById = some principal.userId)
    (.storageError "You cannot delete this grant." 403 "grant_delete_denied")
  let bucketName := ((db.bucketById grant.bucketId).map Bucket.name).getD []
  if ¬isCompanyAdmin principal then
    assertCanManageResource env principal bucketName grant.resource.type
      (resourcePath db grant) (decide (grant.effect = .deny))
  if grant.effect = .deny ∧ grant.subjectType = .company ∧ grant.permission = .read ∧
      grant.resource.type ≠ .bucket then
    assertCanOpenToCompany companyId bucketName (resourcePath db grant)
  reach .rowDelete
  modifyDatabase (·.deleteGrant row.id)

end StorageService.Storage
