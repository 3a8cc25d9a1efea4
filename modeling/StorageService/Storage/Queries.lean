import StorageService.Storage.Endpoints

/-!
# Reading objects and grants

The calls that find an object by its path or its id, list a folder and list
grants.  Entries are kept as the rows they are rendered from together with what
is computed for them; texts meant for people are left out.
-/

namespace StorageService.Storage

open StorageService.Foundation
open StorageService.Foundation.Action

/-! ## Objects by path and by id -/

def getAccessibleObject (env : Env) (principal : StoragePrincipal) (bucketName path : Text)
    (required : Permission) : Act (Bucket × StorageObject) := do
  let bucket ← getAccessibleBucket env principal bucketName required
  let name ← ofExcept (safeObjectPath path)
  let db ← database
  let obj ← ofOption objectNotFound (db.objectNamed bucket.id name)
  assertCanAccessPath principal bucket name (some obj.id) required
  pure (bucket, obj)

def basename (name : Text) : Text := name.rtakeWhile (· ≠ '/')

inductive ItemType where
  | folder
  | file
  deriving DecidableEq, Repr

/-- An item by its id; the root folder is shown under the name of its bucket. -/
structure ResolvedItem where
  id : UUID
  bucket : Text
  path : Text
  name : Option Text
  type : ItemType
  deriving DecidableEq, Repr

def isPlaceholder (name : Text) : Bool :=
  decide (name = folderPlaceholderName ∨ placeholderSuffix <:+ name)

def resolvedItem (bucket : Bucket) (obj : StorageObject) : ResolvedItem :=
  if isPlaceholder obj.name then
    let folderPath :=
      if obj.name = folderPlaceholderName then []
      else obj.name.take (obj.name.length - (folderPlaceholderName.length + 1))
    { id := obj.id, bucket := bucket.name, path := folderPath,
      name := if folderPath = [] then none else some (basename folderPath), type := .folder }
  else
    { id := obj.id, bucket := bucket.name, path := obj.name, name := some (basename obj.name),
      type := .file }

def resolveItemById (principal : StoragePrincipal) (objectId : Text) : Act ResolvedItem := do
  let uid ← ofOption (.storageError "Invalid object id" 400 "invalid_id") (uuidOfText objectId)
  let db ← database
  let obj ← ofOption objectNotFound (db.objectById uid)
  let bucket ← ofOption objectNotFound (db.bucketById obj.bucketId)
  ensure (principal.companyId = none ∨ principal.companyId = some obj.companyId) objectNotFound
  assertCanAccessPath principal bucket obj.name (some obj.id) .read
  pure (resolvedItem bucket obj)

/-! ## Folder statistics -/

structure PrefixSummary where
  pre : Text
  objectCount : Nat
  fileCount : Nat
  placeholderCount : Nat
  totalBytes : Nat
  deriving DecidableEq, Repr

def summarizedObjects (db : Database) (now : Time) (bucket : Bucket) (folderPath : Text)
    (principal : Option StoragePrincipal) : List StorageObject :=
  (objectsUnderPrefix db bucket folderPath).filter fun obj =>
    principal.all fun caller => canAccessPath db now caller bucket obj.name (some obj.id) .read

def summarizePrefix (db : Database) (now : Time) (bucket : Bucket) (folderPath : Text)
    (principal : Option StoragePrincipal) : PrefixSummary :=
  let objs := summarizedObjects db now bucket folderPath principal
  let placeholderCount := (objs.filter fun obj => isPlaceholder obj.name).length
  { pre := stripSlash folderPath
    objectCount := objs.length
    fileCount := objs.length - placeholderCount
    placeholderCount := placeholderCount
    totalBytes := (objs.map StorageObject.size).sum }

def prefixStats (env : Env) (principal : StoragePrincipal) (bucketName pre : Text) :
    Act PrefixSummary := do
  let bucket ← getAccessibleBucket env principal bucketName .read
  if pre ≠ [] then
    let _ ← ofExcept (safeObjectPath pre)
  let db ← database
  let out ← outside
  pure (summarizePrefix db out.now bucket pre (some principal))

/-! ## Who has access to an entry -/

inductive Audience where
  | company
  | connector
  | restricted
  | limited
  deriving DecidableEq, Repr

inductive Members where
  | companyMembersAndGrants
  | companyMembers
  | grantsOnly
  | nobody
  deriving DecidableEq, Repr

/-- Access descriptor of a bucket or of an entry; the last fields are only set for entries. -/
structure AccessSummary where
  audience : Audience
  readers : Members
  writers : Members
  ownerId : Option Nat
  shareable : Bool
  grantsEnabled : Bool
  allowedUserIds : Option (List Text)
  allowedGroupIds : Option (List Text)
  grantCount : Option Nat
  deriving DecidableEq, Repr

def accessSummary (bucket : Bucket) : AccessSummary :=
  match bucket.kind with
  | .company =>
      { audience := .company, readers := .companyMembersAndGrants,
        writers := .companyMembersAndGrants, ownerId := none, shareable := true,
        grantsEnabled := true, allowedUserIds := none, allowedGroupIds := none,
        grantCount := none }
  | .connector =>
      { audience := .connector, readers := .companyMembers, writers := .nobody,
        ownerId := bucket.ownerId, shareable := false, grantsEnabled := true,
        allowedUserIds := none, allowedGroupIds := none, grantCount := none }

def allowedSubjects (subjectType : SubjectType) (grants : List Grant) : List Text :=
  ((grants.filter fun g => decide (g.effect = .allow ∧ g.subjectType = subjectType)).map
    StorageAccessGrant.subjectId).dedup.insertionSort fun a b => textLe a b

def pathAccessSummary (bucket : Bucket) (path : Text) (objectId : Option UUID)
    (grants : List Grant) : AccessSummary :=
  let base := accessSummary bucket
  if ¬base.grantsEnabled then base
  else if normalizePath path = [] ∧ objectId = none then base
  else
    let matching := grants.filter fun g =>
      resourceMatchesGrant g bucket (some (normalizePath path)) objectId
    if matching = [] then base
    else if matching.any fun g => decide (g.effect = .deny ∧ g.subjectType = .company ∧
        denyBlocks g.permission .read) then
      { base with
        audience := .restricted
        readers := .grantsOnly
        writers := .grantsOnly
        allowedUserIds := some (allowedSubjects .user matching)
        allowedGroupIds := some (allowedSubjects .group matching)
        grantCount := some matching.length }
    else if matching.any fun g => ¬decide (g.effect = .deny ∧ g.subjectType = .company) then
      { base with
        audience := .limited
        readers := .companyMembersAndGrants
        writers := .companyMembersAndGrants
        allowedUserIds := some (allowedSubjects .user matching)
        allowedGroupIds := some (allowedSubjects .group matching)
        grantCount := some matching.length }
    else { base with grantCount := some matching.length }

/-! ## Listing a folder -/

structure Display where
  isoformat : Time → Text
  containsFold : Text → Text → Bool
  /-- The order in which the database returns names. -/
  nameLe : Text → Text → Bool
  /-- The order in which a set is gone through into which the texts were put. -/
  setOrder : List Text → List Text

/-- A set is gone through in some order, each of its texts once. -/
structure Display.Lawful (display : Display) : Prop where
  setOrder : ∀ texts, (display.setOrder texts).Perm texts.dedup

structure ListRequest where
  pre : Text
  limit : Int
  offset : Int
  search : Text
  sortColumn : Text
  sortOrder : Text

inductive ListEntry where
  /-- `folderId` is the id of its marker where there is one. -/
  | folder (name : Text) (folderId : Option UUID) (access : AccessSummary)
  | file (obj : StorageObject) (access : AccessSummary)
  deriving DecidableEq

inductive SortColumn where
  | name
  | updatedAt
  | createdAt
  deriving DecidableEq

def sortColumnOf (column : Text) : SortColumn :=
  if column = ['u', 'p', 'd', 'a', 't', 'e', 'd', '_', 'a', 't'] then .updatedAt
  else if column = ['c', 'r', 'e', 'a', 't', 'e', 'd', '_', 'a', 't'] then .createdAt
  else .name

def sortKey (env : Env) (display : Display) (column : SortColumn) : ListEntry → Text
  | .folder name _ _ =>
      match column with
      | .name => env.lower name
      | .updatedAt | .createdAt => []
  | .file obj _ =>
      match column with
      | .name => env.lower (basename obj.name)
      | .updatedAt => display.isoformat obj.updatedAt
      | .createdAt => display.isoformat obj.createdAt

def sortByKey {α : Type} (key : α → Text) (descending : Bool) (l : List α) : List α :=
  if descending then l.insertionSort fun a b => textLe (key b) (key a)
  else l.insertionSort fun a b => textLe (key a) (key b)

def sliceIndex (n : Nat) (i : Int) : Nat :=
  if i < 0 then (i + n).toNat else min i.toNat n

def slice {α : Type} (start stop : Int) (l : List α) : List α :=
  (l.drop (sliceIndex l.length start)).take
    (sliceIndex l.length stop - sliceIndex l.length start)

def listedObjects (db : Database) (now : Time) (display : Display)
    (principal : StoragePrincipal) (bucket : Bucket) (pre search : Text) :
    List StorageObject :=
  let found := (db.objectsStartingWith bucket.id pre).filter fun o =>
    decide (search = []) || display.containsFold o.name search
  (found.insertionSort fun a b => display.nameLe a.name b.name = true).filter fun o =>
    canAccessPath db now principal bucket o.name (some o.id) .read

def folderEntries (display : Display) (bucket : Bucket) (pre : Text) (grants : List Grant)
    (objs : List StorageObject) : List ListEntry :=
  let nested := objs.filter fun o => decide ('/' ∈ o.name.drop pre.length)
  let names := display.setOrder (nested.map fun o => (partitionSlash (o.name.drop pre.length)).1)
  names.map fun name =>
    .folder name
      ((nested.filter fun o => decide (partitionSlash (o.name.drop pre.length) =
        (name, folderPlaceholderName))).getLast?.map StorageObject.id)
      (pathAccessSummary bucket (stripSlash (pre ++ name)) none grants)

def fileEntries (bucket : Bucket) (pre : Text) (grants : List Grant)
    (objs : List StorageObject) : List ListEntry :=
  (objs.filter fun o => decide (o.name.drop pre.length ≠ [] ∧ '/' ∉ o.name.drop pre.length)).map
    fun o => .file o (pathAccessSummary bucket o.name (some o.id) grants)

def allEntries (env : Env) (display : Display) (db : Database) (now : Time)
    (principal : StoragePrincipal) (bucket : Bucket) (request : ListRequest) :
    List ListEntry :=
  let pre := prefixFilter request.pre
  let objs := listedObjects db now display principal bucket pre request.search
  let grants := activeGrants db now bucket.companyId
  let key := sortKey env display (sortColumnOf request.sortColumn)
  let descending := decide (env.lower request.sortOrder = ['d', 'e', 's', 'c'])
  sortByKey key descending (folderEntries display bucket pre grants objs) ++
    sortByKey key descending (fileEntries bucket pre grants objs)

def listObjects (env : Env) (display : Display) (db : Database) (now : Time)
    (principal : StoragePrincipal) (bucket : Bucket) (request : ListRequest) :
    List ListEntry :=
  slice request.offset (request.offset + request.limit)
    (allEntries env display db now principal bucket request)

def objectList (env : Env) (display : Display) (principal : StoragePrincipal)
    (bucketName : Text) (request : ListRequest) : Act (List ListEntry) := do
  let bucket ← getAccessibleBucket env principal bucketName .read
  let db ← database
  let out ← outside
  pure (listObjects env display db out.now principal bucket request)

/-! ## Listing grants -/

structure SerializedGrant where
  row : GrantRow
  bucket : Text
  resourceId : Text
  deriving DecidableEq

structure GrantFilter where
  resourceType : Text
  resourceId : Text
  bucket : Text

def serializeGrant (db : Database) (g : Grant) : SerializedGrant where
  row := g.row
  bucket := ((db.bucketById g.bucketId).map Bucket.name).getD []
  resourceId := resourcePath db g

def objectNameIn (names : List Text) (g : Grant) : Bool :=
  g.resource.object?.any fun o => names.contains o.name

def bucketGrantNamed (bucketName rid : Text) (g : Grant) : Bool :=
  decide (bucketName = rid) && g.resource.object?.isNone

def matchesResourceId (resourceType rid bucketName : Text) (g : Grant) : Bool :=
  match choice resourceTypeChoices resourceType with
  | some .folder => objectNameIn [folderPlaceholderPath rid] g
  | some .object =>
      objectNameIn [rid] g ||
        g.resource.object?.any fun o => decide (uuidOfText rid = some o.id)
  | some .bucket => bucketGrantNamed bucketName rid g
  | none => objectNameIn [rid, folderPlaceholderPath rid] g || bucketGrantNamed bucketName rid g

def keptByFilter (db : Database) (narrow : GrantFilter) (g : Grant) : Bool :=
  let bucketName := ((db.bucketById g.bucketId).map Bucket.name).getD []
  (decide (narrow.resourceType = []) ||
    decide (choice resourceTypeChoices narrow.resourceType = some g.resource.type)) &&
  (decide (narrow.bucket = []) || decide (bucketName = narrow.bucket)) &&
  (decide (narrow.resourceId = []) ||
    matchesResourceId narrow.resourceType (normalizePath narrow.resourceId) bucketName g)

/-- Members see the grants they made and those made to them or to the company. -/
def listedTo (principal : StoragePrincipal) (companyId : Nat) (g : Grant) : Bool :=
  isCompanyAdmin principal || decide (g.createdById = some principal.userId) ||
    decide (g.subjectType = .user ∧ g.subjectId = decimal principal.userId) ||
    decide (g.subjectType = .company ∧ g.subjectId = decimal companyId)

def listGrants (principal : StoragePrincipal) (narrow : GrantFilter) :
    Act (List SerializedGrant) := do
  let companyId ← requireCompanyId principal
  let db ← database
  let joined := (db.grants.rows.filter fun g => decide (g.companyId = companyId)).filterMap
    db.selectRelated
  let kept := joined.filter fun g => keptByFilter db narrow g && listedTo principal companyId g
  pure ((kept.insertionSort fun a b => b.createdAt ≤ a.createdAt).map (serializeGrant db))

structure EffectiveGrants where
  grants : List SerializedGrant
  privateAncestor : Option Text
  deriving DecidableEq

def listGrantsEffective (principal : StoragePrincipal) (narrow : GrantFilter) :
    Act EffectiveGrants := do
  let companyId ← requireCompanyId principal
  let bucketName :=
    if strip narrow.bucket = [] then companyBucketName else strip narrow.bucket
  let grants ← listGrants principal narrow
  let path := normalizePath narrow.resourceId
  let db ← database
  let out ← outside
  pure
    { grants := grants
      privateAncestor :=
        if path = [] then none
        else nearestPrivateAncestorFolder db out.now companyId bucketName path }

end StorageService.Storage
