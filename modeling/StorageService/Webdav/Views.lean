import StorageService.Storage.Queries

/-!
# The WebDAV handlers for PROPFIND and DELETE

A listing is kept as the rows its elements are rendered from: a collection under
its bucket and path, or an object.  The answers a handler gives itself are kept
apart from the failures that the operations of `services.py` raise.
-/

namespace StorageService.Webdav

open StorageService.Foundation
open StorageService.Foundation.Action
open StorageService.Storage

inductive DavItem where
  | collection (bucket path displayname : Text)
  | object (bucket : Text) (obj : StorageObject)
  deriving DecidableEq

inductive DavResponse where
  | multistatus (items : List DavItem)
  | noContent
  | badRequest
  | forbidden
  | notFound
  deriving DecidableEq

/-! ## Listing -/

def bucketLe (display : Display) (a b : Bucket) : Bool :=
  match a.kind, b.kind with
  | .company, .connector => true
  | .connector, .company => false
  | _, _ => display.nameLe a.name b.name

def listAccessibleBuckets (env : Env) (display : Display) (principal : StoragePrincipal) :
    Act (List Bucket) := do
  let companyId ← requireCompanyId principal
  let _ ← ensureCompanyBucket env companyId
  let db ← database
  let out ← outside
  let buckets := (db.buckets.rows.filter fun b => decide (b.companyId = companyId)).insertionSort
    fun a b => bucketLe display a b = true
  pure (buckets.filter fun b => canAccessBucket db out.now principal b .read)

def orderedObjects (display : Display) (db : Database) (bucket : Bucket) (pre : Text) :
    List StorageObject :=
  (db.objectsStartingWith bucket.id pre).insertionSort
    fun a b => display.nameLe a.name b.name = true

def appendChildren (display : Display) (db : Database) (now : Time)
    (principal : StoragePrincipal) (bucket : Bucket) (pre : Text) : List DavItem :=
  let rest (o : StorageObject) := o.name.drop pre.length
  let objs := (orderedObjects display db bucket pre).filter fun o =>
    canAccessPath db now principal bucket o.name (some o.id) .read
  let folders := (objs.filter fun o => decide ('/' ∈ rest o)).map fun o =>
    (partitionSlash (rest o)).1
  let files := objs.filter fun o =>
    decide (rest o ≠ [] ∧ '/' ∉ rest o ∧ rest o ≠ folderPlaceholderName)
  ((folders.dedup.insertionSort fun a b => textLe a b).map fun name =>
      .collection bucket.name (stripSlash (pre ++ name)) name) ++
    files.map fun o => .object bucket.name o

def childrenAtDepth (display : Display) (db : Database) (now : Time)
    (principal : StoragePrincipal) (depth : Text) (bucket : Bucket) (pre : Text) :
    List DavItem :=
  if depth = ['0'] then [] else appendChildren display db now principal bucket pre

def propfindPath (display : Display) (db : Database) (now : Time)
    (principal : StoragePrincipal) (depth : Text) (bucket : Bucket) (name : Text) :
    DavResponse :=
  match db.objectNamed bucket.id name with
  | some obj =>
      if canAccessPath db now principal bucket obj.name (some obj.id) .read then
        .multistatus [.object bucket.name obj]
      else .forbidden
  | none =>
      -- a folder is refused by the grants on its path, whatever lies below it
      if ¬canAccessPath db now principal bucket name none .read then .forbidden
      else
        let pre := name.rdropWhile isSlash ++ ['/']
        if db.objectsStartingWith bucket.id pre = [] then .notFound
        else
          .multistatus (.collection bucket.name name (basename name) ::
            childrenAtDepth display db now principal depth bucket pre)

def propfind (env : Env) (display : Display) (principal : StoragePrincipal)
    (depth path : Text) : Act DavResponse := do
  let _ ← requireCompanyId principal
  let (bucketName, objectPath) := parsePath env path
  if bucketName = [] then
    if depth = ['0'] then pure (.multistatus [.collection [] [] ['d', 'a', 'v']])
    else
      let buckets ← listAccessibleBuckets env display principal
      pure (.multistatus (.collection [] [] ['d', 'a', 'v'] ::
        buckets.map fun b => .collection b.name [] b.name))
  else
    let bucket ← getAccessibleBucket env principal bucketName .read
    let db ← database
    let out ← outside
    if objectPath = [] then
      pure (.multistatus (.collection bucket.name [] bucket.name ::
        childrenAtDepth display db out.now principal depth bucket []))
    else
      let name ← ofExcept (safeObjectPath objectPath)
      pure (propfindPath display db out.now principal depth bucket name)

/-! ## Deletion -/

/-- One round of the loop over a folder: an item that is protected is left alone. -/
def deleteIfWritable (env : Env) (principal : StoragePrincipal) (bucket : Bucket)
    (item : StorageObject) : Act Unit := do
  let db ← database
  let out ← outside
  if canAccessPath db out.now principal bucket item.name (some item.id) .write then
    deleteObject env item
  else pure ()

def deletePath (env : Env) (display : Display) (principal : StoragePrincipal)
    (bucket : Bucket) (name : Text) : Act DavResponse := do
  let db ← database
  let out ← outside
  match db.objectNamed bucket.id name with
  | none =>
      let objs := orderedObjects display db bucket (name.rdropWhile isSlash ++ ['/'])
      if objs = [] then pure .notFound
      else
        forEach (deleteIfWritable env principal bucket) objs
        pure .noContent
  | some obj =>
      if canAccessPath db out.now principal bucket name (some obj.id) .write then
        deleteObject env obj
        pure .noContent
      else pure .forbidden

def delete (env : Env) (display : Display) (principal : StoragePrincipal) (path : Text) :
    Act DavResponse := do
  let _ ← requireCompanyId principal
  let (bucketName, objectPath) := parsePath env path
  if bucketName = [] ∨ objectPath = [] then pure .badRequest
  else
    let bucket ← getAccessibleBucket env principal bucketName .write
    let name ← ofExcept (safeObjectPath objectPath)
    deletePath env display principal bucket name

end StorageService.Webdav
