import Mathlib.Data.List.Sort
import StorageService.Storage.Privacy
import StorageService.Storage.Quotas

/-!
# Object operations

`services.py`.  Each operation is one transaction where the source decorates it
with `transaction.atomic`.  Queries return rows in table order; where the source
sorts them explicitly, so does the model.
-/

namespace StorageService.Storage

open StorageService.Foundation
open StorageService.Foundation.Action

def alreadyExists : Failure :=
  .storageError "The resource already exists" 400 "resource_already_exists"

def destinationExists : Failure :=
  .storageError "Destination already exists" 400 "resource_already_exists"

def folderDestinationExists : Failure :=
  .storageError "A folder or file already exists at the destination." 400
    "resource_already_exists"

def objectNotFound : Failure :=
  .storageError "Object not found" 404 "object_not_found"

/-! ## Creating objects -/

/--
Draw an id, store the blob under a key of its own and insert the row: the steps
that uploads, copies and folder markers have in common.
-/
def createStored (env : Env) (bucket : Bucket) (objectName : Text) (data : Bytes)
    (ownerId : Option Nat) (size : Nat) (etag mimeType : Text) : Act StorageObject := do
  let objectId ← drawUuid env
  let storageKey := buildStorageKey env bucket.companyId bucket.name objectName objectId
  saveBlob env storageKey data
  let out ← outside
  let obj : StorageObject :=
    { id := objectId, bucketId := bucket.id, name := objectName,
      companyId := bucket.companyId, ownerId := ownerId, size := size, etag := etag,
      mimeType := mimeType, storageKey := storageKey, version := 1,
      createdAt := out.now, updatedAt := out.now }
  execute (·.createObject obj)
  pure obj

def createFile (env : Env) (bucket : Bucket) (objectName : Text) (data : Bytes)
    (ownerId : Option Nat) (size : Nat) (etag mimeType : Text) : Act StorageObject := do
  let obj ← createStored env bucket objectName data ownerId size etag mimeType
  applyUsageDelta env bucket.companyId obj.ownerId size
  applyDefaultPrivateOnCreate env obj obj.ownerId
  reach .signal
  pure obj

def ensureFolderMarker (env : Env) (bucket : Bucket) (folderPath : Text)
    (ownerId : Option Nat) : Act StorageObject := do
  let name := folderPlaceholderPath folderPath
  let db ← database
  match db.objectNamed bucket.id name with
  | some existing => pure existing
  | none => createStored env bucket name [] ownerId 0 [] octetStream

/-! ## Upload -/

def overwritten (env : Env) (existing : StorageObject) (mimeType : Text) (data : Bytes)
    (ownerId : Option Nat) (now : Time) : StorageObject :=
  { existing with
    size := data.length
    etag := contentEtag env data
    mimeType := mimeType
    version := existing.version + 1
    updatedAt := now
    ownerId := ownerId <|> existing.ownerId }

def overwriteObject (env : Env) (bucket : Bucket) (existing : StorageObject)
    (mimeType : Text) (data : Bytes) (ownerId : Option Nat) : Act StorageObject := do
  saveBlob env existing.storageKey data
  let out ← outside
  let obj := overwritten env existing mimeType data ownerId out.now
  execute (·.updateObject existing.id fun _ => obj)
  applyUsageDelta env bucket.companyId ownerId ((data.length : Int) - existing.size)
  reach .signal
  pure obj

/-- `bucket.file_size_limit or MAX_UPLOAD_BYTES`, at most `MAX_UPLOAD_BYTES` -/
def uploadLimit (env : Env) (bucket : Bucket) : Nat :=
  match bucket.fileSizeLimit with
  | none | some 0 => env.maxUploadBytes
  | some limit => min limit env.maxUploadBytes

def invalidMimeType (env : Env) (mimeType : Text) : Failure :=
  .storageError s!"MIME type {env.repr mimeType} is not allowed for this bucket." 415
    "invalid_mime_type"

def payloadTooLarge (limit : Nat) : Failure :=
  .storageError s!"Upload exceeds maximum size of {limit} bytes." 413 "payload_too_large"

def uploadObject (env : Env) (bucket : Bucket) (path : Text) (data : Bytes)
    (ownerId : Option Nat) (contentType : Option Text) (upsert : Bool) :
    Act StorageObject := atomic do
  let objectName ← ofExcept (safeObjectPath path)
  let mimeType := normalizeMimeType env contentType objectName
  ensure (mimeAllowed env mimeType bucket.allowedMimeTypes) (invalidMimeType env mimeType)
  let db ← database
  let existing := db.objectNamed bucket.id objectName
  ensure (existing = none ∨ upsert) alreadyExists
  ensure (data.length ≤ uploadLimit env bucket) (payloadTooLarge (uploadLimit env bucket))
  assertCanStore env bucket.companyId ownerId data.length
    ((existing.map StorageObject.size).getD 0)
  match existing with
  | some existing => overwriteObject env bucket existing mimeType data ownerId
  | none =>
      createFile env bucket objectName data ownerId data.length (contentEtag env data)
        mimeType

/-! ## Deletion -/

def deleteObject (env : Env) (obj : StorageObject) : Act Unit := atomic do
  reach .rowDelete
  modifyDatabase (·.deleteObject obj.id)
  deleteStorageKey obj.storageKey
  applyUsageDelta env obj.companyId obj.ownerId (-(obj.size : Int))
  reach .signal

/-- The rows named by `paths`; names that do not parse or do not exist are skipped. -/
def pathsToDelete (bucket : Bucket) (principal : StoragePrincipal) :
    List Text → Act (List StorageObject)
  | [] => pure []
  | raw :: paths =>
      match safeObjectPath raw with
      | .error _ => pathsToDelete bucket principal paths
      | .ok name => do
          let db ← database
          match db.objectNamed bucket.id name with
          | none => pathsToDelete bucket principal paths
          | some obj => do
              assertCanAccessPath principal bucket name (some obj.id) .write
              let objs ← pathsToDelete bucket principal paths
              pure (obj :: objs)

def deletePaths (env : Env) (bucket : Bucket) (principal : StoragePrincipal)
    (paths : List Text) : Act (List Text) := atomic do
  let objs ← pathsToDelete bucket principal paths
  forEach (deleteObject env) objs
  pure (objs.map StorageObject.name)

def prefixFilter (folderPath : Text) : Text :=
  let pre := stripSlash folderPath
  if pre = [] then [] else pre ++ ['/']

def objectsUnderPrefix (db : Database) (bucket : Bucket) (folderPath : Text) :
    List StorageObject :=
  db.objectsStartingWith bucket.id (prefixFilter folderPath)

def deleteChecked (env : Env) (bucket : Bucket) (principal : StoragePrincipal)
    (objs : List StorageObject) : Act Unit := do
  forEach (fun obj => assertCanAccessPath principal bucket obj.name (some obj.id) .write) objs
  forEach (deleteObject env) objs

def deleteUnderPrefix (env : Env) (bucket : Bucket) (folderPath : Text)
    (principal : StoragePrincipal) : Act (List Text) := atomic do
  let db ← database
  let objs := objectsUnderPrefix db bucket folderPath
  deleteChecked env bucket principal objs
  pure (objs.map StorageObject.name)

def emptyBucket (env : Env) (bucket : Bucket) (principal : StoragePrincipal) :
    Act Unit := atomic do
  let db ← database
  deleteChecked env bucket principal
    (db.objects.rows.filter fun o => decide (o.bucketId = bucket.id))

/-! ## Relocation -/

structure RenameResult where
  source : Text
  dest : Text
  moved : Nat
  grantsUpdated : Nat
  deriving DecidableEq, Repr

def renamedPath (src dst name : Text) : Text := dst ++ name.drop src.length

def renameOne (bucket : Bucket) (src dst : Text) (obj : StorageObject) : Act Unit :=
  if ¬src ++ ['/'] <+: obj.name then pure ()
  else do
    let newName := renamedPath src dst obj.name
    let db ← database
    ensure (∀ o ∈ db.objects.rows, o.bucketId = bucket.id ∧ o.name = newName → o.id = obj.id)
      folderDestinationExists
    let out ← outside
    execute (·.updateObject obj.id fun o => { o with name := newName, updatedAt := out.now })

def renameFolder (bucket : Bucket) (sourcePath destPath : Text) :
    Act RenameResult := atomic do
  let source ← ofExcept (safeObjectPath sourcePath)
  let dest ← ofExcept (safeObjectPath destPath)
  let src := stripSlash source
  let dst := stripSlash dest
  ensure (src ≠ [] ∧ dst ≠ [])
    (.storageError "from and to folder paths are required" 400 "invalid_prefix")
  if src = dst then pure { source := src, dest := dst, moved := 0, grantsUpdated := 0 }
  else do
    ensure (¬src ++ ['/'] <+: dst)
      (.storageError "Cannot rename a folder into itself." 400 "invalid_destination")
    let db ← database
    let objs := objectsUnderPrefix db bucket src
    ensure (objs ≠ []) (.storageError "Folder not found" 404 "folder_not_found")
    ensure (objectsUnderPrefix db bucket dst = [] ∧ db.objectNamed bucket.id dst = none)
      folderDestinationExists
    -- deepest paths first
    let sorted := objs.insertionSort fun a b => b.name.count '/' ≤ a.name.count '/'
    forEach (renameOne bucket src dst) sorted
    let db ← database
    pure
      { source := src
        dest := dst
        moved := (sorted.filter fun o => decide (src ++ ['/'] <+: o.name)).length
        grantsUpdated := (db.grants.rows.filter fun g =>
          g.resource.object?.any fun id => decide (∃ o ∈ sorted, o.id = id)).length }

def moveObject (bucket : Bucket) (sourcePath : Text) (destBucket : Bucket)
    (destPath : Text) : Act StorageObject := atomic do
  let sourceName ← ofExcept (safeObjectPath sourcePath)
  let destName ← ofExcept (safeObjectPath destPath)
  let db ← database
  let obj ← ofOption objectNotFound (db.objectNamed bucket.id sourceName)
  ensure (db.objectNamed destBucket.id destName = none) destinationExists
  let out ← outside
  let moved : StorageObject :=
    { obj with bucketId := destBucket.id, name := destName, updatedAt := out.now }
  if bucket.id = destBucket.id then do
    execute (·.updateObject obj.id fun o => { o with name := destName, updatedAt := out.now })
    pure moved
  else do
    ensure (bucket.companyId = destBucket.companyId)
      (.storageError "Cannot move across companies." 403 "forbidden")
    execute (·.updateObject obj.id fun o =>
      { o with bucketId := destBucket.id, name := destName, updatedAt := out.now })
    execute (·.moveGrants obj.id destBucket.id)
    pure moved

def copyObject (env : Env) (bucket : Bucket) (sourcePath : Text) (destBucket : Bucket)
    (destPath : Text) (ownerId : Option Nat) : Act StorageObject := atomic do
  let sourceName ← ofExcept (safeObjectPath sourcePath)
  let destName ← ofExcept (safeObjectPath destPath)
  let db ← database
  let src ← ofOption objectNotFound (db.objectNamed bucket.id sourceName)
  ensure (db.objectNamed destBucket.id destName = none) destinationExists
  ensure (bucket.companyId = destBucket.companyId)
    (.storageError "Cannot copy across companies." 403 "forbidden")
  assertCanStore env destBucket.companyId ownerId src.size 0
  let data ← openBlob src.storageKey
  createFile env destBucket destName data (ownerId <|> src.ownerId) src.size src.etag
    src.mimeType

end StorageService.Storage
