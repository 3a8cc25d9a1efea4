import StorageService.Storage.Grants

/-!
# Requests that relocate objects

The REST views for moving, copying and renaming and the WebDAV handler for MOVE
and COPY.  All of them check the paths as the caller wrote them and hand these
to the operations of `services.py`.  How a refusal is rendered is left out.
-/

namespace StorageService.Storage

open StorageService.Foundation
open StorageService.Foundation.Action

def errorMessage (message : String) : Failure := .storageError message 400 "Error"

def partitionSlash (text : Text) : Text × Text :=
  (text.takeWhile (· ≠ '/'), (text.dropWhile (· ≠ '/')).drop 1)

/-- The part the four handlers share: resolve the buckets, check both paths, act. -/
def authorisedRelocation (env : Env) (principal : StoragePrincipal) (copy : Bool)
    (srcBucketName srcPath dstBucketName dstPath : Text) : Act StorageObject := do
  let srcPermission : Permission := if copy then .read else .write
  let srcBucket ← getAccessibleBucket env principal srcBucketName srcPermission
  let dstBucket ← getAccessibleBucket env principal dstBucketName .write
  assertCanAccessPath principal srcBucket srcPath none srcPermission
  assertCanAccessPath principal dstBucket dstPath none .write
  if copy then copyObject env srcBucket srcPath dstBucket dstPath (some principal.userId)
  else moveObject srcBucket srcPath dstBucket dstPath

/-! ## REST -/

def objectRelocation (env : Env) (principal : StoragePrincipal) (copy : Bool)
    (fromPath toPath : Text) : Act StorageObject := do
  let _ ← requireCompanyId principal
  let (srcBucketName, srcObj) := partitionSlash fromPath
  let (dstBucketName, dstObj) := partitionSlash toPath
  ensure (srcBucketName ≠ [] ∧ srcObj ≠ [] ∧ dstBucketName ≠ [] ∧ dstObj ≠ [])
    (errorMessage "sourceKey and destinationKey must be bucket/path")
  authorisedRelocation env principal copy srcBucketName srcObj dstBucketName dstObj

def renamePrefix (env : Env) (principal : StoragePrincipal) (bucketName source dest : Text) :
    Act RenameResult := do
  let bucket ← getAccessibleBucket env principal bucketName .write
  let source := stripSlash source
  let dest := stripSlash dest
  ensure (source ≠ [] ∧ dest ≠ []) (errorMessage "from and to folder paths are required")
  let _ ← ofExcept (safeObjectPath source)
  let _ ← ofExcept (safeObjectPath dest)
  assertCanAccessPath principal bucket source none .write
  assertCanAccessPath principal bucket dest none .write
  renameFolder bucket source dest

/-! ## WebDAV -/

def parsePath (env : Env) (path : Text) : Text × Text :=
  let (bucket, rest) := partitionSlash (stripSlash (env.unquote path))
  (bucket, stripSlash rest)

/-- The group of the first match of `/dav/(.+)$`. -/
def davTail : Text → Option Text
  | [] => none
  | c :: s =>
      let rest := (c :: s).drop 5
      let tail := if rest.getLast? = some '\n' then rest.dropLast else rest
      if ['/', 'd', 'a', 'v', '/'] <+: c :: s ∧ tail ≠ [] ∧ '\n' ∉ tail then some tail
      else davTail s

def destinationDavPath (env : Env) (destination : Text) : Option Text :=
  let raw := strip destination
  if raw = [] then none
  else
    let path := env.urlPath raw
    davTail (env.unquote (if path = [] then raw else path))

def moveOrCopy (env : Env) (principal : StoragePrincipal) (copy : Bool)
    (path destination : Text) : Act StorageObject := do
  let _ ← requireCompanyId principal
  let tail ← ofOption (errorMessage "Invalid Destination") (destinationDavPath env destination)
  let (dstBucketName, dstPath) := parsePath env tail
  let (srcBucketName, srcPath) := parsePath env path
  ensure (dstBucketName ≠ [] ∧ dstPath ≠ [] ∧ srcBucketName ≠ [] ∧ srcPath ≠ [])
    (errorMessage "Invalid paths")
  authorisedRelocation env principal copy srcBucketName srcPath dstBucketName dstPath

end StorageService.Storage
