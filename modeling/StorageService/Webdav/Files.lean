import StorageService.Webdav.Views

/-!
# The WebDAV handlers for files

GET, HEAD, PUT and MKCOL of `webdav/views.py` with `build_download_response` of
`downloads.py`, and the dispatch of a request to its handler.  The time of access
that a download writes is left out, and so is the field in which `serialize_object`
shows it.
-/

namespace StorageService.Webdav

open StorageService.Foundation
open StorageService.Foundation.Action
open StorageService.Storage

structure FileHeaders where
  contentType : Text
  contentLength : Nat
  etag : Option Text
  /-- `inline; filename="…"`, on a download only. -/
  filename : Option Text
  deriving DecidableEq, Repr

inductive DavAnswer where
  | file (headers : FileHeaders) (data : Bytes)
  | head (headers : FileHeaders)
  | multistatus (items : List DavItem)
  | created
  | noContent
  | error (status : Nat) (text : String)
  deriving DecidableEq

def notFound : DavAnswer := .error 404 "Not found"

def forbidden : DavAnswer := .error 403 "Forbidden"

def pathRequired : DavAnswer := .error 400 "Bucket and path required"

def collectionExists : DavAnswer := .error 405 "Collection already exists"

def DavResponse.answer : DavResponse → DavAnswer
  | .multistatus items => .multistatus items
  | .noContent => .noContent
  | .badRequest => pathRequired
  | .forbidden => Webdav.forbidden
  | .notFound => Webdav.notFound

def etagHeader (obj : StorageObject) : Option Text := if obj.etag = [] then none else some obj.etag

def buildDownloadResponse (env : Env) (obj : StorageObject) : Act DavAnswer := do
  reach .rowWrite
  let contentType :=
    if obj.mimeType ≠ [] then obj.mimeType else (env.guessType obj.name).getD octetStream
  let data ← openBlob obj.storageKey
  pure (.file ⟨contentType, obj.size, etagHeader obj, some (basename obj.name)⟩ data)

def getOrHead (env : Env) (principal : StoragePrincipal) (head : Bool) (path : Text) :
    Act DavAnswer := do
  let _ ← requireCompanyId principal
  let (bucketName, objectPath) := parsePath env path
  if bucketName = [] ∨ objectPath = [] then pure notFound
  else
    let bucket ← getAccessibleBucket env principal bucketName .read
    let name ← ofExcept (safeObjectPath objectPath)
    let db ← database
    let out ← outside
    match db.objectNamed bucket.id name with
    | none => pure notFound
    | some obj =>
        if canAccessPath db out.now principal bucket name (some obj.id) .read then
          if head then pure (.head ⟨obj.mimeType, obj.size, etagHeader obj, none⟩)
          else buildDownloadResponse env obj
        else pure forbidden

def put (env : Env) (principal : StoragePrincipal) (path : Text) (contentType : Option Text)
    (body : Bytes) : Act DavAnswer := do
  let _ ← requireCompanyId principal
  let (bucketName, objectPath) := parsePath env path
  if bucketName = [] ∨ objectPath = [] then pure pathRequired
  else
    let bucket ← getAccessibleBucket env principal bucketName .write
    let name ← ofExcept (safeObjectPath objectPath)
    let db ← database
    let out ← outside
    if canAccessPath db out.now principal bucket name none .write then
      let created := decide (db.objectNamed bucket.id name = none)
      let _ ← uploadObject env bucket objectPath body (some principal.userId) contentType true
      pure (if created then .created else .noContent)
    else pure forbidden

def mkcol (env : Env) (principal : StoragePrincipal) (path : Text) : Act DavAnswer := do
  let _ ← requireCompanyId principal
  let (bucketName, objectPath) := parsePath env path
  if bucketName = [] then pure (.error 403 "Cannot create bucket via MKCOL")
  else
    let bucket ← getAccessibleBucket env principal bucketName .write
    if objectPath = [] then pure (.error 400 "Folder path required")
    else
      let name ← ofExcept (safeObjectPath objectPath)
      let db ← database
      let out ← outside
      if canAccessPath db out.now principal bucket name none .write then
        let placeholder := name ++ placeholderSuffix
        if db.objectNamed bucket.id placeholder ≠ none then pure collectionExists
        -- any object under this prefix also means that the collection exists
        else if db.objectsStartingWith bucket.id (name ++ ['/']) ≠ [] then pure collectionExists
        else
          let _ ← uploadObject env bucket placeholder [] (some principal.userId)
            (some octetStream) false
          pure .created
      else pure forbidden

/-! ## Requests -/

inductive DavRequest where
  | propfind (path depth : Text)
  | get (path : Text)
  | head (path : Text)
  | put (path : Text) (contentType : Option Text) (body : Bytes)
  | delete (path : Text)
  | mkcol (path : Text)
  | move (path destination : Text)
  | copy (path destination : Text)

def dispatch (env : Env) (display : Display) (principal : StoragePrincipal) :
    DavRequest → Act DavAnswer
  | .propfind path depth => do
      let response ← propfind env display principal depth path
      pure response.answer
  | .get path => getOrHead env principal false path
  | .head path => getOrHead env principal true path
  | .put path contentType body => put env principal path contentType body
  | .delete path => do
      let response ← delete env display principal path
      pure response.answer
  | .mkcol path => mkcol env principal path
  | .move path destination => do
      let _ ← moveOrCopy env principal false path destination
      pure .created
  | .copy path destination => do
      let _ ← moveOrCopy env principal true path destination
      pure .created

end StorageService.Webdav
