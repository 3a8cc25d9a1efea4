import StorageService.Webdav.Files

/-!
# Requests that only read

The views of the API and the WebDAV methods through which a caller asks about
buckets, objects, grants and usage.  They provision the company bucket and create
quota rows, as every request does; answers are kept as the rows they are rendered
from.
-/

namespace StorageService.Webdav

open StorageService.Foundation
open StorageService.Foundation.Action
open StorageService.Storage

structure SerializedBucket where
  bucket : Bucket
  access : AccessSummary
  canWrite : Bool
  deriving DecidableEq

def serializeBucket (db : Database) (now : Time) (principal : StoragePrincipal)
    (bucket : Bucket) : SerializedBucket where
  bucket := bucket
  access := accessSummary bucket
  canWrite := canAccessBucket db now principal bucket .write

def bucketList (env : Env) (display : Display) (principal : StoragePrincipal) :
    Act (List SerializedBucket) := do
  let buckets ← listAccessibleBuckets env display principal
  let db ← database
  let out ← outside
  pure (buckets.map (serializeBucket db out.now principal))

def bucketDetail (env : Env) (principal : StoragePrincipal) (bucketName : Text) :
    Act SerializedBucket := do
  let bucket ← getAccessibleBucket env principal bucketName .read
  let db ← database
  let out ← outside
  pure (serializeBucket db out.now principal bucket)

def objectInfo (env : Env) (principal : StoragePrincipal) (bucketName path : Text) :
    Act (StorageObject × AccessSummary) := do
  let (bucket, obj) ← getAccessibleObject env principal bucketName path .read
  let db ← database
  let out ← outside
  pure (obj, pathAccessSummary bucket obj.name (some obj.id)
    (activeGrants db out.now bucket.companyId))

def objectDownload (env : Env) (principal : StoragePrincipal) (bucketName path : Text) :
    Act DavAnswer := do
  let (_, obj) ← getAccessibleObject env principal bucketName path .read
  buildDownloadResponse env obj

def quotaView (env : Env) (principal : StoragePrincipal) : Act QuotaSnapshot := do
  let companyId ← requireCompanyId principal
  snapshot env companyId (some principal.userId)

inductive Question where
  | buckets
  | bucket (bucketName : Text)
  | list (bucketName : Text) (request : ListRequest)
  | info (bucketName path : Text)
  | download (bucketName path : Text)
  | item (objectId : Text)
  | folder (bucketName pre : Text)
  | grants (narrow : GrantFilter)
  | effectiveGrants (narrow : GrantFilter)
  | quota
  | propfind (depth path : Text)
  | get (head : Bool) (path : Text)

inductive Answer where
  | buckets (items : List SerializedBucket)
  | entries (items : List ListEntry)
  | info (obj : StorageObject) (access : AccessSummary)
  | item (resolved : ResolvedItem)
  | folder (summary : PrefixSummary)
  | grants (items : List SerializedGrant)
  | effectiveGrants (found : EffectiveGrants)
  | quota (usage : QuotaSnapshot)
  | dav (answer : DavAnswer)

def Question.ask (env : Env) (display : Display) (principal : StoragePrincipal) :
    Question → Act Answer
  | buckets => do
      let items ← bucketList env display principal
      pure (.buckets items)
  | bucket bucketName => do
      let detail ← bucketDetail env principal bucketName
      pure (.buckets [detail])
  | list bucketName request => do
      let entries ← objectList env display principal bucketName request
      pure (.entries entries)
  | info bucketName path => do
      let (obj, access) ← objectInfo env principal bucketName path
      pure (.info obj access)
  | download bucketName path => do
      let answer ← objectDownload env principal bucketName path
      pure (.dav answer)
  | item objectId => do
      let resolved ← resolveItemById principal objectId
      pure (.item resolved)
  | folder bucketName pre => do
      let summary ← prefixStats env principal bucketName pre
      pure (.folder summary)
  | grants narrow => do
      let items ← listGrants principal narrow
      pure (.grants items)
  | effectiveGrants narrow => do
      let found ← listGrantsEffective principal narrow
      pure (.effectiveGrants found)
  | quota => do
      let usage ← quotaView env principal
      pure (.quota usage)
  | propfind depth path => do
      let response ← Webdav.propfind env display principal depth path
      pure (.dav response.answer)
  | get head path => do
      let answer ← getOrHead env principal head path
      pure (.dav answer)

end StorageService.Webdav
