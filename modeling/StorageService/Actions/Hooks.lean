import StorageService.Actions.Events
import StorageService.Foundation.Part
import StorageService.Storage.System

/-!
# Events of storage operations

`emit.py` and `storage_hooks.py` behind the operations of `services.py`: the
receivers of their signals run inside the transaction of the operation, after
everything else, and what `transaction.on_commit` was given runs when the
outermost transaction has committed.
-/

namespace StorageService.Actions

open StorageService.Foundation
open StorageService.Foundation.Action
open StorageService.Storage (strip UUID Point Bucket StorageObject StoragePrincipal Upload
  folderPlaceholderName placeholderSuffix uuidText)

/-- The tables the hooks use, beside the storage tables of the same transaction. -/
structure HookTables where
  storage : Storage.Database
  rules : Table ActionRule ActionRule.Clash
  eventLog : List EventRecord
  outbox : List OutboxRow
  onCommit : List (List Nat)

structure HookOutside where
  storage : Storage.Outside
  /-- How many ids the hooks have drawn. -/
  drawn : Nat
  /-- How many more statements of the hooks go through before one raises. -/
  statements : Option Nat
  /-- The deliveries handed to the executor. -/
  submitted : List Nat

abbrev HookSession := Session HookTables HookOutside

abbrev HookAct (α : Type) := Action Storage.Failure HookTables HookOutside α

def storageTables : Part HookTables Storage.Database where
  get := HookTables.storage
  put db storage := { db with storage := storage }
  get_put _ _ := rfl

def storageOutside : Part HookOutside Storage.Outside where
  get := HookOutside.storage
  put out storage := { out with storage := storage }
  get_put _ _ := rfl

def onStorage {α : Type} (x : Storage.Act α) : HookAct α := onParts storageTables storageOutside x

/-! ## `emit_event` -/

def passStatement : HookAct Unit := do
  let out ← outside
  match out.statements with
  | some 0 => raise (.interrupted .signal)
  | some (n + 1) => putOutside { out with statements := some n }
  | none => pure ()

def draw : HookAct Nat := do
  let out ← outside
  putOutside { out with drawn := out.drawn + 1 }
  pure out.drawn

def recordEvent (env : HookEnv) (eventType : Text) (companyId : ℤ)
    (payload : List (Text × Json)) (actor : Option Actor) : HookAct Unit := do
  passStatement
  let id ← draw
  let out ← outside
  let record : EventRecord :=
    { id := id
      companyId := some companyId
      userId := actorUserId actor
      eventType := eventType
      createdAt := out.storage.now
      data := compactEventData env payload actor }
  modifyDatabase fun db => { db with eventLog := db.eventLog ++ [record] }

def createOutboxRow (row : NewRow) : HookAct OutboxRow := do
  passStatement
  let out ← outside
  let row := newOutboxRow out.storage.now row
  modifyDatabase fun db => { db with outbox := db.outbox ++ [row] }
  pure row

def matchingRules (rules : Table ActionRule ActionRule.Clash) (eventType : Text)
    (companyId : ℤ) : List ActionRule :=
  (rules.rows.filter fun rule =>
    decide (rule.companyId = companyId ∧ rule.eventType = eventType ∧ rule.enabled)).insertionSort
      fun a b => a.id ≤ b.id

def createWebhookRows (env : HookEnv) (eventType : Text) (companyId : ℤ)
    (envelope : List (Text × Json)) : List ActionRule → HookAct (List OutboxRow)
  | [] => pure []
  | rule :: rules => do
      let n ← draw
      let row ← createOutboxRow
        ⟨env.uuid4 n, companyId, some rule.id, .webhook, eventType, envelope⟩
      let rows ← createWebhookRows env eventType companyId envelope rules
      pure (row :: rows)

def enqueueEmailEvent (env : HookEnv) (eventType : Text) (companyId : ℤ)
    (payload : List (Text × Json)) (actor : Option Actor) : HookAct (Option OutboxRow) :=
  if ¬emailServiceConfigured env.delivery then pure none
  else do
    let n ← draw
    let id := env.uuid4 n
    let body := buildEmailEventBody env eventType companyId payload (uuidText id) actor
      (companyContextFromId companyId [] [])
    let row ← createOutboxRow ⟨id, companyId, none, .email, eventType, body⟩
    pure (some row)

def scheduleOutboxDelivery (outboxIds : List Nat) : HookAct Unit :=
  if outboxIds = [] then pure ()
  else modifyDatabase fun db => { db with onCommit := db.onCommit ++ [outboxIds] }

/-- The loop over the rules of the query; where there are none, no envelope is built. -/
def createRowsFor (env : HookEnv) (eventType : Text) (companyId : ℤ)
    (payload : List (Text × Json)) (actor : Option Actor) (rules : List ActionRule) :
    HookAct (List OutboxRow) :=
  if rules = [] then pure []
  else do
    let n ← draw
    let out ← outside
    createWebhookRows env eventType companyId
      (buildEnvelope env (env.uuid4 n) out.storage.now eventType
        (companyContextFromId companyId [] []) payload actor) rules

/-- The body of `emit_event` once the type of the event is known; nothing is forced. -/
def emitKnown (env : HookEnv) (event : DomainEventType) (eventType : Text) (companyId : ℤ)
    (payload : List (Text × Json)) (actor : Option Actor) : HookAct (List OutboxRow) :=
  if ¬event.emitByDefault then pure []
  else do
    recordEvent env eventType companyId payload actor
    passStatement
    let db ← database
    let rows ← createRowsFor env eventType companyId payload actor
      (matchingRules db.rules eventType companyId)
    let emailRow ←
      if event.staffOnly then pure none
      else enqueueEmailEvent env eventType companyId payload actor
    scheduleOutboxDelivery ((rows ++ emailRow.toList).map fun row => row.id)
    pure rows

def emitEvent (env : HookEnv) (eventType : Text) (companyId : ℤ)
    (payload : List (Text × Json)) (actor : Option Actor) : HookAct (List OutboxRow) := do
  let event ← ofExcept (getEventType env eventType)
  emitKnown env event eventType companyId payload actor

def swallowed : Storage.Failure → Option (List OutboxRow)
  | .valueError _ => some []
  | _ => none

def emitEventIfRules (env : HookEnv) (eventType : Text) (companyId : ℤ)
    (payload : List (Text × Json)) (actor : Option Actor) : HookAct (List OutboxRow) :=
  recover (emitEvent env eventType companyId payload actor) swallowed

/-! ## The receivers -/

def isFolderPlaceholder (objectName : Text) : Bool :=
  let name := strip objectName
  decide (name = folderPlaceholderName ∨ placeholderSuffix <:+ name)

def kindText : Storage.BucketKind → Text
  | .company => "company".toList
  | .connector => "connector".toList

def uploadedPayload (bucket : Bucket) (obj : StorageObject) (created : Bool) :
    List (Text × Json) :=
  [("object_id".toList, .text (uuidText obj.id)), ("bucket_name".toList, .text bucket.name),
    ("bucket_kind".toList, .text (kindText bucket.kind)), ("path".toList, .text obj.name),
    ("size".toList, .int obj.size), ("mime_type".toList, .text obj.mimeType),
    ("version".toList, .int obj.version), ("created".toList, .bool created)]

def deletedPayload (bucket : Bucket) (obj : StorageObject) : List (Text × Json) :=
  [("bucket_name".toList, .text bucket.name), ("path".toList, .text obj.name),
    ("size".toList, .int obj.size), ("mime_type".toList, .text obj.mimeType)]

def bucketOf (obj : StorageObject) : HookAct Bucket := do
  passStatement
  let db ← database
  ofOption (.interrupted .signal) (db.storage.bucketById obj.bucketId)

def actionsOnObjectUploaded (env : HookEnv) (actor : Option Actor) (obj : StorageObject)
    (created : Bool) : HookAct Unit :=
  if isFolderPlaceholder obj.name then pure ()
  else do
    let bucket ← bucketOf obj
    let _ ← emitEventIfRules env objectUploaded obj.companyId (uploadedPayload bucket obj created)
      actor

def actionsOnObjectDeleted (env : HookEnv) (actor : Option Actor) (bucket : Bucket)
    (obj : StorageObject) : HookAct Unit :=
  if isFolderPlaceholder obj.name then pure ()
  else do
    let _ ← emitEventIfRules env objectDeleted obj.companyId (deletedPayload bucket obj) actor

/-! ## The operations with their signals -/

namespace Hooks

def uploadObject (env : HookEnv) (actor : Option Actor) (u : Upload) :
    HookAct StorageObject := atomic do
  let db ← database
  let obj ← onStorage (u.run env.storage)
  actionsOnObjectUploaded env actor obj (u.existing db.storage).isNone
  pure obj

def copyObject (env : HookEnv) (actor : Option Actor) (bucket : Bucket) (source : Text)
    (destBucket : Bucket) (dest : Text) (ownerId : Option Nat) :
    HookAct StorageObject := atomic do
  let obj ← onStorage (Storage.copyObject env.storage bucket source destBucket dest ownerId)
  actionsOnObjectUploaded env actor obj true
  pure obj

def deleteObject (env : HookEnv) (actor : Option Actor) (obj : StorageObject) :
    HookAct Unit := atomic do
  let bucket ← bucketOf obj
  onStorage (Storage.deleteObject env.storage obj)
  actionsOnObjectDeleted env actor bucket obj

def deleteChecked (env : HookEnv) (actor : Option Actor) (bucket : Bucket)
    (principal : StoragePrincipal) (objs : List StorageObject) : HookAct Unit := do
  onStorage (forEach (fun obj =>
    Storage.assertCanAccessPath principal bucket obj.name (some obj.id) .write) objs)
  forEach (deleteObject env actor) objs

def deleteUnderPrefix (env : HookEnv) (actor : Option Actor) (bucket : Bucket)
    (folderPath : Text) (principal : StoragePrincipal) : HookAct (List Text) := atomic do
  let db ← database
  let objs := Storage.objectsUnderPrefix db.storage bucket folderPath
  deleteChecked env actor bucket principal objs
  pure (objs.map StorageObject.name)

def emptyBucket (env : HookEnv) (actor : Option Actor) (bucket : Bucket)
    (principal : StoragePrincipal) : HookAct Unit := atomic do
  let db ← database
  deleteChecked env actor bucket principal
    (db.storage.objects.rows.filter fun o => decide (o.bucketId = bucket.id))

end Hooks

/-! ## Requests -/

inductive HookRequest where
  | upload (u : Upload)
  | copy (bucket : Bucket) (source : Text) (destBucket : Bucket) (dest : Text)
      (ownerId : Option Nat)
  | delete (obj : StorageObject)
  | deleteUnderPrefix (bucket : Bucket) (folderPath : Text) (principal : StoragePrincipal)
  | emptyBucket (bucket : Bucket) (principal : StoragePrincipal)

namespace HookRequest

/-- The buckets handed to the operation are stored; of an object `delete_object` asks nothing. -/
def Loaded (db : Storage.Database) : HookRequest → Prop
  | upload u => u.bucket ∈ db.buckets.rows
  | copy bucket _ destBucket _ _ => bucket ∈ db.buckets.rows ∧ destBucket ∈ db.buckets.rows
  | delete _ => True
  | deleteUnderPrefix bucket _ _ | emptyBucket bucket _ => bucket ∈ db.buckets.rows

instance (db : Storage.Database) (r : HookRequest) : Decidable (r.Loaded db) :=
  match r with
  | upload _ | deleteUnderPrefix _ _ _ | emptyBucket _ _ => inferInstanceAs (Decidable (_ ∈ _))
  | copy _ _ _ _ _ => inferInstanceAs (Decidable (_ ∈ _ ∧ _ ∈ _))
  | delete _ => inferInstanceAs (Decidable True)

def run (env : HookEnv) (actor : Option Actor) : HookRequest → HookAct (Option StorageObject)
  | upload u => do
      let obj ← Hooks.uploadObject env actor u
      pure (some obj)
  | copy bucket source destBucket dest ownerId => do
      let obj ← Hooks.copyObject env actor bucket source destBucket dest ownerId
      pure (some obj)
  | delete obj => do
      Hooks.deleteObject env actor obj
      pure none
  | deleteUnderPrefix bucket folderPath principal => do
      let _ ← Hooks.deleteUnderPrefix env actor bucket folderPath principal
      pure none
  | emptyBucket bucket principal => do
      Hooks.emptyBucket env actor bucket principal
      pure none

end HookRequest

/-- The outermost transaction with its `COMMIT`, which the database may refuse. -/
def transaction (env : HookEnv) (actor : Option Actor) (r : HookRequest) :
    HookAct (Option StorageObject) := atomic do
  let stored ← r.run env actor
  passStatement
  pure stored

def submit (outboxId : Nat) : HookAct Unit := do
  passStatement
  modifyOutside fun out => { out with submitted := out.submitted ++ [outboxId] }

def runCallbacks : HookAct Unit := do
  let db ← database
  putDatabase { db with onCommit := [] }
  forEach submit db.onCommit.flatten

def handle (env : HookEnv) (actor : Option Actor) (r : HookRequest) :
    HookAct (Option StorageObject) := do
  let stored ← transaction env actor r
  runCallbacks
  pure stored

/-! ## Runs -/

inductive HookAction where
  /-- A request; a step of the storage operation or of the hooks may raise. -/
  | request (r : HookRequest) (actor : Option Actor) (fault : Option (Point × Nat))
      (statements : Option Nat)
  | editRules (rules : Table ActionRule ActionRule.Clash)
  | wait (time : Nat)

def withFaults (s : HookSession) (fault : Option (Point × Nat)) (statements : Option Nat) :
    HookSession :=
  { s with out :=
    { s.out with
      storage := { s.out.storage with fault := fault }
      statements := statements } }

def hookStep (env : HookEnv) (s : HookSession) : HookAction → Option HookSession
  | .request r actor fault statements =>
      if r.Loaded s.db.storage then
        some (handle env actor r (withFaults s fault statements)).2
      else none
  | .editRules rules => some { s with db := { s.db with rules := rules } }
  | .wait time =>
      some { s with out :=
        { s.out with storage := { s.out.storage with now := s.out.storage.now + time } } }

def hooks (env : HookEnv) : Machine HookSession HookAction := ⟨hookStep env⟩

end StorageService.Actions
