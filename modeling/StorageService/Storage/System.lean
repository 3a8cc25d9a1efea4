import Mathlib.Algebra.Order.BigOperators.Group.List
import Mathlib.Logic.Relation
import StorageService.Storage.Endpoints

/-!
# The service as a transition system

A step is one operation with an arbitrary fault, however it ends, or the clock
moving on.  The rows handed to an operation are rows it could have loaded in the
state it starts from.
-/

namespace StorageService.Storage

open StorageService.Foundation
open StorageService.Foundation.Action

inductive Deletion where
  | object (obj : StorageObject)
  | paths (bucket : Bucket) (principal : StoragePrincipal) (paths : List Text)
  | underPrefix (bucket : Bucket) (folderPath : Text) (principal : StoragePrincipal)
  | wholeBucket (bucket : Bucket) (principal : StoragePrincipal)

namespace Deletion

def Loaded (db : Database) : Deletion → Prop
  | object obj => obj ∈ db.objects.rows
  | paths bucket _ _ | underPrefix bucket _ _ | wholeBucket bucket _ =>
      bucket ∈ db.buckets.rows

def run (env : Env) : Deletion → Act Unit
  | object obj => deleteObject env obj
  | paths bucket principal names => do let _ ← deletePaths env bucket principal names
  | underPrefix bucket folderPath principal => do
      let _ ← deleteUnderPrefix env bucket folderPath principal
  | wholeBucket bucket principal => emptyBucket env bucket principal

end Deletion

structure Upload where
  bucket : Bucket
  path : Text
  data : Bytes
  ownerId : Option Nat
  contentType : Option Text
  upsert : Bool

def Upload.run (env : Env) (u : Upload) : Act StorageObject :=
  uploadObject env u.bucket u.path u.data u.ownerId u.contentType u.upsert

def Upload.existing (db : Database) (u : Upload) : Option StorageObject :=
  match safeObjectPath u.path with
  | .error _ => none
  | .ok name => db.objectNamed u.bucket.id name

inductive Operation where
  | upload (u : Upload)
  | delete (d : Deletion)
  | rename (bucket : Bucket) (source dest : Text)
  | move (bucket : Bucket) (source : Text) (destBucket : Bucket) (dest : Text)
  | copy (bucket : Bucket) (source : Text) (destBucket : Bucket) (dest : Text)
      (ownerId : Option Nat)
  | folderMarker (bucket : Bucket) (folderPath : Text) (ownerId : Option Nat)
  | createGrant (principal : StoragePrincipal) (data : GrantRequest)
  | deleteGrant (principal : StoragePrincipal) (grantId : UUID)
  | companyBucket (companyId : Nat)
  /-- An operator adds a bucket, such as a connector mount. -/
  | addBucket (bucket : UUID → Bucket)
  /-- An operator sets the limits of a company. -/
  | companyLimit (companyId : Nat) (maxBytes : Int) (maxBytesPerUser : Option Int)
  | userLimit (companyId userId : Nat) (maxBytes : Int)

namespace Operation

def Loaded (db : Database) : Operation → Prop
  | upload u => u.bucket ∈ db.buckets.rows
  | delete d => d.Loaded db
  | rename bucket _ _ | folderMarker bucket _ _ => bucket ∈ db.buckets.rows
  | move bucket _ destBucket _ | copy bucket _ destBucket _ _ =>
      bucket ∈ db.buckets.rows ∧ destBucket ∈ db.buckets.rows
  | createGrant _ _ | deleteGrant _ _ | companyBucket _ | addBucket _ | companyLimit _ _ _
  | userLimit _ _ _ => True

instance (db : Database) (op : Operation) : Decidable (op.Loaded db) :=
  match op with
  | upload _ | rename _ _ _ | folderMarker _ _ _ => inferInstanceAs (Decidable (_ ∈ _))
  | delete d =>
      match d with
      | .object _ | .paths _ _ _ | .underPrefix _ _ _ | .wholeBucket _ _ =>
          inferInstanceAs (Decidable (_ ∈ _))
  | move _ _ _ _ | copy _ _ _ _ _ => inferInstanceAs (Decidable (_ ∈ _ ∧ _ ∈ _))
  | createGrant _ _ | deleteGrant _ _ | companyBucket _ | addBucket _ | companyLimit _ _ _
  | userLimit _ _ _ => isTrue trivial

def setCompanyLimit (env : Env) (companyId : Nat) (maxBytes : Int)
    (maxBytesPerUser : Option Int) : Act Unit := do
  let quota ← getOrCreateCompanyQuota env companyId
  modifyDatabase (·.setCompanyQuota companyId
    { quota with maxBytes := maxBytes, maxBytesPerUser := maxBytesPerUser })

def setUserLimit (companyId userId : Nat) (maxBytes : Int) : Act Unit :=
  modifyDatabase fun db =>
    let used := ((db.userQuotas companyId userId).map UserQuota.usedBytes).getD 0
    db.setUserQuota companyId userId { maxBytes := maxBytes, usedBytes := used }

def run (env : Env) : Operation → Act Unit
  | upload u => do let _ ← u.run env
  | delete d => d.run env
  | rename bucket source dest => do let _ ← renameFolder bucket source dest
  | move bucket source destBucket dest => do
      let _ ← moveObject bucket source destBucket dest
  | copy bucket source destBucket dest ownerId => do
      let _ ← copyObject env bucket source destBucket dest ownerId
  | folderMarker bucket folderPath ownerId => do
      let _ ← ensureFolderMarker env bucket folderPath ownerId
  | createGrant principal data => do let _ ← Storage.createGrant env principal data
  | deleteGrant principal grantId => Storage.deleteGrant env principal grantId
  | companyBucket companyId => do let _ ← ensureCompanyBucket env companyId
  | addBucket bucket => do
      let id ← drawUuid env
      execute (·.createBucket { bucket id with id := id })
  | companyLimit companyId maxBytes maxBytesPerUser =>
      setCompanyLimit env companyId maxBytes maxBytesPerUser
  | userLimit companyId userId maxBytes => setUserLimit companyId userId maxBytes

end Operation

/-! ## Steps and runs -/

def World.withFault (w : World) (fault : Option (Point × Nat)) : World :=
  { w with out := { w.out with fault := fault } }

inductive Step (env : Env) : World → World → Prop where
  | operation (w : World) (op : Operation) (fault : Option (Point × Nat))
      (loaded : op.Loaded w.db) : Step env w (op.run env (w.withFault fault)).2
  | clock (w : World) (t : Time) (later : w.out.now ≤ t) :
      Step env w { w with out := { w.out with now := t } }

def World.initial (engine : Engine := .postgresql) : World where
  db := .empty engine
  out := { blobs := ∅, drawn := 0, now := 0, fault := none }

def Reachable (env : Env) : World → Prop :=
  Relation.ReflTransGen (Step env) (.initial env.engine)

def Succeeds (env : Env) (op : Operation) (w w' : World) : Prop :=
  op.Loaded w.db ∧ ∃ fault, (op.run env).Runs (w.withFault fault) () w'

theorem Succeeds.step {env : Env} {op : Operation} {w w' : World}
    (h : Succeeds env op w w') : Step env w w' := by
  obtain ⟨loaded, fault, hrun⟩ := h
  have hstep : Step env w _ := .operation w op fault loaded
  rwa [hrun] at hstep

/-! ## Scripts -/

def Operation.after (env : Env) (op : Operation) (w : World) : World :=
  (op.run env (w.withFault none)).2

theorem Succeeds.after {env : Env} {op : Operation} {w : World} (loaded : op.Loaded w.db)
    (h : (op.run env (w.withFault none)).1.toOption.any (fun _ => true) = true) :
    Succeeds env op w (op.after env w) := by
  obtain ⟨_, hrun, -⟩ := runs_of_any h
  exact ⟨loaded, none, hrun⟩

def play (env : Env) : List Operation → World → World
  | [], w => w
  | op :: ops, w => play env ops (op.after env w)

def Playable (env : Env) : List Operation → World → Prop
  | [], _ => True
  | op :: ops, w => op.Loaded w.db ∧ Playable env ops (op.after env w)

instance decidablePlayable (env : Env) :
    (ops : List Operation) → (w : World) → Decidable (Playable env ops w)
  | [], _ => isTrue trivial
  | _ :: ops, _ =>
      have := decidablePlayable env ops
      inferInstanceAs (Decidable (_ ∧ _))

theorem Reachable.play {env : Env} {w : World} (hw : Reachable env w)
    {ops : List Operation} (h : Playable env ops w) : Reachable env (play env ops w) := by
  induction ops generalizing w with
  | nil => exact hw
  | cons op ops ih => exact ih (hw.tail (.operation w op none h.1)) h.2

/-! ## A small installation -/

/--
Settings and stand-ins for concrete runs, on either backend.  The digests are
those of the empty text, `a` and `b`; ids are counted up from the first UUID of
version four.
-/
def sampleEnv (s3Backend : Bool) : Env where
  engine := .postgresql
  storageKeyPrefix := ['o', 'b', 'j', 'e', 'c', 't', 's']
  s3Backend := s3Backend
  awsBucketRepr := "'files'"
  awsEndpoint := "AWS default"
  writeErrorCode := ""
  writeErrorText := "connection reset"
  maxUploadBytes := 1000
  defaultCompanyQuotaBytes := 100000
  defaultUserQuotaBytes := 0
  md5 := fun data => hexText 32
    (if data = [] then 0xd41d8cd98f00b204e9800998ecf8427e
    else if data = [97] then 0x0cc175b9c0f1b6a831c399e269772661
    else if data = [98] then 0x92eb5ffee6ae2fec3ad71c777531578f
    else 0)
  guessType := fun _ => none
  lower := fun text => text.map Char.toLower
  repr := fun text => "'" ++ String.ofList text ++ "'"
  parseDatetime := fun _ => .ok none
  unquote := id
  urlPath := id
  uuid4 := fun n => 0x40008000000000000000 + n
  availableName := fun _ blobs key =>
    key ++ '_' :: List.replicate ((blobs.entries.map fun e => e.1.length).sum) 'x'

def sampleBucket : Bucket := newCompanyBucket 1 ((sampleEnv false).uuid4 0)

def member (userId : Nat) : StoragePrincipal where
  userId := userId
  companyId := some 1
  isStaff := false
  isCompanyOwner := false

def staffMember (userId : Nat) : StoragePrincipal := { member userId with isStaff := true }

def sampleRequest (effect subjectType subjectId resourceType resourceId permission : Text) :
    GrantRequest where
  subjectType := subjectType
  subjectId := subjectId
  resourceType := resourceType
  resourceId := resourceId
  permission := permission
  effect := effect
  bucket := []
  expiresAt := []
  notes := []

def denyRequest (resourceType resourceId permission : Text) : GrantRequest :=
  sampleRequest ['d', 'e', 'n', 'y'] ['c', 'o', 'm', 'p', 'a', 'n', 'y'] ['1'] resourceType
    resourceId permission

def allowRequest (resourceType resourceId permission : Text) : GrantRequest :=
  sampleRequest ['a', 'l', 'l', 'o', 'w'] ['u', 's', 'e', 'r'] ['2'] resourceType resourceId
    permission

def sampleUpload (path : Text) (data : Bytes) (ownerId : Nat) : Upload where
  bucket := sampleBucket
  path := path
  data := data
  ownerId := some ownerId
  contentType := none
  upsert := true

theorem sampleEnv_lawful (s3Backend : Bool) : (sampleEnv s3Backend).Lawful where
  uuid4_injective m n h := by
    simpa [sampleEnv] using h
  availableName_free n blobs key := by
    rw [AList.lookup_eq_none]
    intro hmem
    obtain ⟨e, he, heq⟩ := List.mem_map.mp (AList.mem_keys.mp hmem)
    have hle : e.1.length ≤ (blobs.entries.map fun e => e.1.length).sum :=
      List.single_le_sum (by simp) _ (List.mem_map_of_mem he)
    rw [heq] at hle
    simp [sampleEnv] at hle
    omega
  availableName_parent n blobs key := by
    apply parent_append_of_not_mem
    simp [List.mem_replicate]

def sqliteEnv : Env := { sampleEnv false with engine := .sqlite }

theorem sqliteEnv_lawful : sqliteEnv.Lawful :=
  have h := sampleEnv_lawful false
  ⟨h.uuid4_injective, h.availableName_free, h.availableName_parent⟩

end StorageService.Storage
