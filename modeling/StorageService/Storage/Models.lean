import StorageService.Foundation.Table
import StorageService.Storage.Names

/-!
# Rows and the database

The rows of `models.py` and the database that holds them.  Unique constraints
are part of the tables and foreign keys are fields of `Database`, so each
statement below is given together with the constraints it keeps; a statement
the database engine would reject is `none`.  A grant carries its resource type
and its object together, which is the check constraint that a bucket grant has
no object and every other grant has one.
-/

namespace StorageService.Storage

open StorageService.Foundation

inductive BucketKind where
  | company
  | connector
  deriving DecidableEq, Repr

structure Bucket where
  id : UUID
  name : Text
  companyId : Nat
  kind : BucketKind
  isPublic : Bool
  fileSizeLimit : Option Nat
  allowedMimeTypes : List Text
  ownerId : Option Nat
  deriving DecidableEq, Repr

structure StorageObject where
  id : UUID
  bucketId : UUID
  name : Text
  companyId : Nat
  ownerId : Option Nat
  size : Nat
  etag : Text
  mimeType : Text
  storageKey : Text
  version : Nat
  createdAt : Time
  updatedAt : Time
  deriving DecidableEq, Repr

structure CompanyQuota where
  maxBytes : Int
  usedBytes : Int
  maxBytesPerUser : Option Int
  deriving DecidableEq, Repr

structure UserQuota where
  maxBytes : Int
  usedBytes : Int
  deriving DecidableEq, Repr

inductive SubjectType where
  | user
  | group
  | company
  deriving DecidableEq, Repr

inductive ResourceType where
  | bucket
  | folder
  | object
  deriving DecidableEq, Repr

inductive Permission where
  | read
  | write
  | admin
  deriving DecidableEq, Repr

inductive Effect where
  | allow
  | deny
  deriving DecidableEq, Repr

inductive Resource (ρ : Type) where
  | bucket
  | folder (marker : ρ)
  | object (target : ρ)
  deriving DecidableEq, Repr

namespace Resource

variable {ρ σ : Type}

def object? : Resource ρ → Option ρ
  | .bucket => none
  | .folder marker => some marker
  | .object target => some target

def map (f : ρ → σ) : Resource ρ → Resource σ
  | .bucket => .bucket
  | .folder marker => .folder (f marker)
  | .object target => .object (f target)

theorem object?_map (f : ρ → σ) (r : Resource ρ) : (r.map f).object? = r.object?.map f := by
  cases r <;> rfl

def lookup (find : ρ → Option σ) : Resource ρ → Option (Resource σ)
  | .bucket => some .bucket
  | .folder marker => (find marker).map .folder
  | .object target => (find target).map .object

end Resource

/-- A grant; `ρ` is a UUID in the table and the row itself after a join. -/
structure StorageAccessGrant (ρ : Type) where
  id : UUID
  companyId : Nat
  bucketId : UUID
  subjectType : SubjectType
  subjectId : Text
  resource : Resource ρ
  permission : Permission
  effect : Effect
  createdById : Option Nat
  createdAt : Time
  expiresAt : Option Time
  notes : Text
  deriving DecidableEq, Repr

abbrev GrantRow := StorageAccessGrant UUID

abbrev Grant := StorageAccessGrant StorageObject

def StorageAccessGrant.row (g : Grant) : GrantRow :=
  { g with resource := g.resource.map StorageObject.id }

/-! ## Unique constraints -/

def Bucket.Clash (a b : Bucket) : Prop :=
  a.id = b.id ∨ a.companyId = b.companyId ∧ a.name = b.name

def StorageObject.Clash (a b : StorageObject) : Prop :=
  a.id = b.id ∨ a.bucketId = b.bucketId ∧ a.name = b.name

def GrantRow.Clash (a b : GrantRow) : Prop := a.id = b.id

instance : DecidableRel Bucket.Clash := fun _ _ => inferInstanceAs (Decidable (_ ∨ _))

instance : DecidableRel StorageObject.Clash := fun _ _ =>
  inferInstanceAs (Decidable (_ ∨ _))

instance : DecidableRel GrantRow.Clash := fun _ _ => inferInstanceAs (Decidable (_ = _))

instance : Std.Symm Bucket.Clash :=
  ⟨fun _ _ h => h.imp Eq.symm fun h => ⟨h.1.symm, h.2.symm⟩⟩

instance : Std.Symm StorageObject.Clash :=
  ⟨fun _ _ h => h.imp Eq.symm fun h => ⟨h.1.symm, h.2.symm⟩⟩

instance : Std.Symm GrantRow.Clash := ⟨fun _ _ h => Eq.symm h⟩

/-! ## The database -/

def References (objects : List StorageObject) : Option UUID → Prop
  | none => True
  | some i => ∃ o ∈ objects, o.id = i

instance (objects : List StorageObject) (ref : Option UUID) :
    Decidable (References objects ref) :=
  match ref with
  | none => isTrue trivial
  | some i => inferInstanceAs (Decidable (∃ o ∈ objects, o.id = i))

theorem References.of_ids {objects objects' : List StorageObject} {ref : Option UUID}
    (h : References objects ref)
    (hids : ∀ o ∈ objects, ref = some o.id → ∃ o' ∈ objects', o'.id = o.id) :
    References objects' ref := by
  cases ref with
  | none => trivial
  | some i =>
      obtain ⟨o, ho, rfl⟩ := h
      exact hids o ho rfl

structure Database where
  engine : Engine
  buckets : Table Bucket Bucket.Clash
  objects : Table StorageObject StorageObject.Clash
  grants : Table GrantRow GrantRow.Clash
  companyQuotas : Nat → Option CompanyQuota
  userQuotas : Nat → Nat → Option UserQuota
  objectBucket : ∀ o ∈ objects.rows, ∃ b ∈ buckets.rows, b.id = o.bucketId
  grantBucket : ∀ g ∈ grants.rows, ∃ b ∈ buckets.rows, b.id = g.bucketId
  grantObject : ∀ g ∈ grants.rows, References objects.rows g.resource.object?

namespace Database

def empty (engine : Engine) : Database where
  engine := engine
  buckets := .empty
  objects := .empty
  grants := .empty
  companyQuotas := fun _ => none
  userQuotas := fun _ _ => none
  objectBucket := by simp
  grantBucket := by simp
  grantObject := by simp

/-! ### Queries -/

def bucketById (db : Database) (id : UUID) : Option Bucket :=
  db.buckets.rows.find? fun b => decide (b.id = id)

def bucketNamed (db : Database) (companyId : Nat) (name : Text) : Option Bucket :=
  db.buckets.rows.find? fun b => decide (b.companyId = companyId ∧ b.name = name)

def objectById (db : Database) (id : UUID) : Option StorageObject :=
  db.objects.rows.find? fun o => decide (o.id = id)

def objectNamed (db : Database) (bucketId : UUID) (name : Text) : Option StorageObject :=
  db.objects.rows.find? fun o => decide (o.bucketId = bucketId ∧ o.name = name)

def objectsStartingWith (db : Database) (bucketId : UUID) (pre : Text) :
    List StorageObject :=
  db.objects.rows.filter fun o => decide (o.bucketId = bucketId ∧ db.engine.StartsWith pre o.name)

def selectRelated (db : Database) (g : GrantRow) : Option Grant :=
  (g.resource.lookup db.objectById).map fun resource =>
    { g with resource := resource }

/-! ### Statements -/

def createBucket (db : Database) (b : Bucket) : Option Database :=
  if h : db.buckets.Free b then
    some { db with
      buckets := db.buckets.insert b h
      objectBucket := fun o ho =>
        let ⟨c, hc, hid⟩ := db.objectBucket o ho
        ⟨c, List.mem_append_left _ hc, hid⟩
      grantBucket := fun g hg =>
        let ⟨c, hc, hid⟩ := db.grantBucket g hg
        ⟨c, List.mem_append_left _ hc, hid⟩ }
  else none

def setCompanyBucket (db : Database) (id : UUID) : Database :=
  let fix := fun b : Bucket =>
    if b.id = id then { b with kind := .company, isPublic := false, ownerId := none } else b
  have hfix : ∀ b, (fix b).id = b.id ∧ (fix b).companyId = b.companyId ∧
      (fix b).name = b.name := by
    intro b
    by_cases hb : b.id = id <;> simp [fix, hb]
  { db with
    buckets := db.buckets.rewrite fix
      (db.buckets.rewritable_of_clash_imp fix fun a b => by
        simp [Bucket.Clash, hfix])
    objectBucket := fun o ho =>
      let ⟨b, hb, hid⟩ := db.objectBucket o ho
      ⟨fix b, List.mem_map_of_mem hb, (hfix b).1.trans hid⟩
    grantBucket := fun g hg =>
      let ⟨b, hb, hid⟩ := db.grantBucket g hg
      ⟨fix b, List.mem_map_of_mem hb, (hfix b).1.trans hid⟩ }

def createObject (db : Database) (o : StorageObject) : Option Database :=
  if h : db.objects.Free o ∧ ∃ b ∈ db.buckets.rows, b.id = o.bucketId then
    some { db with
      objects := db.objects.insert o h.1
      objectBucket := fun p hp =>
        (List.mem_append.mp hp).elim (db.objectBucket p) fun heq => by
          rw [List.mem_singleton.mp heq]
          exact h.2
      grantObject := fun g hg =>
        (db.grantObject g hg).of_ids fun p hp _ =>
          ⟨p, List.mem_append_left _ hp, rfl⟩ }
  else none

def changed (id : UUID) (f : StorageObject → StorageObject) (o : StorageObject) :
    StorageObject :=
  if o.id = id then { f o with id := o.id } else o

@[simp] theorem changed_id (id : UUID) (f : StorageObject → StorageObject)
    (o : StorageObject) : (changed id f o).id = o.id := by
  by_cases h : o.id = id <;> simp [changed, h]

theorem changed_of_ne {id : UUID} {f : StorageObject → StorageObject}
    {o : StorageObject} (h : o.id ≠ id) : changed id f o = o := by
  simp [changed, h]

def updateObject (db : Database) (id : UUID) (f : StorageObject → StorageObject) :
    Option Database :=
  if h : db.objects.Rewritable (changed id f) ∧
      ∀ o ∈ db.objects.rows.map (changed id f),
        ∃ b ∈ db.buckets.rows, b.id = o.bucketId then
    some { db with
      objects := db.objects.rewrite (changed id f) h.1
      objectBucket := h.2
      grantObject := fun g hg =>
        (db.grantObject g hg).of_ids fun p hp _ =>
          ⟨changed id f p, List.mem_map_of_mem hp, changed_id id f p⟩ }
  else none

def deleteObject (db : Database) (id : UUID) : Database :=
  { db with
    objects := db.objects.delete fun o => decide (o.id = id)
    grants := db.grants.delete fun g => decide (g.resource.object? = some id)
    objectBucket := fun o ho => db.objectBucket o (List.mem_filter.mp ho).1
    grantBucket := fun g hg => db.grantBucket g (List.mem_filter.mp hg).1
    grantObject := fun g hg => by
      obtain ⟨hmem, hkeep⟩ := List.mem_filter.mp hg
      refine (db.grantObject g hmem).of_ids fun o ho href => ⟨o, ?_, rfl⟩
      have hne : o.id ≠ id := by
        rintro rfl
        simp [href] at hkeep
      exact List.mem_filter.mpr ⟨ho, by simpa using hne⟩ }

def createGrant (db : Database) (g : GrantRow) : Option Database :=
  if h : db.grants.Free g ∧ (∃ b ∈ db.buckets.rows, b.id = g.bucketId) ∧
      References db.objects.rows g.resource.object? then
    some { db with
      grants := db.grants.insert g h.1
      grantBucket := fun p hp =>
        (List.mem_append.mp hp).elim (db.grantBucket p) fun heq => by
          rw [List.mem_singleton.mp heq]
          exact h.2.1
      grantObject := fun p hp =>
        (List.mem_append.mp hp).elim (db.grantObject p) fun heq => by
          rw [List.mem_singleton.mp heq]
          exact h.2.2 }
  else none

def deleteGrant (db : Database) (id : UUID) : Database :=
  { db with
    grants := db.grants.delete fun g => decide (g.id = id)
    grantBucket := fun g hg => db.grantBucket g (List.mem_filter.mp hg).1
    grantObject := fun g hg => db.grantObject g (List.mem_filter.mp hg).1 }

def rebucket (objectId bucketId : UUID) (g : GrantRow) : GrantRow :=
  if g.resource.object? = some objectId then { g with bucketId := bucketId } else g

@[simp] theorem rebucket_id (objectId bucketId : UUID) (g : GrantRow) :
    (rebucket objectId bucketId g).id = g.id := by
  by_cases h : g.resource.object? = some objectId <;> simp [rebucket, h]

@[simp] theorem rebucket_resource (objectId bucketId : UUID) (g : GrantRow) :
    (rebucket objectId bucketId g).resource = g.resource := by
  by_cases h : g.resource.object? = some objectId <;> simp [rebucket, h]

def moveGrants (db : Database) (objectId bucketId : UUID) : Option Database :=
  if h : ∃ b ∈ db.buckets.rows, b.id = bucketId then
    some { db with
      grants := db.grants.rewrite (rebucket objectId bucketId)
        (db.grants.rewritable_of_clash_imp _ fun a b => by
          simp [GrantRow.Clash])
      grantBucket := fun g hg => by
        obtain ⟨g', hg', rfl⟩ := List.mem_map.mp hg
        by_cases href : g'.resource.object? = some objectId
        · simpa [rebucket, href] using h
        · simpa [rebucket, href] using db.grantBucket g' hg'
      grantObject := fun g hg => by
        obtain ⟨g', hg', rfl⟩ := List.mem_map.mp hg
        simpa using db.grantObject g' hg' }
  else none

def setCompanyQuota (db : Database) (companyId : Nat) (q : CompanyQuota) : Database :=
  { db with companyQuotas := Function.update db.companyQuotas companyId (some q) }

def setUserQuota (db : Database) (companyId userId : Nat) (q : UserQuota) : Database :=
  { db with userQuotas := fun company user =>
      if company = companyId ∧ user = userId then some q else db.userQuotas company user }

/-! ### What the queries find -/

theorem objectNamed_eq_some {db : Database} {bucketId : UUID} {name : Text}
    {o : StorageObject} (h : db.objectNamed bucketId name = some o) :
    o ∈ db.objects.rows ∧ o.bucketId = bucketId ∧ o.name = name := by
  have hfound := List.find?_some h
  simp only [decide_eq_true_eq] at hfound
  exact ⟨List.mem_of_find?_eq_some h, hfound⟩

theorem objectNamed_of_mem {db : Database} {o : StorageObject} (h : o ∈ db.objects.rows) :
    db.objectNamed o.bucketId o.name = some o := by
  apply db.objects.find?_eq_some _ h (by simp)
  intro b hb
  simp only [decide_eq_true_eq] at hb
  exact .inr ⟨hb.1.symm, hb.2.symm⟩

theorem objectById_eq_some {db : Database} {id : UUID} {o : StorageObject} :
    db.objectById id = some o ↔ o ∈ db.objects.rows ∧ o.id = id := by
  constructor
  · intro h
    have hfound := List.find?_some h
    simp only [decide_eq_true_eq] at hfound
    exact ⟨List.mem_of_find?_eq_some h, hfound⟩
  · rintro ⟨ho, rfl⟩
    apply db.objects.find?_eq_some _ ho (by simp)
    intro b hb
    simp only [decide_eq_true_eq] at hb
    exact .inl hb.symm

theorem lookup_objectById_eq_some {db : Database} {ref : Resource UUID}
    {resource : Resource StorageObject} :
    ref.lookup db.objectById = some resource ↔
      resource.map StorageObject.id = ref ∧
        ∀ o, resource.object? = some o → o ∈ db.objects.rows := by
  cases ref <;> cases resource <;>
    simp [Resource.lookup, Resource.map, Resource.object?, objectById_eq_some, and_comm]

theorem selectRelated_eq_some {db : Database} {row : GrantRow} {g : Grant} :
    db.selectRelated row = some g ↔
      g.row = row ∧ ∀ o, g.resource.object? = some o → o ∈ db.objects.rows := by
  simp only [selectRelated, Option.map_eq_some_iff, lookup_objectById_eq_some]
  constructor
  · rintro ⟨resource, ⟨hmap, hrows⟩, rfl⟩
    exact ⟨by rw [StorageAccessGrant.row, hmap], hrows⟩
  · rintro ⟨rfl, hrows⟩
    exact ⟨g.resource, ⟨rfl, hrows⟩, rfl⟩

theorem mem_objectsStartingWith {db : Database} {bucketId : UUID} {pre : Text}
    {o : StorageObject} :
    o ∈ db.objectsStartingWith bucketId pre ↔
      o ∈ db.objects.rows ∧ o.bucketId = bucketId ∧ db.engine.StartsWith pre o.name := by
  simp [objectsStartingWith]

/-- Whatever the engine, the query finds the names that do start with the prefix. -/
theorem mem_objectsStartingWith_of_isPrefix {db : Database} {bucketId : UUID} {pre : Text}
    {o : StorageObject} (ho : o ∈ db.objects.rows) (hbucket : o.bucketId = bucketId)
    (h : pre <+: o.name) : o ∈ db.objectsStartingWith bucketId pre :=
  mem_objectsStartingWith.mpr ⟨ho, hbucket, .of_isPrefix _ h⟩

theorem object_eq_of_id {db : Database} {a b : StorageObject} (ha : a ∈ db.objects.rows)
    (hb : b ∈ db.objects.rows) (h : a.id = b.id) : a = b :=
  db.objects.eq_of_clash ha hb (.inl h)

theorem objectIds_nodup (db : Database) : (db.objects.rows.map StorageObject.id).Nodup := by
  rw [List.Nodup, List.pairwise_map]
  exact db.objects.unique.imp fun hab hid => hab (.inl hid)

theorem bucket_eq_of_id {db : Database} {a b : Bucket} (ha : a ∈ db.buckets.rows)
    (hb : b ∈ db.buckets.rows) (h : a.id = b.id) : a = b :=
  db.buckets.eq_of_clash ha hb (.inl h)

theorem bucketById_of_mem {db : Database} {b : Bucket} (h : b ∈ db.buckets.rows) :
    db.bucketById b.id = some b := by
  apply db.buckets.find?_eq_some _ h (by simp)
  intro c hc
  simp only [decide_eq_true_eq] at hc
  exact .inl hc.symm

/-! ### What the guarded statements do -/

theorem createObject_eq_some {db db' : Database} {o : StorageObject}
    (h : db.createObject o = some db') :
    db'.buckets = db.buckets ∧ db'.objects.rows = db.objects.rows ++ [o] ∧
      db'.grants = db.grants ∧ db'.companyQuotas = db.companyQuotas ∧
      db'.userQuotas = db.userQuotas ∧ db.objects.Free o := by
  unfold createObject at h
  split at h
  · rename_i hok
    cases h
    exact ⟨rfl, rfl, rfl, rfl, rfl, hok.1⟩
  · contradiction

theorem updateObject_eq_some {db db' : Database} {id : UUID}
    {f : StorageObject → StorageObject} (h : db.updateObject id f = some db') :
    db'.buckets = db.buckets ∧ db'.objects.rows = db.objects.rows.map (changed id f) ∧
      db'.grants = db.grants ∧ db'.companyQuotas = db.companyQuotas ∧
      db'.userQuotas = db.userQuotas := by
  unfold updateObject at h
  split at h
  · cases h
    exact ⟨rfl, rfl, rfl, rfl, rfl⟩
  · contradiction

theorem createGrant_eq_some {db db' : Database} {g : GrantRow}
    (h : db.createGrant g = some db') :
    db'.buckets = db.buckets ∧ db'.objects = db.objects ∧
      db'.grants.rows = db.grants.rows ++ [g] ∧ db'.companyQuotas = db.companyQuotas ∧
      db'.userQuotas = db.userQuotas := by
  unfold createGrant at h
  split at h
  · cases h
    exact ⟨rfl, rfl, rfl, rfl, rfl⟩
  · contradiction

theorem createObject_engine {db db' : Database} {o : StorageObject}
    (h : db.createObject o = some db') : db'.engine = db.engine := by
  unfold createObject at h
  split at h <;> cases h
  rfl

theorem updateObject_engine {db db' : Database} {id : UUID}
    {f : StorageObject → StorageObject} (h : db.updateObject id f = some db') :
    db'.engine = db.engine := by
  unfold updateObject at h
  split at h <;> cases h
  rfl

theorem createGrant_engine {db db' : Database} {g : GrantRow}
    (h : db.createGrant g = some db') : db'.engine = db.engine := by
  unfold createGrant at h
  split at h <;> cases h
  rfl

theorem createBucket_engine {db db' : Database} {b : Bucket}
    (h : db.createBucket b = some db') : db'.engine = db.engine := by
  unfold createBucket at h
  split at h <;> cases h
  rfl

theorem moveGrants_engine {db db' : Database} {objectId bucketId : UUID}
    (h : db.moveGrants objectId bucketId = some db') : db'.engine = db.engine := by
  unfold moveGrants at h
  split at h <;> cases h
  rfl

theorem createBucket_eq_some {db db' : Database} {b : Bucket}
    (h : db.createBucket b = some db') :
    db'.buckets.rows = db.buckets.rows ++ [b] ∧ db'.objects = db.objects ∧
      db'.grants = db.grants ∧ db'.companyQuotas = db.companyQuotas ∧
      db'.userQuotas = db.userQuotas ∧ db.buckets.Free b := by
  unfold createBucket at h
  split at h
  · rename_i hfree
    cases h
    exact ⟨rfl, rfl, rfl, rfl, rfl, hfree⟩
  · contradiction

theorem moveGrants_eq_some {db db' : Database} {objectId bucketId : UUID}
    (h : db.moveGrants objectId bucketId = some db') :
    db'.buckets = db.buckets ∧ db'.objects = db.objects ∧
      db'.grants.rows = db.grants.rows.map (rebucket objectId bucketId) ∧
      db'.companyQuotas = db.companyQuotas ∧ db'.userQuotas = db.userQuotas := by
  unfold moveGrants at h
  split at h
  · cases h
    exact ⟨rfl, rfl, rfl, rfl, rfl⟩
  · contradiction

end Database

end StorageService.Storage
