import StorageService.Foundation.StateMachine
import StorageService.Storage.Models

/-!
# The migration of path-based grants

`0005_grant_foreign_keys.py`: grants that named their bucket and object by text
are linked to the rows, one after the other; folder markers that do not exist
are created on the way.  Nothing restricts the texts of an old row.  The widths
of the columns are left out, as for the other rows.
-/

namespace StorageService.Storage.GrantMigration

open StorageService.Foundation

/-- A row while both the old columns and the two new ones exist. -/
structure LegacyGrant where
  id : UUID
  companyId : Nat
  subjectType : Text
  subjectId : Text
  resourceType : Text
  resourceId : Text
  bucketName : Text
  permission : Text
  effect : Text
  createdById : Option Nat
  createdAt : Time
  expiresAt : Option Time
  notes : Text
  bucketId : Option UUID
  objectId : Option UUID
  deriving DecidableEq, Repr

def LegacyGrant.Clash (g h : LegacyGrant) : Prop := g.id = h.id

instance : DecidableRel LegacyGrant.Clash := fun _ _ => inferInstanceAs (Decidable (_ = _))

instance : Std.Symm LegacyGrant.Clash := ⟨fun _ _ h => Eq.symm h⟩

structure GrantTables where
  buckets : Table Bucket Bucket.Clash
  objects : Table StorageObject StorageObject.Clash
  grants : Table LegacyGrant LegacyGrant.Clash
  drawn : Nat

/-! ## What a grant names -/

def bucketType : Text := ['b', 'u', 'c', 'k', 'e', 't']

def folderType : Text := ['f', 'o', 'l', 'd', 'e', 'r']

def objectType : Text := ['o', 'b', 'j', 'e', 'c', 't']

def defaultBucketName : Text := ['c', 'o', 'm', 'p', 'a', 'n', 'y']

def placeholderName (folderPath : Text) : Text :=
  let folder := stripSlash (strip folderPath)
  if folder = [] then folderPlaceholderName
  else folder ++ placeholderSuffix

theorem placeholderName_eq : placeholderName = folderPlaceholderPath := rfl

def storageKey (companyId : Nat) (bucketName objectName : Text) (objectId : UUID) : Text :=
  let basename := (objectName.splitOn '/').getLastD []
  let basename := if basename = [] then ['b', 'l', 'o', 'b'] else basename
  List.intercalate ['/'] [['s', 'h', 'e', 'l', 'l', 'u', 'i'], decimal companyId, bucketName,
    uuidText objectId, basename]

namespace LegacyGrant

def namedBucket (g : LegacyGrant) : Text :=
  let bucketName := strip g.bucketName
  let bucketName :=
    if g.resourceType = bucketType ∧ bucketName = [] then strip g.resourceId else bucketName
  if bucketName = [] then defaultBucketName else bucketName

def path (g : LegacyGrant) : Text := stripSlash (strip g.resourceId)

/-- An object grant names an object by its id or, unless its text is empty, by its name. -/
def Names (g : LegacyGrant) (o : StorageObject) : Prop :=
  uuidOfText g.path = some o.id ∨ g.path ≠ [] ∧ o.name = g.path

def ObjectMatchesType (g : LegacyGrant) : Prop :=
  g.resourceType = bucketType ∧ g.objectId = none ∨
    (g.resourceType = folderType ∨ g.resourceType = objectType) ∧ g.objectId ≠ none

end LegacyGrant

/-! ## The queries and statements -/

namespace GrantTables

def bucketNamed (t : GrantTables) (companyId : Nat) (name : Text) : Option Bucket :=
  t.buckets.rows.find? fun b => decide (b.companyId = companyId ∧ b.name = name)

def objectWithId (t : GrantTables) (bucketId id : UUID) : Option StorageObject :=
  t.objects.rows.find? fun o => decide (o.bucketId = bucketId ∧ o.id = id)

def objectNamed (t : GrantTables) (bucketId : UUID) (name : Text) : Option StorageObject :=
  t.objects.rows.find? fun o => decide (o.bucketId = bucketId ∧ o.name = name)

def grantedObject (t : GrantTables) (bucketId : UUID) (rid : Text) : Option StorageObject :=
  let obj := (uuidOfText rid).bind (t.objectWithId bucketId)
  if obj = none ∧ rid ≠ [] then t.objectNamed bucketId rid else obj

def deleteGrant (t : GrantTables) (id : UUID) : GrantTables :=
  { t with grants := t.grants.delete fun g => decide (g.id = id) }

def linked (id bucketId : UUID) (objectId : Option UUID) (g : LegacyGrant) : LegacyGrant :=
  if g.id = id then { g with bucketId := some bucketId, objectId := objectId } else g

@[simp] theorem linked_id (id bucketId : UUID) (objectId : Option UUID) (g : LegacyGrant) :
    (linked id bucketId objectId g).id = g.id := by
  by_cases h : g.id = id <;> simp [linked, h]

def saveGrant (t : GrantTables) (id bucketId : UUID) (objectId : Option UUID) : GrantTables :=
  { t with
    grants := t.grants.rewrite (linked id bucketId objectId)
      (t.grants.rewritable_of_clash_imp _ fun g h => by simp [LegacyGrant.Clash]) }

variable (env : Env) (clock : Nat → Time)

def newMarker (n : Nat) (bucket : Bucket) (name : Text) : StorageObject :=
  let objectId := env.uuid4 n
  { id := objectId, bucketId := bucket.id, name := name, companyId := bucket.companyId,
    ownerId := none, size := 0, etag := [], mimeType := octetStream,
    storageKey := storageKey bucket.companyId bucket.name name objectId, version := 1,
    createdAt := clock n, updatedAt := clock n }

@[simp] theorem newMarker_id (n : Nat) (bucket : Bucket) (name : Text) :
    (newMarker env clock n bucket name).id = env.uuid4 n := rfl

@[simp] theorem newMarker_bucketId (n : Nat) (bucket : Bucket) (name : Text) :
    (newMarker env clock n bucket name).bucketId = bucket.id := rfl

@[simp] theorem newMarker_name (n : Nat) (bucket : Bucket) (name : Text) :
    (newMarker env clock n bucket name).name = name := rfl

def createMarker (t : GrantTables) (bucket : Bucket) (name : Text) : Option GrantTables :=
  if h : t.objects.Free (newMarker env clock t.drawn bucket name) then
    some { t with
      objects := t.objects.insert (newMarker env clock t.drawn bucket name) h
      drawn := t.drawn + 1 }
  else none

/-! ## The migration -/

/-- One pass of the loop; `none` is the exception that ends the migration. -/
def migrateGrant (t : GrantTables) (g : LegacyGrant) : Option GrantTables :=
  match t.bucketNamed g.companyId g.namedBucket with
  | none => some (t.deleteGrant g.id)
  | some bucket =>
      if g.resourceType = bucketType then some (t.saveGrant g.id bucket.id none)
      else if g.resourceType = objectType then
        match t.grantedObject bucket.id g.path with
        | none => some (t.deleteGrant g.id)
        | some obj => some (t.saveGrant g.id bucket.id (some obj.id))
      else if g.resourceType = folderType then
        let name := placeholderName g.path
        match t.objectNamed bucket.id name with
        | some obj => some (t.saveGrant g.id bucket.id (some obj.id))
        | none =>
            (t.createMarker env clock bucket name).map fun u =>
              u.saveGrant g.id bucket.id (some (env.uuid4 t.drawn))
      else some (t.deleteGrant g.id)

def migration : Machine GrantTables LegacyGrant := ⟨migrateGrant env clock⟩

def forwardsGrantFks (t : GrantTables) : Option GrantTables :=
  (migration env clock).run t t.grants.rows

/-! ## What the API shows of a grant afterwards -/

def resourcePath (t : GrantTables) (g : LegacyGrant) : Text :=
  if g.resourceType = bucketType then
    match g.bucketId with
    | some id => (t.buckets.rows.find? fun b => decide (b.id = id)).elim [] Bucket.name
    | none => []
  else
    match g.objectId with
    | none => []
    | some id =>
        let name := (t.objects.rows.find? fun o => decide (o.id = id)).elim [] StorageObject.name
        if g.resourceType = folderType then folderPathFromPlaceholder name
        else normalizePath name

/-! ## What the queries find -/

def HasBucket (t : GrantTables) (g : LegacyGrant) (b : Bucket) : Prop :=
  b ∈ t.buckets.rows ∧ b.companyId = g.companyId ∧ b.name = g.namedBucket

variable {t u : GrantTables} {g : LegacyGrant} {b : Bucket} {o : StorageObject}

theorem bucketNamed_eq_some :
    t.bucketNamed g.companyId g.namedBucket = some b ↔ t.HasBucket g b := by
  rw [bucketNamed, t.buckets.find?_eq_some_iff]
  · simp [HasBucket]
  · intro a b ha hb
    simp only [decide_eq_true_eq] at ha hb
    exact .inr ⟨ha.1.trans hb.1.symm, ha.2.trans hb.2.symm⟩

theorem HasBucket.unique {b' : Bucket} (h : t.HasBucket g b) (h' : t.HasBucket g b') :
    b = b' :=
  Option.some.inj ((bucketNamed_eq_some.mpr h).symm.trans (bucketNamed_eq_some.mpr h'))

theorem objectWithId_eq_some {bucketId id : UUID} :
    t.objectWithId bucketId id = some o ↔
      o ∈ t.objects.rows ∧ o.bucketId = bucketId ∧ o.id = id := by
  rw [objectWithId, t.objects.find?_eq_some_iff]
  · simp
  · intro a b ha hb
    simp only [decide_eq_true_eq] at ha hb
    exact .inl (ha.2.trans hb.2.symm)

theorem objectNamed_eq_some {bucketId : UUID} {name : Text} :
    t.objectNamed bucketId name = some o ↔
      o ∈ t.objects.rows ∧ o.bucketId = bucketId ∧ o.name = name := by
  rw [objectNamed, t.objects.find?_eq_some_iff]
  · simp
  · intro a b ha hb
    simp only [decide_eq_true_eq] at ha hb
    exact .inr ⟨ha.1.trans hb.1.symm, ha.2.trans hb.2.symm⟩

theorem bind_objectWithId_eq_some {bucketId : UUID} {rid : Text} :
    (uuidOfText rid).bind (t.objectWithId bucketId) = some o ↔
      o ∈ t.objects.rows ∧ o.bucketId = bucketId ∧ uuidOfText rid = some o.id := by
  rw [Option.bind_eq_some_iff]
  constructor
  · rintro ⟨uid, huid, hfound⟩
    obtain ⟨ho, hbucket, rfl⟩ := objectWithId_eq_some.mp hfound
    exact ⟨ho, hbucket, huid⟩
  · rintro ⟨ho, hbucket, huid⟩
    exact ⟨o.id, huid, objectWithId_eq_some.mpr ⟨ho, hbucket, rfl⟩⟩

theorem grantedObject_eq_some {bucketId : UUID} {rid : Text}
    (h : t.grantedObject bucketId rid = some o) :
    o ∈ t.objects.rows ∧ o.bucketId = bucketId ∧
      (uuidOfText rid = some o.id ∨
        (∀ p ∈ t.objects.rows, p.bucketId = bucketId → uuidOfText rid ≠ some p.id) ∧
          rid ≠ [] ∧ o.name = rid) := by
  simp only [grantedObject] at h
  split at h
  · rename_i hnone
    obtain ⟨ho, hbucket, hname⟩ := objectNamed_eq_some.mp h
    refine ⟨ho, hbucket, .inr ⟨fun p hp hpbucket hid => ?_, hnone.2, hname⟩⟩
    have hfound := bind_objectWithId_eq_some.mpr ⟨hp, hpbucket, hid⟩
    rw [hnone.1] at hfound
    cases hfound
  · obtain ⟨ho, hbucket, huid⟩ := bind_objectWithId_eq_some.mp h
    exact ⟨ho, hbucket, .inl huid⟩

theorem ne_none_of_names (ho : o ∈ t.objects.rows) (hnames : g.Names o) :
    t.grantedObject o.bucketId g.path ≠ none := by
  simp only [grantedObject]
  split
  · rename_i hnone
    rcases hnames with huid | ⟨-, hname⟩
    · rw [bind_objectWithId_eq_some.mpr ⟨ho, rfl, huid⟩] at hnone
      exact absurd hnone.1 (Option.some_ne_none o)
    · rw [objectNamed_eq_some.mpr ⟨ho, rfl, hname⟩]
      exact Option.some_ne_none o
  · rename_i hsome
    intro hnone
    rcases hnames with huid | ⟨hpath, -⟩
    · rw [bind_objectWithId_eq_some.mpr ⟨ho, rfl, huid⟩] at hnone
      exact absurd hnone (Option.some_ne_none o)
    · exact hsome ⟨hnone, hpath⟩

theorem createMarker_eq_some {name : Text} (h : t.createMarker env clock b name = some u) :
    u.objects.rows = t.objects.rows ++ [newMarker env clock t.drawn b name] ∧
      u.buckets = t.buckets ∧ u.grants = t.grants ∧ u.drawn = t.drawn + 1 := by
  rw [createMarker] at h
  split at h
  · cases h
    exact ⟨rfl, rfl, rfl, rfl⟩
  · cases h

/-! ## One grant -/

def Dangling (t : GrantTables) (g : LegacyGrant) : Prop :=
  (¬∃ b, t.HasBucket g b) ∨
    g.resourceType = objectType ∧
      (¬∃ b o, t.HasBucket g b ∧ o ∈ t.objects.rows ∧ o.bucketId = b.id ∧ g.Names o) ∨
    g.resourceType ∉ [bucketType, folderType, objectType]

def Completes (t : GrantTables) (g : LegacyGrant) (b : Bucket) (u : GrantTables) : Prop :=
  u = t ∨ g.resourceType = folderType ∧
    t.createMarker env clock b (placeholderName g.path) = some u

def Refers (t u : GrantTables) (g : LegacyGrant) (b : Bucket) (ref : Option UUID) : Prop :=
  g.resourceType = bucketType ∧ ref = none ∨
    g.resourceType = folderType ∧
      (∃ o ∈ u.objects.rows, o.bucketId = b.id ∧ o.name = placeholderName g.path ∧
        ref = some o.id) ∨
    g.resourceType = objectType ∧
      ∃ o ∈ t.objects.rows, o.bucketId = b.id ∧ ref = some o.id ∧
        (uuidOfText g.path = some o.id ∨
          (∀ p ∈ t.objects.rows, p.bucketId = b.id → uuidOfText g.path ≠ some p.id) ∧
            g.path ≠ [] ∧ o.name = g.path)

theorem not_dangling_of_type (hb : t.HasBucket g b)
    (htype : g.resourceType = bucketType ∨ g.resourceType = folderType) : ¬t.Dangling g := by
  rintro (hnone | ⟨hobject, -⟩ | hunknown)
  · exact hnone ⟨b, hb⟩
  · rw [hobject] at htype
    exact absurd htype (by decide)
  · rcases htype with htype | htype <;> simp [htype] at hunknown

theorem migrateGrant_cases {t' : GrantTables} (h : t.migrateGrant env clock g = some t') :
    t.Dangling g ∧ t' = t.deleteGrant g.id ∨
      ∃ b ref u, t.HasBucket g b ∧ ¬t.Dangling g ∧ t.Completes env clock g b u ∧
        t.Refers u g b ref ∧ t' = u.saveGrant g.id b.id ref := by
  rw [migrateGrant] at h
  cases hbucket : t.bucketNamed g.companyId g.namedBucket with
  | none =>
      rw [hbucket] at h
      refine .inl ⟨.inl ?_, (Option.some.inj h).symm⟩
      rintro ⟨b, hb⟩
      rw [bucketNamed_eq_some.mpr hb] at hbucket
      cases hbucket
  | some b =>
      have hb := bucketNamed_eq_some.mp hbucket
      rw [hbucket] at h
      simp only at h
      split at h
      · rename_i htype
        exact .inr ⟨b, none, t, hb, not_dangling_of_type hb (.inl htype), .inl rfl,
          .inl ⟨htype, rfl⟩, (Option.some.inj h).symm⟩
      split at h
      · rename_i htype
        cases hobj : t.grantedObject b.id g.path with
        | none =>
            rw [hobj] at h
            refine .inl ⟨.inr (.inl ⟨htype, ?_⟩), (Option.some.inj h).symm⟩
            rintro ⟨b', o, hb', ho, hobucket, hnames⟩
            refine ne_none_of_names ho hnames ?_
            rw [hobucket, hb'.unique hb, hobj]
        | some o =>
            rw [hobj] at h
            obtain ⟨ho, hobucket, hnames⟩ := grantedObject_eq_some hobj
            refine .inr ⟨b, some o.id, t, hb, ?_, .inl rfl,
              .inr (.inr ⟨htype, o, ho, hobucket, rfl, hnames⟩), (Option.some.inj h).symm⟩
            rintro (hnone | ⟨-, hnone⟩ | hunknown)
            · exact hnone ⟨b, hb⟩
            · exact hnone ⟨b, o, hb, ho, hobucket, hnames.imp_right And.right⟩
            · simp [htype] at hunknown
      split at h
      · rename_i htype
        have hnot := not_dangling_of_type hb (.inr htype)
        cases hobj : t.objectNamed b.id (placeholderName g.path) with
        | some o =>
            simp only [hobj] at h
            obtain ⟨ho, hobucket, hname⟩ := objectNamed_eq_some.mp hobj
            exact .inr ⟨b, some o.id, t, hb, hnot, .inl rfl,
              .inr (.inl ⟨htype, o, ho, hobucket, hname, rfl⟩), (Option.some.inj h).symm⟩
        | none =>
            simp only [hobj] at h
            obtain ⟨u, hu, rfl⟩ := Option.map_eq_some_iff.mp h
            obtain ⟨hobjects, -⟩ := createMarker_eq_some env clock hu
            refine .inr ⟨b, some (env.uuid4 t.drawn), u, hb, hnot, .inr ⟨htype, hu⟩,
              .inr (.inl ⟨htype, newMarker env clock t.drawn b (placeholderName g.path), ?_⟩), rfl⟩
            simp [hobjects]
      · rename_i hbucketType hobjectType hfolderType
        exact .inl ⟨.inr (.inr (by simp [hbucketType, hobjectType, hfolderType])),
          (Option.some.inj h).symm⟩

end GrantTables

end StorageService.Storage.GrantMigration
