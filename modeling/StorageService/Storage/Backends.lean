import StorageService.Foundation.Transaction
import StorageService.Storage.Models

/-!
# The blob backend

`backends.py` and what surrounds the database while an operation runs: the
blobs, the clock and the sources of fresh ids and names.  A transaction undoes
nothing of this.  At most one step of an operation raises, named by `fault`;
every theorem about an operation is for an arbitrary fault.
-/

namespace StorageService.Storage

open StorageService.Foundation
open StorageService.Foundation.Action

structure Outside where
  blobs : Blobs
  /-- How many fresh ids and names have been drawn. -/
  drawn : Nat
  now : Time
  /-- The step that raises and how often it is passed before. -/
  fault : Option (Point × Nat)

abbrev World := Session Database Outside

abbrev Act (α : Type) := Action Failure Database Outside α

/-! ## Steps that may raise -/

def Outside.visit (p : Point) (out : Outside) : Option Outside :=
  match out.fault with
  | none => some out
  | some (q, n) =>
      if q = p then
        match n with
        | 0 => none
        | n + 1 => some { out with fault := some (q, n) }
      else some out

theorem visit_of_fault_none {out : Outside} (h : out.fault = none) (p : Point) :
    out.visit p = some out := by
  simp [Outside.visit, h]

theorem eq_of_visit {out out' : Outside} (h : out.fault = none) {p : Point}
    (hvisit : out.visit p = some out') : out' = out := by
  rw [visit_of_fault_none h] at hvisit
  exact (Option.some.inj hvisit).symm

theorem Outside.visit_eq_none {p : Point} {out : Outside} :
    out.visit p = none ↔ out.fault = some (p, 0) := by
  rcases h : out.fault with _ | ⟨q, n⟩
  · simp [visit, h]
  · by_cases hq : q = p
    · subst hq
      cases n with
      | zero => simp [visit, h]
      | succ n => simp [visit, h]
    · simp [visit, h, hq]

theorem Outside.visit_eq_some {p : Point} {out out' : Outside}
    (h : out.visit p = some out') : out' = { out with fault := out'.fault } := by
  rcases hfault : out.fault with _ | ⟨q, n⟩
  · simp only [visit, hfault, Option.some.injEq] at h
    subst h
    rfl
  · by_cases hq : q = p
    · cases n with
      | zero => simp [visit, hfault, hq] at h
      | succ n =>
          simp only [visit, hfault, hq, if_true, Option.some.injEq] at h
          subst h
          rfl
    · simp only [visit, hfault, hq, if_false, Option.some.injEq] at h
      subst h
      rfl

theorem Outside.visit_fault_of_ne {p q : Point} (hne : q ≠ p) {out out' : Outside}
    (h : out.visit p = some out') (n : Nat) :
    out'.fault = some (q, n) ↔ out.fault = some (q, n) := by
  rcases hfault : out.fault with _ | ⟨r, m⟩
  · simp only [visit, hfault, Option.some.injEq] at h
    rw [← h, hfault]
  · by_cases hr : r = p
    · cases m with
      | zero => simp [visit, hfault, hr] at h
      | succ m =>
          simp only [visit, hfault, hr, if_true, Option.some.injEq] at h
          simp [← h, hr, hne.symm]
    · simp only [visit, hfault, hr, if_false, Option.some.injEq] at h
      rw [← h, hfault]

def reachOr (e : Failure) (p : Point) : Act Unit := do
  let out ← outside
  let out' ← ofOption e (out.visit p)
  putOutside out'

def reach (p : Point) : Act Unit := reachOr (.interrupted p) p

@[simp] theorem runs_reachOr {e : Failure} {p : Point} {s s' : World} {u : Unit} :
    (reachOr e p).Runs s u s' ↔
      ∃ out, s.out.visit p = some out ∧ s' = { s with out := out } := by
  simp [reachOr]

@[simp] theorem fails_reachOr {e : Failure} {p : Point} {s s' : World} :
    (reachOr e p).Fails s s' ↔ s.out.fault = some (p, 0) ∧ s' = s := by
  simp [reachOr, Outside.visit_eq_none, and_comm]

def execute (statement : Database → Option Database) : Act Unit := do
  reach .rowWrite
  let db ← database
  let db' ← ofOption .integrityError (statement db)
  putDatabase db'

@[simp] theorem runs_execute {statement : Database → Option Database} {s s' : World}
    {u : Unit} :
    (execute statement).Runs s u s' ↔
      ∃ out db, s.out.visit .rowWrite = some out ∧ statement s.db = some db ∧
        s' = ⟨db, out⟩ := by
  simp [execute, reach]

theorem fails_execute {statement : Database → Option Database} {s s' : World} :
    (execute statement).Fails s s' ↔ s.out.fault = some (.rowWrite, 0) ∧ s' = s ∨
      ∃ out, s.out.visit .rowWrite = some out ∧ s' = { s with out := out } ∧
        statement s.db = none := by
  simp [execute, reach]

structure Lenient (R : World → World → Prop) : Prop extends Composable R where
  fault : ∀ s f, R s { s with out := { s.out with fault := f } }

section Lenient

variable {R : World → World → Prop}

theorem within_reachOr (hR : Lenient R) (e : Failure) (p : Point) :
    (reachOr e p).Within R := by
  intro s
  rcases runs_or_fails (reachOr e p) s with ⟨u, h⟩ | h
  · obtain ⟨out, hvisit, heq⟩ := runs_reachOr.mp h
    rw [heq, Outside.visit_eq_some hvisit]
    exact hR.fault s out.fault
  · obtain ⟨-, heq⟩ := fails_reachOr.mp h
    rw [heq]
    exact hR.refl s

theorem Lenient.execute_at (hR : Lenient R) {statement : Database → Option Database}
    {s : World} (h : ∀ db, statement s.db = some db → R s { s with db := db }) :
    R s (execute statement s).2 := by
  rcases runs_or_fails (execute statement) s with ⟨u, hrun⟩ | hfail
  · obtain ⟨out, db, hvisit, hdb, heq⟩ := runs_execute.mp hrun
    rw [heq, Outside.visit_eq_some hvisit]
    exact hR.trans (h db hdb) (hR.fault _ _)
  · rcases fails_execute.mp hfail with ⟨-, heq⟩ | ⟨out, hvisit, heq, -⟩
    · rw [heq]
      exact hR.refl s
    · rw [heq, Outside.visit_eq_some hvisit]
      exact hR.fault s _

theorem within_execute (hR : Lenient R) {statement : Database → Option Database}
    (h : ∀ (s : World) db, statement s.db = some db → R s { s with db := db }) :
    (execute statement).Within R := fun s => hR.execute_at (h s)

end Lenient

/-! ## Blobs -/

def blobWriteError (env : Env) : Failure :=
  if env.s3Backend ∧ (env.writeErrorCode = "NoSuchBucket" ∨ env.writeErrorCode = "404") then
    .storageError
      (s!"S3 bucket {env.awsBucketRepr} was not found at {env.awsEndpoint}. " ++
        "Use a scheme+host endpoint with no path (OVH: " ++
        "https://s3.eu-west-par.io.cloud.ovh.net), set AWS_S3_REGION_NAME to " ++
        "the bucket region (not us-east-1 unless it really is), and create " ++
        "the bucket if it does not exist.")
      502 "s3_bucket_missing"
  else if env.s3Backend then
    let detail := if env.writeErrorCode = "" then env.writeErrorText else env.writeErrorCode
    .storageError s!"S3 upload failed: {detail}" 502 "s3_error"
  else .storageError "Failed to write object to storage." 500 "storage_write_failed"

/--
`default_storage.save`: S3 overwrites the key, the filesystem backend stores
under another name when the key is taken.
-/
def Outside.save (env : Env) (storageKey : Text) (data : Bytes) (out : Outside) : Outside :=
  if env.s3Backend ∨ out.blobs.lookup storageKey = none then
    { out with blobs := out.blobs.insert storageKey data }
  else
    let name := env.availableName out.drawn out.blobs storageKey
    { out with
      blobs := out.blobs.insert name data
      drawn := out.drawn + 1 }

def saveBlob (env : Env) (storageKey : Text) (data : Bytes) : Act Unit := do
  reachOr (blobWriteError env) .blobWrite
  modifyOutside (Outside.save env storageKey data)
  reachOr (blobWriteError env) .blobWritten

/-- Deleting an absent key does nothing, and pruning directories touches no blob. -/
def deleteStorageKey (key : Text) : Act Unit := do
  reach .blobDelete
  modifyOutside fun out => { out with blobs := out.blobs.erase key }
  reach .blobDeleted

def openBlob (key : Text) : Act Bytes := do
  let out ← outside
  ofOption .fileNotFound (out.blobs.lookup key)

def contentEtag (env : Env) (data : Bytes) : Text := env.md5 data

def drawUuid (env : Env) : Act UUID := do
  let out ← outside
  putOutside { out with drawn := out.drawn + 1 }
  pure (env.uuid4 out.drawn)

@[simp] theorem runs_drawUuid {env : Env} {s s' : World} {id : UUID} :
    (drawUuid env).Runs s id s' ↔
      id = env.uuid4 s.out.drawn ∧
        s' = { s with out := { s.out with drawn := s.out.drawn + 1 } } := by
  simp [drawUuid]

theorem within_drawUuid {R : World → World → Prop} (env : Env)
    (h : ∀ s : World, R s { s with out := { s.out with drawn := s.out.drawn + 1 } }) :
    (drawUuid env).Within R := h

/-! ## Storage keys -/

def keyBasename (objectName : Text) : Text :=
  (pathParts objectName).getLast?.getD ['b', 'l', 'o', 'b']

def buildStorageKey (env : Env) (companyId : Nat) (bucketName objectName : Text)
    (objectId : UUID) : Text :=
  List.intercalate ['/']
    ([env.storageKeyPrefix, decimal companyId, bucketName, uuidText objectId,
      keyBasename objectName].filter (· ≠ []))

def OwnedBy (id : UUID) (key : Text) : Prop :=
  ∃ dir, parent '/' key = dir ++ '/' :: uuidText id ++ ['/']

theorem OwnedBy.unique {a b : UUID} {key : Text} (ha : OwnedBy a key) (hb : OwnedBy b key) :
    a = b := by
  obtain ⟨dir, hdir⟩ := ha
  obtain ⟨dir', hdir'⟩ := hb
  have heq : dir ++ '/' :: uuidText a = dir' ++ '/' :: uuidText b :=
    List.append_cancel_right (hdir.symm.trans hdir')
  exact uuidText_injective
    (last_segment_inj (slash_not_mem_uuidText a) (slash_not_mem_uuidText b) heq).2

theorem OwnedBy.availableName {env : Env} (henv : env.Lawful) {id : UUID} {key : Text}
    (h : OwnedBy id key) (n : Nat) (blobs : Blobs) :
    OwnedBy id (env.availableName n blobs key) := by
  obtain ⟨dir, hdir⟩ := h
  exact ⟨dir, by rw [henv.availableName_parent, hdir]⟩

private theorem uuidText_ne_nil (id : UUID) : uuidText id ≠ [] := by
  intro h
  have : '-' ∈ uuidText id := by
    simp [uuidText, List.intercalate, List.intersperse]
  simp [h] at this

private theorem decimal_ne_nil (n : Nat) : decimal n ≠ [] := by
  intro h
  have := Nat.length_toDigits_pos (b := 10) (n := n)
  simp [decimal] at h

theorem slash_not_mem_pathParts {raw part : Text} (h : part ∈ pathParts raw) : '/' ∉ part :=
  sep_not_mem_of_mem_splitOn (List.mem_filter.mp h).1

theorem keyBasename_spec (objectName : Text) :
    keyBasename objectName ≠ [] ∧ '/' ∉ keyBasename objectName := by
  cases h : (pathParts objectName).getLast? with
  | none => simp [keyBasename, h]
  | some base =>
      have hmem : base ∈ pathParts objectName := List.mem_of_getLast? h
      have hne : base ≠ [] := by
        have := (List.mem_filter.mp hmem).2
        simp only [decide_eq_true_eq] at this
        exact this.1
      simp only [keyBasename, h, Option.getD_some]
      exact ⟨hne, slash_not_mem_pathParts hmem⟩

theorem ownedBy_buildStorageKey (env : Env) (companyId : Nat) (bucketName objectName : Text)
    (objectId : UUID) :
    OwnedBy objectId (buildStorageKey env companyId bucketName objectName objectId) := by
  obtain ⟨hbase, hslash⟩ := keyBasename_spec objectName
  set front := [env.storageKeyPrefix, decimal companyId, bucketName].filter (· ≠ [])
    with hfront
  have hne : front ≠ [] := by
    have : decimal companyId ∈ front := by
      simp [hfront, decimal_ne_nil]
    exact List.ne_nil_of_mem this
  have hparts : [env.storageKeyPrefix, decimal companyId, bucketName, uuidText objectId,
      keyBasename objectName].filter (· ≠ []) =
      front ++ [uuidText objectId, keyBasename objectName] := by
    have hlast : [uuidText objectId, keyBasename objectName].filter (· ≠ []) =
        [uuidText objectId, keyBasename objectName] := by
      simp [uuidText_ne_nil, hbase]
    calc
      _ = front ++ [uuidText objectId, keyBasename objectName].filter (· ≠ []) := by
        rw [hfront, ← List.filter_append]
        rfl
      _ = _ := by rw [hlast]
  refine ⟨List.intercalate ['/'] front, ?_⟩
  rw [buildStorageKey, hparts, intercalate_append_pair hne, parent_append _ hslash]

end StorageService.Storage
