import StorageService.Storage.Effects

/-!
# What an operation charges

Uploads, copies and deletions adjust the quota rows by one call of
`apply_usage_delta` and leave them alone otherwise.
-/

namespace StorageService.Storage

open StorageService.Foundation
open StorageService.Foundation.Action

variable {env : Env} {s s' : World}

structure SameQuotas (s s' : World) : Prop where
  companies : s'.db.companyQuotas = s.db.companyQuotas
  users : s'.db.userQuotas = s.db.userQuotas

theorem SameQuotas.limits (h : SameQuotas s s') : SameLimits env s s' :=
  .of_eq h.companies h.users

def Charged (env : Env) (companyId : Nat) (userId : Option Nat) (delta : Int)
    (s s' : World) : Prop :=
  ∃ s₁ s₂, SameQuotas s s₁ ∧ (applyUsageDelta env companyId userId delta).Runs s₁ () s₂ ∧
    SameQuotas s₂ s'

theorem createFile_charged {bucket : Bucket} {name : Text} {data : Bytes}
    {ownerId : Option Nat} {size : Nat} {etag mimeType : Text} {obj : StorageObject}
    (h : (createFile env bucket name data ownerId size etag mimeType).Runs s obj s') :
    Charged env bucket.companyId ownerId size s s' := by
  simp only [createFile, reach, runs_bind, runs_reachOr, runs_pure] at h
  obtain ⟨o, s₁, hstored, _, s₂, husage, _, s₃, hprivate, _, s₄, ⟨out, -, rfl⟩, -, rfl⟩ := h
  obtain ⟨-, -, ⟨-, -, -, howner, -⟩, hcreate, -⟩ := runs_createStored hstored
  obtain ⟨-, -, -, hcompanies, husers, -⟩ := Database.createObject_eq_some hcreate
  have hp := (applyDefaultPrivateOnCreate_addsGrantsOn env o o.ownerId).runs hprivate
  rw [howner] at husage
  exact ⟨s₁, s₂, ⟨hcompanies, husers⟩, husage, ⟨hp.companyQuotas, hp.userQuotas⟩⟩

theorem overwriteObject_charged {bucket : Bucket} {existing obj : StorageObject}
    {mimeType : Text} {data : Bytes} {ownerId : Option Nat}
    (h : (overwriteObject env bucket existing mimeType data ownerId).Runs s obj s') :
    Charged env bucket.companyId ownerId ((data.length : Int) - existing.size) s s' := by
  simp only [overwriteObject, reach, runs_bind, runs_outside, runs_execute, runs_reachOr,
    runs_pure] at h
  obtain ⟨_, s₁, hsave, out, _, ⟨rfl, rfl⟩, _, s₃, ⟨out', db, -, hupdate, hs₃⟩, _, s₄, husage, _,
    s₅, ⟨out'', -, rfl⟩, -, rfl⟩ := h
  obtain ⟨hdb, -⟩ := runs_saveBlob hsave
  obtain ⟨-, -, -, hcompanies, husers⟩ := Database.updateObject_eq_some hupdate
  rw [hdb] at hcompanies husers
  refine ⟨s₃, s₄, ?_, husage, ⟨rfl, rfl⟩⟩
  rw [hs₃]
  exact ⟨hcompanies, husers⟩

theorem overwriteObject_owner {bucket : Bucket} {existing obj : StorageObject}
    {mimeType : Text} {data : Bytes} {ownerId : Option Nat}
    (h : (overwriteObject env bucket existing mimeType data ownerId).Runs s obj s') :
    obj.ownerId = (ownerId <|> existing.ownerId) := by
  simp only [overwriteObject, reach, runs_bind, runs_outside, runs_execute, runs_reachOr,
    runs_pure] at h
  obtain ⟨_, _, -, out, _, ⟨rfl, rfl⟩, _, _, -, _, _, -, _, _, -, rfl, -⟩ := h
  rfl

theorem deleteObject_charged {obj : StorageObject} (h : (deleteObject env obj).Runs s () s') :
    Charged env obj.companyId obj.ownerId (-(obj.size : Int)) s s' := by
  simp only [deleteObject, reach, runs_atomic, runs_bind, runs_reachOr,
    runs_modifyDatabase] at h
  obtain ⟨_, s₁, ⟨out, -, rfl⟩, _, s₂, rfl, _, s₃, hkey, _, s₄, husage, out', -, rfl⟩ := h
  obtain ⟨hdb, -⟩ := runs_deleteStorageKey hkey
  exact ⟨s₃, s₄, ⟨by rw [hdb]; rfl, by rw [hdb]; rfl⟩, husage, ⟨rfl, rfl⟩⟩

theorem Charged.users {companyId c : Nat} {userId : Option Nat} {delta limit : Int}
    (h : Charged env c userId delta s s') (hcapped : Capped env companyId limit s.db)
    (hpos : 0 < limit) (hfloor : ∀ user, 0 ≤ userUsage s.db companyId user) :
    Capped env companyId limit s'.db ∧
      ∀ user, userUsage s'.db companyId user =
        if c = companyId ∧ userId = some user then
          max 0 (userUsage s.db companyId user + delta)
        else userUsage s.db companyId user := by
  obtain ⟨s₁, s₂, hbefore, hrun, hafter⟩ := h
  have hstart : ∀ user, userUsage s₁.db companyId user = userUsage s.db companyId user :=
    (SameQuotas.limits hbefore : SameLimits env s s₁).userUsage companyId
  obtain ⟨hcapped', husage⟩ := runs_applyUsageDelta_users hrun
    (hcapped.of_sameLimits hbefore.limits) hpos fun user => by
      rw [hstart]
      exact hfloor user
  refine ⟨hcapped'.of_sameLimits hafter.limits, fun user => ?_⟩
  rw [(SameQuotas.limits hafter : SameLimits env s₂ s').userUsage, husage, hstart]

/-! ## A deletion that no fault strikes -/

def refundCompany (size : Nat) (quota : CompanyQuota) : CompanyQuota :=
  { quota with usedBytes := max 0 (quota.usedBytes + -(size : Int)) }

/-- The row of a user after that; one that is missing is made up from the limit. -/
def refundUser (size : Nat) (limit : Option Int) (row : Option UserQuota) : Option UserQuota :=
  match row with
  | some row => some { row with usedBytes := max 0 (row.usedBytes + -(size : Int)) }
  | none =>
      match limit with
      | none => none
      | some limit =>
          if limit ≤ 0 then none
          else some { maxBytes := limit, usedBytes := max 0 (-(size : Int)) }

theorem refundCompany_comm (m n : Nat) (quota : CompanyQuota) :
    refundCompany m (refundCompany n quota) = refundCompany n (refundCompany m quota) := by
  simp only [refundCompany, CompanyQuota.mk.injEq, and_true, true_and]
  omega

theorem refundUser_comm (m n : Nat) (limit : Option Int) (row : Option UserQuota) :
    refundUser m limit (refundUser n limit row) = refundUser n limit (refundUser m limit row) := by
  cases row with
  | some row =>
      simp only [refundUser, Option.some.injEq, UserQuota.mk.injEq, true_and]
      omega
  | none =>
      cases limit with
      | none => rfl
      | some limit =>
          by_cases hlimit : limit ≤ 0
          · simp [refundUser, hlimit]
          · simp only [refundUser, if_neg hlimit, Option.some.injEq, UserQuota.mk.injEq, true_and]
            omega

def companyQuotaOf (env : Env) (db : Database) (companyId : Nat) : CompanyQuota :=
  (db.companyQuotas companyId).getD (defaultCompanyQuota env)

def refunded (env : Env) (obj : StorageObject) (db : Database) : Database :=
  { db with
    companyQuotas := fun companyId =>
      if obj.size ≠ 0 ∧ companyId = obj.companyId then
        some (refundCompany obj.size (companyQuotaOf env db companyId))
      else db.companyQuotas companyId
    userQuotas := fun companyId userId =>
      if obj.size ≠ 0 ∧ companyId = obj.companyId ∧ obj.ownerId = some userId then
        refundUser obj.size (companyQuotaOf env db companyId).maxBytesPerUser
          (db.userQuotas companyId userId)
      else db.userQuotas companyId userId }

theorem Database.eq_of_fields {db db' : Database} (hengine : db.engine = db'.engine)
    (hbuckets : db.buckets = db'.buckets)
    (hobjects : db.objects = db'.objects) (hgrants : db.grants = db'.grants)
    (hcompanies : db.companyQuotas = db'.companyQuotas)
    (husers : db.userQuotas = db'.userQuotas) : db = db' := by
  cases db
  cases db'
  cases hengine
  cases hbuckets
  cases hobjects
  cases hgrants
  cases hcompanies
  cases husers
  rfl

theorem setCompanyQuota_getOrCreate (companyId : Nat) (quota : CompanyQuota) (db : Database) :
    (if (db.companyQuotas companyId).isSome then db
        else db.setCompanyQuota companyId (defaultCompanyQuota env)).setCompanyQuota companyId
      quota = db.setCompanyQuota companyId quota := by
  split
  · rfl
  · simp [Database.setCompanyQuota]

theorem applyUserDelta_users (companyId : Nat) (company : CompanyQuota) (userId size : Nat)
    (db : Database) :
    (applyUserDelta companyId company userId (-(size : Int)) db).userQuotas = fun c u =>
      if c = companyId ∧ u = userId then
        refundUser size company.maxBytesPerUser (db.userQuotas companyId userId)
      else db.userQuotas c u := by
  funext c u
  cases hrow : db.userQuotas companyId userId with
  | some row =>
      have hresolve : resolveUserLimit db companyId company (some userId) =
          (some row.maxBytes, some row) := by
        simp [resolveUserLimit, hrow]
      simp [applyUserDelta, hresolve, Database.setUserQuota, refundUser]
  | none =>
      have hsame : db.userQuotas c u =
          if c = companyId ∧ u = userId then none else db.userQuotas c u := by
        split
        · rename_i h
          rw [h.1, h.2, hrow]
        · rfl
      cases hlimit : company.maxBytesPerUser with
      | none =>
          have hresolve : resolveUserLimit db companyId company (some userId) =
              (none, none) := by
            simp [resolveUserLimit, hrow, hlimit]
          simpa only [applyUserDelta, hresolve, refundUser] using hsame
      | some limit =>
          by_cases hpos : limit ≤ 0
          · have hresolve : resolveUserLimit db companyId company (some userId) =
                (none, none) := by
              simp [resolveUserLimit, hrow, hlimit, hpos]
            simpa only [applyUserDelta, hresolve, refundUser, if_pos hpos] using hsame
          · have hresolve : resolveUserLimit db companyId company (some userId) =
                (some limit, none) := by
              simp [resolveUserLimit, hrow, hlimit, hpos]
            simp [applyUserDelta, hresolve, Database.setUserQuota, refundUser, hpos]

theorem runs_applyUsageDelta_refunded {obj : StorageObject} (hfault : s.out.fault = none) :
    (applyUsageDelta env obj.companyId obj.ownerId (-(obj.size : Int))).Runs s () s' ↔
      s' = { s with db := refunded env obj s.db } := by
  by_cases hsize : obj.size = 0
  · have hsame : refunded env obj s.db = s.db :=
      Database.eq_of_fields rfl rfl rfl rfl (by simp [refunded, hsize]) (by simp [refunded, hsize])
    rw [hsame]
    simp [applyUsageDelta, hsize]
  · have hcompanies : (s.db.setCompanyQuota obj.companyId
        (refundCompany obj.size (companyQuotaOf env s.db obj.companyId))).companyQuotas =
          (refunded env obj s.db).companyQuotas := by
      funext c
      by_cases hc : c = obj.companyId
      · simp [Database.setCompanyQuota, refunded, hc, hsize]
      · simp [Database.setCompanyQuota, refunded, hc]
    simp only [applyUsageDelta, reach, runs_atomic, runs_ite, runs_bind, runs_reachOr,
      visit_of_fault_none hfault, runs_getOrCreateCompanyQuota_db, runs_modifyDatabase]
    simp only [neg_eq_zero, Int.natCast_eq_zero, hsize, false_and, false_or, not_false_iff,
      true_and, exists_unit, Option.some.injEq, exists_eq_left', exists_eq_left, and_assoc,
      exists_and_left, setCompanyQuota_getOrCreate]
    cases howner : obj.ownerId with
    | none =>
        have husers : s.db.userQuotas = (refunded env obj s.db).userQuotas := by
          simp [refunded, howner]
        rw [runs_pure, and_iff_right rfl]
        exact iff_of_eq (congrArg (s' = ⟨·, s.out⟩)
          (Database.eq_of_fields rfl rfl rfl rfl hcompanies husers))
    | some userId =>
        rw [runs_modifyDatabase]
        refine iff_of_eq (congrArg (s' = ⟨·, s.out⟩) ?_)
        obtain ⟨hb, ho, hg, hc⟩ := applyUserDelta_rows obj.companyId
          (companyQuotaOf env s.db obj.companyId) userId (-(obj.size : Int))
          (s.db.setCompanyQuota obj.companyId
            (refundCompany obj.size (companyQuotaOf env s.db obj.companyId)))
        refine Database.eq_of_fields (applyUserDelta_engine ..) hb ho hg (hc.trans hcompanies) ?_
        refine (applyUserDelta_users ..).trans ?_
        funext c u
        simp only [refunded, howner, Option.some.injEq, hsize, not_false_iff, true_and, ne_eq]
        by_cases hboth : c = obj.companyId ∧ u = userId
        · rw [if_pos hboth, if_pos ⟨hboth.1, hboth.2.symm⟩, hboth.1, hboth.2]
          rfl
        · rw [if_neg hboth, if_neg fun h => hboth ⟨h.1, h.2.symm⟩]
          rfl

def without (env : Env) (s : World) (obj : StorageObject) : World where
  db := refunded env obj (s.db.deleteObject obj.id)
  out := { s.out with blobs := s.out.blobs.erase obj.storageKey }

theorem runs_deleteObject_without {obj : StorageObject} (hfault : s.out.fault = none) :
    (deleteObject env obj).Runs s () s' ↔ s' = without env s obj := by
  simp only [deleteObject, deleteStorageKey, reach, runs_atomic, runs_bind, runs_reachOr,
    runs_modifyDatabase, runs_modifyOutside, visit_of_fault_none hfault]
  simp [visit_of_fault_none, hfault, runs_applyUsageDelta_refunded]
  simp [without, hfault]

theorem Table.delete_comm {ρ : Type} {clash : ρ → ρ → Prop} (t : Table ρ clash) (p q : ρ → Bool) :
    (t.delete p).delete q = (t.delete q).delete p := by
  simp only [Table.delete, Table.mk.injEq]
  exact List.filter_comm ..

theorem companyQuotaOf_refunded (obj : StorageObject) (db : Database) (companyId : Nat) :
    companyQuotaOf env (refunded env obj db) companyId =
      if obj.size ≠ 0 ∧ companyId = obj.companyId then
        refundCompany obj.size (companyQuotaOf env db companyId)
      else companyQuotaOf env db companyId := by
  simp only [companyQuotaOf, refunded]
  split <;> rfl

theorem maxBytesPerUser_refunded (obj : StorageObject) (db : Database) (companyId : Nat) :
    (companyQuotaOf env (refunded env obj db) companyId).maxBytesPerUser =
      (companyQuotaOf env db companyId).maxBytesPerUser := by
  rw [companyQuotaOf_refunded]
  split <;> rfl

theorem deleteObject_deleteObject (db : Database) (a b : UUID) :
    (db.deleteObject a).deleteObject b = (db.deleteObject b).deleteObject a :=
  Database.eq_of_fields rfl rfl (Table.delete_comm ..) (Table.delete_comm ..) rfl rfl

theorem refunded_refunded (a b : StorageObject) (db : Database) :
    refunded env b (refunded env a db) = refunded env a (refunded env b db) := by
  refine Database.eq_of_fields rfl rfl rfl rfl ?_ ?_
  · funext c
    change (if b.size ≠ 0 ∧ c = b.companyId then
        some (refundCompany b.size (companyQuotaOf env (refunded env a db) c))
      else (refunded env a db).companyQuotas c) =
      if a.size ≠ 0 ∧ c = a.companyId then
        some (refundCompany a.size (companyQuotaOf env (refunded env b db) c))
      else (refunded env b db).companyQuotas c
    rw [companyQuotaOf_refunded, companyQuotaOf_refunded]
    simp only [refunded]
    by_cases ha : a.size ≠ 0 ∧ c = a.companyId <;> by_cases hb : b.size ≠ 0 ∧ c = b.companyId
    · simp only [if_pos ha, if_pos hb, refundCompany_comm]
    · simp only [if_pos ha, if_neg hb]
    · simp only [if_neg ha, if_pos hb]
    · simp only [if_neg ha, if_neg hb]
  · funext c u
    change (if b.size ≠ 0 ∧ c = b.companyId ∧ b.ownerId = some u then
        refundUser b.size (companyQuotaOf env (refunded env a db) c).maxBytesPerUser
          ((refunded env a db).userQuotas c u)
      else (refunded env a db).userQuotas c u) =
      if a.size ≠ 0 ∧ c = a.companyId ∧ a.ownerId = some u then
        refundUser a.size (companyQuotaOf env (refunded env b db) c).maxBytesPerUser
          ((refunded env b db).userQuotas c u)
      else (refunded env b db).userQuotas c u
    rw [maxBytesPerUser_refunded, maxBytesPerUser_refunded]
    simp only [refunded]
    by_cases ha : a.size ≠ 0 ∧ c = a.companyId ∧ a.ownerId = some u <;>
      by_cases hb : b.size ≠ 0 ∧ c = b.companyId ∧ b.ownerId = some u
    · simp only [if_pos ha, if_pos hb, refundUser_comm]
    · simp only [if_pos ha, if_neg hb]
    · simp only [if_neg ha, if_pos hb]
    · simp only [if_neg ha, if_neg hb]

theorem without_comm (s : World) (a b : StorageObject) :
    without env (without env s a) b = without env (without env s b) a := by
  have hdb : refunded env b (refunded env a ((s.db.deleteObject a.id).deleteObject b.id)) =
      refunded env a (refunded env b ((s.db.deleteObject b.id).deleteObject a.id)) := by
    rw [deleteObject_deleteObject, refunded_refunded]
  have hblobs : (s.out.blobs.erase a.storageKey).erase b.storageKey =
      (s.out.blobs.erase b.storageKey).erase a.storageKey := AList.erase_erase ..
  change (⟨refunded env b (refunded env a ((s.db.deleteObject a.id).deleteObject b.id)),
    { s.out with blobs := (s.out.blobs.erase a.storageKey).erase b.storageKey }⟩ : World) = _
  rw [hdb, hblobs]
  rfl

/-- A batch of deletions ends in the same state in whatever order it is gone through. -/
theorem foldl_without_perm {objs objs' : List StorageObject} (h : objs.Perm objs') (s : World) :
    objs.foldl (without env) s = objs'.foldl (without env) s := by
  have : RightCommutative (without env) := ⟨without_comm⟩
  exact h.foldl_eq s

theorem runs_forEach_deleteObject_without {objs : List StorageObject} {u : Unit}
    (hfault : s.out.fault = none) :
    (forEach (deleteObject env) objs).Runs s u s' ↔ s' = objs.foldl (without env) s := by
  induction objs generalizing s with
  | nil => simp
  | cons obj objs ih =>
      rw [runs_forEach_cons, List.foldl_cons]
      simp only [runs_deleteObject_without hfault, exists_eq_left]
      exact ih hfault

end StorageService.Storage
