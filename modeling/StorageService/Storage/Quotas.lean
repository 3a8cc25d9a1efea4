import StorageService.Storage.Backends

/-!
# Quotas

`quotas.py`: the check before data is stored and the counters afterwards.  A
`QuotaExceeded` is raised here as the `StorageError` its callers turn it into,
and sizes are natural numbers, so the guard against negative ones is not needed.
-/

namespace StorageService.Storage

open StorageService.Foundation
open StorageService.Foundation.Action

def defaultCompanyQuota (env : Env) : CompanyQuota where
  maxBytes := env.defaultCompanyQuotaBytes
  usedBytes := 0
  maxBytesPerUser :=
    if env.defaultUserQuotaBytes = 0 then none else some env.defaultUserQuotaBytes

def getOrCreateCompanyQuota (env : Env) (companyId : Nat) : Act CompanyQuota := do
  let db ← database
  match db.companyQuotas companyId with
  | some quota => pure quota
  | none => do
      modifyDatabase (·.setCompanyQuota companyId (defaultCompanyQuota env))
      pure (defaultCompanyQuota env)

def resolveUserLimit (db : Database) (companyId : Nat) (companyQuota : CompanyQuota)
    (userId : Option Nat) : Option Int × Option UserQuota :=
  match userId with
  | none => (none, none)
  | some userId =>
      match db.userQuotas companyId userId with
      | some row => (some row.maxBytes, some row)
      | none =>
          match companyQuota.maxBytesPerUser with
          | none => (none, none)
          | some limit => if limit ≤ 0 then (none, none) else (some limit, none)

def companyQuotaExceeded (used limit : Int) : Failure :=
  .storageError s!"Company quota exceeded ({used} > {limit} bytes)." 413
    "company_quota_exceeded"

def userQuotaExceeded (used limit : Int) : Failure :=
  .storageError s!"User quota exceeded ({used} > {limit} bytes)." 413 "user_quota_exceeded"

def assertCanStore (env : Env) (companyId : Nat) (userId : Option Nat)
    (additional replacing : Nat) : Act Unit := do
  let delta : Int := (additional : Int) - replacing
  if delta ≤ 0 then pure ()
  else do
    reach .quotaCheck
    let company ← getOrCreateCompanyQuota env companyId
    ensure (¬(company.maxBytes ≠ 0 ∧ company.maxBytes < company.usedBytes + delta))
      (companyQuotaExceeded (company.usedBytes + delta) company.maxBytes)
    let db ← database
    let (userMax, userRow) := resolveUserLimit db companyId company userId
    let limit := userMax.getD 0
    let used := (userRow.map UserQuota.usedBytes).getD 0
    ensure (¬(limit ≠ 0 ∧ limit < used + delta)) (userQuotaExceeded (used + delta) limit)

structure QuotaSnapshot where
  companyId : Nat
  companyMax : Int
  companyUsed : Int
  userId : Option Nat
  userMax : Option Int
  userUsed : Int
  deriving DecidableEq, Repr

def snapshot (env : Env) (companyId : Nat) (userId : Option Nat) : Act QuotaSnapshot := do
  let company ← getOrCreateCompanyQuota env companyId
  let db ← database
  let (userMax, userRow) := resolveUserLimit db companyId company userId
  pure
    { companyId := companyId
      companyMax := company.maxBytes
      companyUsed := company.usedBytes
      userId := userId
      userMax := userMax
      userUsed := (userRow.map UserQuota.usedBytes).getD 0 }

def applyUserDelta (companyId : Nat) (company : CompanyQuota) (userId : Nat) (delta : Int)
    (db : Database) : Database :=
  match resolveUserLimit db companyId company (some userId) with
  | (_, some row) =>
      db.setUserQuota companyId userId
        { row with usedBytes := max 0 (row.usedBytes + delta) }
  | (some limit, none) =>
      db.setUserQuota companyId userId { maxBytes := limit, usedBytes := max 0 delta }
  | (none, none) => db

/-- Adjust the counters; `delta` may be negative on delete, and the floor is zero. -/
def applyUsageDelta (env : Env) (companyId : Nat) (userId : Option Nat) (delta : Int) :
    Act Unit := atomic do
  if delta = 0 then pure ()
  else do
    reach .quotaUpdate
    let company ← getOrCreateCompanyQuota env companyId
    modifyDatabase (·.setCompanyQuota companyId
      { company with usedBytes := max 0 (company.usedBytes + delta) })
    match userId with
    | none => pure ()
    | some userId => modifyDatabase (applyUserDelta companyId company userId delta)

/-! ## What the quota functions touch -/

def companyUsage (db : Database) (companyId : Nat) : Int :=
  ((db.companyQuotas companyId).map CompanyQuota.usedBytes).getD 0

structure QuotasOnly (s s' : World) : Prop where
  buckets : s'.db.buckets = s.db.buckets
  objects : s'.db.objects = s.db.objects
  grants : s'.db.grants = s.db.grants
  blobs : s'.out.blobs = s.out.blobs
  drawn : s'.out.drawn = s.out.drawn
  now : s'.out.now = s.out.now
  engine : s'.db.engine = s.db.engine

theorem quotasOnly_lenient : Lenient QuotasOnly where
  refl _ := ⟨rfl, rfl, rfl, rfl, rfl, rfl, rfl⟩
  trans := by
    rintro s s₁ s₂ ⟨h1, h2, h3, h4, h5, h6, h7⟩ ⟨h1', h2', h3', h4', h5', h6', h7'⟩
    exact ⟨h1'.trans h1, h2'.trans h2, h3'.trans h3, h4'.trans h4, h5'.trans h5,
      h6'.trans h6, h7'.trans h7⟩
  rollback := by
    rintro s s₁ ⟨-, -, -, h4, h5, h6, -⟩
    exact ⟨rfl, rfl, rfl, h4, h5, h6, rfl⟩
  fault _ _ := ⟨rfl, rfl, rfl, rfl, rfl, rfl, rfl⟩

theorem modifyDatabase_quotasOnly {f : Database → Database}
    (h : ∀ db, (f db).buckets = db.buckets ∧ (f db).objects = db.objects ∧
      (f db).grants = db.grants ∧ (f db).engine = db.engine) :
    (modifyDatabase f : Act Unit).Within QuotasOnly := by
  intro s
  obtain ⟨hb, ho, hg, he⟩ := h s.db
  exact ⟨hb, ho, hg, rfl, rfl, rfl, he⟩

theorem getOrCreateCompanyQuota_quotasOnly (env : Env) (companyId : Nat) :
    (getOrCreateCompanyQuota env companyId).Within QuotasOnly := by
  have hR := quotasOnly_lenient.toComposable
  refine Within.bind hR (Within.database hR) fun db => ?_
  split
  · exact Within.pure hR _
  · exact Within.bind hR (modifyDatabase_quotasOnly fun _ => ⟨rfl, rfl, rfl, rfl⟩) fun _ =>
      Within.pure hR _

theorem assertCanStore_quotasOnly (env : Env) (companyId : Nat) (userId : Option Nat)
    (additional replacing : Nat) :
    (assertCanStore env companyId userId additional replacing).Within QuotasOnly := by
  have hR := quotasOnly_lenient.toComposable
  refine Within.ite (Within.pure hR _) ?_
  refine Within.bind hR (within_reachOr quotasOnly_lenient _ _) fun _ => ?_
  refine Within.bind hR (getOrCreateCompanyQuota_quotasOnly env companyId) fun company => ?_
  refine Within.bind hR (Within.ensure hR _ _) fun _ => ?_
  exact Within.bind hR (Within.database hR) fun db => Within.ensure hR _ _

theorem applyUserDelta_rows (companyId : Nat) (company : CompanyQuota) (userId : Nat)
    (delta : Int) (db : Database) :
    (applyUserDelta companyId company userId delta db).buckets = db.buckets ∧
      (applyUserDelta companyId company userId delta db).objects = db.objects ∧
      (applyUserDelta companyId company userId delta db).grants = db.grants ∧
      (applyUserDelta companyId company userId delta db).companyQuotas =
        db.companyQuotas := by
  unfold applyUserDelta
  split <;> exact ⟨rfl, rfl, rfl, rfl⟩

theorem applyUserDelta_engine (companyId : Nat) (company : CompanyQuota) (userId : Nat)
    (delta : Int) (db : Database) :
    (applyUserDelta companyId company userId delta db).engine = db.engine := by
  unfold applyUserDelta
  split <;> rfl

theorem applyUsageDelta_quotasOnly (env : Env) (companyId : Nat) (userId : Option Nat)
    (delta : Int) :
    (applyUsageDelta env companyId userId delta).Within QuotasOnly := by
  have hR := quotasOnly_lenient.toComposable
  refine Within.atomic hR (Within.ite (Within.pure hR _) ?_)
  refine Within.bind hR (within_reachOr quotasOnly_lenient _ _) fun _ => ?_
  refine Within.bind hR (getOrCreateCompanyQuota_quotasOnly env companyId) fun company => ?_
  refine Within.bind hR (modifyDatabase_quotasOnly fun _ => ⟨rfl, rfl, rfl, rfl⟩) fun _ => ?_
  cases userId with
  | none => exact Within.pure hR _
  | some userId =>
      apply modifyDatabase_quotasOnly
      intro db
      obtain ⟨hb, ho, hg, -⟩ := applyUserDelta_rows companyId company userId delta db
      exact ⟨hb, ho, hg, applyUserDelta_engine companyId company userId delta db⟩

/-! ## When the check refuses -/

def QuotaExceeded (env : Env) (db : Database) (companyId : Nat) (userId : Option Nat)
    (additional replacing : Nat) : Prop :=
  let delta : Int := (additional : Int) - replacing
  let company := (db.companyQuotas companyId).getD (defaultCompanyQuota env)
  let (userMax, userRow) := resolveUserLimit db companyId company userId
  let limit := userMax.getD 0
  let used := (userRow.map UserQuota.usedBytes).getD 0
  0 < delta ∧ (company.maxBytes ≠ 0 ∧ company.maxBytes < company.usedBytes + delta ∨
    limit ≠ 0 ∧ limit < used + delta)

theorem runs_getOrCreateCompanyQuota_db {env : Env} {companyId : Nat} {s s' : World}
    {quota : CompanyQuota} :
    (getOrCreateCompanyQuota env companyId).Runs s quota s' ↔
      quota = (s.db.companyQuotas companyId).getD (defaultCompanyQuota env) ∧
        s' = { s with db :=
          if (s.db.companyQuotas companyId).isSome then s.db
          else s.db.setCompanyQuota companyId (defaultCompanyQuota env) } := by
  simp only [getOrCreateCompanyQuota, runs_bind, runs_database]
  cases h : s.db.companyQuotas companyId with
  | some q =>
      constructor
      · rintro ⟨_, _, ⟨rfl, rfl⟩, hrun⟩
        simpa [h] using hrun
      · intro hrun
        exact ⟨_, s, ⟨rfl, rfl⟩, by simpa [h] using hrun⟩
  | none =>
      constructor
      · rintro ⟨_, _, ⟨rfl, rfl⟩, hrun⟩
        simpa [h, and_comm] using hrun
      · intro hrun
        exact ⟨_, s, ⟨rfl, rfl⟩, by simpa [h, and_comm] using hrun⟩

theorem fails_getOrCreateCompanyQuota {env : Env} {companyId : Nat} {s s' : World} :
    (getOrCreateCompanyQuota env companyId).Fails s s' ↔ False := by
  simp only [getOrCreateCompanyQuota, fails_bind, fails_database, runs_database, false_or,
    iff_false]
  rintro ⟨_, _, ⟨rfl, rfl⟩, h⟩
  split at h <;> simp at h

theorem runs_assertCanStore {env : Env} {companyId : Nat} {userId : Option Nat}
    {additional replacing : Nat} {s s' : World} {u : Unit}
    (h : (assertCanStore env companyId userId additional replacing).Runs s u s') :
    ¬QuotaExceeded env s.db companyId userId additional replacing ∧
      (additional ≤ replacing ∧ s'.out = s.out ∨
        replacing < additional ∧ s.out.visit .quotaCheck = some s'.out) := by
  simp only [assertCanStore, runs_ite, runs_pure] at h
  rcases h with ⟨hdelta, -, rfl⟩ | ⟨hdelta, h⟩
  · refine ⟨fun hexceeded => ?_, .inl ⟨by omega, rfl⟩⟩
    have := hexceeded.1
    omega
  · simp only [reach, runs_bind, runs_reachOr, runs_getOrCreateCompanyQuota_db, runs_ensure,
      runs_database] at h
    obtain ⟨_, _, ⟨out, hvisit, rfl⟩, company, _, ⟨hcompany, rfl⟩, _, _, ⟨hcompanyOk, rfl⟩, db,
      _, ⟨rfl, rfl⟩, huserOk, rfl⟩ := h
    refine ⟨?_, .inr ⟨by omega, hvisit⟩⟩
    rintro ⟨-, hexceeded | hexceeded⟩
    · exact hcompanyOk (by rw [hcompany]; exact hexceeded)
    · refine huserOk ?_
      rw [hcompany]
      split
      · exact hexceeded
      · exact hexceeded

theorem fails_assertCanStore {env : Env} {companyId : Nat} {userId : Option Nat}
    {additional replacing : Nat} {s s' : World}
    (h : (assertCanStore env companyId userId additional replacing).Fails s s') :
    QuotaExceeded env s.db companyId userId additional replacing ∨
      replacing < additional ∧ s.out.fault = some (.quotaCheck, 0) := by
  simp only [assertCanStore] at h
  split at h
  · simp at h
  · rename_i hdelta
    simp only [reach, fails_bind, fails_reachOr, runs_reachOr, fails_getOrCreateCompanyQuota,
      runs_getOrCreateCompanyQuota_db, fails_ensure, runs_ensure, fails_database,
      runs_database, false_or] at h
    rcases h with ⟨hfault, -⟩ | ⟨_, _, ⟨out, -, rfl⟩, company, _, ⟨hcompany, rfl⟩,
      ⟨hexceeded, -⟩ | ⟨_, _, ⟨-, rfl⟩, db, _, ⟨rfl, rfl⟩, hexceeded, -⟩⟩
    · exact .inr ⟨by omega, hfault⟩
    · rw [hcompany, not_not] at hexceeded
      exact .inl ⟨by omega, .inl hexceeded⟩
    · rw [hcompany, not_not] at hexceeded
      refine .inl ⟨by omega, .inr ?_⟩
      split at hexceeded <;> exact hexceeded

/-! ## The company counter -/

def SameUsage (s s' : World) : Prop :=
  ∀ companyId, companyUsage s'.db companyId = companyUsage s.db companyId

theorem sameUsage_lenient : Lenient SameUsage where
  refl _ _ := rfl
  trans h h' companyId := (h' companyId).trans (h companyId)
  rollback _ _ := rfl
  fault _ _ _ := rfl

theorem companyUsage_setCompanyQuota (db : Database) (companyId : Nat) (q : CompanyQuota)
    (c : Nat) :
    companyUsage (db.setCompanyQuota companyId q) c =
      if c = companyId then q.usedBytes else companyUsage db c := by
  by_cases hc : c = companyId
  · subst hc
    simp [companyUsage, Database.setCompanyQuota]
  · simp [companyUsage, Database.setCompanyQuota, hc]

theorem runs_getOrCreateCompanyQuota {env : Env} {companyId : Nat} {s s' : World}
    {quota : CompanyQuota}
    (h : (getOrCreateCompanyQuota env companyId).Runs s quota s') :
    quota.usedBytes = companyUsage s.db companyId ∧ SameUsage s s' := by
  simp only [getOrCreateCompanyQuota, runs_bind, runs_database] at h
  obtain ⟨db, s₁, ⟨rfl, rfl⟩, h⟩ := h
  cases hquota : s₁.db.companyQuotas companyId with
  | some q =>
      simp only [hquota, runs_pure] at h
      obtain ⟨rfl, rfl⟩ := h
      exact ⟨by simp [companyUsage, hquota], fun _ => rfl⟩
  | none =>
      simp only [hquota, runs_bind, runs_modifyDatabase, runs_pure] at h
      obtain ⟨_, s₂, rfl, rfl, rfl⟩ := h
      refine ⟨by simp [companyUsage, hquota, defaultCompanyQuota], fun c => ?_⟩
      rw [companyUsage_setCompanyQuota]
      split
      · rename_i hc
        simp [companyUsage, hc, hquota, defaultCompanyQuota]
      · rfl

theorem getOrCreateCompanyQuota_sameUsage (env : Env) (companyId : Nat) :
    (getOrCreateCompanyQuota env companyId).Within SameUsage := by
  intro s
  rcases runs_or_fails (getOrCreateCompanyQuota env companyId) s with ⟨q, h⟩ | h
  · exact (runs_getOrCreateCompanyQuota h).2
  · simp [fails_getOrCreateCompanyQuota] at h

theorem assertCanStore_sameUsage (env : Env) (companyId : Nat) (userId : Option Nat)
    (additional replacing : Nat) :
    (assertCanStore env companyId userId additional replacing).Within SameUsage := by
  have hR := sameUsage_lenient.toComposable
  refine Within.ite (Within.pure hR _) ?_
  refine Within.bind hR (within_reachOr sameUsage_lenient _ _) fun _ => ?_
  refine Within.bind hR (getOrCreateCompanyQuota_sameUsage env companyId) fun company => ?_
  refine Within.bind hR (Within.ensure hR _ _) fun _ => ?_
  exact Within.bind hR (Within.database hR) fun db => Within.ensure hR _ _

theorem companyUsage_applyUserDelta (companyId : Nat) (company : CompanyQuota)
    (userId : Nat) (delta : Int) (db : Database) (c : Nat) :
    companyUsage (applyUserDelta companyId company userId delta db) c = companyUsage db c := by
  obtain ⟨-, -, -, hquotas⟩ := applyUserDelta_rows companyId company userId delta db
  simp [companyUsage, hquotas]

theorem runs_applyUsageDelta {env : Env} {companyId : Nat} {userId : Option Nat}
    {delta : Int} {s s' : World} {u : Unit}
    (h : (applyUsageDelta env companyId userId delta).Runs s u s')
    {c : Nat} (hfloor : 0 ≤ companyUsage s.db c) :
    companyUsage s'.db c =
      if c = companyId then max 0 (companyUsage s.db c + delta) else companyUsage s.db c := by
  simp only [applyUsageDelta, runs_atomic, runs_ite, runs_pure] at h
  rcases h with ⟨rfl, -, rfl⟩ | ⟨-, h⟩
  · simp [hfloor]
  · simp only [reach, runs_bind, runs_reachOr, runs_modifyDatabase] at h
    obtain ⟨_, s₁, ⟨out, -, rfl⟩, company, s₂, hcompany, _, s₃, rfl, h⟩ := h
    obtain ⟨hused, hsame⟩ := runs_getOrCreateCompanyQuota hcompany
    have hbefore : companyUsage s'.db c =
        companyUsage (s₂.db.setCompanyQuota companyId
          { company with usedBytes := max 0 (company.usedBytes + delta) }) c := by
      cases userId with
      | none =>
          simp only [runs_pure] at h
          rw [h.2]
      | some userId =>
          simp only [runs_modifyDatabase] at h
          rw [h, companyUsage_applyUserDelta]
    rw [hbefore, companyUsage_setCompanyQuota]
    split
    · rename_i hc
      subst hc
      simp [hused]
    · exact hsame c

/-! ## The counters of the users -/

def userUsage (db : Database) (companyId userId : Nat) : Int :=
  ((db.userQuotas companyId userId).map UserQuota.usedBytes).getD 0

def perUserLimit (env : Env) (db : Database) (companyId : Nat) : Option Int :=
  ((db.companyQuotas companyId).getD (defaultCompanyQuota env)).maxBytesPerUser

structure SameLimits (env : Env) (s s' : World) : Prop where
  users : s'.db.userQuotas = s.db.userQuotas
  limit : ∀ companyId, perUserLimit env s'.db companyId = perUserLimit env s.db companyId

theorem sameLimits_lenient (env : Env) : Lenient (SameLimits env) where
  refl _ := ⟨rfl, fun _ => rfl⟩
  trans h h' := ⟨h'.users.trans h.users, fun c => (h'.limit c).trans (h.limit c)⟩
  rollback _ := ⟨rfl, fun _ => rfl⟩
  fault _ _ := ⟨rfl, fun _ => rfl⟩

theorem SameLimits.of_eq {env : Env} {s s' : World}
    (hcompanies : s'.db.companyQuotas = s.db.companyQuotas)
    (husers : s'.db.userQuotas = s.db.userQuotas) : SameLimits env s s' :=
  ⟨husers, fun c => by rw [perUserLimit, hcompanies]; rfl⟩

theorem perUserLimit_setCompanyQuota (env : Env) (db : Database) (companyId : Nat)
    {q : CompanyQuota} (hq : q.maxBytesPerUser = perUserLimit env db companyId) (c : Nat) :
    perUserLimit env (db.setCompanyQuota companyId q) c = perUserLimit env db c := by
  by_cases hc : c = companyId
  · subst hc
    simpa [perUserLimit, Database.setCompanyQuota] using hq
  · simp [perUserLimit, Database.setCompanyQuota, hc]

theorem getOrCreateCompanyQuota_sameLimits (env : Env) (companyId : Nat) :
    (getOrCreateCompanyQuota env companyId).Within (SameLimits env) := by
  intro s
  rcases runs_or_fails (getOrCreateCompanyQuota env companyId) s with ⟨q, h⟩ | h
  · rw [(runs_getOrCreateCompanyQuota_db.mp h).2]
    cases hrow : s.db.companyQuotas companyId with
    | some row => exact (sameLimits_lenient env).refl s
    | none =>
        refine ⟨rfl, fun c => perUserLimit_setCompanyQuota env s.db companyId ?_ c⟩
        simp [perUserLimit, hrow]
  · simp [fails_getOrCreateCompanyQuota] at h

theorem assertCanStore_sameLimits (env : Env) (companyId : Nat) (userId : Option Nat)
    (additional replacing : Nat) :
    (assertCanStore env companyId userId additional replacing).Within (SameLimits env) := by
  have hR := (sameLimits_lenient env).toComposable
  refine Within.ite (Within.pure hR _) ?_
  refine Within.bind hR (within_reachOr (sameLimits_lenient env) _ _) fun _ => ?_
  refine Within.bind hR (getOrCreateCompanyQuota_sameLimits env companyId) fun company => ?_
  refine Within.bind hR (Within.ensure hR _ _) fun _ => ?_
  exact Within.bind hR (Within.database hR) fun db => Within.ensure hR _ _

structure Capped (env : Env) (companyId : Nat) (limit : Int) (db : Database) : Prop where
  default : perUserLimit env db companyId = some limit
  rows : ∀ userId row, db.userQuotas companyId userId = some row → row.maxBytes = limit

theorem Capped.of_sameLimits {env : Env} {companyId : Nat} {limit : Int} {s s' : World}
    (h : Capped env companyId limit s.db) (hsame : SameLimits env s s') :
    Capped env companyId limit s'.db where
  default := (hsame.limit companyId).trans h.default
  rows userId row := by
    rw [hsame.users]
    exact h.rows userId row

theorem SameLimits.userUsage {env : Env} {s s' : World} (h : SameLimits env s s')
    (companyId userId : Nat) :
    userUsage s'.db companyId userId = userUsage s.db companyId userId := by
  rw [Storage.userUsage, h.users]
  rfl

theorem Capped.resolveUserLimit {env : Env} {companyId : Nat} {limit : Int} {db : Database}
    (h : Capped env companyId limit db) (hpos : 0 < limit) {company : CompanyQuota}
    (hcompany : company.maxBytesPerUser = some limit) (userId : Nat) :
    resolveUserLimit db companyId company (some userId) =
      (some limit, db.userQuotas companyId userId) := by
  unfold Storage.resolveUserLimit
  cases hrow : db.userQuotas companyId userId with
  | some row => simp [hrow, h.rows userId row hrow]
  | none => simp [hrow, hcompany, not_le.mpr hpos]

theorem Capped.applyUserDelta_eq {env : Env} {companyId : Nat} {limit : Int} {db : Database}
    (h : Capped env companyId limit db) (hpos : 0 < limit) {company : CompanyQuota}
    (hcompany : company.maxBytesPerUser = some limit) (userId : Nat) (delta : Int) :
    applyUserDelta companyId company userId delta db =
      db.setUserQuota companyId userId
        { maxBytes := limit, usedBytes := max 0 (userUsage db companyId userId + delta) } := by
  rw [Storage.applyUserDelta, h.resolveUserLimit hpos hcompany]
  cases hrow : db.userQuotas companyId userId with
  | some row => simp [userUsage, hrow, ← h.rows userId row hrow]
  | none => simp [userUsage, hrow]

theorem Capped.quotaExceeded_iff {env : Env} {companyId : Nat} {limit : Int} {db : Database}
    (h : Capped env companyId limit db) (hpos : 0 < limit) (userId additional replacing : Nat) :
    QuotaExceeded env db companyId (some userId) additional replacing ↔
      let delta : Int := (additional : Int) - replacing
      let company := (db.companyQuotas companyId).getD (defaultCompanyQuota env)
      0 < delta ∧ (company.maxBytes ≠ 0 ∧ company.maxBytes < company.usedBytes + delta ∨
        limit < userUsage db companyId userId + delta) := by
  have hne : limit ≠ 0 := by omega
  simp only [QuotaExceeded, h.resolveUserLimit hpos h.default, userUsage, Option.getD_some, ne_eq,
    hne, not_false_eq_true, true_and]

theorem applyUserDelta_userQuotas_of_ne {c companyId : Nat} (hne : companyId ≠ c)
    (company : CompanyQuota) (userId : Nat) (delta : Int) (db : Database) :
    (applyUserDelta c company userId delta db).userQuotas companyId =
      db.userQuotas companyId := by
  unfold applyUserDelta
  funext user
  split <;> simp [Database.setUserQuota, hne]

theorem userUsage_setUserQuota (db : Database) (companyId userId : Nat) (q : UserQuota)
    (user : Nat) :
    userUsage (db.setUserQuota companyId userId q) companyId user =
      if userId = user then q.usedBytes else userUsage db companyId user := by
  by_cases huser : userId = user
  · simp [userUsage, Database.setUserQuota, huser]
  · simp [userUsage, Database.setUserQuota, huser, Ne.symm huser]

theorem Capped.setUserQuota {env : Env} {companyId : Nat} {limit : Int} {db : Database}
    (h : Capped env companyId limit db) (userId : Nat) (used : Int) :
    Capped env companyId limit
      (db.setUserQuota companyId userId { maxBytes := limit, usedBytes := used }) where
  default := h.default
  rows user row hrow := by
    simp only [Database.setUserQuota, true_and] at hrow
    split at hrow
    · rw [← Option.some.inj hrow]
    · exact h.rows user row hrow

theorem Capped.applyUserDelta {env : Env} {c companyId : Nat} {limit : Int} {db : Database}
    (h : Capped env companyId limit db) (hpos : 0 < limit) {company : CompanyQuota}
    (hcompany : company.maxBytesPerUser = perUserLimit env db c) (userId : Nat) (delta : Int) :
    Capped env companyId limit (applyUserDelta c company userId delta db) ∧
      ∀ user, userUsage (applyUserDelta c company userId delta db) companyId user =
        if c = companyId ∧ userId = user then max 0 (userUsage db companyId user + delta)
        else userUsage db companyId user := by
  by_cases hc : companyId = c
  · subst hc
    rw [h.default] at hcompany
    rw [h.applyUserDelta_eq hpos hcompany]
    refine ⟨h.setUserQuota _ _, fun user => ?_⟩
    rw [userUsage_setUserQuota]
    by_cases huser : userId = user <;> simp [huser]
  · have hquotas := applyUserDelta_userQuotas_of_ne hc company userId delta db
    obtain ⟨-, -, -, hcompanies⟩ := applyUserDelta_rows c company userId delta db
    refine ⟨⟨?_, fun user row => ?_⟩, fun user => ?_⟩
    · rw [perUserLimit, hcompanies]
      exact h.default
    · rw [hquotas]
      exact h.rows user row
    · rw [userUsage, hquotas, if_neg (by simp [Ne.symm hc])]
      rfl

theorem runs_applyUsageDelta_users {env : Env} {c companyId : Nat} {userId : Option Nat}
    {delta limit : Int} {s s' : World} {u : Unit}
    (h : (applyUsageDelta env c userId delta).Runs s u s')
    (hcapped : Capped env companyId limit s.db) (hpos : 0 < limit)
    (hfloor : ∀ user, 0 ≤ userUsage s.db companyId user) :
    Capped env companyId limit s'.db ∧
      ∀ user, userUsage s'.db companyId user =
        if c = companyId ∧ userId = some user then
          max 0 (userUsage s.db companyId user + delta)
        else userUsage s.db companyId user := by
  simp only [applyUsageDelta, runs_atomic, runs_ite, runs_pure] at h
  rcases h with ⟨rfl, -, rfl⟩ | ⟨-, h⟩
  · exact ⟨hcapped, fun user => by simp [hfloor]⟩
  · simp only [reach, runs_bind, runs_reachOr, runs_modifyDatabase] at h
    obtain ⟨_, s₁, ⟨out, -, rfl⟩, company, s₂, hcompany, _, s₃, hs₃, h⟩ := h
    have hsame := (getOrCreateCompanyQuota_sameLimits env c).runs hcompany
    have hlimit : company.maxBytesPerUser = perUserLimit env s₂.db c := by
      rw [hsame.limit, (runs_getOrCreateCompanyQuota_db.mp hcompany).1]
      rfl
    have hset : SameLimits env s₂ s₃ := by
      rw [hs₃]
      exact ⟨rfl, perUserLimit_setCompanyQuota env s₂.db c hlimit⟩
    have hcapped₃ := Capped.of_sameLimits (Capped.of_sameLimits (s := ⟨s.db, out⟩) hcapped
      hsame) hset
    have husage₃ : ∀ user, userUsage s₃.db companyId user = userUsage s.db companyId user :=
      fun user => (hset.userUsage companyId user).trans (hsame.userUsage companyId user)
    cases userId with
    | none =>
        simp only [runs_pure] at h
        rw [h.2]
        exact ⟨hcapped₃, fun user => by simp [husage₃]⟩
    | some userId =>
        simp only [runs_modifyDatabase] at h
        rw [h]
        simpa [husage₃] using hcapped₃.applyUserDelta hpos (hlimit.trans (hset.limit c).symm)
          userId delta

end StorageService.Storage
