import StorageService.Storage.System

/-!
# The space that is reported

`QuotaView.get` reports how much of each limit is left; `assert_can_store` decides
whether more can be stored.  A limit of zero is no limit to the second, and full
to the first.
-/

namespace StorageService.Results

open StorageService.Foundation
open StorageService.Foundation.Action
open StorageService.Storage

/-! ## The endpoint -/

structure CompanyReport where
  maxBytes : Int
  usedBytes : Int
  remainingBytes : Int
  deriving DecidableEq, Repr

structure UserReport where
  userId : Option Nat
  maxBytes : Option Int
  usedBytes : Int
  remainingBytes : Option Int
  deriving DecidableEq, Repr

structure QuotaReport where
  companyId : Nat
  company : CompanyReport
  user : UserReport
  deriving DecidableEq, Repr

def quotaReport (snap : QuotaSnapshot) : QuotaReport where
  companyId := snap.companyId
  company :=
    { maxBytes := snap.companyMax
      usedBytes := snap.companyUsed
      remainingBytes := max 0 (snap.companyMax - snap.companyUsed) }
  user :=
    { userId := snap.userId
      maxBytes := snap.userMax
      usedBytes := snap.userUsed
      remainingBytes := snap.userMax.map fun limit => max 0 (limit - snap.userUsed) }

def getQuota (env : Env) (principal : StoragePrincipal) : Act QuotaReport := do
  let companyId ← requireCompanyId principal
  let snap ← snapshot env companyId (some principal.userId)
  pure (quotaReport snap)

/-! ## What the two compare -/

def heardSnapshot (env : Env) (db : Database) (companyId : Nat) (userId : Option Nat) :
    QuotaSnapshot :=
  let company := (db.companyQuotas companyId).getD (defaultCompanyQuota env)
  let (userMax, userRow) := resolveUserLimit db companyId company userId
  { companyId := companyId
    companyMax := company.maxBytes
    companyUsed := company.usedBytes
    userId := userId
    userMax := userMax
    userUsed := (userRow.map UserQuota.usedBytes).getD 0 }

def FitsReport (report : QuotaReport) (n : Nat) : Prop :=
  (n : Int) ≤ report.company.remainingBytes ∧
    ∀ left, report.user.remainingBytes = some left → (n : Int) ≤ left

def FitsLimits (snap : QuotaSnapshot) (n : Nat) : Prop :=
  (snap.companyMax ≠ 0 → snap.companyUsed + n ≤ snap.companyMax) ∧
    (snap.userMax.getD 0 ≠ 0 → snap.userUsed + n ≤ snap.userMax.getD 0)

/-- A limit of zero stands beside another limit, not zero, that lacks room too. -/
def ZeroLimitsFull (snap : QuotaSnapshot) (n : Nat) : Prop :=
  (snap.companyMax = 0 ∧ 0 < snap.companyUsed + n →
    snap.userMax.getD 0 ≠ 0 ∧ snap.userMax.getD 0 < snap.userUsed + n) ∧
  (snap.userMax = some 0 ∧ 0 < snap.userUsed + n →
    snap.companyMax ≠ 0 ∧ snap.companyMax < snap.companyUsed + n)

theorem fitsReport_iff (snap : QuotaSnapshot) {n : Nat} (hn : 0 < n) :
    FitsReport (quotaReport snap) n ↔ snap.companyUsed + n ≤ snap.companyMax ∧
      ∀ limit, snap.userMax = some limit → snap.userUsed + n ≤ limit := by
  have hleft : ∀ limit used : Int, (n : Int) ≤ max 0 (limit - used) ↔ used + n ≤ limit := by
    intro limit used
    omega
  simp only [FitsReport, quotaReport, hleft]
  constructor
  · rintro ⟨hcompany, huser⟩
    refine ⟨hcompany, fun limit hlimit => ?_⟩
    rw [← hleft]
    exact huser _ (by rw [hlimit]; rfl)
  · rintro ⟨hcompany, huser⟩
    refine ⟨hcompany, fun left hmap => ?_⟩
    obtain ⟨limit, hlimit, rfl⟩ := Option.map_eq_some_iff.mp hmap
    rw [hleft]
    exact huser limit hlimit

theorem fitsReport_iff_fitsLimits (snap : QuotaSnapshot) {n : Nat} (hn : 0 < n) :
    (FitsLimits snap n ↔ FitsReport (quotaReport snap) n) ↔ ZeroLimitsFull snap n := by
  rw [fitsReport_iff snap hn]
  simp only [FitsLimits, ZeroLimitsFull]
  cases snap.userMax with
  | none =>
      simp only [Option.getD_none, reduceCtorEq, false_and, ne_eq, not_true_eq_false,
        false_implies, and_true, implies_true, imp_false]
      omega
  | some limit =>
      simp only [Option.getD_some, Option.some.injEq, forall_eq']
      omega

/-! ## The two functions -/

theorem runs_getQuota (env : Env) (w : World) {principal : StoragePrincipal} {companyId : Nat}
    (hcompany : principal.companyId = some companyId) :
    ∃ w', (getQuota env principal).Runs w
      (quotaReport (heardSnapshot env w.db companyId (some principal.userId))) w' := by
  have hrow : (getOrCreateCompanyQuota env companyId).Runs w _ _ :=
    runs_getOrCreateCompanyQuota_db.mpr ⟨rfl, rfl⟩
  have husers : ∀ row, (w.db.setCompanyQuota companyId row).userQuotas = w.db.userQuotas :=
    fun row => rfl
  simp only [getQuota, requireCompanyId, hcompany, snapshot, runs_bind, runs_ofOption]
  refine ⟨_, companyId, w, ⟨rfl, rfl⟩, _, _,
    ⟨_, _, hrow, _, _, runs_database.mpr ⟨rfl, rfl⟩, runs_pure.mpr ⟨rfl, rfl⟩⟩,
    runs_pure.mpr ⟨?_, rfl⟩⟩
  split <;> rfl

theorem runs_assertCanStore_iff (env : Env) (companyId : Nat) (userId : Option Nat) {n : Nat}
    (hn : 0 < n) (w : World) :
    (∃ w', (assertCanStore env companyId userId n 0).Runs (w.withFault none) () w') ↔
      FitsLimits (heardSnapshot env w.db companyId userId) n := by
  have hexceeded : QuotaExceeded env w.db companyId userId n 0 ↔
      ¬FitsLimits (heardSnapshot env w.db companyId userId) n := by
    simp only [QuotaExceeded, FitsLimits, heardSnapshot]
    omega
  constructor
  · rintro ⟨w', hrun⟩
    exact not_not.mp (hexceeded.not.mp (runs_assertCanStore hrun).1)
  · intro hfits
    rcases runs_or_fails (assertCanStore env companyId userId n 0) (w.withFault none) with
      hrun | hfails
    · exact ⟨_, hrun.choose_spec⟩
    · rcases fails_assertCanStore hfails with h | ⟨-, hfault⟩
      · exact absurd hfits (hexceeded.mp h)
      · contradiction

/-! ## Agreement -/

def ReportAgrees (env : Env) (w : World) (principal : StoragePrincipal) (companyId n : Nat) :
    Prop :=
  ∃ report w', (getQuota env principal).Runs w report w' ∧
    ((∃ w', (assertCanStore env companyId (some principal.userId) n 0).Runs w () w') ↔
      FitsReport report n)

/-- What is reported as left is what can be stored, unless a zero limit decides. -/
theorem reportAgrees_iff (env : Env) (w : World) (principal : StoragePrincipal)
    {companyId n : Nat} (hcompany : principal.companyId = some companyId) (hn : 0 < n) :
    ReportAgrees env (w.withFault none) principal companyId n ↔
      ZeroLimitsFull (heardSnapshot env w.db companyId (some principal.userId)) n := by
  rw [← fitsReport_iff_fitsLimits _ hn,
    ← runs_assertCanStore_iff env companyId (some principal.userId) hn w]
  obtain ⟨w', hreport⟩ := runs_getQuota env (w.withFault none) hcompany
  constructor
  · rintro ⟨report, w₁, hruns, hagree⟩
    have hsame : report = quotaReport (heardSnapshot env w.db companyId (some principal.userId)) :=
      Except.ok.inj (congrArg Prod.fst (hruns.symm.trans hreport))
    rwa [hsame] at hagree
  · exact fun hagree => ⟨_, w', hreport, hagree⟩

def limitedTo (maxBytes usedBytes : Int) : World :=
  { World.initial with
    db := World.initial.db.setCompanyQuota 1 ⟨maxBytes, usedBytes, none⟩ }

theorem reportAgrees_iff_limited :
    ReportAgrees (sampleEnv false) ((limitedTo 10 4).withFault none) (member 1) 1 6 :=
  (reportAgrees_iff (sampleEnv false) (limitedTo 10 4) (member 1) rfl (by decide)).mpr
    ⟨by decide, by decide⟩

/-- A company limit of zero lets every size through and is reported as full. -/
theorem not_reportAgrees_unlimited :
    ¬ReportAgrees (sampleEnv false) ((limitedTo 0 0).withFault none) (member 1) 1 1 := by
  rintro ⟨report, w', hreport, hagree⟩
  have hruns : ∃ w', (assertCanStore (sampleEnv false) 1 (some (member 1).userId) 1 0).Runs
      ((limitedTo 0 0).withFault none) () w' := ⟨_, rfl⟩
  obtain ⟨w₁, hreported⟩ := runs_getQuota (sampleEnv false) ((limitedTo 0 0).withFault none)
    (rfl : (member 1).companyId = some 1)
  have hsame := Except.ok.inj (congrArg Prod.fst (hreport.symm.trans hreported))
  have hfits := (hagree.mp hruns).1
  rw [hsame] at hfits
  exact absurd hfits (by decide)

end StorageService.Results
