import StorageService.Foundation.Interleaving
import StorageService.Storage.Charges
import StorageService.Storage.Outcomes

/-!
# Concurrent uploads and copies

The statements that uploads and copies into one company execute on its quota
row.  A statement reads what is committed; a row that was written is locked
until its transaction ends.  Different calls write different objects, and a call
may fail for other reasons at any time.
-/

namespace StorageService.Storage

open StorageService.Foundation
open StorageService.Foundation.Action
open StorageService.Foundation.Interleaved

structure Call where
  additional : Nat
  replacing : Nat
  deriving DecidableEq, Repr

def Call.delta (call : Call) : Int := (call.additional : Int) - call.replacing

inductive Progress where
  | started
  | checked
  | inserted
  | updated
  | clamped
  | committed
  | failed
  deriving DecidableEq, Repr

def Progress.Ended (p : Progress) : Prop := p = .committed ∨ p = .failed

namespace CompanyQuota

def Admits (company : CompanyQuota) (delta : Int) : Prop :=
  delta ≤ 0 ∨ ¬(company.maxBytes ≠ 0 ∧ company.maxBytes < company.usedBytes + delta)

def add (company : CompanyQuota) (delta : Int) : CompanyQuota :=
  { company with usedBytes := company.usedBytes + delta }

def clamp (company : CompanyQuota) : CompanyQuota :=
  { company with usedBytes := max 0 company.usedBytes }

end CompanyQuota

/-- The quota row: what is committed, and what the holder of its lock has written. -/
structure QuotaRow where
  committed : CompanyQuota
  written : Option CompanyQuota
  deriving DecidableEq, Repr

inductive Statement (call : Call) : QuotaRow → Progress → QuotaRow → Progress → Prop where
  | check {row : QuotaRow} (admits : row.committed.Admits call.delta) :
      Statement call row .started row .checked
  | insert {row : QuotaRow} : Statement call row .checked row .inserted
  | update {company : CompanyQuota} (counted : call.delta ≠ 0) :
      Statement call ⟨company, none⟩ .inserted ⟨company, some (company.add call.delta)⟩ .updated
  | clamp {company written : CompanyQuota} :
      Statement call ⟨company, some written⟩ .updated ⟨company, some written.clamp⟩ .clamped
  | commit {company written : CompanyQuota} :
      Statement call ⟨company, some written⟩ .clamped ⟨written, none⟩ .committed
  /-- A call that stores as much as it replaces does not write the row. -/
  | commitUncounted {row : QuotaRow} (uncounted : call.delta = 0) :
      Statement call row .inserted row .committed
  | fail {row : QuotaRow} {p : Progress} (unlocked : p = .started ∨ p = .checked ∨ p = .inserted) :
      Statement call row p row .failed
  | rollBack {company written : CompanyQuota} {p : Progress}
      (locked : p = .updated ∨ p = .clamped) :
      Statement call ⟨company, some written⟩ p ⟨company, none⟩ .failed

/-! ## A call on its own -/

def CompanyQuota.charged (company : CompanyQuota) (delta : Int) : CompanyQuota :=
  if delta = 0 then company else (company.add delta).clamp

theorem alone_of_checked {call : Call} (company : CompanyQuota) :
    Alone (Statement call) ⟨company, none⟩ .checked ⟨company.charged call.delta, none⟩
      .committed := by
  by_cases hdelta : call.delta = 0
  · rw [CompanyQuota.charged, if_pos hdelta]
    exact .next .insert (.next (.commitUncounted hdelta) (.refl _ _))
  · rw [CompanyQuota.charged, if_neg hdelta]
    exact .next .insert (.next (.update hdelta) (.next .clamp (.next .commit (.refl _ _))))

theorem alone_of_admits {call : Call} {company : CompanyQuota}
    (h : company.Admits call.delta) :
    Alone (Statement call) ⟨company, none⟩ .started ⟨company.charged call.delta, none⟩
      .committed :=
  .next (.check h) (alone_of_checked company)

variable {env : Env} {s s' w w' : World}

theorem runs_applyUsageDelta_companyRow {companyId : Nat} {userId : Option Nat} {delta : Int}
    (h : (applyUsageDelta env companyId userId delta).Runs s () s') :
    s'.db.companyQuotas companyId = if delta = 0 then s.db.companyQuotas companyId else
      some (((s.db.companyQuotas companyId).getD (defaultCompanyQuota env)).charged delta) := by
  simp only [applyUsageDelta, runs_atomic, runs_ite, runs_pure] at h
  rcases h with ⟨hzero, -, rfl⟩ | ⟨hdelta, h⟩
  · rw [if_pos hzero]
  · rw [if_neg hdelta]
    simp only [reach, runs_bind, runs_reachOr, runs_modifyDatabase,
      runs_getOrCreateCompanyQuota_db] at h
    obtain ⟨_, s₁, ⟨out, -, rfl⟩, quota, s₂, ⟨hquota, rfl⟩, _, s₃, rfl, h⟩ := h
    rw [← hquota]
    have hset : ∀ db : Database, (db.setCompanyQuota companyId
        { quota with usedBytes := max 0 (quota.usedBytes + delta) }).companyQuotas companyId =
        some (quota.charged delta) := fun db => by
      simp [Database.setCompanyQuota, CompanyQuota.charged, hdelta, CompanyQuota.add,
        CompanyQuota.clamp]
    cases userId with
    | none =>
        simp only [runs_pure] at h
        rw [h.2]
        exact hset _
    | some userId =>
        simp only [runs_modifyDatabase] at h
        rw [h]
        obtain ⟨-, -, -, hcompanies⟩ := applyUserDelta_rows companyId quota userId delta _
        rw [hcompanies]
        exact hset _

theorem runs_applyUsageDelta_row {companyId : Nat} {userId : Option Nat} {delta : Int}
    {company : CompanyQuota} (hrow : s.db.companyQuotas companyId = some company)
    (h : (applyUsageDelta env companyId userId delta).Runs s () s') :
    s'.db.companyQuotas companyId = some (company.charged delta) := by
  rw [runs_applyUsageDelta_companyRow h, hrow]
  split
  · simp [CompanyQuota.charged, *]
  · rfl

def QuotaRowsKept (s s' : World) : Prop :=
  ∀ companyId company, s.db.companyQuotas companyId = some company →
    s'.db.companyQuotas companyId = some company

theorem quotaRowsKept_lenient : Lenient QuotaRowsKept where
  refl _ _ _ := id
  trans h h' companyId company := h' companyId company ∘ h companyId company
  rollback _ _ _ := id
  fault _ _ _ _ := id

theorem getOrCreateCompanyQuota_quotaRowsKept (env : Env) (companyId : Nat) :
    (getOrCreateCompanyQuota env companyId).Within QuotaRowsKept := by
  intro s
  rcases runs_or_fails (getOrCreateCompanyQuota env companyId) s with ⟨q, h⟩ | h
  · intro c company hrow
    rw [(runs_getOrCreateCompanyQuota_db.mp h).2]
    cases hcompany : s.db.companyQuotas companyId with
    | some row => exact hrow
    | none =>
        have hne : c ≠ companyId := by
          rintro rfl
          rw [hcompany] at hrow
          contradiction
        simpa [Database.setCompanyQuota, hne] using hrow
  · simp [fails_getOrCreateCompanyQuota] at h

theorem assertCanStore_quotaRowsKept (env : Env) (companyId : Nat) (userId : Option Nat)
    (additional replacing : Nat) :
    (assertCanStore env companyId userId additional replacing).Within QuotaRowsKept := by
  have hR := quotaRowsKept_lenient.toComposable
  refine Within.ite (Within.pure hR _) ?_
  refine Within.bind hR (within_reachOr quotaRowsKept_lenient _ _) fun _ => ?_
  refine Within.bind hR (getOrCreateCompanyQuota_quotaRowsKept env companyId) fun company => ?_
  refine Within.bind hR (Within.ensure hR _ _) fun _ => ?_
  exact Within.bind hR (Within.database hR) fun db => Within.ensure hR _ _

/-- A checked charge is a run of the statements of one call. -/
theorem alone_of_charged {companyId : Nat} {userId owner : Option Nat}
    {additional replacing : Nat} {company : CompanyQuota} {s₁ : World}
    (hrow : s.db.companyQuotas companyId = some company)
    (hcheck : (assertCanStore env companyId userId additional replacing).Runs s () s₁)
    (hcharged : Charged env companyId owner ((additional : Int) - replacing) s₁ s') :
    ∃ company', s'.db.companyQuotas companyId = some company' ∧
      Alone (Statement ⟨additional, replacing⟩) ⟨company, none⟩ .started ⟨company', none⟩
        .committed := by
  refine ⟨company.charged (Call.delta ⟨additional, replacing⟩), ?_, alone_of_admits ?_⟩
  · obtain ⟨s₂, s₃, hbefore, hrun, hafter⟩ := hcharged
    rw [hafter.companies]
    refine runs_applyUsageDelta_row ?_ hrun
    rw [hbefore.companies]
    exact (assertCanStore_quotaRowsKept env _ _ _ _).runs hcheck _ _ hrow
  · have hnot := (runs_assertCanStore hcheck).1
    by_contra hrefused
    simp only [CompanyQuota.Admits, Call.delta, not_or, not_le, not_not] at hrefused
    refine hnot ⟨hrefused.1, .inl ?_⟩
    rw [hrow]
    exact hrefused.2

theorem Upload.alone {u : Upload} {obj : StorageObject} {company : CompanyQuota}
    (hrow : w.db.companyQuotas u.bucket.companyId = some company)
    (h : (u.run env).Runs w obj w') :
    ∃ company', w'.db.companyQuotas u.bucket.companyId = some company' ∧
      Alone (Statement ⟨u.data.length, ((u.existing w.db).map StorageObject.size).getD 0⟩)
        ⟨company, none⟩ .started ⟨company', none⟩ .committed := by
  obtain ⟨name, mimeType, s₁, hname, hcheck, hcases⟩ := runs_uploadObject h
  rw [← Upload.existing_eq hname] at hcheck hcases
  rcases hcases with ⟨existing, hfound, hwrite⟩ | ⟨hfree, hcreate⟩
  · rw [hfound] at hcheck ⊢
    exact alone_of_charged hrow hcheck (overwriteObject_charged hwrite)
  · rw [hfree] at hcheck ⊢
    have hcharged : Charged env u.bucket.companyId u.ownerId ((u.data.length : Int) - (0 : Nat))
        s₁ w' := by
      simpa using createFile_charged hcreate
    exact alone_of_charged hrow hcheck hcharged

theorem copyObject_alone {bucket destBucket : Bucket} {source dest : Text}
    {ownerId : Option Nat} {obj : StorageObject} {company : CompanyQuota}
    (hrow : w.db.companyQuotas destBucket.companyId = some company)
    (h : (copyObject env bucket source destBucket dest ownerId).Runs w obj w') :
    ∃ src ∈ w.db.objects.rows, ∃ company',
      w'.db.companyQuotas destBucket.companyId = some company' ∧
      Alone (Statement ⟨src.size, 0⟩) ⟨company, none⟩ .started ⟨company', none⟩
        .committed := by
  obtain ⟨_, _, src, _, s₁, -, -, hsrc, -, -, hcheck, -, hcreate⟩ := runs_copyObject h
  have hcharged : Charged env destBucket.companyId (ownerId <|> src.ownerId)
      ((src.size : Int) - (0 : Nat)) s₁ w' := by
    simpa using createFile_charged hcreate
  exact ⟨src, (Database.objectNamed_eq_some hsrc).1, alone_of_charged hrow hcheck hcharged⟩

end StorageService.Storage
