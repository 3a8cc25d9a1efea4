import Mathlib.Data.Set.Finite.Basic
import StorageService.Actions.CompanyRows

/-!
# Protected rows and the passes

A pass deletes at least one of the models that remain, as long as the relation
"has a row that protects one of" has no cycle: a model none of the others blocks
is not blocked later in the pass either.  On a cycle every model keeps the next
one from being deleted, and all of them are still there after the last pass.
-/

namespace StorageService.Results

open StorageService.Foundation
open StorageService.Actions
open StorageService.Actions.ScopedRows

/-! ## A minimal element -/

/-- In a finite set some element is not below any other, where the relation has no cycle. -/
theorem exists_minimal_of_acyclic {α : Type} {r : α → α → Prop}
    (hacyclic : ∀ a, ¬Relation.TransGen r a a) {l : List α} (hne : l ≠ []) :
    ∃ m ∈ l, ∀ n ∈ l, ¬r n m := by
  let below (a b : {a // a ∈ l}) : Prop := Relation.TransGen r a b
  have : IsTrans {a // a ∈ l} below := ⟨fun _ _ _ => Relation.TransGen.trans⟩
  have : Std.Irrefl below := ⟨fun a => hacyclic a⟩
  have : Finite {a // a ∈ l} := l.finite_toSet
  have hwf : WellFounded below := Finite.wellFounded_of_trans_of_irrefl below
  obtain ⟨a, ha⟩ := List.exists_mem_of_ne_nil l hne
  obtain ⟨m, -, hmin⟩ := hwf.has_min Set.univ ⟨⟨a, ha⟩, trivial⟩
  exact ⟨m, m.2, fun n hn hr => hmin ⟨n, hn⟩ trivial (.single hr)⟩

section CompanyRows

variable {t t' : ScopedRows} {companyId model count : Nat} {models : List Nat}

/-! ## Deletions and passes -/

theorem withinCompany_of_sublist (hwithin : WithinCompany t)
    (hsub : t'.rows.Sublist t.rows) : WithinCompany t' :=
  fun row hrow target htarget => hwithin row (hsub.subset hrow) target (hsub.subset htarget)

theorem others_of_deletes (hwithin : WithinCompany t) (h : Deletes t companyId model t' count)
    {row : ScopedRow} (hrow : row ∈ t.rows) (hother : row.companyId ≠ companyId) :
    row ∈ t'.rows := by
  refine h.kept row hrow fun hmem => ?_
  obtain ⟨row', hrow', hid, hcompany⟩ := company_of_mem_collected hwithin hmem
  rw [t.eq_of_clash hrow' hrow hid] at hcompany
  exact hother hcompany

theorem deleteModel_ne_none_of_sublist (hsub : t'.rows.Sublist t.rows)
    (h : t.deleteModel companyId model ≠ none) : t'.deleteModel companyId model ≠ none := by
  intro hnone
  obtain ⟨row, hrow, id, hid, hcollected⟩ := deleteModel_eq_none.mp hnone
  exact h (deleteModel_eq_none.mpr
    ⟨row, hsub.subset hrow, id, hid, collected_mono hsub hcollected⟩)

structure Shrinks (companyId : Nat) (t t' : ScopedRows) (count : Nat) : Prop where
  sublist : t'.rows.Sublist t.rows
  others : ∀ row ∈ t.rows, row.companyId ≠ companyId → row ∈ t'.rows
  count : count + t'.rows.length = t.rows.length

theorem shrinks_refl (companyId : Nat) (t : ScopedRows) : Shrinks companyId t t 0 :=
  ⟨List.Sublist.refl _, fun _ hrow _ => hrow, Nat.zero_add _⟩

theorem Shrinks.trans {t₁ : ScopedRows} {count' : Nat} (h : Shrinks companyId t t₁ count)
    (h' : Shrinks companyId t₁ t' count') : Shrinks companyId t t' (count + count') := by
  refine ⟨h'.sublist.trans h.sublist, fun row hrow hother => ?_, ?_⟩
  · exact h'.others row (h.others row hrow hother) hother
  · have hcount := h.count
    have hcount' := h'.count
    omega

theorem shrinks_of_deleteModel (hwithin : WithinCompany t)
    (h : t.deleteModel companyId model = some (t', count)) : Shrinks companyId t t' count := by
  have hdeletes := deletes_of_deleteModel h
  exact ⟨hdeletes.sublist, fun row hrow hother => others_of_deletes hwithin hdeletes hrow hother,
    hdeletes.count⟩

def Cleared (t : ScopedRows) (companyId model : Nat) : Prop :=
  ∀ row ∈ t.rows, row.companyId = companyId → row.model ≠ model

theorem Cleared.of_sublist (h : Cleared t companyId model) (hsub : t'.rows.Sublist t.rows) :
    Cleared t' companyId model := fun row hrow => h row (hsub.subset hrow)

structure Passes (companyId : Nat) (models : List Nat) (t : ScopedRows) (pass : DeletionPass) :
    Prop where
  shrinks : Shrinks companyId t pass.rows pass.deleted
  blocked : pass.blocked.Sublist models
  cleared : ∀ model ∈ models, model ∈ pass.blocked ∨ Cleared pass.rows companyId model

theorem passes_deletePass (companyId : Nat) (models : List Nat) (hwithin : WithinCompany t) :
    Passes companyId models t (deletePass companyId models t) := by
  induction models generalizing t with
  | nil => exact ⟨shrinks_refl companyId t, .refl _, by simp⟩
  | cons model models ih =>
      cases hdelete : t.deleteModel companyId model with
      | none =>
          have hrest := ih hwithin
          simp only [deletePass, hdelete]
          refine ⟨hrest.shrinks, hrest.blocked.cons_cons model, fun other hother => ?_⟩
          rcases List.mem_cons.mp hother with rfl | hother
          · exact .inl List.mem_cons_self
          · exact (hrest.cleared other hother).imp_left (List.mem_cons_of_mem model)
      | some result =>
          have hdeletes := deletes_of_deleteModel hdelete
          have hrest := ih (withinCompany_of_sublist hwithin hdeletes.sublist)
          simp only [deletePass, hdelete]
          refine ⟨(shrinks_of_deleteModel hwithin hdelete).trans hrest.shrinks,
            hrest.blocked.cons model, fun other hother => ?_⟩
          rcases List.mem_cons.mp hother with rfl | hother
          · have hcleared : Cleared result.1 companyId other := hdeletes.gone
            exact .inr (hcleared.of_sublist hrest.shrinks.sublist)
          · exact hrest.cleared other hother

theorem not_mem_blocked (models : List Nat) (h : t.deleteModel companyId model ≠ none) :
    model ∉ (deletePass companyId models t).blocked := by
  induction models generalizing t with
  | nil => exact List.not_mem_nil
  | cons other models ih =>
      cases hdelete : t.deleteModel companyId other with
      | none =>
          have hne : model ≠ other := by
            rintro rfl
            exact h hdelete
          simp only [deletePass, hdelete, List.mem_cons, not_or]
          exact ⟨hne, ih h⟩
      | some result =>
          simp only [deletePass, hdelete]
          exact ih (deleteModel_ne_none_of_sublist (deletes_of_deleteModel hdelete).sublist h)

theorem shrinks_deleteAttempts (hwithin : WithinCompany t) (models : List Nat)
    (attempts deleted : Nat) :
    (deleteAttempts companyId attempts models t deleted).rows.rows.Sublist t.rows ∧
      ∀ row ∈ t.rows, row.companyId ≠ companyId →
        row ∈ (deleteAttempts companyId attempts models t deleted).rows.rows := by
  induction attempts generalizing t models deleted with
  | zero => exact ⟨.refl _, fun _ hrow _ => hrow⟩
  | succ attempts ih =>
      have hpass := (passes_deletePass companyId models hwithin).shrinks
      rw [deleteAttempts]
      split
      · exact ⟨hpass.sublist, hpass.others⟩
      · have hrest := ih (withinCompany_of_sublist hwithin hpass.sublist)
          (deletePass companyId models t).blocked
          (deleted + (deletePass companyId models t).deleted)
        exact ⟨hrest.1.trans hpass.sublist, fun row hrow hother =>
          hrest.2 row (hpass.others row hrow hother) hother⟩

/-! ## Without a cycle -/

/-- A row of model `n` protects one that goes with the rows of model `m`. -/
def Blocks (t : ScopedRows) (companyId n m : Nat) : Prop :=
  ∃ row ∈ t.rows, row.companyId = companyId ∧ row.model = n ∧
    ∃ id ∈ row.protects, id ∈ t.collected companyId m

def ProtectedBy (models : List Nat) (t : ScopedRows) : Prop :=
  ∀ row ∈ t.rows, ∀ target ∈ t.rows, target.id ∈ row.protects → row.model ∈ models

theorem protectedBy_of_sublist (h : ProtectedBy models t) (hsub : t'.rows.Sublist t.rows) :
    ProtectedBy models t' :=
  fun row hrow target htarget => h row (hsub.subset hrow) target (hsub.subset htarget)

theorem blocks_of_sublist {n m : Nat} (hsub : t'.rows.Sublist t.rows)
    (h : Blocks t' companyId n m) : Blocks t companyId n m := by
  obtain ⟨row, hrow, hcompany, hmodel, id, hid, hcollected⟩ := h
  exact ⟨row, hsub.subset hrow, hcompany, hmodel, id, hid, collected_mono hsub hcollected⟩

/-- A deletion that fails is blocked by a model that is not cleared. -/
theorem blocks_of_deleteModel_eq_none (hwithin : WithinCompany t) (hby : ProtectedBy models t)
    (h : t.deleteModel companyId model = none) :
    ∃ n ∈ models, ¬Cleared t companyId n ∧ Blocks t companyId n model := by
  obtain ⟨row, hrow, id, hid, hcollected⟩ := deleteModel_eq_none.mp h
  obtain ⟨target, htarget, rfl, hcompany⟩ := company_of_mem_collected hwithin hcollected
  have hrowCompany : row.companyId = companyId :=
    (hwithin row hrow target htarget (.inl hid)).trans hcompany
  refine ⟨row.model, hby row hrow target htarget hid, fun hcleared => ?_, ?_⟩
  · exact hcleared row hrow hrowCompany rfl
  · exact ⟨row, hrow, hrowCompany, rfl, target.id, hid, hcollected⟩

theorem length_blocked_lt {remaining : List Nat} (hwithin : WithinCompany t)
    (hby : ProtectedBy models t)
    (hacyclic : ∀ m, ¬Relation.TransGen (Blocks t companyId) m m)
    (hremaining : ∀ m ∈ models, m ∈ remaining ∨ Cleared t companyId m) (hne : remaining ≠ []) :
    (deletePass companyId remaining t).blocked.length < remaining.length := by
  obtain ⟨m, hm, hmin⟩ := exists_minimal_of_acyclic hacyclic hne
  have hfree : t.deleteModel companyId m ≠ none := by
    intro hnone
    obtain ⟨n, hn, hnot, hblocks⟩ := blocks_of_deleteModel_eq_none hwithin hby hnone
    rcases hremaining n hn with hmem | hcleared
    · exact hmin n hmem hblocks
    · exact hnot hcleared
  have hnot := not_mem_blocked remaining hfree
  have hsub := (passes_deletePass companyId remaining hwithin).blocked
  refine lt_of_le_of_ne hsub.length_le fun hlength => ?_
  rw [hsub.eq_of_length hlength] at hnot
  exact hnot hm

theorem deleteAttempts_ok {remaining : List Nat} {attempts : Nat} (deleted : Nat)
    (hwithin : WithinCompany t) (hby : ProtectedBy models t)
    (hacyclic : ∀ m, ¬Relation.TransGen (Blocks t companyId) m m)
    (hremaining : ∀ m ∈ models, m ∈ remaining ∨ Cleared t companyId m)
    (hattempts : remaining.length < attempts) :
    ∃ count, (deleteAttempts companyId attempts remaining t deleted).result =
        .ok (deleted + count) ∧
      Shrinks companyId t (deleteAttempts companyId attempts remaining t deleted).rows count ∧
      ∀ m ∈ models,
        Cleared (deleteAttempts companyId attempts remaining t deleted).rows companyId m := by
  induction attempts generalizing t remaining deleted with
  | zero => contradiction
  | succ attempts ih =>
      have hpass := passes_deletePass companyId remaining hwithin
      have hsub := hpass.shrinks.sublist
      have hleft : ∀ m ∈ models, m ∈ (deletePass companyId remaining t).blocked ∨
          Cleared (deletePass companyId remaining t).rows companyId m := by
        intro m hm
        rcases hremaining m hm with hmem | hcleared
        · exact hpass.cleared m hmem
        · exact .inr (hcleared.of_sublist hsub)
      rw [deleteAttempts]
      by_cases hdone : (deletePass companyId remaining t).blocked = []
      · rw [if_pos hdone]
        refine ⟨_, rfl, hpass.shrinks, fun m hm => (hleft m hm).resolve_left ?_⟩
        rw [hdone]
        exact List.not_mem_nil
      · rw [if_neg hdone]
        have hne : remaining ≠ [] := by
          rintro rfl
          exact hdone rfl
        have hlt := length_blocked_lt hwithin hby hacyclic hremaining hne
        have hacyclic' : ∀ m, ¬Relation.TransGen
            (Blocks (deletePass companyId remaining t).rows companyId) m m := fun m hcycle =>
          hacyclic m (Relation.TransGen.mono (fun _ _ => blocks_of_sublist hsub) _ _ hcycle)
        obtain ⟨count, hresult, hshrinks, hcleared⟩ :=
          ih (deleted + (deletePass companyId remaining t).deleted)
            (withinCompany_of_sublist hwithin hsub) (protectedBy_of_sublist hby hsub) hacyclic'
            hleft (by omega)
        exact ⟨_, by rw [hresult, Nat.add_assoc], hpass.shrinks.trans hshrinks, hcleared⟩

/-! ## On a cycle -/

/-- A row of model `n`, one that goes with no other row, protects a row of model `m`. -/
def Protects (t : ScopedRows) (companyId n m : Nat) : Prop :=
  ∃ row ∈ t.rows, row.companyId = companyId ∧ row.model = n ∧ row.cascades = [] ∧
    ∃ target ∈ t.rows, target.companyId = companyId ∧ target.model = m ∧
      target.id ∈ row.protects

theorem blocks_of_protects {n m : Nat} (h : Protects t companyId n m) :
    Blocks t companyId n m := by
  obtain ⟨row, hrow, hcompany, hmodel, -, target, htarget, hcompany', hmodel', hid⟩ := h
  exact ⟨row, hrow, hcompany, hmodel, target.id, hid,
    subset_related (mem_ofModel.mpr ⟨target, htarget, rfl, hcompany', hmodel'⟩)⟩

theorem blocks_iff_protects (hwithin : WithinCompany t) (hnone : ∀ row ∈ t.rows, row.cascades = [])
    {n m : Nat} : Blocks t companyId n m ↔ Protects t companyId n m := by
  constructor
  · rintro ⟨row, hrow, hcompany, hmodel, id, hid, hcollected⟩
    obtain ⟨target, htarget, rfl, -⟩ := company_of_mem_collected hwithin hcollected
    obtain ⟨target', htarget', hsame, hcompany', hmodel'⟩ :=
      mem_ofModel.mp (mem_of_mem_related htarget (hnone target htarget) hcollected)
    rw [t.eq_of_clash htarget' htarget hsame] at hcompany' hmodel'
    exact ⟨row, hrow, hcompany, hmodel, hnone row hrow, target, htarget, hcompany', hmodel', hid⟩
  · exact blocks_of_protects

def ProtectsAny (t : ScopedRows) (companyId n m : Nat) : Prop :=
  ∃ row ∈ t.rows, row.companyId = companyId ∧ row.model = n ∧
    ∃ target ∈ t.rows, target.companyId = companyId ∧ target.model = m ∧
      target.id ∈ row.protects

/-- Each of the models is protected by one of them. -/
def Entangled (t : ScopedRows) (companyId : Nat) (inCycle : Nat → Prop) : Prop :=
  ∀ m, inCycle m → ∃ n, inCycle n ∧ Protects t companyId n m

variable {inCycle : Nat → Prop}

theorem Entangled.not_deleted (h : Entangled t companyId inCycle) (hm : inCycle model) :
    t.deleteModel companyId model = none := by
  obtain ⟨n, -, hprotects⟩ := h model hm
  obtain ⟨row, hrow, -, -, id, hid, hcollected⟩ := blocks_of_protects hprotects
  exact deleteModel_eq_none.mpr ⟨row, hrow, id, hid, hcollected⟩

theorem Entangled.of_deleteModel (h : Entangled t companyId inCycle)
    (hdelete : t.deleteModel companyId model = some (t', count)) :
    Entangled t' companyId inCycle := by
  have hfree : ∀ row ∈ t.rows, ∀ id ∈ row.protects, id ∉ t.collected companyId model := by
    intro row hrow id hid hcollected
    have hnone := deleteModel_eq_none.mpr ⟨row, hrow, id, hid, hcollected⟩
    rw [hdelete] at hnone
    contradiction
  have hkept := (deletes_of_deleteModel hdelete).kept
  intro m hm
  obtain ⟨n, hn, row, hrow, hcompany, hmodel, hstands, target, htarget, hrest⟩ := h m hm
  refine ⟨n, hn, row, hkept row hrow fun hcollected => ?_, hcompany, hmodel, hstands, target,
    hkept target htarget (hfree row hrow target.id hrest.2.2), hrest⟩
  -- the row goes only when its own model is deleted, and that one is in the cycle
  obtain ⟨other, hother, hid, -, hmodel'⟩ :=
    mem_ofModel.mp (mem_of_mem_related hrow hstands hcollected)
  rw [t.eq_of_clash hother hrow hid, hmodel] at hmodel'
  subst hmodel'
  rw [h.not_deleted hn] at hdelete
  contradiction

theorem Entangled.deletePass (h : Entangled t companyId inCycle) (models : List Nat) :
    Entangled (deletePass companyId models t).rows companyId inCycle ∧
      ∀ m ∈ models, inCycle m → m ∈ (deletePass companyId models t).blocked := by
  induction models generalizing t with
  | nil => exact ⟨h, fun m hm => absurd hm List.not_mem_nil⟩
  | cons model models ih =>
      cases hdelete : t.deleteModel companyId model with
      | none =>
          obtain ⟨hentangled, hblocked⟩ := ih h
          simp only [Actions.deletePass, hdelete]
          refine ⟨hentangled, fun m hm hcycle => ?_⟩
          rcases List.mem_cons.mp hm with rfl | hm
          · exact List.mem_cons_self
          · exact List.mem_cons_of_mem model (hblocked m hm hcycle)
      | some result =>
          obtain ⟨hentangled, hblocked⟩ := ih (h.of_deleteModel hdelete)
          simp only [Actions.deletePass, hdelete]
          refine ⟨hentangled, fun m hm hcycle => ?_⟩
          rcases List.mem_cons.mp hm with rfl | hm
          · rw [h.not_deleted hcycle] at hdelete
            contradiction
          · exact hblocked m hm hcycle

theorem Entangled.deleteAttempts (h : Entangled t companyId inCycle) {remaining : List Nat}
    (hm : model ∈ remaining) (hcycle : inCycle model) (attempts deleted : Nat) :
    ∃ left, (deleteAttempts companyId attempts remaining t deleted).result = .error left := by
  induction attempts generalizing t remaining deleted with
  | zero => exact ⟨remaining, rfl⟩
  | succ attempts ih =>
      obtain ⟨hentangled, hblocked⟩ := h.deletePass remaining
      have hmem := hblocked model hm hcycle
      rw [Actions.deleteAttempts, if_neg (List.ne_nil_of_mem hmem)]
      exact ih hentangled hmem _

/-- The models on cycles of the relation protect each other. -/
theorem entangled_onCycle : Entangled t companyId
    fun m => Relation.TransGen (Protects t companyId) m m := by
  intro m hm
  obtain ⟨n, hpath, hlast⟩ := Relation.TransGen.tail'_iff.mp hm
  refine ⟨n, ?_, hlast⟩
  exact Relation.TransGen.trans_left (.single hlast) hpath

/-! ## `delete_company_rows` -/

/--
For every registry of models, in any order, and all rows that refer to rows of
their own company: without a cycle of protecting rows the passes suffice and no
row of the company is left in its models; on a cycle `RuntimeError` is raised.
Rows of other companies stay in any case.
-/
theorem deleteCompanyRows_resolves (registry : List AppModel) (companyId : Nat) (t : ScopedRows)
    (hwithin : WithinCompany t) (hby : ProtectedBy (companyScopedModels registry) t) :
    ((∀ m, ¬Relation.TransGen (Blocks t companyId) m m) →
        ∃ count, (t.deleteCompanyRows registry companyId).result = .ok count ∧
          count + (t.deleteCompanyRows registry companyId).rows.rows.length = t.rows.length ∧
          ∀ row ∈ (t.deleteCompanyRows registry companyId).rows.rows,
            row.companyId = companyId → row.model ∉ companyScopedModels registry) ∧
      ((∃ m, Relation.TransGen (Protects t companyId) m m) →
        ∃ remaining, (t.deleteCompanyRows registry companyId).result = .error remaining) ∧
      ((∀ row ∈ t.rows, row.cascades = []) →
        ∀ n m, Blocks t companyId n m ↔ Protects t companyId n m) ∧
      (t.deleteCompanyRows registry companyId).rows.rows.Sublist t.rows ∧
      ∀ row ∈ t.rows, row.companyId ≠ companyId →
        row ∈ (t.deleteCompanyRows registry companyId).rows.rows := by
  refine ⟨fun hacyclic => ?_, fun hcyclic => ?_, fun hnone n m => ?_, ?_⟩
  · obtain ⟨count, hresult, hshrinks, hcleared⟩ := deleteAttempts_ok 0 hwithin hby hacyclic
      (fun m hm => .inl hm) (Nat.lt_succ_self (companyScopedModels registry).length)
    refine ⟨count, ?_, hshrinks.count, fun row hrow hcompany hmodel => ?_⟩
    · rw [deleteCompanyRows, hresult, Nat.zero_add]
    · exact hcleared row.model hmodel row hrow hcompany rfl
  · obtain ⟨m, hm⟩ := hcyclic
    obtain ⟨n, ⟨row, hrow, -, rfl, -, target, htarget, -, -, hid⟩, -⟩ :=
      Relation.TransGen.head'_iff.mp hm
    exact entangled_onCycle.deleteAttempts (hby row hrow target htarget hid) hm _ _
  · exact blocks_iff_protects hwithin hnone
  · exact shrinks_deleteAttempts hwithin _ _ _

end CompanyRows

def sampleModel (label : Nat) : AppModel where
  label := label
  moduleName := ['a', 'p', 'p', 's', '.', 'x']
  proxy := false
  managed := true
  companyDeletion := false
  fields := [⟨['c', 'o', 'm', 'p', 'a', 'n', 'y', '_', 'i', 'd'], true⟩]

def protectedRows : ScopedRows where
  rows := [⟨1, 1, 7, [], []⟩, ⟨2, 2, 7, [1], []⟩, ⟨3, 1, 8, [], []⟩]
  unique := by decide

theorem blocks_protectedRows {n m : Nat} (h : Blocks protectedRows 7 n m) : n = 2 ∧ m = 1 := by
  have hprotects : ∀ row ∈ protectedRows.rows, ∀ id ∈ row.protects, row.model = 2 ∧ id = 1 := by
    decide
  have htarget : ∀ row ∈ protectedRows.rows, row.id = 1 → row.model = 1 ∧ row.cascades = [] := by
    decide
  obtain ⟨row, hrow, -, rfl, id, hid, hcollected⟩ := h
  obtain ⟨hmodel, rfl⟩ := hprotects row hrow id hid
  refine ⟨hmodel, ?_⟩
  have hfirst : ⟨1, 1, 7, [], []⟩ ∈ protectedRows.rows := by decide
  have hmem := mem_of_mem_related hfirst rfl hcollected
  obtain ⟨target, htarget', hone, -, rfl⟩ := mem_ofModel.mp hmem
  exact (htarget target htarget' hone).1

theorem deleteCompanyRows_resolves_protectedRows :
    ∃ count, (protectedRows.deleteCompanyRows [sampleModel 1, sampleModel 2] 7).result =
      .ok count := by
  have hacyclic : ∀ m, ¬Relation.TransGen (Blocks protectedRows 7) m m := by
    intro m hm
    obtain ⟨n, hlast⟩ : ∃ n, Blocks protectedRows 7 n m := by
      cases hm with
      | single h => exact ⟨m, h⟩
      | tail _ h => exact ⟨_, h⟩
    obtain ⟨n', hfirst, -⟩ := Relation.TransGen.head'_iff.mp hm
    have hone := (blocks_protectedRows hlast).2
    have htwo := (blocks_protectedRows hfirst).1
    omega
  obtain ⟨count, hresult, -⟩ := (deleteCompanyRows_resolves [sampleModel 1, sampleModel 2] 7
    protectedRows (by unfold WithinCompany; decide) (by unfold ProtectedBy; decide)).1 hacyclic
  exact ⟨count, hresult⟩

def heldRows : ScopedRows where
  rows := [⟨1, 1, 7, [2], []⟩, ⟨2, 2, 7, [], [1]⟩]
  unique := by decide

def loosenedRows : ScopedRows where
  rows := [⟨1, 1, 7, [2], []⟩, ⟨2, 2, 7, [], []⟩, ⟨3, 2, 7, [4], [5]⟩, ⟨4, 1, 7, [], []⟩,
    ⟨5, 3, 7, [], []⟩]
  unique := by decide

theorem heldRows_acyclic (m : Nat) : ¬Relation.TransGen (ProtectsAny heldRows 7) m m := by
  have hone : ∀ {n k : Nat}, ProtectsAny heldRows 7 n k → n = 1 ∧ k = 2 := by
    rintro n k ⟨row, hrow, -, rfl, target, htarget, -, rfl, hid⟩
    revert row target
    decide
  intro hcycle
  obtain ⟨_, hfirst, -⟩ := Relation.TransGen.head'_iff.mp hcycle
  obtain ⟨_, -, hlast⟩ := Relation.TransGen.tail'_iff.mp hcycle
  have hstart := (hone hfirst).1
  have hend := (hone hlast).2
  omega

/-- With `CASCADE` keys an order can be acyclic and fail, and cyclic and succeed. -/
theorem not_deleteCompanyRows_resolves :
    (¬∀ (registry : List AppModel) (companyId : Nat) (t : ScopedRows), WithinCompany t →
      ProtectedBy (companyScopedModels registry) t →
      (∀ m, ¬Relation.TransGen (ProtectsAny t companyId) m m) →
      ∃ count, (t.deleteCompanyRows registry companyId).result = .ok count) ∧
    ¬∀ (registry : List AppModel) (companyId : Nat) (t : ScopedRows), WithinCompany t →
      ProtectedBy (companyScopedModels registry) t →
      (∃ m, Relation.TransGen (ProtectsAny t companyId) m m) →
      ∃ remaining, (t.deleteCompanyRows registry companyId).result = .error remaining := by
  constructor
  · intro h
    obtain ⟨count, hresult⟩ := h [sampleModel 1, sampleModel 2] 7 heldRows
      (by unfold WithinCompany; decide) (by unfold ProtectedBy; decide) heldRows_acyclic
    cases hresult
  · intro h
    have hforth : ProtectsAny loosenedRows 7 1 2 := by unfold ProtectsAny; decide
    have hback : ProtectsAny loosenedRows 7 2 1 := by unfold ProtectsAny; decide
    obtain ⟨remaining, hresult⟩ := h [sampleModel 1, sampleModel 2, sampleModel 3] 7 loosenedRows
      (by unfold WithinCompany; decide) (by unfold ProtectedBy; decide)
      ⟨1, .tail (.single hforth) hback⟩
    cases hresult

end StorageService.Results
