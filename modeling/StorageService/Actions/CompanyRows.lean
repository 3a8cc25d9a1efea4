import Mathlib.Data.Fintype.Card
import Mathlib.Logic.Relation
import StorageService.Foundation.Table
import StorageService.Foundation.Text

/-!
# Deleting the rows of a company

`delete_company_rows` of `company_deletion.py` over rows that refer to each other:
what is deleted takes with it the rows that refer to it through `CASCADE` foreign
keys, and is not deleted at all while some row refers to it through a `PROTECT`
one.  The models are tried pass after pass until none is blocked.
-/

namespace StorageService.Actions

open StorageService.Foundation

/-! ## The models -/

structure ModelField where
  name : Text
  concrete : Bool
  deriving DecidableEq, Repr

structure AppModel where
  label : Nat
  moduleName : Text
  proxy : Bool
  managed : Bool
  companyDeletion : Bool
  fields : List ModelField
  deriving DecidableEq, Repr

def companyScopedModels (registry : List AppModel) : List Nat :=
  (registry.filter fun model =>
    ['a', 'p', 'p', 's', '.'].isPrefixOf model.moduleName && !model.companyDeletion &&
      !model.proxy && model.managed &&
      model.fields.any fun f =>
        f.concrete && f.name == ['c', 'o', 'm', 'p', 'a', 'n', 'y', '_', 'i', 'd']).map
    AppModel.label

/-! ## The rows -/

/-- A row with the rows it refers to. -/
structure ScopedRow where
  id : Nat
  model : Nat
  companyId : Nat
  protects : List Nat
  cascades : List Nat
  deriving DecidableEq, Repr

def ScopedRow.Clash (a b : ScopedRow) : Prop := a.id = b.id

instance : DecidableRel ScopedRow.Clash := fun _ _ => inferInstanceAs (Decidable (_ = _))

instance : Std.Symm ScopedRow.Clash := ⟨fun _ _ h => Eq.symm h⟩

def refersTo (references ids : List Nat) : Bool := references.any ids.contains

theorem refersTo_iff {references ids : List Nat} :
    refersTo references ids = true ↔ ∃ id ∈ references, id ∈ ids := by
  simp [refersTo]

abbrev ScopedRows := Table ScopedRow ScopedRow.Clash

namespace ScopedRows

def ofModel (t : ScopedRows) (companyId model : Nat) : List Nat :=
  (t.rows.filter fun row => decide (row.companyId = companyId ∧ row.model = model)).map
    ScopedRow.id

def related (t : ScopedRows) : Nat → List Nat → List Nat
  | 0, ids => ids
  | depth + 1, ids =>
      related t depth
        (ids ++ (t.rows.filter fun row => refersTo row.cascades ids).map ScopedRow.id)

/-- What Django's collector gathers before it deletes. -/
def collected (t : ScopedRows) (companyId model : Nat) : List Nat :=
  t.related t.rows.length (t.ofModel companyId model)

/-- `delete()`: nothing for a `ProtectedError`, else the rows that are left and the count. -/
def deleteModel (t : ScopedRows) (companyId model : Nat) : Option (ScopedRows × Nat) :=
  let ids := t.collected companyId model
  if t.rows.any fun row => refersTo row.protects ids then none
  else some (t.delete fun row => ids.contains row.id,
    (t.rows.filter fun row => ids.contains row.id).length)

/-! ### What goes with the rows of a model -/

def WithinCompany (t : ScopedRows) : Prop :=
  ∀ row ∈ t.rows, ∀ target ∈ t.rows, target.id ∈ row.protects ∨ target.id ∈ row.cascades →
    row.companyId = target.companyId

variable {t t' : ScopedRows} {companyId model : Nat} {ids ids' : List Nat} {depth depth' : Nat}

theorem mem_ofModel {id : Nat} : id ∈ t.ofModel companyId model ↔
    ∃ row ∈ t.rows, row.id = id ∧ row.companyId = companyId ∧ row.model = model := by
  simp only [ofModel, List.mem_map, List.mem_filter, decide_eq_true_eq]
  constructor
  · rintro ⟨row, ⟨hrow, hof⟩, hid⟩
    exact ⟨row, hrow, hid, hof⟩
  · rintro ⟨row, hrow, hid, hof⟩
    exact ⟨row, ⟨hrow, hof⟩, hid⟩

theorem subset_related : ids ⊆ t.related depth ids := by
  induction depth generalizing ids with
  | zero => exact List.Subset.refl ids
  | succ depth ih => exact List.Subset.trans (List.subset_append_left ..) ih

theorem related_mono (hrows : t'.rows ⊆ t.rows) (hids : ids' ⊆ ids) (hle : depth' ≤ depth) :
    t'.related depth' ids' ⊆ t.related depth ids := by
  induction depth' generalizing depth ids ids' with
  | zero => exact List.Subset.trans hids subset_related
  | succ depth' ih =>
      cases depth with
      | zero => contradiction
      | succ depth =>
          rw [related, related]
          refine ih (fun id hid => ?_) (by omega)
          rw [List.mem_append, List.mem_map] at hid ⊢
          rcases hid with hid | ⟨row, hrow, rfl⟩
          · exact .inl (hids hid)
          · rw [List.mem_filter, refersTo_iff] at hrow
            obtain ⟨hmem, id, hid, hids'⟩ := hrow
            refine .inr ⟨row, ?_, rfl⟩
            rw [List.mem_filter, refersTo_iff]
            exact ⟨hrows hmem, id, hid, hids hids'⟩

theorem collected_mono (hrows : t'.rows.Sublist t.rows) :
    t'.collected companyId model ⊆ t.collected companyId model := by
  refine related_mono hrows.subset ?_ hrows.length_le
  intro id hid
  obtain ⟨row, hrow, hof⟩ := mem_ofModel.mp hid
  exact mem_ofModel.mpr ⟨row, hrows.subset hrow, hof⟩

theorem company_of_mem_related (hwithin : WithinCompany t)
    (hids : ∀ id ∈ ids, ∃ row ∈ t.rows, row.id = id ∧ row.companyId = companyId) :
    ∀ id ∈ t.related depth ids, ∃ row ∈ t.rows, row.id = id ∧ row.companyId = companyId := by
  induction depth generalizing ids with
  | zero => exact hids
  | succ depth ih =>
      refine ih fun id hid => ?_
      rw [List.mem_append, List.mem_map] at hid
      rcases hid with hid | ⟨row, hrow, rfl⟩
      · exact hids id hid
      · rw [List.mem_filter, refersTo_iff] at hrow
        obtain ⟨hmem, id, hid, hids'⟩ := hrow
        obtain ⟨target, htarget, rfl, hcompany⟩ := hids id hids'
        exact ⟨row, hmem, rfl, (hwithin row hmem target htarget (.inr hid)).trans hcompany⟩

theorem company_of_mem_collected (hwithin : WithinCompany t) {id : Nat}
    (hid : id ∈ t.collected companyId model) :
    ∃ row ∈ t.rows, row.id = id ∧ row.companyId = companyId := by
  refine company_of_mem_related hwithin (fun id hid => ?_) id hid
  obtain ⟨row, hrow, hself, hcompany, -⟩ := mem_ofModel.mp hid
  exact ⟨row, hrow, hself, hcompany⟩

theorem mem_of_mem_related {row : ScopedRow} (hrow : row ∈ t.rows) (hstands : row.cascades = [])
    (hmem : row.id ∈ t.related depth ids) : row.id ∈ ids := by
  induction depth generalizing ids with
  | zero => exact hmem
  | succ depth ih =>
      have hnext := ih hmem
      rw [List.mem_append, List.mem_map] at hnext
      rcases hnext with hids | ⟨other, hother, hid⟩
      · exact hids
      · rw [List.mem_filter, refersTo_iff] at hother
        obtain ⟨hother, id, hcascade, -⟩ := hother
        rw [t.eq_of_clash hother hrow hid, hstands] at hcascade
        contradiction

/-! ### One deletion -/

structure Deletes (t : ScopedRows) (companyId model : Nat) (t' : ScopedRows) (count : Nat) :
    Prop where
  sublist : t'.rows.Sublist t.rows
  kept : ∀ row ∈ t.rows, row.id ∉ t.collected companyId model → row ∈ t'.rows
  gone : ∀ row ∈ t'.rows, row.companyId = companyId → row.model ≠ model
  count : count + t'.rows.length = t.rows.length

theorem deleteModel_eq_none : t.deleteModel companyId model = none ↔
    ∃ row ∈ t.rows, ∃ id ∈ row.protects, id ∈ t.collected companyId model := by
  rw [deleteModel]
  simp only [ite_eq_left_iff, reduceCtorEq, imp_false, not_not, List.any_eq_true, refersTo_iff]

theorem deletes_of_deleteModel {count : Nat}
    (h : t.deleteModel companyId model = some (t', count)) :
    Deletes t companyId model t' count := by
  rw [deleteModel] at h
  simp only [Option.ite_none_left_eq_some, Option.some.injEq, Prod.mk.injEq] at h
  obtain ⟨-, rfl, rfl⟩ := h
  refine ⟨List.filter_sublist, fun row hrow hnot => ?_, fun row hrow hcompany hmodel => ?_, ?_⟩
  · rw [Table.rows_delete, List.mem_filter]
    simpa using ⟨hrow, hnot⟩
  · rw [Table.rows_delete, List.mem_filter] at hrow
    have hcollected : row.id ∈ t.collected companyId model :=
      subset_related (mem_ofModel.mpr ⟨row, hrow.1, rfl, hcompany, hmodel⟩)
    simp [hcollected] at hrow
  · have hsplit := List.length_eq_length_filter_add (l := t.rows) fun row =>
      (t.collected companyId model).contains row.id
    rw [Table.rows_delete]
    exact hsplit.symm

end ScopedRows

/-! ## The passes -/

structure DeletionPass where
  rows : ScopedRows
  blocked : List Nat
  deleted : Nat

def deletePass (companyId : Nat) : List Nat → ScopedRows → DeletionPass
  | [], t => ⟨t, [], 0⟩
  | model :: models, t =>
      match t.deleteModel companyId model with
      | some (t', count) =>
          let rest := deletePass companyId models t'
          { rest with deleted := count + rest.deleted }
      | none =>
          let rest := deletePass companyId models t
          { rest with blocked := model :: rest.blocked }

/-- A `RuntimeError` with the models that remain, or the number of deleted rows. -/
structure DeletionEnd where
  rows : ScopedRows
  result : Except (List Nat) Nat

def deleteAttempts (companyId : Nat) : Nat → List Nat → ScopedRows → Nat → DeletionEnd
  | 0, remaining, t, _ => ⟨t, .error remaining⟩
  | attempts + 1, remaining, t, deleted =>
      let pass := deletePass companyId remaining t
      if pass.blocked = [] then ⟨pass.rows, .ok (deleted + pass.deleted)⟩
      else deleteAttempts companyId attempts pass.blocked pass.rows (deleted + pass.deleted)

namespace ScopedRows

def deleteCompanyRows (registry : List AppModel) (companyId : Nat) (t : ScopedRows) :
    DeletionEnd :=
  let remaining := companyScopedModels registry
  deleteAttempts companyId (remaining.length + 1) remaining t 0

end ScopedRows

end StorageService.Actions
