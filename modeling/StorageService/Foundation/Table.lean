import Mathlib.Data.List.Pairwise

/-!
# Tables with a uniqueness constraint

A table is a list of rows no two of which clash; `clash` says which pairs the
constraint forbids.  The constraint is part of the type, so a row is inserted
or a table rewritten only together with the proof that it still holds, and a
deletion keeps it for free.
-/

namespace StorageService.Foundation

theorem eq_of_key_append {ρ κ : Type} {key : ρ → κ} {rows : List ρ} {r : ρ}
    (hrows : ∀ a ∈ rows, ∀ b ∈ rows, key a = key b → a = b)
    (hfresh : ∀ a ∈ rows, key a ≠ key r) :
    ∀ a ∈ rows ++ [r], ∀ b ∈ rows ++ [r], key a = key b → a = b := by
  intro a ha b hb hkey
  rcases List.mem_append.mp ha with ha | ha <;> rcases List.mem_append.mp hb with hb | hb
  · exact hrows a ha b hb hkey
  · rw [List.mem_singleton.mp hb] at hkey
    exact absurd hkey (hfresh a ha)
  · rw [List.mem_singleton.mp ha] at hkey
    exact absurd hkey.symm (hfresh b hb)
  · rw [List.mem_singleton.mp ha, List.mem_singleton.mp hb]

structure Table (ρ : Type) (clash : ρ → ρ → Prop) where
  rows : List ρ
  unique : rows.Pairwise fun a b => ¬clash a b

namespace Table

variable {ρ : Type} {clash : ρ → ρ → Prop}

def empty : Table ρ clash := ⟨[], .nil⟩

def Free (t : Table ρ clash) (r : ρ) : Prop := ∀ a ∈ t.rows, ¬clash a r

instance [DecidableRel clash] (t : Table ρ clash) (r : ρ) : Decidable (t.Free r) :=
  inferInstanceAs (Decidable (∀ a ∈ t.rows, ¬clash a r))

def insert (t : Table ρ clash) (r : ρ) (free : t.Free r) : Table ρ clash :=
  ⟨t.rows ++ [r], List.pairwise_append.mpr ⟨t.unique, by simp, by
    intro a ha b hb
    rw [List.mem_singleton.mp hb]
    exact free a ha⟩⟩

def Rewritable (t : Table ρ clash) (f : ρ → ρ) : Prop :=
  (t.rows.map f).Pairwise fun a b => ¬clash a b

instance [DecidableRel clash] (t : Table ρ clash) (f : ρ → ρ) :
    Decidable (t.Rewritable f) :=
  inferInstanceAs (Decidable (List.Pairwise _ _))

def rewrite (t : Table ρ clash) (f : ρ → ρ) (ok : t.Rewritable f) : Table ρ clash :=
  ⟨t.rows.map f, ok⟩

def delete (t : Table ρ clash) (gone : ρ → Bool) : Table ρ clash :=
  ⟨t.rows.filter (fun r => !gone r), t.unique.filter _⟩

@[simp] theorem rows_empty : (empty : Table ρ clash).rows = [] := rfl

@[simp] theorem rows_insert (t : Table ρ clash) (r : ρ) (free : t.Free r) :
    (t.insert r free).rows = t.rows ++ [r] := rfl

@[simp] theorem rows_rewrite (t : Table ρ clash) (f : ρ → ρ) (ok : t.Rewritable f) :
    (t.rewrite f ok).rows = t.rows.map f := rfl

@[simp] theorem rows_delete (t : Table ρ clash) (gone : ρ → Bool) :
    (t.delete gone).rows = t.rows.filter (fun r => !gone r) := rfl

theorem rewritable_of_clash_imp (t : Table ρ clash) (f : ρ → ρ)
    (hf : ∀ a b, clash (f a) (f b) → clash a b) : t.Rewritable f := by
  rw [Rewritable, List.pairwise_map]
  exact t.unique.imp fun hab hclash => hab (hf _ _ hclash)

section Lookup

variable [Std.Symm clash]

theorem eq_of_clash (t : Table ρ clash) {a b : ρ} (ha : a ∈ t.rows) (hb : b ∈ t.rows)
    (hclash : clash a b) : a = b := by
  by_contra hne
  have : Std.Symm fun a b => ¬clash a b :=
    ⟨fun a b hab hba => hab (Std.Symm.symm b a hba)⟩
  exact t.unique.forall ha hb hne hclash

/-- A query that only clashing rows can answer finds the row it is about. -/
theorem find?_eq_some (t : Table ρ clash) {p : ρ → Bool} {a : ρ}
    (hp : ∀ b, p b = true → clash a b) (ha : a ∈ t.rows) (hpa : p a = true) :
    t.rows.find? p = some a := by
  cases hfind : t.rows.find? p with
  | none => exact absurd hpa (List.find?_eq_none.mp hfind a ha)
  | some b =>
      have hb := List.mem_of_find?_eq_some hfind
      have hclash := hp b (List.find?_some hfind)
      rw [t.eq_of_clash ha hb hclash]

theorem find?_eq_some_iff (t : Table ρ clash) {p : ρ → Bool} {a : ρ}
    (hp : ∀ a b, p a = true → p b = true → clash a b) :
    t.rows.find? p = some a ↔ a ∈ t.rows ∧ p a = true := by
  constructor
  · intro h
    exact ⟨List.mem_of_find?_eq_some h, List.find?_some h⟩
  · rintro ⟨ha, hpa⟩
    exact t.find?_eq_some (fun b hpb => hp a b hpa hpb) ha hpa

end Lookup

end Table

end StorageService.Foundation
