import Mathlib.Data.List.Nodup
import Mathlib.Data.List.Perm.Basic

/-!
# Removing what a query finds

A query finds keys in a state, and keys can be removed.  However the keys are
removed, part by part and over several states, the parts add up; and once
nothing is found any more, the state is the one that removing everything at
once leaves.
-/

namespace StorageService.Foundation

structure Removal (σ κ : Type) [BEq κ] where
  found : σ → List κ
  remove : σ → List κ → σ
  nodup : ∀ s, (found s).Nodup
  found_remove : ∀ s keys, keys ⊆ found s →
    found (remove s keys) = (found s).filter fun key => !keys.contains key
  remove_nil : ∀ s, remove s [] = s
  remove_remove : ∀ s keys others, remove (remove s keys) others = remove s (keys ++ others)
  remove_congr : ∀ s keys others, (∀ key, key ∈ keys ↔ key ∈ others) →
    remove s keys = remove s others

namespace Removal

variable {σ κ : Type} [BEq κ] (m : Removal σ κ)

structure Removes (s s' : σ) (keys : List κ) : Prop where
  nodup : keys.Nodup
  found : keys ⊆ m.found s
  state : s' = m.remove s keys

variable {m} {s s₁ s₂ s' : σ} {keys others : List κ}

theorem removes_refl (s : σ) : m.Removes s s [] where
  nodup := .nil
  found := List.nil_subset _
  state := (m.remove_nil s).symm

namespace Removes

theorem found_eq (h : m.Removes s s' keys) :
    m.found s' = (m.found s).filter fun key => !keys.contains key := by
  rw [h.state]
  exact m.found_remove s keys h.found

variable [LawfulBEq κ]

theorem mem_found (h : m.Removes s s' keys) {key : κ} :
    key ∈ m.found s' ↔ key ∈ m.found s ∧ key ∉ keys := by
  rw [h.found_eq]
  simp

theorem trans (h : m.Removes s s₁ keys) (h' : m.Removes s₁ s' others) :
    m.Removes s s' (keys ++ others) where
  nodup := by
    apply List.Nodup.append h.nodup h'.nodup
    intro key hkey hother
    exact (h.mem_found.mp (h'.found hother)).2 hkey
  found := by
    apply List.append_subset.mpr
    refine ⟨h.found, fun key hother => ?_⟩
    exact (h.mem_found.mp (h'.found hother)).1
  state := by
    rw [h'.state, h.state]
    exact m.remove_remove s keys others

theorem perm_found (h : m.Removes s s' keys) : (keys ++ m.found s').Perm (m.found s) := by
  apply (List.perm_ext_iff_of_nodup ?_ (m.nodup s)).mpr
  · intro key
    rw [List.mem_append, h.mem_found]
    constructor
    · rintro (hkey | ⟨hkey, -⟩)
      · exact h.found hkey
      · exact hkey
    · intro hkey
      by_cases hgone : key ∈ keys
      · exact .inl hgone
      · exact .inr ⟨hkey, hgone⟩
  · apply List.Nodup.append h.nodup (m.nodup s')
    intro key hkey hfound
    exact (h.mem_found.mp hfound).2 hkey

theorem countP_found (h : m.Removes s s' keys) (p : κ → Bool) :
    keys.countP p + (m.found s').countP p = (m.found s).countP p := by
  rw [← List.countP_append]
  exact h.perm_found.countP_eq p

theorem state_eq (h : m.Removes s s' keys) (hdone : m.found s' = []) :
    s' = m.remove s (m.found s) := by
  have hperm := h.perm_found
  rw [hdone, List.append_nil] at hperm
  rw [h.state]
  exact m.remove_congr s keys (m.found s) fun key => hperm.mem_iff

theorem state_unique (h₁ : m.Removes s s₁ keys) (h₂ : m.Removes s s₂ others)
    (hdone₁ : m.found s₁ = []) (hdone₂ : m.found s₂ = []) : s₁ = s₂ :=
  (h₁.state_eq hdone₁).trans (h₂.state_eq hdone₂).symm

end Removes

end Removal

end StorageService.Foundation
