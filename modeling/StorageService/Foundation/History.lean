/-!
# Histories of labelled steps

Each step of a system adds some labels to its history.  Where a step of one system is
matched by steps of another with the same labels, every history of the one is a
history of the other.
-/

namespace StorageService.Foundation

inductive History {σ ℓ : Type} (step : σ → List ℓ → σ → Prop) (s : σ) : List ℓ → σ → Prop where
  | nil : History step s [] s
  | snoc {labels new : List ℓ} {s₁ s₂ : σ} (before : History step s labels s₁)
      (last : step s₁ new s₂) : History step s (labels ++ new) s₂

namespace History

variable {σ τ ℓ : Type} {step : σ → List ℓ → σ → Prop} {step' : τ → List ℓ → τ → Prop}
variable {s s₁ s' : σ} {labels labels' : List ℓ}

theorem append (h : History step s labels s₁) (h' : History step s₁ labels' s') :
    History step s (labels ++ labels') s' := by
  induction h' with
  | nil => rwa [List.append_nil]
  | snoc _ last ih =>
      rw [← List.append_assoc]
      exact ih.snoc last

theorem single {new : List ℓ} (h : step s new s') : History step s new s' := by
  have hrun : History step s ([] ++ new) s' := nil.snoc h
  rwa [List.nil_append] at hrun

theorem invariant_with {P : List ℓ → σ → Prop} (hstart : P [] s)
    (hstep : ∀ {labels s new s'}, P labels s → step s new s' → P (labels ++ new) s')
    (h : History step s labels s') : P labels s' := by
  induction h with
  | nil => exact hstart
  | snoc _ last ih => exact hstep ih last

/-- A forward simulation carries histories over. -/
theorem simulates {R : σ → τ → Prop} {t : τ}
    (hstep : ∀ {s new s' t}, R s t → step s new s' → ∃ t', History step' t new t' ∧ R s' t')
    (h : History step s labels s') (ht : R s t) : ∃ t', History step' t labels t' ∧ R s' t' := by
  induction h with
  | nil => exact ⟨t, nil, ht⟩
  | snoc _ last ih =>
      obtain ⟨t₁, hbefore, ht₁⟩ := ih
      obtain ⟨t', hlast, ht'⟩ := hstep ht₁ last
      exact ⟨t', hbefore.append hlast, ht'⟩

end History

end StorageService.Foundation
