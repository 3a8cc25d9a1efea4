import Mathlib.Logic.Basic

/-!
# State machines and their runs

A machine says which state an action leads to, where the action is possible at
all.  A run is a list of actions.  What one step preserves, a run preserves;
`Meets` says that every step of a run obeys a condition on the state it starts
from and on its action.
-/

namespace StorageService.Foundation

structure Machine (σ α : Type) where
  step : σ → α → Option σ

namespace Machine

variable {σ α : Type} (m : Machine σ α)

def run : σ → List α → Option σ
  | s, [] => some s
  | s, a :: as => (m.step s a).bind fun s₁ => run s₁ as

/-- Every step of the run starts in a state and with an action that obey `P`. -/
def Meets (P : σ → α → Prop) : σ → List α → Prop
  | _, [] => True
  | s, a :: as => P s a ∧ ∀ s₁, m.step s a = some s₁ → Meets P s₁ as

variable {m} {P Q : σ → α → Prop} {s s' : σ} {a : α} {as : List α}

@[simp] theorem run_nil : m.run s [] = some s := rfl

theorem run_cons : m.run s (a :: as) = some s' ↔
    ∃ s₁, m.step s a = some s₁ ∧ m.run s₁ as = some s' := by
  rw [run, Option.bind_eq_some_iff]

theorem run_append {bs : List α} : m.run s (as ++ bs) = some s' ↔
    ∃ s₁, m.run s as = some s₁ ∧ m.run s₁ bs = some s' := by
  induction as generalizing s with
  | nil => simp
  | cons a as ih =>
      simp only [List.cons_append, run_cons, ih]
      constructor
      · rintro ⟨s₁, ha, s₂, has, hbs⟩
        exact ⟨s₂, ⟨s₁, ha, has⟩, hbs⟩
      · rintro ⟨s₂, ⟨s₁, ha, has⟩, hbs⟩
        exact ⟨s₁, ha, s₂, has, hbs⟩

theorem meets_cons {s₁ : σ} (hP : P s a) (hstep : m.step s a = some s₁)
    (has : m.Meets P s₁ as) : m.Meets P s (a :: as) := by
  refine ⟨hP, fun s₂ h => ?_⟩
  rw [hstep] at h
  cases h
  exact has

theorem meets_of_forall (h : ∀ b ∈ as, ∀ s₁, P s₁ b) : m.Meets P s as := by
  induction as generalizing s with
  | nil => trivial
  | cons a as ih =>
      exact ⟨h a List.mem_cons_self s, fun s₁ _ => ih fun b hb => h b (List.mem_cons_of_mem a hb)⟩

theorem meets_append {s₁ : σ} {bs : List α} (hrun : m.run s as = some s₁)
    (has : m.Meets P s as) (hbs : m.Meets P s₁ bs) : m.Meets P s (as ++ bs) := by
  induction as generalizing s with
  | nil =>
      cases hrun
      exact hbs
  | cons a as ih =>
      obtain ⟨s₂, ha, hrun⟩ := run_cons.mp hrun
      exact meets_cons has.1 ha (ih hrun (has.2 s₂ ha))

theorem meets_and (hP : m.Meets P s as) (hQ : m.Meets Q s as) :
    m.Meets (fun s a => P s a ∧ Q s a) s as := by
  induction as generalizing s with
  | nil => trivial
  | cons a as ih => exact ⟨⟨hP.1, hQ.1⟩, fun s₁ h => ih (hP.2 s₁ h) (hQ.2 s₁ h)⟩

theorem meets_true : m.Meets (fun _ _ => True) s as := by
  induction as generalizing s with
  | nil => trivial
  | cons a as ih => exact ⟨trivial, fun s₁ _ => ih⟩

theorem invariant_of_meets {I : σ → Prop}
    (hstep : ∀ {s a s'}, I s → P s a → m.step s a = some s' → I s')
    (hP : m.Meets P s as) (hrun : m.run s as = some s') (hs : I s) : I s' := by
  induction as generalizing s with
  | nil =>
      cases hrun
      exact hs
  | cons a as ih =>
      obtain ⟨s₁, ha, has⟩ := run_cons.mp hrun
      exact ih (hP.2 s₁ ha) has (hstep hs hP.1 ha)

theorem invariant {I : σ → Prop} (hstep : ∀ {s a s'}, I s → m.step s a = some s' → I s')
    (hrun : m.run s as = some s') (hs : I s) : I s' :=
  invariant_of_meets (fun hs _ h => hstep hs h) meets_true hrun hs

/-- What an invariant says about the steps to come holds of every step of a run. -/
theorem meets_of_invariant {I : σ → Prop}
    (hstep : ∀ {s a s'}, I s → P s a → m.step s a = some s' → I s')
    (hQ : ∀ {s a}, I s → P s a → Q s a) (hP : m.Meets P s as) (hs : I s) :
    m.Meets Q s as := by
  induction as generalizing s with
  | nil => trivial
  | cons a as ih =>
      exact ⟨hQ hs hP.1, fun s₁ ha => ih (hP.2 s₁ ha) (hstep hs hP.1 ha)⟩

theorem relates {I : σ → Prop} {R : σ → σ → Prop} (hrefl : ∀ s, R s s)
    (htrans : ∀ {s s₁ s₂}, R s s₁ → R s₁ s₂ → R s s₂)
    (hI : ∀ {s a s'}, I s → m.step s a = some s' → I s')
    (hR : ∀ {s a s'}, I s → m.step s a = some s' → R s s')
    (hrun : m.run s as = some s') (hs : I s) : R s s' := by
  induction as generalizing s with
  | nil =>
      cases hrun
      exact hrefl _
  | cons a as ih =>
      obtain ⟨s₁, ha, has⟩ := run_cons.mp hrun
      exact htrans (hR hs ha) (ih has (hI hs ha))

end Machine

end StorageService.Foundation
