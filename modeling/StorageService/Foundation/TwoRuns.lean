import StorageService.Foundation.Transaction

/-!
# Two runs side by side

Two actions that start in related sessions coincide when they end with the same
result, in sessions that are related again.  A relation that hides part of a
session makes this a statement about what a result may depend on.
-/

namespace StorageService.Foundation.Action

variable {ε δ β α γ : Type} {R : Session δ β → Session δ β → Prop}
variable {s t : Session δ β}

structure Coincide (R : Session δ β → Session δ β → Prop) (x y : Action ε δ β α)
    (s t : Session δ β) : Prop where
  result : (y t).1 = (x s).1
  related : R (x s).2 (y t).2

theorem coincide_pure (h : R s t) {a b : α} (hab : b = a) :
    Coincide R (pure a : Action ε δ β α) (pure b) s t := by
  subst hab
  exact ⟨rfl, h⟩

theorem coincide_raise (h : R s t) (e : ε) :
    Coincide R (raise e : Action ε δ β α) (raise e) s t := ⟨rfl, h⟩

theorem coincide_bind {x y : Action ε δ β α} {f g : α → Action ε δ β γ} (hx : Coincide R x y s t)
    (hf : ∀ a s₁ t₁, x.Runs s a s₁ → y.Runs t a t₁ → R s₁ t₁ → Coincide R (f a) (g a) s₁ t₁) :
    Coincide R (x >>= f) (y >>= g) s t := by
  obtain ⟨hresult, hrelated⟩ := hx
  rcases hxs : x s with ⟨e | a, s₁⟩
  · rcases hyt : y t with ⟨e' | a', t₁⟩
    · rw [hxs, hyt] at hresult hrelated
      have hx : (x >>= f) s = (.error e, s₁) := by simp only [bind, hxs]
      have hy : (y >>= g) t = (.error e', t₁) := by simp only [bind, hyt]
      rw [Except.error.injEq] at hresult
      exact ⟨by rw [hx, hy, hresult], by rwa [hx, hy]⟩
    · rw [hxs, hyt] at hresult
      contradiction
  · rcases hyt : y t with ⟨e' | a', t₁⟩
    · rw [hxs, hyt] at hresult
      contradiction
    · rw [hxs, hyt] at hresult hrelated
      rw [Except.ok.injEq] at hresult
      subst hresult
      have hx : (x >>= f) s = f a' s₁ := by simp only [bind, hxs]
      have hy : (y >>= g) t = g a' t₁ := by simp only [bind, hyt]
      have hrest := hf a' s₁ t₁ hxs hyt hrelated
      exact ⟨by rw [hx, hy, hrest.result], by rw [hx, hy]; exact hrest.related⟩

theorem coincide_database {f g : δ → Action ε δ β γ} (h : Coincide R (f s.db) (g t.db) s t) :
    Coincide R (database >>= f) (database >>= g) s t := ⟨h.result, h.related⟩

theorem coincide_outside {f g : β → Action ε δ β γ} (h : Coincide R (f s.out) (g t.out) s t) :
    Coincide R (outside >>= f) (outside >>= g) s t := ⟨h.result, h.related⟩

theorem coincide_ofOption (h : R s t) (e : ε) (o : Option α) :
    Coincide R (ofOption e o : Action ε δ β α) (ofOption e o) s t := by
  cases o with
  | some a => exact coincide_pure h rfl
  | none => exact coincide_raise h e

theorem coincide_bind_ofOption (h : R s t) {e : ε} {o : Option α} {f g : α → Action ε δ β γ}
    (hf : ∀ a, o = some a → Coincide R (f a) (g a) s t) :
    Coincide R (ofOption e o >>= f) (ofOption e o >>= g) s t := by
  refine coincide_bind (coincide_ofOption h e o) fun a s₁ t₁ hrun hrun' _ => ?_
  obtain ⟨ha, rfl⟩ := runs_ofOption.mp hrun
  obtain ⟨-, rfl⟩ := runs_ofOption.mp hrun'
  exact hf a ha

theorem coincide_bind_ofExcept (h : R s t) {r : Except ε α} {f g : α → Action ε δ β γ}
    (hf : ∀ a, r = .ok a → Coincide R (f a) (g a) s t) :
    Coincide R (ofExcept r >>= f) (ofExcept r >>= g) s t := by
  cases r with
  | ok a =>
      have hrest := hf a rfl
      exact ⟨hrest.result, hrest.related⟩
  | error e => exact coincide_raise h e

theorem coincide_ensure (h : R s t) (c : Prop) [Decidable c] (e : ε) :
    Coincide R (ensure c e : Action ε δ β Unit) (ensure c e) s t := by
  unfold ensure
  split
  · exact coincide_pure h rfl
  · exact coincide_raise h e

theorem coincide_ite {c : Prop} [Decidable c] {x x' y y' : Action ε δ β α}
    (hx : c → Coincide R x y s t) (hx' : ¬c → Coincide R x' y' s t) :
    Coincide R (if c then x else x') (if c then y else y') s t := by
  split
  · exact hx ‹c›
  · exact hx' ‹¬c›

theorem coincide_modifyDatabase {f g : δ → δ}
    (h : R { s with db := f s.db } { t with db := g t.db }) :
    Coincide R (modifyDatabase f : Action ε δ β Unit) (modifyDatabase g) s t := ⟨rfl, h⟩

end StorageService.Foundation.Action
