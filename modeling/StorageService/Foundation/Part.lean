import StorageService.Foundation.Transaction

/-!
# Actions on a part of the session

An action on part of a database and part of the world, run on the whole, leaves
the rest alone.  `recover` goes on after some errors, and keeps what was done
before them; `Raising` bounds the errors an action can end with.
-/

namespace StorageService.Foundation

structure Part (σ τ : Type) where
  get : σ → τ
  put : σ → τ → σ
  get_put : ∀ s t, get (put s t) = t

namespace Action

variable {ε δ β δ' β' α γ : Type}

section Parts

variable (d : Part δ δ') (o : Part β β')

def partOf (s : Session δ β) : Session δ' β' := ⟨d.get s.db, o.get s.out⟩

def putPart (s : Session δ β) (t : Session δ' β') : Session δ β :=
  ⟨d.put s.db t.db, o.put s.out t.out⟩

def onParts (x : Action ε δ' β' α) : Action ε δ β α := fun s =>
  ((x (partOf d o s)).1, putPart d o s (x (partOf d o s)).2)

variable {d o} {s s' : Session δ β} {x : Action ε δ' β' α}

@[simp] theorem partOf_putPart (t : Session δ' β') : partOf d o (putPart d o s t) = t := by
  rw [partOf, putPart, d.get_put, o.get_put]

theorem runs_onParts {a : α} : (onParts d o x).Runs s a s' ↔
    x.Runs (partOf d o s) a (partOf d o s') ∧ s' = putPart d o s (partOf d o s') := by
  simp only [Runs, onParts]
  rcases hx : x (partOf d o s) with ⟨r, t⟩
  constructor
  · intro h
    obtain ⟨rfl, rfl⟩ := Prod.mk.injEq .. ▸ h
    simp
  · rintro ⟨h, hs'⟩
    obtain ⟨rfl, rfl⟩ := Prod.mk.injEq .. ▸ h
    rw [← hs']

theorem Within.onParts {R : Session δ β → Session δ β → Prop}
    (h : ∀ s t, R s (putPart d o s t)) : (onParts d o x).Within R := fun s => h s _

end Parts

/-! ## Going on after an error -/

def recover (x : Action ε δ β α) (value : ε → Option α) : Action ε δ β α := fun s =>
  match x s with
  | (.ok a, s') => (.ok a, s')
  | (.error e, s') =>
      match value e with
      | some a => (.ok a, s')
      | none => (.error e, s')

def Raising (p : ε → Prop) (x : Action ε δ β α) : Prop :=
  ∀ s e s', x s = (.error e, s') → p e

section Raising

variable {p : ε → Prop} {value : ε → Option α} {x : Action ε δ β α}

theorem Raising.recover (h : x.Raising p) (hvalue : ∀ e, p e → value e = none) :
    recover x value = x := by
  funext s
  rw [Action.recover]
  rcases hx : x s with ⟨e | a, s'⟩
  · simp [hvalue e (h s e s' hx)]
  · rfl

theorem Raising.of_no_fails (h : ∀ s s', ¬x.Fails s s') : x.Raising p :=
  fun s e s' hx => absurd ⟨e, hx⟩ (h s s')

theorem Raising.raise {e : ε} (h : p e) : (raise e : Action ε δ β α).Raising p := by
  intro s e' s' hx
  cases hx
  exact h

theorem Raising.bind {f : α → Action ε δ β γ} (hx : x.Raising p) (hf : ∀ a, (f a).Raising p) :
    (x >>= f).Raising p := by
  intro s e s' h
  simp only [Bind.bind] at h
  rcases hxs : x s with ⟨e' | a, s₁⟩
  · rw [hxs] at h
    cases h
    exact hx s e s' hxs
  · rw [hxs] at h
    exact hf a s₁ e s' h

end Raising

end Action

end StorageService.Foundation
