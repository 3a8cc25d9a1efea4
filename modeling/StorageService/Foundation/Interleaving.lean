import Mathlib.Data.Fintype.BigOperators
import Mathlib.Logic.Function.Basic
import Mathlib.Logic.Relation

/-!
# Clients interleaved over shared state

Any number of clients, each with a state of its own, take their steps on a
shared state in any order.
-/

namespace StorageService.Foundation

structure Interleaved (ι σ π : Type) where
  shared : σ
  clients : ι → π

namespace Interleaved

variable {ι σ π : Type} [DecidableEq ι] {step : ι → σ → π → σ → π → Prop}

def set (c : Interleaved ι σ π) (i : ι) (s : σ) (p : π) : Interleaved ι σ π :=
  ⟨s, Function.update c.clients i p⟩

@[simp] theorem set_shared (c : Interleaved ι σ π) (i : ι) (s : σ) (p : π) :
    (c.set i s p).shared = s := rfl

@[simp] theorem set_clients_self (c : Interleaved ι σ π) (i : ι) (s : σ) (p : π) :
    (c.set i s p).clients i = p := Function.update_self ..

theorem set_clients_of_ne (c : Interleaved ι σ π) {i j : ι} (h : j ≠ i) (s : σ) (p : π) :
    (c.set i s p).clients j = c.clients j := Function.update_of_ne h ..

inductive Step (step : ι → σ → π → σ → π → Prop) (c : Interleaved ι σ π) :
    Interleaved ι σ π → Prop where
  | client (i : ι) {s : σ} {p : π} (h : step i c.shared (c.clients i) s p) :
      Step step c (c.set i s p)

def Run (step : ι → σ → π → σ → π → Prop) :
    Interleaved ι σ π → Interleaved ι σ π → Prop := Relation.ReflTransGen (Step step)

theorem Run.invariant {P : Interleaved ι σ π → Prop}
    (hstep : ∀ {c : Interleaved ι σ π} {i : ι} {s : σ} {p : π}, P c →
      step i c.shared (c.clients i) s p → P (c.set i s p))
    {c c' : Interleaved ι σ π} (hc : P c) (h : Run step c c') : P c' := by
  induction h with
  | refl => exact hc
  | tail _ hlast ih =>
      cases hlast with
      | client i h => exact hstep ih h

/-! ## One client after the other -/

def Alone (step : σ → π → σ → π → Prop) (s : σ) (p : π) (s' : σ) (p' : π) : Prop :=
  Relation.ReflTransGen (fun x y : σ × π => step x.1 x.2 y.1 y.2) (s, p) (s', p')

theorem Alone.refl {step : σ → π → σ → π → Prop} (s : σ) (p : π) : Alone step s p s p :=
  Relation.ReflTransGen.refl

theorem Alone.next {step : σ → π → σ → π → Prop} {s s₁ s' : σ} {p p₁ p' : π}
    (h : step s p s₁ p₁) (hrest : Alone step s₁ p₁ s' p') : Alone step s p s' p' :=
  Relation.ReflTransGen.head (b := (s₁, p₁)) h hrest

theorem run_of_alone {c : Interleaved ι σ π} {i : ι} {s' : σ} {p' : π}
    (h : Alone (step i) c.shared (c.clients i) s' p') : Run step c (c.set i s' p') := by
  have hrun : ∀ x : σ × π, Relation.ReflTransGen
      (fun x y : σ × π => step i x.1 x.2 y.1 y.2) (c.shared, c.clients i) x →
      Run step c (c.set i x.1 x.2) := by
    intro x hx
    induction hx with
    | refl =>
        have hsame : c.set i c.shared (c.clients i) = c := by
          rw [set, Function.update_eq_self]
        rw [hsame]
        exact .refl
    | @tail y z _ hlast ih =>
        have hnext : Step step (c.set i y.1 y.2) ((c.set i y.1 y.2).set i z.1 z.2) :=
          .client i (by simpa using hlast)
        have hset : (c.set i y.1 y.2).set i z.1 z.2 = c.set i z.1 z.2 := by
          simp [set]
        rw [hset] at hnext
        exact ih.tail hnext
  exact hrun (s', p') h

/-- The clients of a list get from `p` to `p'`, one after the other. -/
theorem run_each {c : Interleaved ι σ π} {is : List ι} (hnodup : is.Nodup) (p p' : π)
    (f : ι → σ → σ) (Q : σ → Prop) (hshared : Q c.shared) (hclients : ∀ i ∈ is, c.clients i = p)
    (halone : ∀ i ∈ is, ∀ s, Q s → Alone (step i) s p (f i s) p')
    (hkept : ∀ i ∈ is, ∀ s, Q s → Q (f i s)) :
    Run step c ⟨is.foldl (fun s i => f i s) c.shared,
      fun j => if j ∈ is then p' else c.clients j⟩ := by
  induction is generalizing c with
  | nil =>
      have hsame : (⟨c.shared, fun j => if j ∈ ([] : List ι) then p' else c.clients j⟩ :
          Interleaved ι σ π) = c := by simp
      rw [List.foldl_nil, hsame]
      exact .refl
  | cons i is ih =>
      rw [List.nodup_cons] at hnodup
      rw [List.forall_mem_cons] at halone hkept hclients
      have hfirst : Run step c (c.set i (f i c.shared) p') := by
        refine run_of_alone ?_
        rw [hclients.1]
        exact halone.1 c.shared hshared
      have hrest := ih (c := c.set i (f i c.shared) p') hnodup.2 (hkept.1 _ hshared)
        (fun j hj => by
          rw [set_clients_of_ne c (by rintro rfl; exact hnodup.1 hj)]
          exact hclients.2 j hj) halone.2 hkept.2
      have hend : (fun j => if j ∈ is then p' else (c.set i (f i c.shared) p').clients j) =
          fun j => if j ∈ i :: is then p' else c.clients j := by
        funext j
        by_cases hj : j = i
        · subst hj
          simp
        · simp [set_clients_of_ne c hj, hj]
      rw [hend] at hrest
      exact hfirst.trans hrest

end Interleaved

/-! ## Sums over the clients -/

/-- When one client changes its state, a sum over all clients changes by what that one adds. -/
theorem sum_update {ι π M : Type} [Fintype ι] [DecidableEq ι] [AddCommMonoid M] (g : ι → π → M)
    (f : ι → π) (i : ι) (p : π) :
    ∑ j, g j (Function.update f i p j) + g i (f i) = ∑ j, g j (f j) + g i p := by
  have hothers : ∑ j ∈ Finset.univ.erase i, g j (Function.update f i p j) =
      ∑ j ∈ Finset.univ.erase i, g j (f j) := by
    apply Finset.sum_congr rfl
    intro j hj
    rw [Function.update_of_ne (Finset.ne_of_mem_erase hj)]
  rw [← Finset.sum_erase_add _ _ (Finset.mem_univ i),
    ← Finset.sum_erase_add _ _ (Finset.mem_univ i), hothers, Function.update_self]
  exact add_right_comm _ _ _

end StorageService.Foundation
