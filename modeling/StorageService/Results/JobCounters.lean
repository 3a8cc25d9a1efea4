import Mathlib.Algebra.BigOperators.Ring.Finset
import Mathlib.Algebra.Order.BigOperators.Group.Finset
import StorageService.Actions.JobCounters
import StorageService.Foundation.Interleaving

/-!
# Job counters lose no update

A call adds its amount in the statement that ends it, and in no other one.  So
the counters are at every time their starting values and the amounts of the
calls that have returned.
-/

namespace StorageService.Results

open StorageService.Foundation
open StorageService.Actions

section JobCounters

variable {ι : Type} [DecidableEq ι] {calls : ι → Increment}

/-! ## One statement -/

theorem incrementStep_effect {s s' : Incrementing ι} {a : ι × Nat}
    (hphase : IncrementAt (calls a.1) s.counters (s.phases a.1))
    (h : incrementStep calls s a = some s') :
    s.phases a.1 ≠ .returned ∧
      ∃ p, IncrementEffect (calls a.1) s.counters s'.counters p ∧
        s' = ⟨s'.counters, Function.update s.phases a.1 p⟩ := by
  obtain ⟨r, hr, rfl⟩ := Option.map_eq_some_iff.mp h
  refine ⟨fun hreturned => ?_, r.2, incrementStatement_effect hphase hr, rfl⟩
  rw [hreturned] at hr
  cases hr

/-! ## The amounts that are counted -/

variable [Fintype ι]

def amounts (calls : ι → Increment) (counts : ι → Bool) (job name : Text) : Int :=
  ∑ i, if (calls i).Of job name ∧ counts i = true then max 0 (calls i).amount else 0

def returnedAmounts (calls : ι → Increment) (s : Incrementing ι) (job name : Text) : Int :=
  amounts calls (fun i => decide (s.phases i = .returned)) job name

def allAmounts (calls : ι → Increment) (job name : Text) : Int :=
  amounts calls (fun _ => true) job name

theorem returnedAmounts_update (calls : ι → Increment) {s : Incrementing ι} {i : ι}
    (hopen : s.phases i ≠ .returned) (t : JobCounters) (p : IncrementPhase) (job name : Text) :
    returnedAmounts calls ⟨t, Function.update s.phases i p⟩ job name =
      returnedAmounts calls s job name +
        if (calls i).Of job name ∧ p = .returned then max 0 (calls i).amount else 0 := by
  have hsum := sum_update (fun j q => if (calls j).Of job name ∧ decide (q = .returned) = true
    then max 0 (calls j).amount else 0) s.phases i p
  simp only [decide_eq_true_eq, hopen, and_false, if_false, add_zero] at hsum
  simpa only [returnedAmounts, amounts, decide_eq_true_eq] using hsum

theorem returnedAmounts_add_le (calls : ι → Increment) {s : Incrementing ι} {i : ι}
    (hopen : s.phases i ≠ .returned) :
    returnedAmounts calls s (calls i).job (calls i).name + max 0 (calls i).amount ≤
      allAmounts calls (calls i).job (calls i).name := by
  have hend := returnedAmounts_update calls hopen s.counters .returned (calls i).job
    (calls i).name
  have hself : (calls i).Of (calls i).job (calls i).name := ⟨rfl, rfl⟩
  rw [if_pos ⟨hself, rfl⟩] at hend
  rw [← hend, returnedAmounts, allAmounts, amounts, amounts]
  apply Finset.sum_le_sum
  intro j _
  by_cases hof : (calls j).Of (calls i).job (calls i).name
  · simp only [hof, true_and, if_true]
    split
    · exact le_rfl
    · exact le_max_left ..
  · simp only [hof, false_and, if_false, le_refl]

/-! ## Every run -/

structure Counted (calls : ι → Increment) (start : JobCounters) (s : Incrementing ι) :
    Prop where
  phases : ∀ i, IncrementAt (calls i) s.counters (s.phases i)
  value : ∀ job name, s.counters.value job name =
    start.value job name + returnedAmounts calls s job name
  raised : ∀ i, s.phases i = .raised → bigIntMax <
    start.value (calls i).job (calls i).name + allAmounts calls (calls i).job (calls i).name

omit [DecidableEq ι] in
theorem counted_beforeIncrements (start : JobCounters) :
    Counted calls start (beforeIncrements start) where
  phases _ := trivial
  value job name := by simp [beforeIncrements, returnedAmounts, amounts]
  raised i h := by cases h

theorem Counted.step {start : JobCounters} {s s' : Incrementing ι} {a : ι × Nat}
    (hs : Counted calls start s) (h : incrementStep calls s a = some s') :
    Counted calls start s' := by
  obtain ⟨hopen, p, heffect, hs'⟩ := incrementStep_effect (hs.phases a.1) h
  have hphases : s'.phases = Function.update s.phases a.1 p := congrArg Incrementing.phases hs'
  have hself : s'.phases a.1 = p := by rw [hphases, Function.update_self]
  have hother {i : ι} (hi : i ≠ a.1) : s'.phases i = s.phases i := by
    rw [hphases, Function.update_of_ne hi]
  refine ⟨fun i => ?_, fun job name => ?_, fun i hraised => ?_⟩
  · by_cases hi : i = a.1
    · rw [hi, hself]
      exact heffect.incrementAt
    · rw [hother hi]
      exact (hs.phases i).of_effect heffect
  · rw [heffect.value_eq, hs.value, hs', returnedAmounts_update calls hopen, add_assoc]
  · by_cases hi : i = a.1
    · subst hi
      rw [hself] at hraised
      subst hraised
      have hrange := heffect.out_of_range
      have hroom := returnedAmounts_add_le calls hopen
      rw [hs.value] at hrange
      omega
    · rw [hother hi] at hraised
      exact hs.raised i hraised

theorem value_le_of_run {start : JobCounters} {s s' : Incrementing ι} {as : List (ι × Nat)}
    (hs : Counted calls start s) (hrun : (incrementMachine calls).run s as = some s')
    (job name : Text) : s.counters.value job name ≤ s'.counters.value job name := by
  refine Machine.relates (I := Counted calls start)
    (R := fun s s' => s.counters.value job name ≤ s'.counters.value job name)
    (fun _ => le_rfl) le_trans (fun hs h => hs.step h) (fun hs h => ?_) hrun hs
  obtain ⟨-, p, heffect, -⟩ := incrementStep_effect (hs.phases _) h
  exact heffect.value_le job name

/--
However many calls of `_increment` execute their statements, in whatever order:
there is at most one row for a counter, no value decreases, and the value is
what the counter started with and the positive amounts of the calls that have
returned.  A call raises only where all amounts together are out of range.
-/
theorem increments_counted (calls : ι → Increment) (start : JobCounters)
    {as : List (ι × Nat)} {s : Incrementing ι}
    (hrun : (incrementMachine calls).run (beforeIncrements start) as = some s) :
    (∀ a ∈ s.counters.rows, ∀ b ∈ s.counters.rows, a.job = b.job → a.name = b.name → a = b) ∧
      (∀ before after s₁, as = before ++ after →
        (incrementMachine calls).run (beforeIncrements start) before = some s₁ →
          ∀ job name, s₁.counters.value job name ≤ s.counters.value job name) ∧
      (∀ job name, s.counters.value job name =
        start.value job name + returnedAmounts calls s job name) ∧
      ((∀ i, s.phases i = .returned) → ∀ job name, s.counters.value job name =
        start.value job name + allAmounts calls job name) ∧
      ∀ i, s.phases i = .raised → bigIntMax <
        start.value (calls i).job (calls i).name +
          allAmounts calls (calls i).job (calls i).name := by
  have hcounted {as : List (ι × Nat)} {s : Incrementing ι}
      (hrun : (incrementMachine calls).run (beforeIncrements start) as = some s) :
      Counted calls start s :=
    Machine.invariant (fun hs h => hs.step h) hrun (counted_beforeIncrements start)
  have hs := hcounted hrun
  refine ⟨fun a ha b hb hjob hname => ?_, fun before after s₁ has hbefore job name => ?_,
    hs.value, fun hall job name => ?_, hs.raised⟩
  · exact s.counters.eq_of_clash ha hb (.inr ⟨hjob, hname⟩)
  · rw [has, Machine.run_append] at hrun
    obtain ⟨s₂, hbefore', hafter⟩ := hrun
    rw [hbefore] at hbefore'
    cases hbefore'
    exact value_le_of_run (hcounted hbefore) hafter job name
  · rw [hs.value]
    simp [returnedAmounts, allAmounts, hall]

end JobCounters

def raceCalls (first : Bool) : Increment where
  job := ['j']
  name := ['n']
  amount := if first then 2 else 3

def raceOrder : List (Bool × Nat) :=
  [(true, 1), (false, 1), (true, 1), (false, 2), (false, 2)]

theorem increments_counted_race :
    ∃ s, (incrementMachine raceCalls).run (beforeIncrements .empty) raceOrder = some s ∧
      s.counters.value ['j'] ['n'] = 5 := by
  have hsome : ((incrementMachine raceCalls).run (beforeIncrements .empty) raceOrder).isSome =
      true := by
    decide +kernel
  obtain ⟨s, hrun⟩ := Option.isSome_iff_exists.mp hsome
  have hall : ∀ s ∈ (incrementMachine raceCalls).run (beforeIncrements .empty) raceOrder,
      ∀ i, s.phases i = .returned := by
    decide +kernel
  have hcounted := increments_counted raceCalls .empty hrun
  exact ⟨s, hrun, hcounted.2.2.2.1 (hall s hrun) ['j'] ['n']⟩

end StorageService.Results
