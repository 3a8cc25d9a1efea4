import Mathlib.Algebra.Order.Ring.Int
import Mathlib.Logic.Function.Basic
import StorageService.Foundation.StateMachine
import StorageService.Foundation.Table
import StorageService.Foundation.Text

/-!
# Job counters

`_increment` of `scheduled_jobs.py`: an update of the counter, and where it met no
row a `get_or_create` and, for a row somebody else has created, a second update.
Each of them is one statement of the database; the calls of any number of
processes execute theirs in any order.
-/

namespace StorageService.Actions

open StorageService.Foundation

/-! ## The table of counters -/

structure ScheduledJobCounter where
  id : Nat
  job : Text
  name : Text
  value : Int
  deriving DecidableEq, Repr

namespace ScheduledJobCounter

/-- `actions_sjcounter_job_name_uniq` and the primary key. -/
def Clash (a b : ScheduledJobCounter) : Prop := a.id = b.id ∨ a.job = b.job ∧ a.name = b.name

instance : DecidableRel Clash := fun _ _ => inferInstanceAs (Decidable (_ ∨ _))

instance : Std.Symm Clash := ⟨fun _ _ h => h.imp Eq.symm fun h => ⟨h.1.symm, h.2.symm⟩⟩

def Of (job name : Text) (c : ScheduledJobCounter) : Prop := c.job = job ∧ c.name = name

instance (job name : Text) (c : ScheduledJobCounter) : Decidable (c.Of job name) :=
  inferInstanceAs (Decidable (_ ∧ _))

def add (c : ScheduledJobCounter) (amount : Int) : ScheduledJobCounter :=
  { c with value := c.value + amount }

@[simp] theorem add_id (c : ScheduledJobCounter) (amount : Int) : (c.add amount).id = c.id := rfl

@[simp] theorem of_add {c : ScheduledJobCounter} {amount : Int} {job name : Text} :
    (c.add amount).Of job name ↔ c.Of job name := Iff.rfl

end ScheduledJobCounter

def bigIntMax : Int := 9223372036854775807

abbrev JobCounters := Table ScheduledJobCounter ScheduledJobCounter.Clash

namespace JobCounters

def counter? (t : JobCounters) (job name : Text) : Option ScheduledJobCounter :=
  t.rows.find? fun c => decide (c.Of job name)

def value (t : JobCounters) (job name : Text) : Int :=
  ((t.counter? job name).map ScheduledJobCounter.value).getD 0

def addWhere (t : JobCounters) (p : ScheduledJobCounter → Bool) (amount : Int) : JobCounters :=
  t.rewrite (fun c => if p c then c.add amount else c) (by
    apply t.rewritable_of_clash_imp
    intro a b h
    split at h <;> split at h <;> exact h)

/-- `update(value=F('value') + amount)`: the table and the rows that were updated. -/
def update (t : JobCounters) (p : ScheduledJobCounter → Bool) (amount : Int) :
    Option (JobCounters × Nat) :=
  if ∃ c ∈ t.rows, p c = true ∧ bigIntMax < c.value + amount then none
  else some (t.addWhere p amount, t.rows.countP p)

theorem counter?_of_mem {t : JobCounters} {c : ScheduledJobCounter} {job name : Text}
    (hc : c ∈ t.rows) (hof : c.Of job name) : t.counter? job name = some c := by
  refine t.find?_eq_some (fun b hb => ?_) hc (decide_eq_true hof)
  rw [decide_eq_true_eq] at hb
  exact .inr ⟨hof.1.trans hb.1.symm, hof.2.trans hb.2.symm⟩

theorem mem_of_counter? {t : JobCounters} {c : ScheduledJobCounter} {job name : Text}
    (h : t.counter? job name = some c) : c ∈ t.rows ∧ c.Of job name := by
  rw [counter?] at h
  have hof := List.find?_some h
  rw [decide_eq_true_eq] at hof
  exact ⟨List.mem_of_find?_eq_some h, hof⟩

theorem value_of_mem {t : JobCounters} {c : ScheduledJobCounter} {job name : Text}
    (hc : c ∈ t.rows) (hof : c.Of job name) : t.value job name = c.value := by
  rw [value, counter?_of_mem hc hof]
  rfl

structure Adds (t : JobCounters) (job name : Text) (amount : Int) (t' : JobCounters) : Prop where
  value : ∀ job' name', t'.value job' name' =
    t.value job' name' + if job = job' ∧ name = name' then amount else 0
  kept : ∀ c ∈ t.rows, ∃ c' ∈ t'.rows, c'.id = c.id ∧ c'.job = c.job ∧ c'.name = c.name

theorem adds_addWhere {t : JobCounters} {p : ScheduledJobCounter → Bool} {job name : Text}
    {amount : Int} {row : ScheduledJobCounter} (hrow : row ∈ t.rows) (hof : row.Of job name)
    (hp : ∀ c ∈ t.rows, p c = true ↔ c.Of job name) :
    Adds t job name amount (t.addWhere p amount) := by
  constructor
  · intro job' name'
    have hfind : (t.addWhere p amount).counter? job' name' =
        (t.counter? job' name').map fun c => if p c then c.add amount else c := by
      rw [counter?, addWhere, Table.rows_rewrite, List.find?_map]
      congr 2
      funext c
      simp only [Function.comp_apply]
      split <;> rfl
    rw [value, hfind, value]
    cases hc : t.counter? job' name' with
    | none =>
        have hother : ¬(job = job' ∧ name = name') := by
          rintro ⟨rfl, rfl⟩
          rw [counter?_of_mem hrow hof] at hc
          contradiction
        simp [hother]
    | some c =>
        obtain ⟨hmem, hjob, hname⟩ := mem_of_counter? hc
        have hsame : p c = true ↔ job = job' ∧ name = name' := by
          rw [hp c hmem, ScheduledJobCounter.Of, hjob, hname, eq_comm, eq_comm (a := name')]
        by_cases h : job = job' ∧ name = name'
        · simp [hsame.mpr h, h, ScheduledJobCounter.add]
        · simp [Bool.eq_false_iff.mpr (mt hsame.mp h), h]
  · intro c hc
    refine ⟨_, List.mem_map_of_mem hc, ?_⟩
    split <;> exact ⟨rfl, rfl, rfl⟩

theorem update_of_none {t : JobCounters} {p : ScheduledJobCounter → Bool} {amount : Int}
    (hp : ∀ c ∈ t.rows, p c = false) : t.update p amount = some (t, 0) := by
  have hrange : ¬∃ c ∈ t.rows, p c = true ∧ bigIntMax < c.value + amount := by
    rintro ⟨c, hc, htrue, -⟩
    rw [hp c hc] at htrue
    contradiction
  have hcount : t.rows.countP p = 0 :=
    List.countP_eq_zero.mpr fun c hc => Bool.eq_false_iff.mp (hp c hc)
  have hrows : t.rows.map (fun c => if p c then c.add amount else c) = t.rows := by
    conv_rhs => rw [← List.map_id t.rows]
    exact List.map_congr_left fun c hc => by rw [hp c hc, id]; rfl
  have hsame : t.addWhere p amount = t := by
    obtain ⟨rows, hunique⟩ := t
    exact (Table.mk.injEq ..).mpr hrows
  rw [update, if_neg hrange, hcount, hsame]

theorem adds_insert {t : JobCounters} {id : Nat} {job name : Text} {amount : Int}
    (hnone : t.counter? job name = none) (free : t.Free ⟨id, job, name, amount⟩) :
    Adds t job name amount (t.insert ⟨id, job, name, amount⟩ free) := by
  constructor
  · intro job' name'
    rw [value, value, counter?, counter?, Table.rows_insert, List.find?_append]
    by_cases h : job = job' ∧ name = name'
    · obtain ⟨rfl, rfl⟩ := h
      have hnew : (ScheduledJobCounter.mk id job name amount).Of job name := ⟨rfl, rfl⟩
      rw [counter?] at hnone
      simp [hnone, hnew]
    · have hother : ¬(ScheduledJobCounter.mk id job name amount).Of job' name' := h
      simp [hother, h]
  · intro c hc
    exact ⟨c, by simp [hc], rfl, rfl, rfl⟩

end JobCounters

/-! ## Calls of `_increment` -/

structure Increment where
  job : Text
  name : Text
  amount : Int
  deriving DecidableEq, Repr

def Increment.Of (job name : Text) (call : Increment) : Prop := call.job = job ∧ call.name = name

instance (job name : Text) (call : Increment) : Decidable (call.Of job name) :=
  inferInstanceAs (Decidable (_ ∧ _))

inductive IncrementPhase where
  | called
  /-- The first update met no row. -/
  | missed
  /-- `get_or_create` returned a row that was there. -/
  | found (pk : Nat)
  | returned
  /-- A statement raised `DataError`: the value would be out of range. -/
  | raised
  deriving DecidableEq, Repr

def IncrementPhase.Ended (p : IncrementPhase) : Prop := p = .returned ∨ p = .raised

def afterIncrement (t : JobCounters) (updated : Option (JobCounters × Nat))
    (next : Nat → IncrementPhase) : JobCounters × IncrementPhase :=
  match updated with
  | none => (t, .raised)
  | some (t', n) => (t', next n)

/-- One statement of a call; `id` is what the sequence gives to a row that is created. -/
def incrementStatement (call : Increment) (id : Nat) (t : JobCounters) :
    IncrementPhase → Option (JobCounters × IncrementPhase)
  | .called =>
      if call.amount ≤ 0 then some (t, .returned)
      else
        some (afterIncrement t (t.update (fun c => decide (c.Of call.job call.name)) call.amount)
          fun updated => if updated ≠ 0 then .returned else .missed)
  | .missed =>
      match t.counter? call.job call.name with
      | some c => some (t, .found c.id)
      | none =>
          if bigIntMax < call.amount then some (t, .raised)
          else if free : t.Free ⟨id, call.job, call.name, call.amount⟩ then
            some (t.insert ⟨id, call.job, call.name, call.amount⟩ free, .returned)
          else none
  | .found pk =>
      some (afterIncrement t (t.update (fun c => decide (c.id = pk)) call.amount)
        fun _ => .returned)
  | .returned | .raised => none

def IncrementAt (call : Increment) (t : JobCounters) : IncrementPhase → Prop
  | .called | .returned | .raised => True
  | .missed => 0 < call.amount
  | .found pk => 0 < call.amount ∧ ∃ c ∈ t.rows, c.id = pk ∧ c.Of call.job call.name

inductive IncrementEffect (call : Increment) (t : JobCounters) :
    JobCounters → IncrementPhase → Prop where
  | skip (hamount : call.amount ≤ 0) : IncrementEffect call t t .returned
  | wait {p : IncrementPhase} (hphase : IncrementAt call t p) (hopen : ¬p.Ended) :
      IncrementEffect call t t p
  | add {t' : JobCounters} (hamount : 0 < call.amount)
      (hadds : t.Adds call.job call.name call.amount t') : IncrementEffect call t t' .returned
  | raise (hamount : 0 < call.amount)
      (hrange : bigIntMax < t.value call.job call.name + call.amount) :
      IncrementEffect call t t .raised

section IncrementEffects

variable {call : Increment} {t : JobCounters} {id : Nat} {p : IncrementPhase}
  {r : JobCounters × IncrementPhase}

theorem effect_afterIncrement {q : ScheduledJobCounter → Bool} {row : ScheduledJobCounter}
    (hamount : 0 < call.amount) (hrow : row ∈ t.rows) (hof : row.Of call.job call.name)
    (hq : ∀ c ∈ t.rows, q c = true ↔ c.Of call.job call.name) {next : Nat → IncrementPhase}
    (hnext : ∀ n, 0 < n → next n = .returned) :
    IncrementEffect call t (afterIncrement t (t.update q call.amount) next).1
      (afterIncrement t (t.update q call.amount) next).2 := by
  rw [JobCounters.update]
  split
  · rename_i hrange
    obtain ⟨c, hc, hqc, hlt⟩ := hrange
    refine .raise hamount ?_
    rwa [JobCounters.value_of_mem hc ((hq c hc).mp hqc)]
  · have hcount : 0 < t.rows.countP q :=
      List.countP_pos_iff.mpr ⟨row, hrow, (hq row hrow).mpr hof⟩
    rw [afterIncrement, hnext _ hcount]
    exact .add hamount (JobCounters.adds_addWhere hrow hof hq)

theorem incrementStatement_effect (hphase : IncrementAt call t p)
    (h : incrementStatement call id t p = some r) : IncrementEffect call t r.1 r.2 := by
  cases p with
  | called =>
      rw [incrementStatement] at h
      split at h
      · cases h
        exact .skip ‹_›
      · have hamount : 0 < call.amount := by omega
        cases h
        cases hfind : t.counter? call.job call.name with
        | some row =>
            obtain ⟨hrow, hof⟩ := JobCounters.mem_of_counter? hfind
            exact effect_afterIncrement hamount hrow hof (fun c _ => decide_eq_true_iff)
              fun n hn => if_pos (by omega)
        | none =>
            have hnone : ∀ c ∈ t.rows, ¬c.Of call.job call.name := fun c hc hof => by
              rw [JobCounters.counter?_of_mem hc hof] at hfind
              contradiction
            rw [JobCounters.update_of_none fun c hc => decide_eq_false (hnone c hc)]
            exact .wait hamount (by rintro (h | h) <;> cases h)
  | missed =>
      rw [incrementStatement] at h
      cases hfind : t.counter? call.job call.name with
      | some row =>
          rw [hfind] at h
          cases h
          obtain ⟨hrow, hof⟩ := JobCounters.mem_of_counter? hfind
          exact .wait ⟨hphase, row, hrow, rfl, hof⟩ (by rintro (h | h) <;> cases h)
      | none =>
          rw [hfind] at h
          dsimp only at h
          split at h
          · cases h
            refine .raise hphase ?_
            rwa [JobCounters.value, hfind, Option.map_none, Option.getD_none, zero_add]
          · split at h
            · rename_i hfree
              cases h
              exact .add hphase (JobCounters.adds_insert hfind hfree)
            · contradiction
  | found pk =>
      rw [incrementStatement] at h
      cases h
      obtain ⟨hamount, row, hrow, rfl, hof⟩ := hphase
      refine effect_afterIncrement hamount hrow hof (fun c hc => ?_) fun _ _ => rfl
      rw [decide_eq_true_iff]
      constructor
      · intro hid
        rwa [t.eq_of_clash hc hrow (.inl hid)]
      · intro hof'
        rw [t.eq_of_clash hc hrow (.inr ⟨hof'.1.trans hof.1.symm, hof'.2.trans hof.2.symm⟩)]
  | returned => contradiction
  | raised => contradiction

theorem IncrementEffect.rows_kept {t' : JobCounters} (h : IncrementEffect call t t' p) :
    ∀ c ∈ t.rows, ∃ c' ∈ t'.rows, c'.id = c.id ∧ c'.job = c.job ∧ c'.name = c.name := by
  cases h with
  | skip | wait | raise => exact fun c hc => ⟨c, hc, rfl, rfl, rfl⟩
  | add _ hadds => exact hadds.kept

theorem IncrementEffect.value_le {t' : JobCounters} (h : IncrementEffect call t t' p)
    (job name : Text) : t.value job name ≤ t'.value job name := by
  cases h with
  | skip | wait | raise => exact le_rfl
  | add hamount hadds =>
      rw [hadds.value]
      split <;> omega

/-- The counter goes up by the amount in the statement that ends the call. -/
theorem IncrementEffect.value_eq {t' : JobCounters} (h : IncrementEffect call t t' p)
    (job name : Text) : t'.value job name = t.value job name +
      if call.Of job name ∧ p = .returned then max 0 call.amount else 0 := by
  cases h with
  | skip hamount => simp [max_eq_left hamount]
  | wait _ hopen =>
      have hne : p ≠ .returned := fun h => hopen (.inl h)
      simp [hne]
  | add hamount hadds =>
      rw [hadds.value, max_eq_right hamount.le]
      simp [Increment.Of]
  | raise => simp

theorem IncrementEffect.incrementAt {t' : JobCounters} (h : IncrementEffect call t t' p) :
    IncrementAt call t' p := by
  cases h with
  | skip | add | raise => trivial
  | wait hphase => exact hphase

theorem IncrementEffect.out_of_range {t' : JobCounters} (h : IncrementEffect call t t' .raised) :
    bigIntMax < t.value call.job call.name + max 0 call.amount := by
  cases h with
  | wait _ hopen => exact absurd (.inr rfl) hopen
  | raise hamount hrange => rwa [max_eq_right hamount.le]

theorem IncrementAt.of_effect {other : Increment} {t' : JobCounters} {p' : IncrementPhase}
    (hother : IncrementAt other t p) (h : IncrementEffect call t t' p') :
    IncrementAt other t' p := by
  cases p with
  | called | returned | raised => trivial
  | missed => exact hother
  | found pk =>
      obtain ⟨hamount, c, hc, hid, hjob, hname⟩ := hother
      obtain ⟨c', hc', hid', hjob', hname'⟩ := h.rows_kept c hc
      exact ⟨hamount, c', hc', hid'.trans hid, hjob'.trans hjob, hname'.trans hname⟩

end IncrementEffects

/-! ## Any number of calls -/

structure Incrementing (ι : Type) where
  counters : JobCounters
  phases : ι → IncrementPhase

section Machine

variable {ι : Type} [DecidableEq ι]

def incrementStep (calls : ι → Increment) (s : Incrementing ι) (a : ι × Nat) :
    Option (Incrementing ι) :=
  (incrementStatement (calls a.1) a.2 s.counters (s.phases a.1)).map fun r =>
    { counters := r.1, phases := Function.update s.phases a.1 r.2 }

def incrementMachine (calls : ι → Increment) : Machine (Incrementing ι) (ι × Nat) :=
  ⟨incrementStep calls⟩

def beforeIncrements (t : JobCounters) : Incrementing ι := ⟨t, fun _ => .called⟩

end Machine

end StorageService.Actions
