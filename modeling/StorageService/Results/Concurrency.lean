import Mathlib.Algebra.Order.BigOperators.Group.Finset
import Mathlib.Data.Fintype.Powerset
import StorageService.Storage.Concurrency

/-!
# The company cap under concurrency

The quota check reads the counter without locking it, so calls that pass the
check one by one may exceed the cap together.  In the worst order the calls that
shrink commit first, then all that fit pass their checks before any of them
commits.
-/

namespace StorageService.Results

open StorageService.Foundation
open StorageService.Foundation.Interleaved
open StorageService.Storage

variable {ι : Type} {calls : ι → Call} {company : CompanyQuota}
  {c : Interleaved ι QuotaRow Progress} {i : ι}

def beforeCalls (company : CompanyQuota) : Interleaved ι QuotaRow Progress :=
  ⟨⟨company, none⟩, fun _ => .started⟩

abbrev CallsRun [DecidableEq ι] (calls : ι → Call) :
    Interleaved ι QuotaRow Progress → Interleaved ι QuotaRow Progress → Prop :=
  Interleaved.Run fun i => Statement (calls i)

/-! ## Who holds the lock -/

def Holds (p : Progress) : Prop := p = .updated ∨ p = .clamped

def lockedValue (company : CompanyQuota) (call : Call) : Progress → Option CompanyQuota
  | .updated => some (company.add call.delta)
  | .clamped => some (company.add call.delta).clamp
  | _ => none

structure Locked (calls : ι → Call) (c : Interleaved ι QuotaRow Progress) : Prop where
  written : ∀ i, Holds (c.clients i) →
    c.shared.written = lockedValue c.shared.committed (calls i) (c.clients i)
  alone : ∀ i j, Holds (c.clients i) → Holds (c.clients j) → i = j

theorem Locked.others_of_holds (h : Locked calls c) (hi : Holds (c.clients i)) :
    ∀ j, j ≠ i → ¬Holds (c.clients j) := fun j hne hj => hne (h.alone j i hj hi)

theorem Locked.not_holds_of_free (h : Locked calls c) (hfree : c.shared.written = none) (j : ι) :
    ¬Holds (c.clients j) := by
  intro hj
  have hwritten := h.written j hj
  rw [hfree] at hwritten
  rcases hj with hj | hj <;> simp [hj, lockedValue] at hwritten

/-! ## What has been counted -/

def usageAfter (calls : ι → Call) (company : CompanyQuota) (shrunk : Finset ι) : Int :=
  max 0 (company.usedBytes + ∑ i ∈ shrunk, (calls i).delta)

section Counted

variable [Fintype ι]

def fitting (calls : ι → Call) (company : CompanyQuota) (used : Int) : Finset ι :=
  Finset.univ.filter fun i =>
    0 < (calls i).delta ∧ used + (calls i).delta ≤ company.maxBytes

def shrunkBy (calls : ι → Call) (c : Interleaved ι QuotaRow Progress) : Finset ι :=
  Finset.univ.filter fun i => c.clients i = .committed ∧ (calls i).delta < 0

def grownBy (calls : ι → Call) (c : Interleaved ι QuotaRow Progress) : Finset ι :=
  Finset.univ.filter fun i => c.clients i = .committed ∧ 0 < (calls i).delta

def Passed (p : Progress) : Prop := p ≠ .started ∧ p ≠ .failed

/-- The counter lies between what has shrunk and what has grown since. -/
structure Accounted (calls : ι → Call) (company : CompanyQuota)
    (c : Interleaved ι QuotaRow Progress) : Prop where
  maxBytes : c.shared.committed.maxBytes = company.maxBytes
  lower : usageAfter calls company (shrunkBy calls c) ≤ c.shared.committed.usedBytes
  upper : c.shared.committed.usedBytes ≤
    usageAfter calls company (shrunkBy calls c) + ∑ i ∈ grownBy calls c, (calls i).delta
  fits : ∀ i, Passed (c.clients i) → 0 < (calls i).delta →
    usageAfter calls company (shrunkBy calls c) + (calls i).delta ≤ company.maxBytes

theorem Accounted.nonneg (h : Accounted calls company c) :
    0 ≤ c.shared.committed.usedBytes := (le_max_left 0 _).trans h.lower

theorem Accounted.fits_of_admits (h : Accounted calls company c) (hcap : 0 < company.maxBytes)
    (hgrows : 0 < (calls i).delta) (hadmits : c.shared.committed.Admits (calls i).delta) :
    usageAfter calls company (shrunkBy calls c) + (calls i).delta ≤ company.maxBytes := by
  have hmax := h.maxBytes
  have hlower := h.lower
  rcases hadmits with hshrinks | hfits
  · omega
  · have hne : c.shared.committed.maxBytes ≠ 0 := by omega
    simp only [ne_eq, hne, not_false_eq_true, true_and, not_lt] at hfits
    omega

theorem accounted_beforeCalls (hfloor : 0 ≤ company.usedBytes) :
    Accounted calls company (beforeCalls company) := by
  have hshrunk : shrunkBy calls (beforeCalls company) = ∅ := by
    simp [shrunkBy, beforeCalls]
  have hgrown : grownBy calls (beforeCalls company) = ∅ := by
    simp [grownBy, beforeCalls]
  refine ⟨rfl, ?_, ?_, fun j hj => ?_⟩
  · rw [hshrunk]
    simp [usageAfter, beforeCalls, hfloor]
  · rw [hshrunk, hgrown]
    simp [usageAfter, beforeCalls]
  · simp [Passed, beforeCalls] at hj

end Counted

/-! ## What a statement does -/

variable [DecidableEq ι]

theorem Locked.of_same (h : Locked calls c) {p : Progress} (hp : ¬Holds p) :
    Locked calls (c.set i c.shared p) := by
  have hother : ∀ j, Holds ((c.set i c.shared p).clients j) → j ≠ i := by
    rintro j hj rfl
    exact hp (by simpa using hj)
  refine ⟨fun j hj => ?_, fun j k hj hk => ?_⟩
  · have hsame := set_clients_of_ne c (hother j hj) c.shared p
    rw [hsame] at hj ⊢
    exact h.written j hj
  · rw [set_clients_of_ne c (hother j hj)] at hj
    rw [set_clients_of_ne c (hother k hk)] at hk
    exact h.alone j k hj hk

theorem Locked.of_others {s : QuotaRow} {p : Progress}
    (hothers : ∀ j, j ≠ i → ¬Holds (c.clients j))
    (hwritten : Holds p → s.written = lockedValue s.committed (calls i) p) :
    Locked calls (c.set i s p) := by
  have honly : ∀ j, Holds ((c.set i s p).clients j) → j = i := by
    intro j hj
    by_contra hne
    rw [set_clients_of_ne c hne] at hj
    exact hothers j hne hj
  refine ⟨fun j hj => ?_, fun j k hj hk => (honly j hj).trans (honly k hk).symm⟩
  obtain rfl := honly j hj
  rw [set_clients_self] at hj ⊢
  exact hwritten hj

theorem Locked.statement (h : Locked calls c) {s : QuotaRow} {p : Progress}
    (hstep : Statement (calls i) c.shared (c.clients i) s p) : Locked calls (c.set i s p) := by
  generalize hrow : c.shared = row at hstep
  generalize hat : c.clients i = q at hstep
  cases hstep with
  | check | insert | commitUncounted | fail =>
      rw [← hrow]
      exact h.of_same (by simp [Holds])
  | update =>
      have hfree : c.shared.written = none := by rw [hrow]
      exact .of_others (fun j _ => h.not_holds_of_free hfree j) fun _ => rfl
  | @clamp company written =>
      have hi : Holds (c.clients i) := .inl hat
      have hwritten := h.written i hi
      rw [hrow, hat] at hwritten
      refine .of_others (h.others_of_holds hi) fun _ => ?_
      rw [Option.some.inj hwritten]
      rfl
  | commit =>
      exact .of_others (h.others_of_holds (.inr hat)) fun hp => by simp [Holds] at hp
  | rollBack locked =>
      exact .of_others (h.others_of_holds (hat ▸ locked)) fun hp => by simp [Holds] at hp

theorem usageAfter_insert {shrunk : Finset ι} (hi : i ∉ shrunk) :
    usageAfter calls company (insert i shrunk) =
      max 0 (company.usedBytes + ∑ j ∈ shrunk, (calls j).delta + (calls i).delta) := by
  rw [usageAfter, Finset.sum_insert hi]
  congr 1
  ring

variable [Fintype ι]

theorem shrunkBy_set (calls : ι → Call) (s : QuotaRow) (p : Progress)
    (hbefore : c.clients i ≠ .committed) :
    shrunkBy calls (c.set i s p) =
      if p = .committed ∧ (calls i).delta < 0 then insert i (shrunkBy calls c)
      else shrunkBy calls c := by
  ext j
  by_cases hj : j = i
  · subst hj
    split <;> simp_all [shrunkBy]
  · split <;> simp [shrunkBy, set_clients_of_ne c hj, hj]

theorem grownBy_set (calls : ι → Call) (s : QuotaRow) (p : Progress)
    (hbefore : c.clients i ≠ .committed) :
    grownBy calls (c.set i s p) =
      if p = .committed ∧ 0 < (calls i).delta then insert i (grownBy calls c)
      else grownBy calls c := by
  ext j
  by_cases hj : j = i
  · subst hj
    split <;> simp_all [grownBy]
  · split <;> simp [grownBy, set_clients_of_ne c hj, hj]

theorem Accounted.of_uncommitted (h : Accounted calls company c) {s : QuotaRow} {p : Progress}
    (hbefore : c.clients i ≠ .committed) (hafter : p ≠ .committed)
    (hcommitted : s.committed = c.shared.committed)
    (hfits : Passed p → 0 < (calls i).delta →
      usageAfter calls company (shrunkBy calls c) + (calls i).delta ≤ company.maxBytes) :
    Accounted calls company (c.set i s p) := by
  have hshrunk : shrunkBy calls (c.set i s p) = shrunkBy calls c := by
    simp [shrunkBy_set calls s p hbefore, hafter]
  have hgrown : grownBy calls (c.set i s p) = grownBy calls c := by
    simp [grownBy_set calls s p hbefore, hafter]
  refine ⟨?_, ?_, ?_, fun j hj hgrows => ?_⟩
  · rw [set_shared, hcommitted, h.maxBytes]
  · rw [set_shared, hcommitted, hshrunk]
    exact h.lower
  · rw [set_shared, hcommitted, hshrunk, hgrown]
    exact h.upper
  · rw [hshrunk]
    by_cases hne : j = i
    · subst hne
      rw [set_clients_self] at hj
      exact hfits hj hgrows
    · rw [set_clients_of_ne c hne] at hj
      exact h.fits j hj hgrows

theorem Accounted.of_committed (h : Accounted calls company c) {s : QuotaRow}
    (hbefore : c.clients i ≠ .committed) (hpassed : Passed (c.clients i))
    (hmax : s.committed.maxBytes = c.shared.committed.maxBytes)
    (hused : s.committed.usedBytes =
      max 0 (c.shared.committed.usedBytes + (calls i).delta)) :
    Accounted calls company (c.set i s .committed) := by
  have hlower := h.lower
  have hupper := h.upper
  have hshrunk_not : i ∉ shrunkBy calls c := by simp [shrunkBy, hbefore]
  have hgrown_not : i ∉ grownBy calls c := by simp [grownBy, hbefore]
  have hgrown_nonneg : 0 ≤ ∑ j ∈ grownBy calls c, (calls j).delta :=
    Finset.sum_nonneg fun j hj => (Finset.mem_filter.mp hj).2.2.le
  have hshrunk := shrunkBy_set calls s .committed hbefore
  have hgrown := grownBy_set calls s .committed hbefore
  -- what has shrunk only grows, so whatever fitted still does
  have hdown : usageAfter calls company (shrunkBy calls (c.set i s .committed)) ≤
      usageAfter calls company (shrunkBy calls c) := by
    rw [hshrunk]
    split
    · rename_i hneg
      rw [usageAfter_insert hshrunk_not, usageAfter]
      omega
    · exact le_rfl
  refine ⟨by rw [set_shared, hmax, h.maxBytes], ?_, ?_, fun j hj hgrows => ?_⟩
  · rw [set_shared, hused, hshrunk]
    split
    · rw [usageAfter_insert hshrunk_not]
      simp only [usageAfter] at hlower
      omega
    · rename_i hgrows
      simp only [true_and, not_lt] at hgrows
      omega
  · rw [set_shared, hused, hshrunk, hgrown]
    rcases lt_trichotomy (calls i).delta 0 with hneg | hzero | hpos
    · rw [if_pos ⟨rfl, hneg⟩, if_neg (by omega), usageAfter_insert hshrunk_not]
      simp only [usageAfter] at hupper
      omega
    · rw [if_neg (by omega), if_neg (by omega), hzero]
      simp only [usageAfter] at hupper ⊢
      omega
    · rw [if_neg (by omega), if_pos ⟨rfl, hpos⟩, Finset.sum_insert hgrown_not]
      simp only [usageAfter] at hupper ⊢
      omega
  · have hfits : usageAfter calls company (shrunkBy calls c) + (calls j).delta ≤
        company.maxBytes := by
      by_cases hne : j = i
      · subst hne
        exact h.fits j hpassed hgrows
      · rw [set_clients_of_ne c hne] at hj
        exact h.fits j hj hgrows
    omega

theorem Accounted.statement (h : Accounted calls company c) (hlocked : Locked calls c)
    (hcap : 0 < company.maxBytes) {s : QuotaRow} {p : Progress}
    (hstep : Statement (calls i) c.shared (c.clients i) s p) :
    Accounted calls company (c.set i s p) := by
  have hfits : Passed (c.clients i) → 0 < (calls i).delta →
      usageAfter calls company (shrunkBy calls c) + (calls i).delta ≤ company.maxBytes :=
    h.fits i
  generalize hrow : c.shared = row at hstep
  generalize hat : c.clients i = q at hstep hfits
  cases hstep with
  | check admits =>
      refine h.of_uncommitted (by simp [hat]) (by simp) (by rw [hrow]) fun _ hgrows => ?_
      exact h.fits_of_admits hcap hgrows (by rwa [hrow])
  | insert | update | clamp =>
      refine h.of_uncommitted (by simp [hat]) (by simp) (by rw [hrow]) fun _ => hfits ?_
      simp [Passed]
  | @commit before written =>
      have hheld := hlocked.written i (.inr hat)
      rw [hrow, hat] at hheld
      have hwritten : written = (before.add (calls i).delta).clamp := Option.some.inj hheld
      refine h.of_committed (by simp [hat]) (by simp [Passed, hat]) ?_ ?_
      · rw [hrow, hwritten]
        rfl
      · rw [hrow, hwritten]
        rfl
  | commitUncounted uncounted =>
      refine h.of_committed (by simp [hat]) (by simp [Passed, hat]) (by rw [hrow]) ?_
      rw [uncounted, add_zero, max_eq_right h.nonneg, hrow]
  | fail unlocked =>
      refine h.of_uncommitted ?_ (by simp) (by rw [hrow]) fun hpassed => ?_
      · rw [hat]
        rintro rfl
        simp at unlocked
      · simp [Passed] at hpassed
  | rollBack locked =>
      refine h.of_uncommitted ?_ (by simp) (by rw [hrow]) fun hpassed => ?_
      · rw [hat]
        rintro rfl
        simp at locked
      · simp [Passed] at hpassed

theorem CallsRun.accounted (hcap : 0 < company.maxBytes) (hfloor : 0 ≤ company.usedBytes)
    (h : CallsRun calls (beforeCalls company) c) : Accounted calls company c := by
  have hboth : Locked calls c ∧ Accounted calls company c := by
    refine Interleaved.Run.invariant (P := fun c => Locked calls c ∧ Accounted calls company c)
      (fun hc hstep => ⟨hc.1.statement hstep, hc.2.statement hc.1 hcap hstep⟩)
      ⟨⟨?_, ?_⟩, accounted_beforeCalls hfloor⟩ h
    · intro i hi
      simp [Holds, beforeCalls] at hi
    · intro i j hi
      simp [Holds, beforeCalls] at hi
  exact hboth.2

/-- After any of the calls that shrink, those that each fit also fit together. -/
def FitTogether (calls : ι → Call) (company : CompanyQuota) : Prop :=
  ∀ shrunk : Finset ι, (∀ i ∈ shrunk, (calls i).delta < 0) →
    usageAfter calls company shrunk +
        ∑ i ∈ fitting calls company (usageAfter calls company shrunk), (calls i).delta ≤
      company.maxBytes

theorem usedBytes_le_of_fitTogether (hfit : FitTogether calls company)
    (hcap : 0 < company.maxBytes) (hfloor : 0 ≤ company.usedBytes)
    (h : CallsRun calls (beforeCalls company) c) :
    c.shared.committed.usedBytes ≤ company.maxBytes := by
  have hc := h.accounted hcap hfloor
  have hsubset : grownBy calls c ⊆
      fitting calls company (usageAfter calls company (shrunkBy calls c)) := by
    intro i hi
    obtain ⟨-, hcommitted, hgrows⟩ := Finset.mem_filter.mp hi
    refine Finset.mem_filter.mpr ⟨Finset.mem_univ i, hgrows, hc.fits i ?_ hgrows⟩
    simp [Passed, hcommitted]
  have hsum := Finset.sum_le_sum_of_subset_of_nonneg (f := fun i => (calls i).delta) hsubset
    fun i hi _ => (Finset.mem_filter.mp hi).2.1.le
  have hupper := hc.upper
  have hbound := hfit (shrunkBy calls c) fun i hi => (Finset.mem_filter.mp hi).2.2
  omega

/-! ## The worst order -/

theorem charged_eq (company : CompanyQuota) {used : Int} (hfloor : 0 ≤ used) (delta : Int) :
    { company with usedBytes := used }.charged delta =
      { company with usedBytes := max 0 (used + delta) } := by
  by_cases hdelta : delta = 0
  · simp [CompanyQuota.charged, hdelta, hfloor]
  · simp [CompanyQuota.charged, hdelta, CompanyQuota.add, CompanyQuota.clamp]

def charge (calls : ι → Call) (row : QuotaRow) (i : ι) : QuotaRow :=
  ⟨row.committed.charged (calls i).delta, none⟩

omit [DecidableEq ι] [Fintype ι] in
theorem foldl_charge_shrinking (company : CompanyQuota) {is : List ι}
    (hshrink : ∀ i ∈ is, (calls i).delta < 0) {used : Int} (hfloor : 0 ≤ used) :
    is.foldl (charge calls) ⟨{ company with usedBytes := used }, none⟩ =
      ⟨{ company with usedBytes := max 0 (used + (is.map fun i => (calls i).delta).sum) },
        none⟩ := by
  induction is generalizing used with
  | nil => simp [hfloor]
  | cons i is ih =>
      rw [List.forall_mem_cons] at hshrink
      have hsum : (is.map fun i => (calls i).delta).sum ≤ 0 :=
        (List.sum_le_sum fun j hj => (hshrink.2 j hj).le).trans (by simp)
      have hmax : max 0 (max 0 (used + (calls i).delta) +
          (is.map fun i => (calls i).delta).sum) =
          max 0 (used + ((i :: is).map fun i => (calls i).delta).sum) := by
        rw [List.map_cons, List.sum_cons]
        omega
      rw [List.foldl_cons, charge, charged_eq company hfloor, ih hshrink.2 (le_max_left ..), hmax]

omit [DecidableEq ι] [Fintype ι] in
theorem foldl_charge_growing (company : CompanyQuota) {is : List ι}
    (hgrow : ∀ i ∈ is, 0 < (calls i).delta) {used : Int} (hfloor : 0 ≤ used) :
    is.foldl (charge calls) ⟨{ company with usedBytes := used }, none⟩ =
      ⟨{ company with usedBytes := used + (is.map fun i => (calls i).delta).sum }, none⟩ := by
  induction is generalizing used with
  | nil => simp
  | cons i is ih =>
      rw [List.forall_mem_cons] at hgrow
      have hmax : max 0 (used + (calls i).delta) = used + (calls i).delta :=
        max_eq_right (by omega)
      rw [List.foldl_cons, charge, charged_eq company hfloor, hmax, ih hgrow.2 (by omega),
        add_assoc, List.map_cons, List.sum_cons]

omit [Fintype ι] in
/-- Some calls that shrink commit before all others have started. -/
theorem run_shrink (hfloor : 0 ≤ company.usedBytes) {shrunk : Finset ι}
    (hshrink : ∀ i ∈ shrunk, (calls i).delta < 0) :
    CallsRun calls (beforeCalls company)
      ⟨⟨{ company with usedBytes := usageAfter calls company shrunk }, none⟩,
        fun i => if i ∈ shrunk then .committed else .started⟩ := by
  have hlist : ∀ i ∈ shrunk.toList, (calls i).delta < 0 := fun i hi =>
    hshrink i (Finset.mem_toList.mp hi)
  have hrun : CallsRun calls (beforeCalls company) _ :=
    run_each shrunk.nodup_toList .started .committed (fun i row => charge calls row i)
      (fun row => row.written = none) rfl (fun _ _ => rfl)
      (fun i hi row hrow => by
        obtain ⟨q, written⟩ := row
        obtain rfl : written = none := hrow
        exact alone_of_admits (.inl (hlist i hi).le))
      fun _ _ _ _ => rfl
  have hfold := foldl_charge_shrinking company hlist hfloor
  rw [Finset.sum_map_toList] at hfold
  simpa [beforeCalls, usageAfter, hfold] using hrun

omit [Fintype ι] in
/-- Calls that each fit pass their checks before the first of them commits. -/
theorem run_fitting {used : Int} (hfloor : 0 ≤ used)
    (hshared : c.shared = ⟨{ company with usedBytes := used }, none⟩) {T : Finset ι}
    (hstarted : ∀ i ∈ T, c.clients i = .started)
    (hfit : ∀ i ∈ T, 0 < (calls i).delta ∧ used + (calls i).delta ≤ company.maxBytes) :
    CallsRun calls c
      ⟨⟨{ company with usedBytes := used + ∑ i ∈ T, (calls i).delta }, none⟩,
        fun i => if i ∈ T then .committed else c.clients i⟩ := by
  have hlist : ∀ i ∈ T.toList, 0 < (calls i).delta ∧
      used + (calls i).delta ≤ company.maxBytes := fun i hi => hfit i (Finset.mem_toList.mp hi)
  have hchecks : CallsRun calls c _ :=
    run_each T.nodup_toList .started .checked (fun _ row => row)
      (fun row => row = ⟨{ company with usedBytes := used }, none⟩) hshared
      (fun i hi => hstarted i (Finset.mem_toList.mp hi))
      (fun i hi row hrow => by
        subst hrow
        refine .next (.check (.inr ?_)) (.refl _ _)
        have hle := (hlist i hi).2
        simp only [not_and, not_lt]
        exact fun _ => hle)
      fun _ _ _ hrow => hrow
  rw [List.foldl_fixed, hshared] at hchecks
  have hcommits : CallsRun calls ⟨⟨{ company with usedBytes := used }, none⟩,
      fun i => if i ∈ T.toList then .checked else c.clients i⟩ _ :=
    run_each T.nodup_toList .checked .committed (fun i row => charge calls row i)
      (fun row => row.written = none) rfl (fun i hi => if_pos hi)
      (fun i _ row hrow => by
        obtain ⟨q, written⟩ := row
        obtain rfl : written = none := hrow
        exact alone_of_checked q)
      fun _ _ _ _ => rfl
  have hfold := foldl_charge_growing company (fun i hi => (hlist i hi).1) hfloor
  rw [Finset.sum_map_toList] at hfold
  have hclients : (fun i => if i ∈ T.toList then Progress.committed
      else if i ∈ T.toList then .checked else c.clients i) =
      fun i => if i ∈ T then .committed else c.clients i := by
    funext i
    by_cases hi : i ∈ T <;> simp [hi]
  rw [hfold, hclients] at hcommits
  exact hchecks.trans hcommits

theorem run_failing (c : Interleaved ι QuotaRow Progress) :
    CallsRun calls c ⟨c.shared,
      fun i => if c.clients i = .started then .failed else c.clients i⟩ := by
  have hrun : CallsRun calls c _ :=
    run_each (Finset.univ.filter fun i => c.clients i = .started).nodup_toList .started .failed
      (fun _ row => row) (fun _ => True) trivial (fun i hi => by simpa using hi)
      (fun _ _ row _ => .next (.fail (.inl rfl)) (.refl row _)) fun _ _ _ _ => trivial
  rw [List.foldl_fixed] at hrun
  simpa using hrun

theorem fitTogether_of_bounded (hfloor : 0 ≤ company.usedBytes)
    (h : ∀ c, CallsRun calls (beforeCalls company) c → (∀ i, (c.clients i).Ended) →
      c.shared.committed.usedBytes ≤ company.maxBytes) : FitTogether calls company := by
  intro shrunk hshrink
  have hshrunk := run_shrink hfloor hshrink
  let fit := fitting calls company (usageAfter calls company shrunk)
  have hdisjoint : ∀ i ∈ fit, i ∉ shrunk := fun i hi hmem => by
    have hgrows := (Finset.mem_filter.mp hi).2.1
    have hshrinks := hshrink i hmem
    omega
  have hfit : CallsRun calls ⟨⟨{ company with usedBytes := usageAfter calls company shrunk },
      none⟩, fun i => if i ∈ shrunk then .committed else .started⟩ _ :=
    run_fitting (le_max_left ..) rfl (fun i hi => if_neg (hdisjoint i hi))
      fun i hi => (Finset.mem_filter.mp hi).2
  refine h _ ((hshrunk.trans hfit).trans (run_failing _)) fun i => ?_
  by_cases hi : i ∈ fit
  · exact .inl (by simp [fit, hi])
  · by_cases hs : i ∈ shrunk
    · exact .inl (by simp [hs])
    · exact .inr (by simp [fit, hi, hs])

/--
However the calls are interleaved, the counter is at most the cap in the end if
and only if the calls that each fit also fit together.
-/
theorem usedBytes_le_iff (calls : ι → Call) (hcap : 0 < company.maxBytes)
    (hfloor : 0 ≤ company.usedBytes) :
    (∀ c, CallsRun calls (beforeCalls company) c → (∀ i, (c.clients i).Ended) →
      c.shared.committed.usedBytes ≤ company.maxBytes) ↔ FitTogether calls company :=
  ⟨fitTogether_of_bounded hfloor, fun hfit _ hrun _ =>
    usedBytes_le_of_fitTogether hfit hcap hfloor hrun⟩

instance (calls : ι → Call) (company : CompanyQuota) : Decidable (FitTogether calls company) :=
  inferInstanceAs (Decidable (∀ _, _))

def hundredBytes : CompanyQuota := ⟨100, 0, none⟩

theorem usedBytes_le_iff_halves :
    FitTogether (fun _ : Fin 2 => ⟨50, 0⟩) hundredBytes ∧
      ∀ c, CallsRun (fun _ : Fin 2 => ⟨50, 0⟩) (beforeCalls hundredBytes) c →
        (∀ i, (c.clients i).Ended) → c.shared.committed.usedBytes ≤ hundredBytes.maxBytes := by
  have hfit : FitTogether (fun _ : Fin 2 => ⟨50, 0⟩) hundredBytes := by decide
  exact ⟨hfit, (usedBytes_le_iff _ (by decide) (by decide)).mpr hfit⟩

/-- Two uploads of sixty bytes each pass the check while nothing is stored. -/
theorem not_usedBytes_le :
    ¬∀ (n : Nat) (calls : Fin n → Call) (company : CompanyQuota), 0 < company.maxBytes →
      0 ≤ company.usedBytes → company.usedBytes ≤ company.maxBytes →
      ∀ c, CallsRun calls (beforeCalls company) c → (∀ i, (c.clients i).Ended) →
        c.shared.committed.usedBytes ≤ company.maxBytes := by
  intro h
  have hfit : FitTogether (fun _ : Fin 2 => ⟨60, 0⟩) hundredBytes :=
    fitTogether_of_bounded (by decide)
      (h 2 (fun _ => ⟨60, 0⟩) hundredBytes (by decide) (by decide) (by decide))
  revert hfit
  decide

end StorageService.Results
