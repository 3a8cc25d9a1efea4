import Mathlib.Algebra.BigOperators.Group.List.Basic
import StorageService.Storage.Counters

/-!
# The counter of a company

Operations adjust the counter in the row, so none of them loses what another
has counted.  `quota.save()` writes the counter back as it was read, so an edit
loses what was committed since.
-/

namespace StorageService.Results

open StorageService.Foundation
open StorageService.Storage

def usedBytes (row : Option CompanyQuota) : Int := (row.map CompanyQuota.usedBytes).getD 0

section Counters

variable {ι κ : Type} {env : Env} {deltas : ι → List Int} {row : Option CompanyQuota}
  {start : Int} {i : ι}

def committedSum (deltas : ι → List Int) (s : CounterState ι κ) : Int :=
  (s.counted.map fun i => (deltas i).sum).sum

/-- With the next delta of an operation, the files that were counted are not less than
nothing: a deletion is of a file that was counted before. -/
def NeverNegative (deltas : ι → List Int) (start : Int) (s : CounterState ι κ) :
    CounterAction ι κ → Prop
  | .add i => ∀ delta left, s.operations i = .adding (delta :: left) →
      0 ≤ start + committedSum deltas s + ((deltas i).sum - left.sum)
  | _ => True

/-- A save finds the counter as the edit has read it. -/
def SavesWhatItRead (s : CounterState ι κ) : CounterAction ι κ → Prop
  | .save k _ => ∀ quota, s.edits k = .read quota → quota.usedBytes = usedBytes s.row
  | _ => True

variable [DecidableEq ι]

/-- The counter is exact, and the holder of the lock is ahead by what it has added. -/
structure Exact (deltas : ι → List Int) (start : Int) (s : CounterState ι κ) : Prop where
  counter : usedBytes s.row = start + committedSum deltas s
  ahead : ∀ i left, (s.operations i).left? = some left →
    usedBytes (s.visible i) = usedBytes s.row + ((deltas i).sum - left.sum)
  floor : ∀ i left, s.operations i = .clamping left →
    ∃ quota, s.written = some (i, quota) ∧ 0 ≤ quota.usedBytes
  holder : ∀ i quota, s.written = some (i, quota) → ∃ left, (s.operations i).left? = some left

variable {s s' : CounterState ι κ}

theorem exact_beforeOperations :
    Exact deltas (usedBytes row) (beforeOperations row : CounterState ι κ) where
  counter := by simp [beforeOperations, committedSum]
  ahead i left h := by simp [beforeOperations, Counting.left?] at h
  floor i left h := by simp [beforeOperations] at h
  holder i quota h := by simp [beforeOperations] at h

theorem Exact.sum_of_not_holder (h : Exact deltas start s) {left : List Int}
    (hleft : (s.operations i).left? = some left) (hview : s.visible i = s.row) :
    (deltas i).sum = left.sum := by
  have hahead := h.ahead i left hleft
  rw [hview] at hahead
  omega

theorem Exact.of_operation (h : Exact deltas start s)
    (hoperations : ∀ j, j ≠ i → s'.operations j = s.operations j)
    (hview : ∀ j, j ≠ i → usedBytes (s'.visible j) - usedBytes s'.row =
      usedBytes (s.visible j) - usedBytes s.row)
    (hheld : ∀ j, j ≠ i → ∀ quota, s'.written = some (j, quota) ↔ s.written = some (j, quota))
    (hcounter : usedBytes s'.row = start + committedSum deltas s')
    (hahead : ∀ left, (s'.operations i).left? = some left →
      usedBytes (s'.visible i) = usedBytes s'.row + ((deltas i).sum - left.sum))
    (hfloor : ∀ left, s'.operations i = .clamping left →
      ∃ quota, s'.written = some (i, quota) ∧ 0 ≤ quota.usedBytes)
    (hholder : ∀ quota, s'.written = some (i, quota) →
      ∃ left, (s'.operations i).left? = some left) : Exact deltas start s' where
  counter := hcounter
  ahead := by
    intro j left hleft
    by_cases hj : j = i
    · subst hj
      exact hahead left hleft
    · rw [hoperations j hj] at hleft
      have hbefore := h.ahead j left hleft
      have hsame := hview j hj
      omega
  floor := by
    intro j left hclamping
    by_cases hj : j = i
    · subst hj
      exact hfloor left hclamping
    · rw [hoperations j hj] at hclamping
      obtain ⟨quota, hwritten, hpos⟩ := h.floor j left hclamping
      exact ⟨quota, (hheld j hj quota).mpr hwritten, hpos⟩
  holder := by
    intro j quota hwritten
    by_cases hj : j = i
    · subst hj
      exact hholder quota hwritten
    · rw [hoperations j hj]
      exact h.holder j quota ((hheld j hj quota).mp hwritten)

theorem Exact.of_running (h : Exact deltas start s) {counting : Counting} {left : List Int}
    (hrow : s'.row = s.row) (hcounted : s'.counted = s.counted)
    (hoperations : s'.operations = Function.update s.operations i counting)
    (hheld : ∀ j, j ≠ i → ∀ quota, s'.written = some (j, quota) ↔ s.written = some (j, quota))
    (hleft : counting.left? = some left)
    (hahead : usedBytes (s'.visible i) = usedBytes s.row + ((deltas i).sum - left.sum))
    (hfloor : counting = .clamping left →
      ∃ quota, s'.written = some (i, quota) ∧ 0 ≤ quota.usedBytes) : Exact deltas start s' := by
  have hown : s'.operations i = counting := by rw [hoperations, Function.update_self]
  have hsum : committedSum deltas s' = committedSum deltas s := by
    rw [committedSum, hcounted]
    rfl
  refine h.of_operation (fun j hj => ?_) (fun j hj => ?_) hheld ?_ (fun rest hrest => ?_)
    (fun rest hrest => ?_) (fun quota _ => ?_)
  · rw [hoperations, Function.update_of_ne hj]
  · rw [CounterState.visible_congr hrow (hheld j hj), hrow]
  · rw [hrow, hsum]
    exact h.counter
  · rw [hown, hleft] at hrest
    cases hrest
    rw [hrow]
    exact hahead
  · rw [hown] at hrest
    subst hrest
    cases hleft
    exact hfloor rfl
  · exact ⟨left, by rw [hown, hleft]⟩

theorem Exact.of_ended (h : Exact deltas start s) {counting : Counting}
    (hoperations : s'.operations = Function.update s.operations i counting)
    (hended : counting.left? = none) (hwritten : s'.written = (s.release i).written)
    (hrow : s'.row = s.visible i ∨ s'.row = s.row)
    (hcounter : usedBytes s'.row = start + committedSum deltas s') : Exact deltas start s' := by
  have hown : s'.operations i = counting := by rw [hoperations, Function.update_self]
  have hheld : ∀ j, j ≠ i → ∀ quota,
      s'.written = some (j, quota) ↔ s.written = some (j, quota) := by
    intro j hj quota
    rw [hwritten]
    exact CounterState.written_release_of_ne hj quota
  refine h.of_operation (fun j hj => ?_) (fun j hj => ?_) hheld hcounter (fun left hleft => ?_)
    (fun left hclamping => ?_) (fun quota hholds => ?_)
  · rw [hoperations, Function.update_of_ne hj]
  · by_cases hholder : ∃ quota, s.written = some (j, quota)
    · -- the operation that ends has not written the row
      have hother : s.visible i = s.row := by
        obtain ⟨quota, hquota⟩ := hholder
        refine CounterState.visible_of_not_holder ?_
        rintro ⟨other, hi⟩
        rw [hquota] at hi
        cases hi
        exact hj rfl
      have hsame : s'.row = s.row := hrow.elim (·.trans hother) id
      rw [CounterState.visible_congr hsame (hheld j hj), hsame]
    · rw [CounterState.visible_of_not_holder hholder, CounterState.visible_of_not_holder]
      · ring
      · rintro ⟨quota, hquota⟩
        exact hholder ⟨quota, (hheld j hj quota).mp hquota⟩
  · rw [hown, hended] at hleft
    contradiction
  · rw [hown] at hclamping
    subst hclamping
    contradiction
  · rw [hwritten] at hholds
    exact absurd hholds (CounterState.written_release_self i quota)

theorem Exact.of_edit (h : Exact deltas start s) (hfree : s.written = none)
    (hrow : usedBytes s'.row = usedBytes s.row) (hcounted : s'.counted = s.counted)
    (hoperations : s'.operations = s.operations) (hfree' : s'.written = none) :
    Exact deltas start s' where
  counter := by
    rw [hrow, h.counter, committedSum, committedSum, hcounted]
  ahead := by
    intro i left hleft
    rw [hoperations] at hleft
    have hahead := h.ahead i left hleft
    rw [CounterState.visible_of_free hfree] at hahead
    rw [CounterState.visible_of_free hfree', hrow]
    exact hahead
  floor := by
    intro i left hclamping
    rw [hoperations] at hclamping
    obtain ⟨quota, hwritten, -⟩ := h.floor i left hclamping
    rw [hfree] at hwritten
    contradiction
  holder := by
    intro i quota hwritten
    rw [hfree'] at hwritten
    contradiction

variable [DecidableEq κ] {a : CounterAction ι κ}

theorem Exact.step (h : Exact deltas start s) (hnever : NeverNegative deltas start s a)
    (hsaves : SavesWhatItRead s a) (hstep : (counters env deltas).step s a = some s') :
    Exact deltas start s' := by
  cases counterChange_of_step hstep with
  | started i before after =>
      have hfree : ¬∃ quota, s.written = some (i, quota) := by
        rintro ⟨quota, hwritten⟩
        obtain ⟨left, hleft⟩ := h.holder i quota hwritten
        simp [before, Counting.left?] at hleft
      subst after
      refine h.of_running (i := i) rfl rfl rfl (fun _ _ _ => Iff.rfl) rfl ?_ (by simp)
      rw [CounterState.visible_of_not_holder (by exact hfree)]
      simp [CounterState.setOperation]
  | found i after =>
      subst after
      exact h
  | created i left before absent free after =>
      have hsum := h.sum_of_not_holder (by rw [before]; rfl) (CounterState.visible_of_free free i)
      subst after
      refine h.of_running (i := i) rfl rfl (Function.update_eq_self i _).symm
        (fun j hj quota => ?_) (by rw [before]; rfl) ?_ (by simp [before])
      · simp [free, Ne.symm hj]
      · rw [CounterState.visible_of_holder rfl, hsum, absent]
        simp [usedBytes, defaultCompanyQuota]
  | skipped i left before after =>
      have hahead := h.ahead i (0 :: left) (by rw [before]; rfl)
      subst after
      refine h.of_running (i := i) rfl rfl rfl (fun _ _ _ => Iff.rfl) rfl ?_ (by simp)
      rw [List.sum_cons, zero_add] at hahead
      exact hahead
  | added i delta left quota before free row after =>
      have hahead := h.ahead i (delta :: left) (by rw [before]; rfl)
      have hpos := hnever delta left before
      rw [row, List.sum_cons, h.counter] at hahead
      subst after
      refine h.of_running (i := i) rfl rfl rfl (fun j hj other => ?_) rfl ?_ fun _ => ?_
      · have hfree : s.written ≠ some (j, other) := by
          intro hwritten
          simp [CounterState.blocks, hwritten, hj] at free
        simp [hfree, Ne.symm hj]
      · rw [CounterState.visible_of_holder rfl, h.counter]
        simp only [usedBytes, Option.map_some, Option.getD_some, CompanyQuota.add] at hahead ⊢
        omega
      · refine ⟨_, rfl, ?_⟩
        simp only [usedBytes, Option.map_some, Option.getD_some, CompanyQuota.add] at hahead ⊢
        omega
  | clamped i left quota before held after =>
      have hahead := h.ahead i left (by rw [before]; rfl)
      obtain ⟨other, hother, hpos⟩ := h.floor i left before
      rw [held] at hother
      cases hother
      have hsame : quota.clamp = quota := by
        rw [CompanyQuota.clamp, max_eq_right hpos]
      rw [CounterState.visible_of_holder held] at hahead
      subst after
      refine h.of_running (i := i) rfl rfl rfl (fun j hj other => ?_) rfl ?_ (by simp)
      · simp [held, Ne.symm hj]
      · rw [CounterState.visible_of_holder rfl, hsame]
        exact hahead
  | committed i before after =>
      have hahead := h.ahead i [] (by rw [before]; rfl)
      have hcounter := h.counter
      subst after
      refine h.of_ended (i := i) rfl rfl rfl (.inl rfl) ?_
      simp only [committedSum, List.map_cons, List.sum_cons, List.sum_nil] at hahead hcounter ⊢
      omega
  | failed i after =>
      subst after
      exact h.of_ended (i := i) rfl rfl rfl (.inr rfl) h.counter
  | read k quota row after =>
      subst after
      exact ⟨h.counter, h.ahead, h.floor, h.holder⟩
  | readCreated k absent free after =>
      subst after
      refine h.of_edit free ?_ rfl rfl free
      simp [absent, usedBytes, defaultCompanyQuota]
  | saved k data quota before free after =>
      have hread := hsaves quota before
      subst after
      refine h.of_edit free ?_ rfl rfl free
      rw [← hread]
      rfl
  | abandoned k after =>
      subst after
      exact ⟨h.counter, h.ahead, h.floor, h.holder⟩

/-- The counter is exact after a save just when the edit has read what it was. -/
theorem Exact.counter_save_iff (h : Exact deltas start s) {k : κ} {data : QuotaUpdate}
    (hstep : (counters env deltas).step s (.save k data) = some s') :
    usedBytes s'.row = start + committedSum deltas s' ↔ SavesWhatItRead s (.save k data) := by
  cases counterChange_of_step hstep with
  | saved k data quota before free after =>
      have hcounter := h.counter
      subst after
      simp only [SavesWhatItRead, before, Edit.read.injEq, forall_eq']
      rw [hcounter]
      exact Iff.rfl

/-- While edits save the counter they find, it counts what has committed. -/
theorem usedBytes_of_run {as : List (CounterAction ι κ)}
    (hnever : (counters env deltas).Meets (NeverNegative deltas (usedBytes row))
      (beforeOperations row) as)
    (hsaves : (counters env deltas).Meets SavesWhatItRead (beforeOperations row) as)
    (hrun : (counters env deltas).run (beforeOperations row) as = some s) :
    usedBytes s.row = usedBytes row + committedSum deltas s := by
  have hexact : Exact deltas (usedBytes row) s :=
    Machine.invariant_of_meets (fun h hmeets hstep => h.step hmeets.1 hmeets.2 hstep)
      (Machine.meets_and hnever hsaves) hrun exact_beforeOperations
  exact hexact.counter

end Counters

def AllFinished {ι κ : Type} (s : CounterState ι κ) : Prop :=
  (∀ i, s.operations i = .committed ∨ s.operations i = .failed) ∧ ∀ k, s.edits k = .ended

def sampleDeltas : Unit → List Int := fun _ => [5, -2]

def sampleRow : CompanyQuota := ⟨100, 0, none⟩

def editedFirst : List (CounterAction Unit Unit) :=
  [.start (), .read (), .save () ⟨some 50, none⟩, .add (), .clamp (), .add (), .clamp (),
    .commit ()]

def editedAcross : List (CounterAction Unit Unit) :=
  [.start (), .read (), .add (), .clamp (), .add (), .clamp (), .commit (),
    .save () ⟨some 50, none⟩]

def sampleEnd (used : Int) : CounterState Unit Unit :=
  ⟨some ⟨50, used, none⟩, none, fun _ => .committed, fun _ => .ended, [()]⟩

theorem neverNegative_sample {s : CounterState Unit Unit} {as : List (CounterAction Unit Unit)}
    (hoperation : s.operations () = .adding [5, -2]) (hcounted : s.counted = [])
    (hrest : ∀ a ∈ as, ∀ s, NeverNegative sampleDeltas 0 s a) :
    (counters (sampleEnv false) sampleDeltas).Meets (NeverNegative sampleDeltas 0) s
      (.add () :: .clamp () :: .add () :: as) := by
  have hadd : ∀ {s₁ : CounterState Unit Unit} {delta : Int} {left : List Int},
      s₁.counted = [] → s₁.operations () = .adding (delta :: left) → left.sum ≤ 3 →
      NeverNegative sampleDeltas 0 s₁ (.add ()) := by
    intro s₁ delta left hcounted₁ hoperation₁ hle delta' left' h
    rw [hoperation₁] at h
    cases h
    simp only [committedSum, hcounted₁, sampleDeltas, List.map_nil, List.sum_nil, List.sum_cons]
    omega
  refine ⟨hadd hcounted hoperation (by decide), fun s₁ h₁ => ⟨trivial, fun s₂ h₂ => ?_⟩⟩
  obtain ⟨hcounted₁, hoperation₁⟩ : s₁.counted = [] ∧ s₁.operations () = .clamping [-2] := by
    cases counterChange_of_step h₁ with
    | skipped i left before after =>
        rw [hoperation] at before
        cases before
    | added i delta left quota before free row after =>
        rw [hoperation] at before
        cases before
        subst after
        exact ⟨hcounted, by simp [CounterState.setOperation]⟩
  obtain ⟨hcounted₂, hoperation₂⟩ : s₂.counted = [] ∧ s₂.operations () = .adding [-2] := by
    cases counterChange_of_step h₂ with
    | clamped i left quota before held after =>
        rw [hoperation₁] at before
        cases before
        subst after
        exact ⟨hcounted₁, by simp [CounterState.setOperation]⟩
  exact ⟨hadd hcounted₂ hoperation₂ (by decide),
    fun s₃ _ => Machine.meets_of_forall fun a ha s => hrest a ha s⟩

theorem usedBytes_of_run_editedFirst :
    (counters (sampleEnv false) sampleDeltas).run (beforeOperations (some sampleRow))
        editedFirst = some (sampleEnd 3) ∧ AllFinished (sampleEnd 3) ∧
      usedBytes (sampleEnd 3).row =
        usedBytes (some sampleRow) + committedSum sampleDeltas (sampleEnd 3) := by
  have hrun : (counters (sampleEnv false) sampleDeltas).run (beforeOperations (some sampleRow))
      editedFirst = some (sampleEnd 3) := rfl
  refine ⟨hrun, ⟨fun _ => .inl rfl, fun _ => rfl⟩, usedBytes_of_run ?_ ?_ hrun⟩
  · refine Machine.meets_cons trivial rfl (Machine.meets_cons trivial rfl
      (Machine.meets_cons trivial rfl (neverNegative_sample rfl rfl ?_)))
    simp [NeverNegative]
  · refine Machine.meets_cons trivial rfl (Machine.meets_cons trivial rfl
      (Machine.meets_cons ?_ rfl (Machine.meets_of_forall ?_)))
    · rintro quota ⟨⟩
      rfl
    · simp [SavesWhatItRead]

theorem usedBytes_false :
    (counters (sampleEnv false) sampleDeltas).run (beforeOperations (some sampleRow))
        editedAcross = some (sampleEnd 0) ∧ AllFinished (sampleEnd 0) ∧
      (counters (sampleEnv false) sampleDeltas).Meets
        (NeverNegative sampleDeltas (usedBytes (some sampleRow)))
        (beforeOperations (some sampleRow)) editedAcross ∧
      usedBytes (sampleEnd 0).row ≠
        usedBytes (some sampleRow) + committedSum sampleDeltas (sampleEnd 0) := by
  refine ⟨rfl, ⟨fun _ => .inl rfl, fun _ => rfl⟩, ?_, by decide⟩
  refine Machine.meets_cons trivial rfl (Machine.meets_cons trivial rfl
    (neverNegative_sample rfl rfl ?_))
  simp [NeverNegative]

end StorageService.Results
