import Mathlib.Data.List.MinMax
import Mathlib.Data.Prod.Lex

/-!
# Ranked rules

A finite list of rules is asked about a request.  Only the rules of the highest
rank are heard: one refusal among them refuses, else one permission permits,
else a rule that wanted to permit but is too weak refuses, and if all of them
are silent a default answers.  Ranks are taken from an arbitrary linear order.
-/

namespace StorageService.Foundation

inductive Verdict where
  | refuse
  | permit
  | weak
  | silent
  deriving DecidableEq, Repr

section Ruling

variable {ρ κ : Type} [LinearOrder κ] (rank : ρ → κ) (verdict : ρ → Verdict)
  (otherwise : Bool)

def top (rules : List ρ) : List ρ :=
  rules.filter fun r => rules.all fun s => decide (rank s ≤ rank r)

def ruling (rules : List ρ) : Bool :=
  if (top rank rules).any (fun r => verdict r == .refuse) then false
  else if (top rank rules).any (fun r => verdict r == .permit) then true
  else if (top rank rules).any (fun r => verdict r == .weak) then false
  else otherwise

variable {rank verdict otherwise}

theorem mem_top {rules : List ρ} {r : ρ} :
    r ∈ top rank rules ↔ r ∈ rules ∧ ∀ s ∈ rules, rank s ≤ rank r := by
  simp [top]

theorem exists_top (rank : ρ → κ) {rules : List ρ} {s : ρ} (hs : s ∈ rules) :
    ∃ r ∈ top rank rules, rank s ≤ rank r := by
  cases hmax : rules.argmax rank with
  | none =>
      rw [List.argmax_eq_none] at hmax
      simp [hmax] at hs
  | some r =>
      have hle : ∀ t ∈ rules, rank t ≤ rank r := fun t ht =>
        List.le_of_mem_argmax ht hmax
      exact ⟨r, mem_top.mpr ⟨List.argmax_mem hmax, hle⟩, hle s hs⟩

theorem ruling_eq_true_iff {rules : List ρ} :
    ruling rank verdict otherwise rules = true ↔
      (∀ r ∈ top rank rules, verdict r ≠ .refuse) ∧
        ((∃ r ∈ top rank rules, verdict r = .permit) ∨
          (∀ r ∈ top rank rules, verdict r = .silent) ∧ otherwise = true) := by
  unfold ruling
  split
  · rename_i hrefuse
    obtain ⟨r, hr, hverdict⟩ := List.any_eq_true.mp hrefuse
    constructor
    · intro h
      contradiction
    · rintro ⟨hno, -⟩
      exact absurd (by simpa using hverdict) (hno r hr)
  · rename_i hrefuse
    have hno : ∀ r ∈ top rank rules, verdict r ≠ .refuse := by
      simpa using hrefuse
    split
    · rename_i hpermit
      have hsome : ∃ r ∈ top rank rules, verdict r = .permit := by
        simpa using hpermit
      exact ⟨fun _ => ⟨hno, .inl hsome⟩, fun _ => rfl⟩
    · rename_i hpermit
      have hnone : ¬∃ r ∈ top rank rules, verdict r = .permit := by
        simpa using hpermit
      split
      · rename_i hweak
        obtain ⟨r, hr, hverdict⟩ := List.any_eq_true.mp hweak
        constructor
        · intro h
          contradiction
        · rintro ⟨-, hsome | ⟨hsilent, -⟩⟩
          · exact absurd hsome hnone
          · rw [hsilent r hr] at hverdict
            contradiction
      · rename_i hweak
        constructor
        · intro h
          refine ⟨hno, .inr ⟨?_, h⟩⟩
          intro r hr
          cases hverdict : verdict r with
          | refuse => exact absurd hverdict (hno r hr)
          | permit => exact absurd ⟨r, hr, hverdict⟩ hnone
          | weak => exact absurd (List.any_eq_true.mpr ⟨r, hr, by simp [hverdict]⟩) hweak
          | silent => rfl
        · rintro ⟨-, hsome | ⟨-, h⟩⟩
          · exact absurd hsome hnone
          · exact h

theorem ruling_of_top {rules rules' : List ρ}
    (h : ∀ r, r ∈ top rank rules ↔ r ∈ top rank rules') :
    ruling rank verdict otherwise rules = ruling rank verdict otherwise rules' := by
  rw [Bool.eq_iff_iff, ruling_eq_true_iff, ruling_eq_true_iff]
  simp only [h]

/-- Neither the order of the rules nor repetitions matter. -/
theorem ruling_congr {rules rules' : List ρ} (h : ∀ r, r ∈ rules ↔ r ∈ rules') :
    ruling rank verdict otherwise rules = ruling rank verdict otherwise rules' := by
  apply ruling_of_top
  intro r
  simp only [mem_top, h]

theorem ruling_of_verdicts {rules rules' : List ρ}
    (h : ∀ v, (∃ r ∈ top rank rules, verdict r = v) ↔ ∃ r ∈ top rank rules', verdict r = v) :
    ruling rank verdict otherwise rules = ruling rank verdict otherwise rules' := by
  have hany : ∀ v, (top rank rules).any (fun r => verdict r == v) =
      (top rank rules').any fun r => verdict r == v := by
    intro v
    rw [Bool.eq_iff_iff]
    simpa using h v
  simp only [ruling, hany]

theorem ruling_of_rewritten {rules rules' : List ρ} {c : ρ → ρ}
    (hrules : ∀ r', r' ∈ rules' ↔ ∃ r ∈ rules, c r = r')
    (hrank : ∀ r ∈ rules, rank (c r) = rank r)
    (hverdict : ∀ r ∈ rules, verdict (c r) = verdict r) :
    ruling rank verdict otherwise rules' = ruling rank verdict otherwise rules := by
  have htop : ∀ r ∈ rules, c r ∈ top rank rules' ↔ r ∈ top rank rules := by
    intro r hr
    rw [mem_top, mem_top, hrank r hr]
    constructor
    · rintro ⟨-, hmax⟩
      refine ⟨hr, fun s hs => ?_⟩
      rw [← hrank s hs]
      exact hmax (c s) ((hrules _).mpr ⟨s, hs, rfl⟩)
    · rintro ⟨-, hmax⟩
      refine ⟨(hrules _).mpr ⟨r, hr, rfl⟩, fun s' hs' => ?_⟩
      obtain ⟨s, hs, rfl⟩ := (hrules s').mp hs'
      rw [hrank s hs]
      exact hmax s hs
  apply ruling_of_verdicts
  intro v
  constructor
  · rintro ⟨r', hr', rfl⟩
    obtain ⟨r, hr, rfl⟩ := (hrules r').mp (mem_top.mp hr').1
    exact ⟨r, (htop r hr).mp hr', (hverdict r hr).symm⟩
  · rintro ⟨r, hr, rfl⟩
    exact ⟨c r, (htop r (mem_top.mp hr).1).mpr hr, hverdict r (mem_top.mp hr).1⟩

theorem permitted_of_above {rules : List ρ} {d : ρ} (hd : d ∈ rules)
    (habove : ∀ r ∈ rules, rank d ≤ rank r → verdict r = .permit) :
    ruling rank verdict otherwise rules = true := by
  have hheard : ∀ r ∈ top rank rules, verdict r = .permit := fun r hr =>
    habove r (mem_top.mp hr).1 ((mem_top.mp hr).2 d hd)
  obtain ⟨r, hr, -⟩ := exists_top rank hd
  refine ruling_eq_true_iff.mpr ⟨fun s hs => ?_, .inl ⟨r, hr, hheard r hr⟩⟩
  rw [hheard s hs]
  exact Verdict.noConfusion

theorem refused_of_above {rules : List ρ} {d : ρ} (hd : d ∈ rules)
    (habove : ∀ r ∈ rules, rank d ≤ rank r → verdict r = .refuse) :
    ruling rank verdict otherwise rules = false := by
  obtain ⟨r, hr, hle⟩ := exists_top rank hd
  rw [← Bool.not_eq_true, ruling_eq_true_iff]
  rintro ⟨hno, -⟩
  exact hno r hr (habove r (mem_top.mp hr).1 hle)

/--
Adding a rule that never permits to a refused request opens it exactly when the
new rule is silent, outranks every other rule and the default permits.
-/
theorem ruling_cons_of_refused {d : ρ} {rules : List ρ}
    (hdeny : verdict d = .refuse ∨ verdict d = .silent)
    (hrefused : ruling rank verdict otherwise rules = false) :
    ruling rank verdict otherwise (d :: rules) = true ↔
      verdict d = .silent ∧ (∀ s ∈ rules, rank s < rank d) ∧ otherwise = true := by
  by_cases habove : ∀ s ∈ rules, rank s < rank d
  · have htop : ∀ r, r ∈ top rank (d :: rules) ↔ r = d := by
      intro r
      rw [mem_top, List.mem_cons]
      constructor
      · rintro ⟨rfl | hr, hmax⟩
        · rfl
        · exact absurd (hmax d (by simp)) (not_le.mpr (habove r hr))
      · rintro rfl
        refine ⟨.inl rfl, ?_⟩
        intro s hs
        rcases List.mem_cons.mp hs with rfl | hs
        · exact le_rfl
        · exact (habove s hs).le
    rw [ruling_eq_true_iff]
    simp only [htop, forall_eq, exists_eq_left]
    rcases hdeny with hd | hd
    · simp [hd]
    · simpa [hd] using fun _ => habove
  · push Not at habove
    obtain ⟨s, hs, hle⟩ := habove
    -- some old rule ranks at least as high, so the old rules keep the floor
    have htop : ∀ r ∈ rules, r ∈ top rank (d :: rules) ↔ r ∈ top rank rules := by
      intro r hr
      simp only [mem_top, List.mem_cons, hr, or_true, true_and, forall_eq_or_imp]
      exact ⟨fun h => h.2, fun h => ⟨hle.trans (h s hs), h⟩⟩
    have hnot : ¬∀ s ∈ rules, rank s < rank d := fun h => absurd (h s hs) (not_lt.mpr hle)
    simp only [hnot, false_and, and_false, iff_false]
    intro htrue
    rw [ruling_eq_true_iff] at htrue
    obtain ⟨hno, hyes⟩ := htrue
    have hold : ruling rank verdict otherwise rules = true := by
      rw [ruling_eq_true_iff]
      constructor
      · intro r hr
        exact hno r ((htop r (mem_top.mp hr).1).mpr hr)
      · rcases hyes with ⟨r, hr, hpermit⟩ | ⟨hsilent, hdefault⟩
        · left
          rcases List.mem_cons.mp (mem_top.mp hr).1 with rfl | hmem
          · rcases hdeny with hd | hd <;> simp [hd] at hpermit
          · exact ⟨r, (htop r hmem).mp hr, hpermit⟩
        · right
          refine ⟨?_, hdefault⟩
          intro r hr
          exact hsilent r ((htop r (mem_top.mp hr).1).mpr hr)
    rw [hold] at hrefused
    contradiction

theorem ruling_imp {verdict' : ρ → Verdict} {otherwise' : Bool} {rules : List ρ}
    (hrefuse : ∀ r ∈ rules, verdict' r = .refuse → verdict r = .refuse)
    (hpermit : ∀ r ∈ rules, verdict r = .permit → verdict' r = .permit)
    (hsilent : ∀ r ∈ rules, verdict r = .silent → verdict' r = .silent)
    (hle : otherwise = true → otherwise' = true)
    (h : ruling rank verdict otherwise rules = true) :
    ruling rank verdict' otherwise' rules = true := by
  rw [ruling_eq_true_iff] at h ⊢
  obtain ⟨hno, hyes⟩ := h
  refine ⟨fun r hr hr' => hno r hr (hrefuse r (mem_top.mp hr).1 hr'), ?_⟩
  rcases hyes with ⟨r, hr, hr'⟩ | ⟨hall, hdefault⟩
  · exact .inl ⟨r, hr, hpermit r (mem_top.mp hr).1 hr'⟩
  · exact .inr ⟨fun r hr => hsilent r (mem_top.mp hr).1 (hall r hr), hle hdefault⟩

theorem ruling_mono {rules : List ρ} {otherwise' : Bool}
    (hle : otherwise = true → otherwise' = true)
    (h : ruling rank verdict otherwise rules = true) :
    ruling rank verdict otherwise' rules = true :=
  ruling_imp (fun _ _ => id) (fun _ _ => id) (fun _ _ => id) hle h

theorem ruling_without {rules rules' : List ρ} {d : ρ} (hnot : d ∉ top rank rules)
    (h : ∀ r, r ∈ rules' ↔ r ∈ rules ∧ r ≠ d) :
    ruling rank verdict otherwise rules' = ruling rank verdict otherwise rules := by
  apply ruling_of_top
  intro r
  simp only [mem_top, h]
  constructor
  · rintro ⟨⟨hr, -⟩, hmax⟩
    refine ⟨hr, fun s hs => ?_⟩
    by_cases hsd : s = d
    · -- the rule left out is itself outranked by one that is heard
      rw [hsd] at hs ⊢
      obtain ⟨t, ht, hle⟩ := exists_top rank hs
      exact hle.trans (hmax t ⟨(mem_top.mp ht).1, fun htd => hnot (htd ▸ ht)⟩)
    · exact hmax s ⟨hs, hsd⟩
  · rintro ⟨hr, hmax⟩
    exact ⟨⟨hr, fun hrd => hnot (hrd ▸ mem_top.mpr ⟨hr, hmax⟩)⟩, fun s hs => hmax s hs.1⟩

/--
Adding a rule that wants to permit takes a permission away exactly when the new
rule is too weak, no rule outranks it and none of its rank permits.
-/
theorem ruling_cons_of_permitted {d : ρ} {rules : List ρ} {otherwise' : Bool}
    (hallow : verdict d = .permit ∨ verdict d = .weak)
    (hle : otherwise = true → otherwise' = true)
    (hpermitted : ruling rank verdict otherwise rules = true) :
    ruling rank verdict otherwise' (d :: rules) = true ↔
      ¬(verdict d = .weak ∧ ∀ s ∈ rules, rank s ≤ rank d ∧
        (rank s = rank d → verdict s ≠ .permit)) := by
  by_cases hbelow : ∀ s ∈ rules, rank s ≤ rank d
  · -- the new rule is heard, and so are the old ones of its rank
    have htop : ∀ r, r ∈ top rank (d :: rules) ↔ r = d ∨ r ∈ rules ∧ rank r = rank d := by
      intro r
      rw [mem_top, List.mem_cons]
      constructor
      · rintro ⟨rfl | hr, hmax⟩
        · exact .inl rfl
        · exact .inr ⟨hr, le_antisymm (hbelow r hr) (hmax d (by simp))⟩
      · rintro (rfl | ⟨hr, heq⟩)
        · refine ⟨.inl rfl, ?_⟩
          intro s hs
          rcases List.mem_cons.mp hs with rfl | hs
          · exact le_rfl
          · exact hbelow s hs
        · refine ⟨.inr hr, ?_⟩
          intro s hs
          rcases List.mem_cons.mp hs with rfl | hs
          · exact heq.ge
          · exact heq ▸ hbelow s hs
    have hno : ∀ r ∈ top rank (d :: rules), verdict r ≠ .refuse := by
      intro r hr
      rcases (htop r).mp hr with rfl | ⟨hmem, heq⟩
      · rcases hallow with h | h <;> simp [h]
      · refine (ruling_eq_true_iff.mp hpermitted).1 r (mem_top.mpr ⟨hmem, ?_⟩)
        exact fun s hs => heq ▸ hbelow s hs
    rw [ruling_eq_true_iff]
    constructor
    · rintro ⟨-, ⟨r, hr, hpermit⟩ | ⟨hsilent, -⟩⟩ ⟨hweak, hall⟩
      · rcases (htop r).mp hr with rfl | ⟨hmem, heq⟩
        · rw [hweak] at hpermit
          contradiction
        · exact (hall r hmem).2 heq hpermit
      · have := hsilent d ((htop d).mpr (.inl rfl))
        rw [hweak] at this
        contradiction
    · intro hnot
      refine ⟨hno, .inl ?_⟩
      rcases hallow with hpermit | hweak
      · exact ⟨d, (htop d).mpr (.inl rfl), hpermit⟩
      · by_contra hnone
        refine hnot ⟨hweak, fun s hs => ⟨hbelow s hs, fun heq hpermit => hnone ?_⟩⟩
        exact ⟨s, (htop s).mpr (.inr ⟨hs, heq⟩), hpermit⟩
  · have hnot : ¬(verdict d = .weak ∧ ∀ s ∈ rules, rank s ≤ rank d ∧
        (rank s = rank d → verdict s ≠ .permit)) :=
      fun h => hbelow fun s hs => (h.2 s hs).1
    push Not at hbelow
    obtain ⟨s, hs, hlt⟩ := hbelow
    -- some old rule outranks the new one, which is not heard
    have htop : ∀ r, r ∈ top rank (d :: rules) ↔ r ∈ top rank rules := by
      intro r
      rw [mem_top, mem_top, List.mem_cons]
      constructor
      · rintro ⟨rfl | hr, hmax⟩
        · exact absurd (hmax s (List.mem_cons_of_mem _ hs)) (not_le.mpr hlt)
        · exact ⟨hr, fun t ht => hmax t (List.mem_cons_of_mem _ ht)⟩
      · rintro ⟨hr, hmax⟩
        refine ⟨.inr hr, ?_⟩
        intro t ht
        rcases List.mem_cons.mp ht with rfl | ht
        · exact hlt.le.trans (hmax s hs)
        · exact hmax t ht
    rw [ruling_of_top htop]
    exact iff_of_true (ruling_mono hle hpermitted) hnot

theorem outranked_of_permitted {d : ρ} {rules : List ρ} (hd : d ∈ rules)
    (hverdict : verdict d = .refuse) (h : ruling rank verdict otherwise rules = true) :
    ∃ e ∈ top rank rules, rank d < rank e ∧ verdict e ≠ .refuse := by
  obtain ⟨hno, -⟩ := ruling_eq_true_iff.mp h
  have hnot : d ∉ top rank rules := fun hmem => hno d hmem hverdict
  obtain ⟨r, htop, hle⟩ := exists_top rank hd
  refine ⟨r, htop, lt_of_le_of_ne hle ?_, hno r htop⟩
  intro heq
  apply hnot
  rw [mem_top, heq]
  exact ⟨hd, (mem_top.mp htop).2⟩

/--
What a refusal rests on: the rules heard that refuse, else those that are too
weak, else, when the default refuses, all that are heard.
-/
def grounds (rank : ρ → κ) (verdict : ρ → Verdict) (rules : List ρ) : List ρ :=
  let heard := top rank rules
  if heard.any (fun r => verdict r == .refuse) then
    heard.filter fun r => verdict r == .refuse
  else if heard.any (fun r => verdict r == .weak) then
    heard.filter fun r => verdict r == .weak
  else heard

theorem mem_top_of_mem_grounds {rules : List ρ} {r : ρ}
    (h : r ∈ grounds rank verdict rules) : r ∈ top rank rules := by
  unfold grounds at h
  simp only at h
  split at h
  · exact (List.mem_filter.mp h).1
  · split at h
    · exact (List.mem_filter.mp h).1
    · exact h

/-- Where the default permits and no rule is too weak, only refusing rules are grounds. -/
theorem refuse_of_mem_grounds {rules : List ρ} {r : ρ}
    (hweak : ∀ s ∈ rules, verdict s ≠ .weak)
    (hrefused : ruling rank verdict true rules = false)
    (hground : r ∈ grounds rank verdict rules) : verdict r = .refuse := by
  unfold grounds at hground
  simp only at hground
  split at hground
  · simpa using (List.mem_filter.mp hground).2
  · rename_i hrefuse
    split at hground
    · rename_i hany
      obtain ⟨s, hs, hverdict⟩ := List.any_eq_true.mp hany
      exact absurd (by simpa using hverdict) (hweak s (mem_top.mp hs).1)
    · rename_i hany
      simp [ruling, hrefuse, hany] at hrefused

theorem refused_of_mem_grounds {rules rules' : List ρ} {r : ρ}
    (hsubset : ∀ s ∈ rules', s ∈ rules) (hrefused : ruling rank verdict otherwise rules = false)
    (hground : r ∈ grounds rank verdict rules) (hr : r ∈ rules') :
    ruling rank verdict otherwise rules' = false := by
  have htop : r ∈ top rank rules := mem_top_of_mem_grounds hground
  -- the ground keeps its rank, so nothing is heard that was not heard before
  have hheard : ∀ s ∈ top rank rules', s ∈ top rank rules := by
    intro s hs
    obtain ⟨hs, hmax⟩ := mem_top.mp hs
    exact mem_top.mpr ⟨hsubset s hs, fun t ht => ((mem_top.mp htop).2 t ht).trans (hmax r hr)⟩
  have hrtop : r ∈ top rank rules' := mem_top.mpr ⟨hr, fun s hs =>
    (mem_top.mp htop).2 s (hsubset s hs)⟩
  by_contra hopen
  rw [Bool.not_eq_false, ruling_eq_true_iff] at hopen
  rw [← Bool.not_eq_true, ruling_eq_true_iff, not_and_or] at hrefused
  obtain ⟨hno, hyes⟩ := hopen
  unfold grounds at hground
  simp only at hground
  split at hground
  · exact hno r hrtop (by simpa using (List.mem_filter.mp hground).2)
  · rename_i hany
    have hnone : ∀ s ∈ top rank rules, verdict s ≠ .refuse := by simpa using hany
    have hnot := hrefused.resolve_left (fun h => h hnone)
    rw [not_or] at hnot
    rcases hyes with ⟨s, hs, hpermit⟩ | ⟨hsilent, hdefault⟩
    · exact hnot.1 ⟨s, hheard s hs, hpermit⟩
    · split at hground
      · have hweak : verdict r = .weak := by simpa using (List.mem_filter.mp hground).2
        rw [hsilent r hrtop] at hweak
        contradiction
      · rename_i hany'
        have hnoweak : ∀ s ∈ top rank rules, verdict s ≠ .weak := by simpa using hany'
        refine hnot.2 ⟨fun s hs => ?_, hdefault⟩
        cases hverdict : verdict s with
        | refuse => exact absurd hverdict (hnone s hs)
        | permit => exact absurd ⟨s, hs, hverdict⟩ hnot.1
        | weak => exact absurd hverdict (hnoweak s hs)
        | silent => rfl

theorem grounds_eq_nil {rules : List ρ} (h : grounds rank verdict rules = []) : rules = [] := by
  rw [List.eq_nil_iff_forall_not_mem]
  intro s hs
  obtain ⟨r, hr, -⟩ := exists_top rank hs
  unfold grounds at h
  simp only at h
  split at h
  · rename_i hany
    obtain ⟨t, ht, hverdict⟩ := List.any_eq_true.mp hany
    exact absurd hverdict (by simpa using List.filter_eq_nil_iff.mp h t ht)
  · split at h
    · rename_i hany
      obtain ⟨t, ht, hverdict⟩ := List.any_eq_true.mp hany
      exact absurd hverdict (by simpa using List.filter_eq_nil_iff.mp h t ht)
    · simp [h] at hr

end Ruling

section Lexicographic

variable {ρ κ ι : Type} [LinearOrder κ] [LinearOrder ι] {first : ρ → κ} {second : ρ → ι}
  {rules lower upper : List ρ} {l u : ι}

theorem mem_top_upper (hlu : l < u) (hlower : ∀ r ∈ lower, second r = l)
    (hupper : ∀ r ∈ upper, second r = u) (hrules : ∀ r, r ∈ rules ↔ r ∈ lower ∨ r ∈ upper)
    {s : ρ} (hs : s ∈ top first upper) (habove : ∀ r ∈ lower, first r ≤ first s) {r : ρ} :
    r ∈ top (fun r => toLex (first r, second r)) rules ↔ r ∈ top first upper := by
  obtain ⟨hsmem, hsmax⟩ := mem_top.mp hs
  simp only [mem_top, hrules, Prod.Lex.toLex_le_toLex]
  constructor
  · rintro ⟨hr, hmax⟩
    have hrs := hmax s (.inr hsmem)
    rw [hupper s hsmem] at hrs
    rcases hr with hr | hr
    · -- a rule of the lower class does not reach `s`
      rw [hlower r hr] at hrs
      rcases hrs with hlt | ⟨-, hle⟩
      · exact absurd hlt (not_lt.mpr (habove r hr))
      · exact absurd hle (not_le.mpr hlu)
    · refine ⟨hr, fun t ht => ?_⟩
      rcases hmax t (.inr ht) with hlt | ⟨heq, -⟩
      · exact hlt.le
      · exact heq.le
  · rintro ⟨hr, hmax⟩
    refine ⟨.inr hr, fun t ht => ?_⟩
    rcases ht with ht | ht
    · rw [hlower t ht, hupper r hr]
      rcases ((habove t ht).trans (hmax s hsmem)).lt_or_eq with hlt | heq
      · exact .inl hlt
      · exact .inr ⟨heq, hlu.le⟩
    · rw [hupper t ht, hupper r hr]
      rcases (hmax t ht).lt_or_eq with hlt | heq
      · exact .inl hlt
      · exact .inr ⟨heq, le_rfl⟩

theorem mem_top_lower (hlower : ∀ r ∈ lower, second r = l)
    (hrules : ∀ r, r ∈ rules ↔ r ∈ lower ∨ r ∈ upper)
    (hbelow : ∀ s ∈ top first upper, ∃ r ∈ lower, first s < first r) {r : ρ} :
    r ∈ top (fun r => toLex (first r, second r)) rules ↔ r ∈ top first lower := by
  -- every rule of the upper class is outranked
  have hbehind : ∀ t ∈ upper, ∃ d ∈ lower, first t < first d := by
    intro t ht
    obtain ⟨s, hs, hle⟩ := exists_top first ht
    obtain ⟨d, hd, hlt⟩ := hbelow s hs
    exact ⟨d, hd, hle.trans_lt hlt⟩
  simp only [mem_top, hrules, Prod.Lex.toLex_le_toLex]
  constructor
  · rintro ⟨hr | hr, hmax⟩
    · refine ⟨hr, fun t ht => ?_⟩
      rcases hmax t (.inl ht) with hlt | ⟨heq, -⟩
      · exact hlt.le
      · exact heq.le
    · obtain ⟨d, hd, hlt⟩ := hbehind r hr
      rcases hmax d (.inl hd) with hlt' | ⟨heq, -⟩
      · exact absurd hlt' hlt.not_gt
      · exact absurd heq hlt.ne'
  · rintro ⟨hr, hmax⟩
    refine ⟨.inl hr, fun t ht => ?_⟩
    rcases ht with ht | ht
    · rw [hlower t ht, hlower r hr]
      rcases (hmax t ht).lt_or_eq with hlt | heq
      · exact .inl hlt
      · exact .inr ⟨heq, le_rfl⟩
    · obtain ⟨d, hd, hlt⟩ := hbehind t ht
      exact .inl (hlt.trans_le (hmax d hd))

/--
Rules are copied from the class `a` to the class `b`: as long as no rule stands
between the two classes, nothing that was refused is permitted, nor the reverse.
-/
theorem ruling_of_copied {copy : ρ → Prop} {a b : κ} {verdict : ρ → Verdict}
    {otherwise : Bool} (hab : a < b) (hrules : ∀ r, r ∈ rules ↔ r ∈ lower ∨ copy r)
    (hgap : ∀ r ∈ lower, first r ≤ a ∨ b < first r)
    (hcopies : ∀ c, copy c → first c = b ∧
      ∃ r ∈ lower, first r = a ∧ second r = second c ∧ verdict r = verdict c)
    (hcopied : ∀ r ∈ lower, first r = a → ∃ c, copy c ∧ second c = second r ∧
      verdict c = verdict r) :
    ruling (fun r => toLex (first r, second r)) verdict otherwise rules =
      ruling (fun r => toLex (first r, second r)) verdict otherwise lower := by
  apply ruling_of_verdicts
  intro v
  simp only [mem_top, hrules, Prod.Lex.toLex_le_toLex]
  constructor
  · rintro ⟨r, ⟨hr | hr, hmax⟩, rfl⟩
    · exact ⟨r, ⟨hr, fun t ht => hmax t (.inl ht)⟩, rfl⟩
    · -- the rule a copy was made from was heard before
      obtain ⟨hlevel, d, hd, hda, hsecond, hverdict⟩ := hcopies r hr
      refine ⟨d, ⟨hd, fun t ht => ?_⟩, hverdict⟩
      rw [hda, hsecond]
      rcases hgap t ht with hle | hlt
      · rcases hle.lt_or_eq with hlt | heq
        · exact .inl hlt
        · obtain ⟨c, hc, hsame, -⟩ := hcopied t ht heq
          have hct := hmax c (.inr hc)
          rw [(hcopies c hc).1, hlevel, hsame] at hct
          exact .inr ⟨heq, (hct.resolve_left (lt_irrefl b)).2⟩
      · rcases hmax t (.inl ht) with hlt' | ⟨heq, -⟩
        · exact absurd (hlt'.trans (hlevel ▸ hlt)) (lt_irrefl _)
        · exact absurd (heq.trans hlevel) hlt.ne'
  · rintro ⟨r, ⟨hr, hmax⟩, rfl⟩
    rcases hgap r hr with hle | hlt
    · by_cases hnone : ∃ c, copy c
      · -- then `r` is in the class that was copied, and its copy is heard
        obtain ⟨c, hc⟩ := hnone
        obtain ⟨-, d, hd, hda, -⟩ := hcopies c hc
        have hra : first r = a := by
          rcases hmax d hd with hlt | ⟨heq, -⟩
          · exact absurd (hda ▸ hlt) (not_lt.mpr hle)
          · exact heq.symm.trans hda
        obtain ⟨c', hc', hsame, hverdict⟩ := hcopied r hr hra
        refine ⟨c', ⟨.inr hc', ?_⟩, hverdict⟩
        rw [(hcopies c' hc').1, hsame]
        rintro t (ht | ht)
        · rcases hmax t ht with hlt | ⟨heq, -⟩
          · exact .inl (hlt.trans (hra ▸ hab))
          · exact .inl (heq.trans hra ▸ hab)
        · obtain ⟨htb, e, he, hea, hsecond, -⟩ := hcopies t ht
          have her := hmax e he
          rw [hea, hra, hsecond] at her
          exact .inr ⟨htb, (her.resolve_left (lt_irrefl a)).2⟩
      · refine ⟨r, ⟨.inl hr, ?_⟩, rfl⟩
        rintro t (ht | ht)
        · exact hmax t ht
        · exact absurd ⟨t, ht⟩ hnone
    · refine ⟨r, ⟨.inl hr, ?_⟩, rfl⟩
      rintro t (ht | ht)
      · exact hmax t ht
      · exact .inl ((hcopies t ht).1 ▸ hlt)

end Lexicographic

end StorageService.Foundation
