import StorageService.Foundation.Regex

/-!
# What a substitution leaves of a text

A pass keeps characters of the text and puts a replacement for parts of it.  What
stands in the result and does not come from a replacement stands in the text as
well, in the same order; between such parts the text may be longer.
-/

namespace StorageService.Foundation

/-! ## Parts of texts -/

theorem exists_first (p : Char → Prop) (s : Text) : (∀ c ∈ s, p c) ∨
    ∃ u c t, s = u ++ c :: t ∧ (∀ b ∈ u, p b) ∧ ¬p c := by
  induction s with
  | nil => exact .inl (by simp)
  | cons a s ih =>
      by_cases ha : p a
      · rcases ih with hs | ⟨u, c, t, rfl, hu, hc⟩
        · exact .inl (List.forall_mem_cons.mpr ⟨ha, hs⟩)
        · exact .inr ⟨a :: u, c, t, rfl, List.forall_mem_cons.mpr ⟨ha, hu⟩, hc⟩
      · exact .inr ⟨[], a, s, rfl, by simp, ha⟩

theorem suffix_of_getLast? {l s y k : Text} {x : Char} (h : l ++ s = y ++ k)
    (hl : l.getLast? = some x) (hx : x ∉ k) : ∃ t, s = t ++ k ∧ y = l ++ t := by
  rcases List.append_eq_append_iff.mp h with ⟨t, hy, hs⟩ | ⟨t, rfl, hk⟩
  · exact ⟨t, hs, hy⟩
  · by_cases ht : t = []
    · subst ht
      exact ⟨[], by simpa using hk.symm, by simp⟩
    · rw [List.getLast?_append_of_ne_nil _ ht] at hl
      exact absurd (by simp [hk, List.mem_of_getLast? hl]) hx

theorem append_inj_of_stop {p : Char → Bool} {u u' a a' : Text} (h : u ++ a = u' ++ a')
    (hu : ∀ c ∈ u, p c = true) (hu' : ∀ c ∈ u', p c = true) (ha : ∀ c ∈ a.head?, p c = false)
    (ha' : ∀ c ∈ a'.head?, p c = false) : u = u' ∧ a = a' := by
  induction u generalizing u' with
  | nil =>
      cases u' with
      | nil => exact ⟨rfl, h⟩
      | cons c u' =>
          have hp := hu' c (by simp)
          rw [ha c (by simp [show a = c :: u' ++ a' from h])] at hp
          cases hp
  | cons c u ih =>
      cases u' with
      | nil =>
          have hp := hu c (by simp)
          rw [ha' c (by simp [show a' = c :: u ++ a from h.symm])] at hp
          cases hp
      | cons c' u' =>
          obtain ⟨rfl, hrest⟩ := List.cons.inj h
          obtain ⟨rfl, ha⟩ := ih hrest (List.forall_mem_cons.mp hu).2
            (List.forall_mem_cons.mp hu').2
          exact ⟨rfl, ha⟩

/-- What the words that a `c` ends come to, and one for each `c`. -/
def wordSum (c : Char) (f : Text → Nat) (s : Text) : Nat :=
  ((s.splitOn c).dropLast.map (f · + 1)).sum

theorem wordSum_of_not_mem {c : Char} {f : Text → Nat} {s : Text} (h : c ∉ s) :
    wordSum c f s = 0 := by
  simp [wordSum, List.splitOn_eq_singleton h]

theorem wordSum_append {c : Char} {f : Text → Nat} {u : Text} (h : c ∉ u) (t : Text) :
    wordSum c f (u ++ c :: t) = f u + 1 + wordSum c f t := by
  rw [wordSum, List.splitOn_append_cons_self_of_not_mem h,
    List.dropLast_cons_of_ne_nil (List.splitOn_ne_nil c t), List.map_cons, List.sum_cons, wordSum]

theorem mem_or_append (c : Char) (s : Text) : c ∉ s ∨ ∃ u t, s = u ++ c :: t ∧ c ∉ u := by
  rcases exists_first (· ≠ c) s with hall | ⟨u, e, t, rfl, hu, he⟩
  · exact .inl fun hmem => hall c hmem rfl
  · obtain rfl : e = c := by simpa using he
    exact .inr ⟨u, t, rfl, fun hmem => hu e hmem rfl⟩

theorem wordSum_le_length {c : Char} {f : Text → Nat} (hf : ∀ u, f u ≤ u.length) (s : Text) :
    wordSum c f s ≤ s.length := by
  induction hn : s.length using Nat.strong_induction_on generalizing s with
  | _ n ih =>
      rcases mem_or_append c s with hno | ⟨u, t, rfl, hu⟩
      · rw [wordSum_of_not_mem hno]
        omega
      · have hrest := ih t.length (by simp [← hn]; omega) t rfl
        have hthis := hf u
        rw [wordSum_append hu, ← hn, List.length_append, List.length_cons]
        omega

/-! ## What is kept and what is replaced -/

/--
`l` stands before the text, `tail` behind it and `after` behind the result.  `K`
is what is known of a character that stays, `D` of a part that is replaced.
-/
inductive Rewrites (K D : Text → Text → Text → Prop) (rep tail after : Text) :
    Text → Text → Text → Prop where
  | nil (l : Text) : Rewrites K D rep tail after l [] []
  | keep {l s r : Text} {c : Char} (hkept : K l (c :: (s ++ tail)) (c :: (r ++ after)))
      (h : Rewrites K D rep tail after (l ++ [c]) s r) :
      Rewrites K D rep tail after l (c :: s) (c :: r)
  | drop {l d s r : Text} (hdropped : D l d (s ++ tail))
      (h : Rewrites K D rep tail after (l ++ d) s r) :
      Rewrites K D rep tail after l (d ++ s) (rep ++ r)

namespace Rewrites

variable {K K' D D' : Text → Text → Text → Prop} {rep rep' tail after l s r a b m : Text} {c : Char}

theorem imp (hK : ∀ l s r, K l s r → K' l s r) (hD : ∀ l d v, D l d v → D' l d v)
    (h : Rewrites K D rep tail after l s r) : Rewrites K' D' rep tail after l s r := by
  induction h with
  | nil l => exact .nil l
  | keep hkept _ ih => exact .keep (hK _ _ _ hkept) ih
  | drop hdropped _ ih => exact .drop (hD _ _ _ hdropped) ih

theorem forall_mem {p : Char → Prop} (hD : ∀ l d v, D l d v → ∀ c ∈ d, p c)
    (h : Rewrites K D rep tail after l s r) (hr : ∀ c ∈ r, p c) : ∀ c ∈ s, p c := by
  induction h with
  | nil l => simp
  | keep _ _ ih =>
      obtain ⟨hc, hr⟩ := List.forall_mem_cons.mp hr
      exact List.forall_mem_cons.mpr ⟨hc, ih hr⟩
  | drop hdropped _ ih =>
      intro c hc
      rcases List.mem_append.mp hc with hc | hc
      · exact hD _ _ _ hdropped c hc
      · exact ih (fun b hb => hr b (List.mem_append_right _ hb)) c hc

/-- Parts without the property may be replaced only behind characters without it. -/
theorem forall_mem_of_last {p B : Char → Prop} (hB : ∀ b, B b → ¬p b)
    (hD : ∀ l d v, D l d v → d ≠ [] ∧ ((∀ c ∈ d, p c) ∨ ∃ b ∈ l.getLast?, B b))
    (hl : ∀ b ∈ l.getLast?, ¬B b) (h : Rewrites K D rep tail after l s r)
    (hr : ∀ c ∈ r, p c) : ∀ c ∈ s, p c := by
  induction h with
  | nil l => simp
  | keep _ _ ih =>
      obtain ⟨hc, hr⟩ := List.forall_mem_cons.mp hr
      refine List.forall_mem_cons.mpr ⟨hc, ih (fun b hb hbad => hB b hbad ?_) hr⟩
      rw [List.getLast?_concat, Option.mem_some_iff] at hb
      exact hb ▸ hc
  | drop hdropped _ ih =>
      obtain ⟨hne, hd⟩ := hD _ _ _ hdropped
      rcases hd with hd | ⟨b, hb, hbad⟩
      · refine List.forall_mem_append.mpr ⟨hd, ih (fun b hb hbad => hB b hbad ?_) fun c hc =>
          hr c (List.mem_append_right _ hc)⟩
        rw [List.getLast?_append_of_ne_nil _ hne] at hb
        exact hd b (List.mem_of_getLast? hb)
      · exact absurd hbad (hl b hb)

/-- Either the parts that were replaced have the property as well, or one is the first without. -/
theorem forall_mem_or_drop {p : Char → Prop} (h : Rewrites K D rep tail after l s r)
    (hr : ∀ c ∈ r, p c) : (∀ c ∈ s, p c) ∨
      ∃ s₁ d s₂ r₂, s = s₁ ++ (d ++ s₂) ∧ (∀ c ∈ s₁, p c) ∧ D (l ++ s₁) d (s₂ ++ tail) ∧
        (¬∀ c ∈ d, p c) ∧ Rewrites K D rep tail after (l ++ s₁ ++ d) s₂ r₂ ∧ ∀ c ∈ r₂, p c := by
  induction h with
  | nil l => exact .inl (by simp)
  | @keep l s r c _ h ih =>
      obtain ⟨hc, hr⟩ := List.forall_mem_cons.mp hr
      rcases ih hr with hs | ⟨s₁, d, s₂, r₂, rfl, hs₁, hdropped, hd, hrest, hr₂⟩
      · exact .inl (List.forall_mem_cons.mpr ⟨hc, hs⟩)
      · exact .inr ⟨c :: s₁, d, s₂, r₂, rfl, List.forall_mem_cons.mpr ⟨hc, hs₁⟩,
          by simpa using hdropped, hd, by simpa using hrest, hr₂⟩
  | @drop l d s r hdropped h ih =>
      have hr' : ∀ c ∈ r, p c := fun c hc => hr c (List.mem_append_right _ hc)
      by_cases hd : ∀ c ∈ d, p c
      · rcases ih hr' with hs | ⟨s₁, d', s₂, r₂, rfl, hs₁, hdropped', hd', hrest, hr₂⟩
        · exact .inl (List.forall_mem_append.mpr ⟨hd, hs⟩)
        · exact .inr ⟨d ++ s₁, d', s₂, r₂, by simp, List.forall_mem_append.mpr ⟨hd, hs₁⟩,
            by simpa using hdropped', hd', by simpa using hrest, hr₂⟩
      · exact .inr ⟨[], d, s, r, rfl, by simp, by simpa using hdropped, hd, by simpa using h, hr'⟩

theorem eq_nil_iff (hrep : rep ≠ []) (hD : ∀ l d v, D l d v → d ≠ [])
    (h : Rewrites K D rep tail after l s r) : s = [] ↔ r = [] := by
  cases h with
  | nil => simp
  | keep => simp
  | drop hdropped => simp [hrep, hD _ _ _ hdropped]

/-- What a text lends to what stands behind it pays for a replacement. -/
theorem measure_le {f g : Text → Nat} (credit : Text → Nat) (hf : ∀ u v, f (u ++ v) = f u + f v)
    (hg : ∀ u v, g (u ++ v) = g u + g v)
    (hkeep : ∀ l c, g [c] + credit (l ++ [c]) ≤ f [c] + credit l)
    (hD : ∀ l d v, D l d v → g rep + credit (l ++ d) ≤ f d + credit l)
    (h : Rewrites K D rep tail after l s r) : g r ≤ f s + credit l := by
  induction h with
  | nil l =>
      have hnil := hg [] []
      rw [List.append_nil] at hnil
      omega
  | @keep l s r c _ _ ih =>
      have hthis := hkeep l c
      rw [← List.singleton_append, hg, ← List.singleton_append (l := s), hf]
      omega
  | @drop l d s r hdropped _ ih =>
      have hthis := hD _ _ _ hdropped
      rw [hg, hf]
      omega

theorem mem_of_mem (hc : c ∉ rep) (h : Rewrites K D rep tail after l s r) (hr : c ∈ r) :
    c ∈ s := by
  induction h with
  | nil l => exact hr
  | keep _ _ ih =>
      rcases List.mem_cons.mp hr with rfl | hr
      · exact List.mem_cons_self
      · exact List.mem_cons_of_mem _ (ih hr)
  | drop _ _ ih =>
      rcases List.mem_append.mp hr with hr | hr
      · exact absurd hr hc
      · exact List.mem_append_right _ (ih hr)

/-- The first character of a replacement may be one that stays. -/
theorem keep_head (hD : ∀ l d v, D l d v → ∃ d', d = c :: d' ∧ D' (l ++ [c]) d' v)
    (h : Rewrites K D (c :: rep) tail after l s r) :
    Rewrites (fun _ _ _ => True) D' rep tail after l s r := by
  induction h with
  | nil l => exact .nil l
  | keep _ _ ih => exact .keep trivial ih
  | drop hdropped _ ih =>
      obtain ⟨d', rfl, hdropped'⟩ := hD _ _ _ hdropped
      exact .keep trivial (.drop hdropped' (by simpa using ih))

/-! ## Parts of the result -/

theorem split (h : Rewrites K D rep tail after l s (a ++ b)) :
    (∃ s₁ s₂, s = s₁ ++ s₂ ∧ Rewrites K D rep (s₂ ++ tail) (b ++ after) l s₁ a ∧
      Rewrites K D rep tail after (l ++ s₁) s₂ b) ∨
    ∃ m₁ m₂ r, m₁ ≠ [] ∧ m₂ ≠ [] ∧ rep = m₁ ++ m₂ ∧ b = m₂ ++ r := by
  generalize hr : a ++ b = r at h
  induction h generalizing a with
  | nil l =>
      obtain ⟨rfl, rfl⟩ := List.append_eq_nil_iff.mp hr
      exact .inl ⟨[], [], rfl, .nil l, by simpa using .nil l⟩
  | @keep l s r c hkept h ih =>
      cases a with
      | nil =>
          obtain rfl : b = c :: r := hr
          exact .inl ⟨[], c :: s, rfl, .nil l, by simpa using .keep hkept h⟩
      | cons c' a =>
          obtain ⟨rfl, rfl⟩ := List.cons.inj hr
          refine (ih rfl).imp_left ?_
          rintro ⟨s₁, s₂, rfl, h₁, h₂⟩
          exact ⟨c' :: s₁, s₂, rfl, .keep (by simpa using hkept) h₁, by simpa using h₂⟩
  | @drop l d s r hdropped h ih =>
      rcases List.append_eq_append_iff.mp hr with ⟨m, hrep, hb⟩ | ⟨a', rfl, hr'⟩
      · by_cases hm : m = []
        · subst hm
          obtain rfl : rep = a := by simpa using hrep
          obtain rfl : b = r := by simpa using hb
          refine (ih (a := []) rfl).imp_left ?_
          rintro ⟨s₁, s₂, rfl, h₁, h₂⟩
          refine ⟨d ++ s₁, s₂, by simp, ?_, by simpa using h₂⟩
          simpa using Rewrites.drop (by simpa using hdropped) h₁
        by_cases ha : a = []
        · subst ha
          refine .inl ⟨[], d ++ s, rfl, .nil l, ?_⟩
          rw [hb, show m = rep from hrep.symm]
          simpa using Rewrites.drop hdropped h
        · exact .inr ⟨a, m, r, ha, hm, hrep, hb⟩
      · refine (ih hr'.symm).imp_left ?_
        rintro ⟨s₁, s₂, rfl, h₁, h₂⟩
        exact ⟨d ++ s₁, s₂, by simp, .drop (by simpa using hdropped) h₁, by simpa using h₂⟩

/-- A character that no replacement has is one of the text. -/
theorem split_cons (hc : c ∉ rep) (h : Rewrites K D rep tail after l s (a ++ c :: b)) :
    ∃ s₁ s₂, s = s₁ ++ c :: s₂ ∧
      Rewrites K D rep (c :: s₂ ++ tail) (c :: b ++ after) l s₁ a ∧
      K (l ++ s₁) (c :: (s₂ ++ tail)) (c :: (b ++ after)) ∧
      Rewrites K D rep tail after (l ++ s₁ ++ [c]) s₂ b := by
  generalize hr : a ++ c :: b = r at h
  induction h generalizing a with
  | nil l => simp at hr
  | @keep l s r c' hkept h ih =>
      cases a with
      | nil =>
          obtain ⟨rfl, rfl⟩ := List.cons.inj hr
          exact ⟨[], s, rfl, .nil l, by simpa using hkept, by simpa using h⟩
      | cons c' a =>
          obtain ⟨rfl, rfl⟩ := List.cons.inj hr
          obtain ⟨s₁, s₂, rfl, h₁, hkept', h₂⟩ := ih rfl
          exact ⟨c' :: s₁, s₂, rfl, .keep (by simpa using hkept) h₁, by simpa using hkept',
            by simpa using h₂⟩
  | @drop l d s r hdropped h ih =>
      suffices hrest : ∃ a', a = rep ++ a' ∧ a' ++ c :: b = r by
        obtain ⟨a', rfl, hr'⟩ := hrest
        obtain ⟨s₁, s₂, rfl, h₁, hkept, h₂⟩ := ih hr'
        exact ⟨d ++ s₁, s₂, by simp, .drop (by simpa using hdropped) h₁, by simpa using hkept,
          by simpa using h₂⟩
      rcases List.append_eq_append_iff.mp hr with ⟨m, hrep, hb⟩ | ⟨a', rfl, hr'⟩
      · cases m with
        | nil => exact ⟨[], by simpa using hrep.symm, hb⟩
        | cons c' m =>
            obtain ⟨rfl, -⟩ := List.cons.inj hb
            exact absurd (by simp [hrep]) hc
      · exact ⟨a', rfl, hr'.symm⟩

/-- A part of the result at whose places nothing is replaced stands in the text. -/
theorem literal (h : Rewrites K D rep tail after l s (m ++ b))
    (hno : ∀ m₁ m₂ d s' r, m = m₁ ++ m₂ → m₂ ≠ [] → D (l ++ m₁) d (s' ++ tail) →
      Rewrites K D rep tail after (l ++ m₁ ++ d) s' r → rep ++ r ≠ m₂ ++ b) :
    ∃ s₂, s = m ++ s₂ ∧ Rewrites K D rep tail after (l ++ m) s₂ b := by
  induction m generalizing l s with
  | nil => exact ⟨s, rfl, by simpa using h⟩
  | cons c m ih =>
      generalize hr : c :: m ++ b = r at h
      cases h with
      | nil => cases hr
      | @keep _ s r c' _ h =>
          obtain ⟨rfl, rfl⟩ := List.cons.inj hr
          obtain ⟨s₂, rfl, h₂⟩ := ih h fun m₁ m₂ d s' r' hm hne hdropped hrest =>
            hno (c :: m₁) m₂ d s' r' (by rw [hm, List.cons_append]) hne (by simpa using hdropped)
              (by simpa using hrest)
          exact ⟨s₂, rfl, by simpa using h₂⟩
      | @drop _ d s r hdropped h =>
          exact absurd hr.symm (hno [] (c :: m) d s r rfl (by simp) (by simpa using hdropped)
            (by simpa using h))

/-- A part of the text at whose places nothing is replaced stands in the result. -/
theorem literal_left (h : Rewrites K D rep tail after l (m ++ s) r)
    (hno : ∀ m₁ m₂ d s', m = m₁ ++ m₂ → m₂ ≠ [] → m₂ ++ s = d ++ s' →
      ¬D (l ++ m₁) d (s' ++ tail)) :
    ∃ r', r = m ++ r' ∧ Rewrites K D rep tail after (l ++ m) s r' := by
  induction m generalizing l r with
  | nil => exact ⟨r, rfl, by simpa using h⟩
  | cons c m ih =>
      generalize ht : c :: m ++ s = t at h
      cases h with
      | nil => cases ht
      | @keep _ _ r _ _ h =>
          obtain ⟨rfl, rfl⟩ := List.cons.inj ht
          obtain ⟨r', rfl, hrest⟩ := ih h fun m₁ m₂ d s' hm hne hs hdropped =>
            hno (c :: m₁) m₂ d s' (by rw [hm, List.cons_append]) hne hs (by simpa using hdropped)
          exact ⟨r', rfl, by simpa using hrest⟩
      | @drop _ d s' r hdropped _ =>
          exact absurd (by simpa using hdropped) (hno [] (c :: m) d s' rfl (by simp) ht)

/-- The replacement begins with a character that the part does not have. -/
theorem literal_of_head {x : Char} (h : Rewrites K D (x :: rep) tail after l s (m ++ b))
    (hx : x ∉ m) : ∃ s₂, s = m ++ s₂ ∧ Rewrites K D (x :: rep) tail after (l ++ m) s₂ b := by
  refine h.literal fun m₁ m₂ d s' r hm hne _ _ heq => ?_
  cases m₂ with
  | nil => exact hne rfl
  | cons c m₂ =>
      obtain ⟨rfl, -⟩ := List.cons.inj heq
      exact hx (by simp [hm])

theorem kept_of_head {x : Char} (h : Rewrites K D (x :: rep) tail after l s (c :: b))
    (hc : c ≠ x) : K l (s ++ tail) (c :: b ++ after) := by
  generalize hr : c :: b = r at h
  cases h with
  | nil => cases hr
  | keep hkept _ => exact hkept
  | drop _ _ => exact absurd (List.cons.inj hr).1 hc

/-- Parts are removed only before characters that the part does not have. -/
theorem literal_of_stop {E : Char → Prop} (h : Rewrites K D [] tail after l s (m ++ b))
    (hD : ∀ l d v, D l d v → (∃ c d', d = c :: d' ∧ ¬E c) ∧ ∀ c ∈ v.head?, E c)
    (hm : ∀ c ∈ m, ¬E c) :
    ∃ s₂, s = m ++ s₂ ∧ Rewrites K D [] tail after (l ++ m) s₂ b := by
  refine h.literal fun m₁ m₂ d s' r hm' hne hdropped hrest heq => ?_
  rw [List.nil_append] at heq
  obtain ⟨c, m₂, rfl⟩ := List.exists_cons_of_ne_nil hne
  subst heq
  obtain ⟨-, hstop⟩ := hD _ _ _ hdropped
  generalize hr : c :: m₂ ++ b = r at hrest
  cases hrest with
  | nil => cases hr
  | keep _ _ =>
      obtain ⟨rfl, -⟩ := List.cons.inj hr
      exact hm c (by simp [hm']) (hstop c rfl)
  | drop hdropped' _ =>
      obtain ⟨⟨c', d', rfl, hc'⟩, -⟩ := hD _ _ _ hdropped'
      exact hc' (hstop c' rfl)

/-- Parts are removed only behind a character that the part has at most at its end. -/
theorem literal_of_last {x : Char} (h : Rewrites K D [] tail after l s (m ++ b))
    (hD : ∀ l d v, D l d v → l.getLast? = some x) (hl : l.getLast? ≠ some x)
    (hm : x ∉ m.dropLast) :
    ∃ s₂, s = m ++ s₂ ∧ Rewrites K D [] tail after (l ++ m) s₂ b := by
  refine h.literal fun m₁ m₂ d s' r hm' hne hdropped _ _ => ?_
  have hlast := hD _ _ _ hdropped
  by_cases hm₁ : m₁ = []
  · rw [hm₁, List.append_nil] at hlast
    exact hl hlast
  · rw [List.getLast?_append_of_ne_nil _ hm₁] at hlast
    refine hm ?_
    rw [hm', List.dropLast_append_of_ne_nil hne]
    exact List.mem_append_left _ (List.mem_of_getLast? hlast)

/-- Such a part stands in the text together with what was kept before it. -/
theorem block_of_stop {E : Char → Prop}
    (h : Rewrites K D [] tail after l s (a ++ (m ++ b)))
    (hD : ∀ l d v, D l d v → (∃ c d', d = c :: d' ∧ ¬E c) ∧ ∀ c ∈ v.head?, E c)
    (hm : ∀ c ∈ m, ¬E c) (hne : m ≠ []) :
    ∃ s₁ s₂, s = s₁ ++ (m ++ s₂) ∧
      Rewrites K D [] (m ++ s₂ ++ tail) (m ++ b ++ after) l s₁ a ∧
      K (l ++ s₁) (m ++ s₂ ++ tail) (m ++ b ++ after) ∧
      Rewrites K D [] tail after (l ++ s₁ ++ m) s₂ b := by
  obtain ⟨c, m, rfl⟩ := List.exists_cons_of_ne_nil hne
  obtain ⟨s₁, s₂, rfl, h₁, hkept, h₂⟩ := h.split_cons (by simp)
  obtain ⟨s₃, rfl, h₃⟩ := h₂.literal_of_stop hD fun b hb => hm b (List.mem_cons_of_mem _ hb)
  exact ⟨s₁, s₃, rfl, by simpa using h₁, by simpa using hkept, by simpa using h₃⟩

theorem block_of_last {x : Char} (h : Rewrites K D [] tail after l s (a ++ (c :: m ++ b)))
    (hD : ∀ l d v, D l d v → l.getLast? = some x) (hc : c ≠ x) (hm : x ∉ m.dropLast) :
    ∃ s₁ s₂, s = s₁ ++ (c :: m ++ s₂) ∧
      Rewrites K D [] (c :: m ++ s₂ ++ tail) (c :: m ++ b ++ after) l s₁ a ∧
      Rewrites K D [] tail after (l ++ s₁ ++ (c :: m)) s₂ b := by
  obtain ⟨s₁, s₂, rfl, h₁, -, h₂⟩ := h.split_cons (by simp)
  obtain ⟨s₃, rfl, h₃⟩ := h₂.literal_of_last hD (by simpa using hc) hm
  exact ⟨s₁, s₃, rfl, by simpa using h₁, by simpa using h₃⟩

theorem lastOr_of_stop {E : Char → Prop} (hD : ∀ l d v, D l d v → ∀ c ∈ v.head?, E c)
    (h : Rewrites K D [] tail after l s r) (htail : ∃ c ∈ tail.head?, ¬E c) (p : Option Char) :
    Regex.lastOr p s = Regex.lastOr p r := by
  induction h generalizing p with
  | nil l => rfl
  | keep _ _ ih => simpa using ih _
  | @drop l d s r hdropped _ ih =>
      have hs : s ≠ [] := by
        rintro rfl
        obtain ⟨c, hc, hno⟩ := htail
        exact hno (hD _ _ _ hdropped c (by simpa using hc))
      rw [List.nil_append, ← ih p, Regex.lastOr_append, Regex.lastOr_of_ne_nil hs,
        Regex.lastOr_of_ne_nil hs]

/-! ## Parts of the text -/

theorem split_left (h : Rewrites K D rep tail after l (a ++ b) r) :
    (∃ r₁ r₂, r = r₁ ++ r₂ ∧ Rewrites K D rep (b ++ tail) (r₂ ++ after) l a r₁ ∧
      Rewrites K D rep tail after (l ++ a) b r₂) ∨
    ∃ a₁ d₁ d₂ b₂, a = a₁ ++ d₁ ∧ b = d₂ ++ b₂ ∧ d₁ ≠ [] ∧ d₂ ≠ [] ∧
      D (l ++ a₁) (d₁ ++ d₂) (b₂ ++ tail) := by
  generalize hs : a ++ b = s at h
  induction h generalizing a with
  | nil l =>
      obtain ⟨rfl, rfl⟩ := List.append_eq_nil_iff.mp hs
      exact .inl ⟨[], [], rfl, .nil l, by simpa using .nil l⟩
  | @keep l s r c hkept h ih =>
      cases a with
      | nil =>
          obtain rfl : b = c :: s := hs
          exact .inl ⟨[], c :: r, rfl, .nil l, by simpa using .keep hkept h⟩
      | cons c' a =>
          obtain ⟨rfl, rfl⟩ := List.cons.inj hs
          rcases ih rfl with ⟨r₁, r₂, rfl, h₁, h₂⟩ | ⟨a₁, d₁, d₂, b₂, rfl, rfl, hd₁, hd₂, hd⟩
          · exact .inl ⟨c' :: r₁, r₂, rfl, .keep (by simpa using hkept) h₁, by simpa using h₂⟩
          · exact .inr ⟨c' :: a₁, d₁, d₂, b₂, rfl, rfl, hd₁, hd₂, by simpa using hd⟩
  | @drop l d s r hdropped h ih =>
      rcases List.append_eq_append_iff.mp hs with ⟨d₂, rfl, rfl⟩ | ⟨a', rfl, rfl⟩
      · by_cases ha : a = []
        · subst ha
          exact .inl ⟨[], rep ++ r, rfl, .nil l, by simpa using .drop hdropped h⟩
        by_cases hd₂ : d₂ = []
        · subst hd₂
          refine .inl ⟨rep, r, rfl, ?_, by simpa using h⟩
          simpa using Rewrites.drop (s := []) (r := []) (by simpa using hdropped) (.nil _)
        · exact .inr ⟨[], a, d₂, s, rfl, rfl, ha, hd₂, by simpa using hdropped⟩
      · rcases ih rfl with ⟨r₁, r₂, rfl, h₁, h₂⟩ | ⟨a₁, d₁, d₂, b₂, rfl, rfl, hd₁, hd₂, hd⟩
        · exact .inl ⟨rep ++ r₁, r₂, by simp, .drop (by simpa using hdropped) h₁,
            by simpa using h₂⟩
        · exact .inr ⟨d ++ a₁, d₁, d₂, b₂, by simp, rfl, hd₁, hd₂, by simpa using hd⟩

theorem kept_of_stop {E : Char → Prop} (hD : ∀ l d v, D l d v → ∀ c ∈ v.head?, E c)
    (h : Rewrites K D [] tail after l (s ++ m) r) (hm : ∀ c ∈ m, ¬E c)
    (htail : ∃ c ∈ tail.head?, ¬E c) :
    ∃ r₁, r = r₁ ++ m ∧ Rewrites K D [] (m ++ tail) (m ++ after) l s r₁ := by
  have hno {m' l d} (hm' : ∀ c ∈ m', c ∈ m) : ¬D l d (m' ++ tail) := by
    intro hdropped
    cases m' with
    | nil =>
        obtain ⟨c, hc, hno⟩ := htail
        exact hno (hD _ _ _ hdropped c hc)
    | cons c m' => exact hm c (hm' c (by simp)) (hD _ _ _ hdropped c rfl)
  rcases h.split_left with ⟨r₁, r₂, rfl, h₁, h₂⟩ | ⟨_, d₁, d₂, m', -, rfl, -, -, hdropped⟩
  · rw [← List.append_nil m] at h₂
    obtain ⟨r', rfl, h₃⟩ := h₂.literal_left fun m₁ m₂ d s' hm' _ heq => hno fun c hc => by
      rw [hm']
      rw [List.append_nil] at heq
      exact List.mem_append_right _ (heq ▸ List.mem_append_right _ hc)
    generalize hnil : ([] : Text) = t at h₃
    cases h₃ with
    | nil => exact ⟨r₁, by simp, by simpa using h₁⟩
    | keep _ _ => cases hnil
    | @drop _ d s r hdropped _ =>
        have hs : s = [] := (List.append_eq_nil_iff.mp hnil.symm).2
        rw [hs] at hdropped
        exact absurd hdropped (hno (by simp))
  · exact absurd hdropped (hno fun c hc => List.mem_append_right _ hc)

theorem eq_of_no_drop (h : Rewrites K D rep tail after l s r)
    (hno : ∀ u d v, s = u ++ (d ++ v) → ¬D (l ++ u) d (v ++ tail)) : s = r := by
  induction h with
  | nil l => rfl
  | @keep l s r c _ _ ih =>
      rw [ih fun u d v hs hdropped =>
        hno (c :: u) d v (by rw [hs, List.cons_append]) (by simpa using hdropped)]
  | @drop l d s r hdropped _ => exact absurd (by simpa using hdropped) (hno [] d s rfl)

/-! ### Words -/

theorem drops_subset (h : Rewrites K D rep tail after l s r) :
    Rewrites K (fun l d v => D l d v ∧ d ⊆ s) rep tail after l s r := by
  induction h with
  | nil l => exact .nil l
  | keep hkept _ ih =>
      exact .keep hkept (ih.imp (fun _ _ _ h => h) fun _ _ _ h =>
        ⟨h.1, fun _ hb => List.mem_cons_of_mem _ (h.2 hb)⟩)
  | drop hdropped _ ih =>
      exact .drop ⟨hdropped, List.subset_append_left _ _⟩ (ih.imp (fun _ _ _ h => h) fun _ _ _ h =>
        ⟨h.1, fun _ hb => List.mem_append_right _ (h.2 hb)⟩)

/-- Where no part that is replaced has a `c`, the words between are rewritten one by one. -/
theorem wordSum_le {f g : Text → Nat} (hD : ∀ l d v, D l d v → d ≠ [] ∧ c ∉ d) (hrep : c ∉ rep)
    (hword : ∀ {l u r tail after}, (l = [] ∨ l.getLast? = some c) → c ∉ u →
      tail.head? = some c → Rewrites K D rep tail after l u r → f u ≤ g r)
    (hl : l = [] ∨ l.getLast? = some c) (h : Rewrites K D rep tail after l s r) :
    wordSum c f s ≤ wordSum c g r := by
  induction hn : s.length using Nat.strong_induction_on generalizing l s r with
  | _ n ih =>
      rcases mem_or_append c s with hno | ⟨u, t, rfl, hu⟩
      · rw [wordSum_of_not_mem hno]
        omega
      · rcases h.split_left with ⟨r₁, r₂, rfl, h₁, h₂⟩ | ⟨_, d₁, d₂, _, -, ht, -, hd₂, hdropped⟩
        swap
        · obtain ⟨e, d₂, rfl⟩ := List.exists_cons_of_ne_nil hd₂
          obtain ⟨rfl, -⟩ := List.cons.inj ht
          exact absurd (by simp) (hD _ _ _ hdropped).2
        generalize hs : c :: t = s' at h₂
        cases h₂ with
        | nil => cases hs
        | drop hdropped _ =>
            obtain ⟨hne, hno⟩ := hD _ _ _ hdropped
            obtain ⟨e, d, rfl⟩ := List.exists_cons_of_ne_nil hne
            obtain ⟨rfl, -⟩ := List.cons.inj hs
            exact absurd (by simp) hno
        | @keep _ _ r₂ _ _ h₃ =>
            obtain ⟨rfl, rfl⟩ := List.cons.inj hs
            have hr₁ : c ∉ r₁ := fun hmem => hu (h₁.mem_of_mem hrep hmem)
            have hthis := hword hl hu rfl h₁
            have hrest := ih t.length (by simp [← hn]; omega) (.inr (by simp)) h₃ rfl
            rw [wordSum_append hu, wordSum_append hr₁]
            omega

end Rewrites

/-! ## A pass of a rule -/

namespace Rule

open Regex

section Pass

variable (w : WordClass) (rule : Rule)

/-- At a character of the text that stays: no match begins there, or it is kept of one. -/
def Keeps (whole l s r : Text) : Prop :=
  whole = l ++ s ∧ (rule.find w (lastOr none l) s = none ∨
    ∃ y k₁ k₂ d v, k₂ ≠ [] ∧ l = y ++ k₁ ∧ s = k₂ ++ (d ++ v) ∧
      r = k₂ ++ (rule.replacement ++ rule.subFrom w (lastOr none (l ++ (k₂ ++ d))) 0 v) ∧
      rule.find w (lastOr none y) (k₁ ++ s) = some (k₁ ++ k₂, d))

def Drops (whole l d v : Text) : Prop :=
  whole = l ++ (d ++ v) ∧
    ∃ y k, l = y ++ k ∧ rule.find w (lastOr none y) (k ++ (d ++ v)) = some (k, d)

def NoMatch (s : Text) : Prop := ∀ a v, s = a ++ v → rule.find w (lastOr none a) v = none

end Pass

variable {w : WordClass} {rule : Rule} {whole l s r k d v : Text} {prev : Option Char}

theorem rewrites_kept {y k₁ k₂ : Text}
    (hfind : rule.find w (lastOr none y) (k₁ ++ k₂ ++ (d ++ v)) = some (k₁ ++ k₂, d))
    (hwhole : whole = y ++ (k₁ ++ k₂ ++ (d ++ v)))
    (hr : r = rule.subFrom w (lastOr none (y ++ (k₁ ++ k₂) ++ d)) 0 v)
    (h : Rewrites (rule.Keeps w whole) (rule.Drops w whole) rule.replacement [] []
      (y ++ (k₁ ++ k₂) ++ d) v r) :
    Rewrites (rule.Keeps w whole) (rule.Drops w whole) rule.replacement [] [] (y ++ k₁)
      (k₂ ++ (d ++ v)) (k₂ ++ (rule.replacement ++ r)) := by
  induction k₂ generalizing k₁ with
  | nil =>
      rw [List.append_nil] at h hfind hwhole
      refine Rewrites.drop (d := d) (s := v) ⟨?_, y, k₁, rfl, ?_⟩ h
      · simp [hwhole]
      · simpa using hfind
  | cons c k₂ ih =>
      refine .keep ⟨by simp [hwhole], .inr ⟨y, k₁, c :: k₂, d, v, by simp, rfl, by simp,
        by simp [hr], by simpa using hfind⟩⟩ ?_
      have hrest := @ih (k₁ ++ [c]) (by simpa using hfind) (by simp [hwhole]) (by simp [hr])
        (by simpa using h)
      simpa using hrest

theorem rewrites_subFrom (hwhole : whole = l ++ s) :
    Rewrites (rule.Keeps w whole) (rule.Drops w whole) rule.replacement [] [] l s
      (rule.subFrom w (lastOr none l) 0 s) := by
  induction hn : s.length using Nat.strong_induction_on generalizing l s with
  | _ n ih =>
      cases s with
      | nil => exact .nil l
      | cons c s =>
          cases hfind : rule.find w (lastOr none l) (c :: s) with
          | none =>
              have hrest := ih s.length (by simp [← hn]) (l := l ++ [c]) (by simp [hwhole]) rfl
              have hsub : rule.subFrom w (lastOr none l) 0 (c :: s) =
                  c :: rule.subFrom w (lastOr none (l ++ [c])) 0 s := by
                simp [subFrom, hfind]
              rw [hsub]
              exact .keep ⟨by simpa using hwhole, .inl (by simpa using hfind)⟩ hrest
          | some m =>
              obtain ⟨k, d⟩ := m
              obtain ⟨v, hs, -⟩ := find_eq_some hfind
              have hd := List.length_pos_iff.mpr (dropped_ne_nil hfind)
              rw [hs] at hfind hwhole hn ⊢
              simp only [List.length_append] at hn
              have hrest := ih v.length (by omega) (l := l ++ k ++ d) (by simp [hwhole]) rfl
              rw [subFrom_of_find_eq_some hfind]
              have hfind' : rule.find w (lastOr none l) ([] ++ k ++ (d ++ v)) = some ([] ++ k, d) :=
                hfind
              have hkept := rewrites_kept hfind' hwhole rfl (by simpa using hrest)
              simpa using hkept

theorem rewrites_sub (w : WordClass) (rule : Rule) (s : Text) :
    Rewrites (rule.Keeps w s) (rule.Drops w s) rule.replacement [] [] [] s (rule.sub w s) :=
  rewrites_subFrom rfl

theorem subFrom_eq_self (h : ∀ a v k d, s = a ++ v →
    rule.find w (lastOr prev a) v = some (k, d) → d = rule.replacement) :
    rule.subFrom w prev 0 s = s := by
  induction hn : s.length using Nat.strong_induction_on generalizing prev s with
  | _ n ih =>
      cases s with
      | nil => rfl
      | cons c s =>
          cases hfind : rule.find w prev (c :: s) with
          | none =>
              have hrest := @ih s.length (by simp [← hn]) s (some c)
                (fun a v k d hs hd => h (c :: a) v k d (by rw [hs, List.cons_append])
                  (by simpa using hd)) rfl
              simp [subFrom, hfind, hrest]
          | some m =>
              obtain ⟨k, d⟩ := m
              have hsame := h [] (c :: s) k d rfl (by simpa using hfind)
              obtain ⟨v, hs, -⟩ := find_eq_some hfind
              have hlength := List.length_pos_iff.mpr (dropped_ne_nil hfind)
              rw [hs] at hfind hn h ⊢
              simp only [List.length_append] at hn
              have hrest := @ih v.length (by omega) v (lastOr prev (k ++ d))
                (fun a v' k' d' hv hd' => h (k ++ d ++ a) v' k' d' (by simp [hv])
                  (by simpa using hd')) rfl
              rw [subFrom_of_find_eq_some hfind, hrest, hsame]

/-- Where every match puts back what it takes, a pass changes nothing. -/
theorem sub_eq_self (h : ∀ a v k d, s = a ++ v →
    rule.find w (lastOr none a) v = some (k, d) → d = rule.replacement) :
    rule.sub w s = s :=
  subFrom_eq_self h

theorem NoMatch.sub_eq_self (h : rule.NoMatch w s) : rule.sub w s = s := by
  refine Rule.sub_eq_self fun a v k d hs hfind => ?_
  rw [h a v hs] at hfind
  cases hfind

/-- A pass that keeps something of every match does not change the first character. -/
theorem head?_subFrom (hkept : rule.kept.consumes = true) :
    (rule.subFrom w prev 0 s).head? = s.head? := by
  cases s with
  | nil => rfl
  | cons c s =>
      cases hfind : rule.find w prev (c :: s) with
      | none => simp [subFrom, hfind]
      | some m =>
          obtain ⟨k, d⟩ := m
          obtain ⟨v, hs, hmem, -⟩ := find_eq_some hfind
          have hne : k ≠ [] := ne_nil_of_consumes hkept hmem
          rw [hs] at hfind ⊢
          rw [subFrom_of_find_eq_some hfind, List.head?_append_of_ne_nil _ hne,
            List.head?_append_of_ne_nil _ hne]

theorem find_ne_none (hk : (k, d ++ v) ∈ rule.kept.splits w prev s)
    (hd : (d, v) ∈ rule.dropped.splits w (lastOr prev k) (d ++ v)) :
    rule.find w prev s ≠ none := by
  intro hnone
  have hempty := find_eq_none hnone hk
  rw [hempty] at hd
  cases hd

end Rule

namespace Regex

variable {w : WordClass} {regex : Regex} {prev prev' : Option Char} {u v v' : Text}

theorem boundary_congr {b b' c c' : Option Char} (hb : b.any w.isWord = b'.any w.isWord)
    (hc : c.any w.isWord = c'.any w.isWord) : w.boundary b c = w.boundary b' c' := by
  rw [WordClass.boundary, WordClass.boundary, hb, hc]

theorem any_head?_append (h : v.head?.any w.isWord = v'.head?.any w.isWord) (u : Text) :
    (u ++ v).head?.any w.isWord = (u ++ v').head?.any w.isWord := by
  cases u with
  | nil => exact h
  | cons c u => rfl

theorem any_lastOr (h : prev.any w.isWord = prev'.any w.isWord) (u : Text) :
    (lastOr prev u).any w.isWord = (lastOr prev' u).any w.isWord := by
  by_cases hu : u = []
  · rw [hu]
    exact h
  · rw [lastOr_of_ne_nil hu, lastOr_of_ne_nil hu]

def hasBoundary : Regex → Bool
  | boundary => true
  | seq a b | alt a b => a.hasBoundary || b.hasBoundary
  | empty | char _ | many _ => false

/-- Whether a text can be taken depends, apart from it, on the word characters around it. -/
theorem mem_splits_congr (hcontext : regex.hasBoundary = true →
      prev.any w.isWord = prev'.any w.isWord ∧ v.head?.any w.isWord = v'.head?.any w.isWord)
    (h : (u, v) ∈ regex.splits w prev (u ++ v)) :
    (u, v') ∈ regex.splits w prev' (u ++ v') := by
  induction regex generalizing prev prev' u v v' with
  | empty =>
      obtain ⟨rfl, -⟩ := Prod.mk.inj (mem_splits_empty.mp h)
      exact mem_splits_empty.mpr rfl
  | char p =>
      obtain ⟨c, -, hc, rfl⟩ := mem_splits_char.mp h
      exact mem_splits_char.mpr ⟨c, rfl, hc, rfl⟩
  | many p => exact mem_splits_many.mpr ⟨rfl, (mem_splits_many.mp h).2⟩
  | boundary =>
      obtain ⟨hprev, hnext⟩ := hcontext rfl
      obtain ⟨hboundary, heq⟩ := mem_splits_boundary.mp h
      obtain ⟨rfl, -⟩ := Prod.mk.inj heq
      refine mem_splits_boundary.mpr ⟨?_, rfl⟩
      rwa [List.nil_append, ← boundary_congr hprev hnext]
  | seq a b iha ihb =>
      obtain ⟨⟨u₁, s₁⟩, h₁, ⟨u₂, v₂⟩, h₂, heq⟩ := mem_splits_seq.mp h
      obtain ⟨rfl, rfl⟩ := Prod.mk.inj heq
      have hs₁ := eq_append_of_mem_splits h₂
      simp only at h₁ h₂ hs₁
      subst hs₁
      rw [List.append_assoc] at h₁ ⊢
      refine mem_splits_seq.mpr ⟨(u₁, u₂ ++ v'), iha (fun ha => ?_) h₁, (u₂, v'),
        ihb (fun hb => ?_) h₂, rfl⟩
      · obtain ⟨hprev, hnext⟩ := hcontext (by simp [hasBoundary, ha])
        exact ⟨hprev, any_head?_append hnext u₂⟩
      · obtain ⟨hprev, hnext⟩ := hcontext (by simp [hasBoundary, hb])
        exact ⟨any_lastOr hprev u₁, hnext⟩
  | alt a b iha ihb =>
      refine mem_splits_alt.mpr ((mem_splits_alt.mp h).imp ?_ ?_)
      · exact iha fun ha => hcontext (by simp [hasBoundary, ha])
      · exact ihb fun hb => hcontext (by simp [hasBoundary, hb])

end Regex

open Regex in
/-- A match is found again beside word characters like those that were there. -/
theorem Rule.find_again {w : WordClass} {rule : Rule} {prev prev' : Option Char}
    {k d v v' : Text} (h : rule.find w prev (k ++ (d ++ v)) = some (k, d))
    (hprev : prev.any w.isWord = prev'.any w.isWord)
    (hnext : rule.dropped.hasBoundary = true →
      v.head?.any w.isWord = v'.head?.any w.isWord) :
    rule.find w prev' (k ++ (d ++ v')) ≠ none := by
  obtain ⟨hkept, hdropped⟩ := Rule.find_append h
  refine Rule.find_ne_none (k := k) (d := d) (v := v') ?_ ?_
  · refine mem_splits_congr (fun _ => ⟨hprev, ?_⟩) hkept
    obtain ⟨c, d, rfl⟩ := List.exists_cons_of_ne_nil (Rule.dropped_ne_nil h)
    rfl
  · exact mem_splits_congr (fun hboundary => ⟨any_lastOr hprev k, hnext hboundary⟩)
      (List.mem_of_head? hdropped)

end StorageService.Foundation
