import Mathlib.Data.List.Sort

/-!
# Pages of a list that is sorted anew

A list is cut into pages of `n` elements, and each page is cut out of a sorting of
its own.  The pages make up the list whichever sortings are taken exactly when no
page ends between two elements of the same rank.
-/

namespace StorageService.Foundation

variable {α β : Type}

/-! ## Pages -/

/-- The first `m` pages, the one at `k` cut out of `sorting k`. -/
def pages (sorting : Nat → List α) (n m : Nat) : List α :=
  (List.range m).flatMap fun k => ((sorting k).drop (k * n)).take n

theorem pages_succ (sorting : Nat → List α) (n m : Nat) :
    pages sorting n (m + 1) = pages sorting n m ++ ((sorting m).drop (m * n)).take n := by
  simp [pages, List.range_succ]

theorem take_page (l : List α) (n m : Nat) :
    l.take (m * n) ++ (l.drop (m * n)).take n = l.take ((m + 1) * n) := by
  rw [Nat.succ_mul, List.take_add]

theorem pages_perm {sorting : Nat → List α} {l : List α} {n : Nat}
    (h : ∀ k m, ((sorting k).take (m * n)).Perm (l.take (m * n))) (m : Nat) :
    (pages sorting n m).Perm (l.take (m * n)) := by
  induction m with
  | zero => simp [pages]
  | succ m ih =>
      rw [pages_succ]
      have hpage : (pages sorting n m ++ ((sorting m).drop (m * n)).take n).Perm
          ((sorting m).take (m * n) ++ ((sorting m).drop (m * n)).take n) :=
        (ih.trans (h m m).symm).append_right _
      rw [take_page] at hpage
      exact hpage.trans (h m (m + 1))

theorem pages_of_changed {sorting : Nat → List α} {l l' : List α} {n c : Nat}
    (hbefore : ∀ k < c, sorting k = l) (hafter : ∀ k, c ≤ k → sorting k = l') (m : Nat) :
    pages sorting n (c + m) = l.take (c * n) ++ (l'.drop (c * n)).take (m * n) := by
  induction m with
  | zero =>
      have hfirst : ∀ k ≤ c, pages sorting n k = l.take (k * n) := by
        intro k
        induction k with
        | zero => simp [pages]
        | succ k ih =>
            intro hk
            rw [pages_succ, ih (by omega), hbefore k (by omega), take_page]
      simp [hfirst c le_rfl]
  | succ m ih =>
      have hmore : (l'.drop (c * n)).take (m * n) ++ (l'.drop ((c + m) * n)).take n =
          (l'.drop (c * n)).take ((m + 1) * n) := by
        rw [Nat.add_mul, ← List.drop_drop, take_page]
      rw [← Nat.add_assoc, pages_succ, ih, hafter (c + m) (by omega), List.append_assoc, hmore]

/-- What is in front of the cut in one order and right behind it in the other shows twice. -/
theorem sublist_of_changed {l l' rest rest' : List α} {x : α} {c m : Nat}
    (hbefore : x ∈ l.take c) (hafter : (l'.drop c).head? = some x) (hm : 0 < m) :
    [x, x].Sublist ((l ++ rest).take c ++ ((l' ++ rest').drop c).take m) := by
  have hone : [x].Sublist ((l ++ rest).take c) := by
    rw [List.singleton_sublist, List.take_append]
    exact List.mem_append_left _ hbefore
  have htwo : [x].Sublist (((l' ++ rest').drop c).take m) := by
    obtain ⟨tail, htail⟩ := List.head?_eq_some_iff.mp hafter
    obtain ⟨i, rfl⟩ : ∃ i, m = i + 1 := ⟨m - 1, by omega⟩
    rw [List.singleton_sublist, List.drop_append, htail]
    simp
  exact hone.append htwo


/-! ## Elements of the same rank -/

section Ties

variable (r : α → α → Prop) [DecidableRel r]

def countBefore (l : List α) (a : α) : Nat := l.countP fun b => decide (r b a ∧ ¬r a b)

def countUpTo (l : List α) (a : α) : Nat := l.countP fun b => decide (r b a)

/-- Position `j` lies between elements of the same rank. -/
def CutsTie (l : List α) (j : Nat) : Prop :=
  ∃ a ∈ l, countBefore r l a < j ∧ j < countUpTo r l a

instance (l : List α) (j : Nat) : Decidable (CutsTie r l j) :=
  inferInstanceAs (Decidable (∃ a ∈ l, _))

variable {r}

theorem countBefore_perm {l l' : List α} (h : l.Perm l') (a : α) :
    countBefore r l a = countBefore r l' a := h.countP_eq _

theorem countUpTo_perm {l l' : List α} (h : l.Perm l') (a : α) :
    countUpTo r l a = countUpTo r l' a := h.countP_eq _

theorem cutsTie_perm {l l' : List α} (h : l.Perm l') {j : Nat} :
    CutsTie r l j ↔ CutsTie r l' j := by
  simp only [CutsTie, h.mem_iff, countBefore_perm h, countUpTo_perm h]

theorem cutsTie_map {f : β → α} {l : List β} {j : Nat} :
    CutsTie r (l.map f) j ↔ CutsTie (fun a b => r (f a) (f b)) l j := by
  simp only [CutsTie, List.mem_map, exists_exists_and_eq_and, countBefore, countUpTo,
    List.countP_map, Function.comp_def]

omit [DecidableRel r] in
theorem rank_refl [Std.Total r] (a : α) : r a a := (Std.Total.total a a).elim id id

omit [DecidableRel r] in
theorem rank_trans [IsTrans α r] {a b c : α} (hab : r a b) (hbc : r b c) : r a c :=
  IsTrans.trans a b c hab hbc

theorem not_cutsTie_of_length_le {l : List α} {n : Nat} (h : l.length ≤ n) (k : Nat) :
    ¬CutsTie r l (k * n) := by
  rintro ⟨a, -, hbefore, hafter⟩
  have hle : countUpTo r l a ≤ l.length := List.countP_le_length
  cases k with
  | zero => simp at hbefore
  | succ k =>
      rw [Nat.succ_mul] at hafter
      omega

theorem countBefore_lt_of_mem_take {l : List α} (hl : l.Pairwise r) {j : Nat} {a : α}
    (ha : a ∈ l.take j) : countBefore r l a < j := by
  rw [← List.take_append_drop j l, List.pairwise_append] at hl
  rw [countBefore, ← List.take_append_drop j l, List.countP_append]
  have hafter : (l.drop j).countP (fun b => decide (r b a ∧ ¬r a b)) = 0 := by
    rw [List.countP_eq_zero]
    intro b hb
    simp [hl.2.2 a ha b hb]
  have hbefore : (l.take j).countP (fun b => decide (r b a ∧ ¬r a b)) < (l.take j).length := by
    refine lt_of_le_of_ne List.countP_le_length fun hall => ?_
    simpa using List.countP_eq_length.mp hall a ha
  have hlength := List.length_take_le j l
  omega

theorem lt_countUpTo_of_mem_drop [Std.Total r] {l : List α} (hl : l.Pairwise r) {j : Nat} {a : α}
    (ha : a ∈ l.drop j) : j < countUpTo r l a := by
  have hj : j ≤ l.length := by
    by_contra hlong
    rw [List.drop_eq_nil_of_le (by omega)] at ha
    contradiction
  rw [← List.take_append_drop j l, List.pairwise_append] at hl
  rw [countUpTo, ← List.take_append_drop j l, List.countP_append]
  have hbefore : (l.take j).countP (fun b => decide (r b a)) = j := by
    have hall : (l.take j).countP (fun b => decide (r b a)) = (l.take j).length := by
      rw [List.countP_eq_length]
      intro b hb
      exact decide_eq_true (hl.2.2 b hb a ha)
    rw [hall, List.length_take, Nat.min_eq_left hj]
  have hself : 0 < (l.drop j).countP (fun b => decide (r b a)) := by
    rw [List.countP_pos_iff]
    exact ⟨a, ha, decide_eq_true (rank_refl a)⟩
  omega

theorem take_eq_filter_of_not_cutsTie [Std.Total r] {l : List α} (hl : l.Pairwise r) {j : Nat}
    (h : ¬CutsTie r l j) : l.take j = l.filter fun a => decide (countUpTo r l a ≤ j) := by
  have hbefore : (l.take j).filter (fun a => decide (countUpTo r l a ≤ j)) = l.take j := by
    rw [List.filter_eq_self]
    intro a ha
    rw [decide_eq_true_eq]
    by_contra hlt
    exact h ⟨a, List.mem_of_mem_take ha, countBefore_lt_of_mem_take hl ha, not_le.mp hlt⟩
  have hafter : (l.drop j).filter (fun a => decide (countUpTo r l a ≤ j)) = [] := by
    rw [List.filter_eq_nil_iff]
    intro a ha
    simpa using lt_countUpTo_of_mem_drop hl ha
  calc
    l.take j = (l.take j).filter (fun a => decide (countUpTo r l a ≤ j)) ++
        (l.drop j).filter (fun a => decide (countUpTo r l a ≤ j)) := by
      rw [hbefore, hafter, List.append_nil]
    _ = l.filter fun a => decide (countUpTo r l a ≤ j) := by
      rw [← List.filter_append, List.take_append_drop]

theorem take_perm_of_not_cutsTie [Std.Total r] {l l' : List α} (hl : l.Pairwise r)
    (hl' : l'.Pairwise r) (hperm : l.Perm l') {j : Nat} (h : ¬CutsTie r l j) :
    (l.take j).Perm (l'.take j) := by
  rw [take_eq_filter_of_not_cutsTie hl h,
    take_eq_filter_of_not_cutsTie hl' (fun hcut => h ((cutsTie_perm hperm).mpr hcut))]
  simp only [countUpTo_perm hperm]
  exact hperm.filter _

variable [Std.Total r] [IsTrans α r]

theorem rank_of_cutsTie {front back : List α} {x y : α}
    (hl : (front ++ x :: y :: back).Pairwise r)
    (h : CutsTie r (front ++ x :: y :: back) (front.length + 1)) : r y x := by
  have hsplit : front ++ x :: y :: back = (front ++ [x]) ++ y :: back := by simp
  have hlength : (front ++ [x]).length = front.length + 1 := by simp
  rw [hsplit] at hl h
  obtain ⟨hfirst, hsecond, hacross⟩ := List.pairwise_append.mp hl
  have hx : ∀ b ∈ front ++ [x], r b x := by
    intro b hb
    rcases List.mem_append.mp hb with hfront | hlast
    · exact (List.pairwise_append.mp hfirst).2.2 b hfront x (by simp)
    · rw [List.mem_singleton.mp hlast]
      exact rank_refl x
  have hy : ∀ b ∈ y :: back, r y b := by
    intro b hb
    rcases List.mem_cons.mp hb with rfl | hback
    · exact rank_refl b
    · exact List.rel_of_pairwise_cons hsecond hback
  by_contra hyx
  obtain ⟨a, ha, hbefore, hafter⟩ := h
  rw [countBefore, List.countP_append] at hbefore
  rw [countUpTo, List.countP_append] at hafter
  rcases List.mem_append.mp ha with hfront | hback
  · -- no element after the cut ranks with `a`
    have hnone : (y :: back).countP (fun b => decide (r b a)) = 0 := by
      rw [List.countP_eq_zero]
      intro b hb hba
      exact hyx (rank_trans (rank_trans (hy b hb) (of_decide_eq_true hba)) (hx a hfront))
    have hle := List.countP_le_length (p := fun b => decide (r b a)) (l := front ++ [x])
    omega
  · -- every element before the cut ranks before `a`
    have hall : (front ++ [x]).countP (fun b => decide (r b a ∧ ¬r a b)) =
        (front ++ [x]).length := by
      rw [List.countP_eq_length]
      intro b hb
      exact decide_eq_true ⟨hacross b hb a hback, fun hab => hyx
        (rank_trans (rank_trans (hy a hback) hab) (hx b hb))⟩
    omega

/-- Through a tie another sorting can be found that goes on with an element from before. -/
theorem exists_repeated_of_cutsTie {l : List α} (hl : l.Pairwise r) {j : Nat}
    (h : CutsTie r l j) : ∃ (l' : List α) (x : α), l'.Perm l ∧ l'.Pairwise r ∧ x ∈ l.take j ∧
      (l'.drop j).head? = some x := by
  have hj : 0 < j ∧ j < l.length := by
    obtain ⟨a, -, hbefore, hafter⟩ := h
    exact ⟨by omega, hafter.trans_le List.countP_le_length⟩
  obtain ⟨i, rfl⟩ : ∃ i, j = i + 1 := ⟨j - 1, by omega⟩
  -- `x` and `y` stand before and after the cut
  obtain ⟨front, x, y, back, rfl, rfl⟩ : ∃ front x y back,
      l = front ++ x :: y :: back ∧ i = front.length := by
    refine ⟨l.take i, l[i], l[i + 1], l.drop (i + 2), ?_, ?_⟩
    · rw [List.getElem_cons_drop, List.getElem_cons_drop, List.take_append_drop]
    · rw [List.length_take]
      omega
  have hyx := rank_of_cutsTie hl h
  refine ⟨front ++ y :: x :: back, x, ?_, ?_, ?_, ?_⟩
  · exact (List.Perm.swap x y back).append_left front
  · rw [List.pairwise_append] at hl ⊢
    obtain ⟨hfront, hback, hacross⟩ := hl
    simp only [List.pairwise_cons, List.mem_cons] at hback hacross ⊢
    refine ⟨hfront, ⟨?_, ?_, hback.2.2⟩, ?_⟩
    · rintro b (rfl | hb)
      · exact hyx
      · exact hback.2.1 b hb
    · exact fun b hb => hback.1 b (.inr hb)
    · exact fun a ha b hb => hacross a ha b (by tauto)
  · simp [List.take_append]
  · simp [List.drop_append]

end Ties

end StorageService.Foundation
