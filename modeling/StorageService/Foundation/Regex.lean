import Mathlib.Data.List.Infix
import StorageService.Foundation.Text

/-!
# Substitution by regular expressions

`Pattern` asks whether there is a match; `re.sub` replaces the preferred one, so
here the matches come in the order in which `re` tries them.  A match depends on
the text from its start on and, by `\b`, on the character before it.  A text is
substituted in one pass from left to right: what is replaced is not read again.
-/

namespace StorageService.Foundation

/-- The characters of `\w`; beyond ASCII they are a table of Unicode, without punctuation. -/
structure WordClass where
  isWord : Char → Bool
  ascii : ∀ c, c.toNat < 128 → isWord c = (c.isAlphanum || c == '_')
  ellipsis : isWord '…' = false

namespace WordClass

variable (w : WordClass)

def boundary (before after : Option Char) : Bool :=
  before.any w.isWord != after.any w.isWord

end WordClass

inductive Regex where
  | empty
  | char (p : Char → Bool)
  | many (p : Char → Bool)
  | boundary
  | seq (a b : Regex)
  | alt (a b : Regex)

namespace Regex

def lastOr (prev : Option Char) (u : Text) : Option Char := u.getLast?.or prev

@[simp] theorem lastOr_nil (prev : Option Char) : lastOr prev [] = prev := rfl

@[simp] theorem lastOr_append (prev : Option Char) (u v : Text) :
    lastOr prev (u ++ v) = lastOr (lastOr prev u) v := by
  simp [lastOr, Option.or_assoc]

@[simp] theorem lastOr_cons (prev : Option Char) (c : Char) (u : Text) :
    lastOr prev (c :: u) = lastOr (some c) u := by
  simpa [lastOr] using lastOr_append prev [c] u

theorem lastOr_of_ne_nil {u : Text} (hu : u ≠ []) (prev : Option Char) :
    lastOr prev u = u.getLast? := by
  rw [lastOr, List.getLast?_eq_some_getLast hu, Option.some_or]

def splitMany (p : Char → Bool) : Text → List (Text × Text)
  | [] => [([], [])]
  | c :: s =>
      (if p c then (splitMany p s).map fun r => (c :: r.1, r.2) else []) ++ [([], c :: s)]

/-- What a match at the start of the text may take and leave, the preferred match first. -/
def splits (w : WordClass) : Regex → Option Char → Text → List (Text × Text)
  | empty, _, s => [([], s)]
  | char p, _, c :: s => if p c then [([c], s)] else []
  | char _, _, [] => []
  | many p, _, s => splitMany p s
  | boundary, prev, s => if w.boundary prev s.head? then [([], s)] else []
  | seq a b, prev, s => (a.splits w prev s).flatMap fun r =>
      (b.splits w (lastOr prev r.1) r.2).map fun r' => (r.1 ++ r'.1, r'.2)
  | alt a b, prev, s => a.splits w prev s ++ b.splits w prev s

def seqs : List Regex → Regex
  | [] => empty
  | a :: as => seq a (seqs as)

def optional (a : Regex) : Regex := alt a empty

def atLeast (p : Char → Bool) : Nat → Regex
  | 0 => many p
  | n + 1 => seq (char p) (atLeast p n)

def literal (s : Text) : Regex := seqs (s.map fun c => char (· == c))

def consumes : Regex → Bool
  | char _ => true
  | seq a b => a.consumes || b.consumes
  | alt a b => a.consumes && b.consumes
  | empty | many _ | boundary => false

/-! ## What a match takes -/

variable {w : WordClass} {a b : Regex} {p : Char → Bool} {prev : Option Char} {s u v : Text}
  {r : Text × Text}

theorem splits_empty : empty.splits w prev s = [([], s)] := rfl

theorem splits_char : (char p).splits w prev s =
    match s with
    | [] => []
    | c :: s => if p c then [([c], s)] else [] := by
  cases s <;> rfl

theorem splits_many : (many p).splits w prev s = splitMany p s := rfl

theorem splits_boundary : boundary.splits w prev s =
    if w.boundary prev s.head? then [([], s)] else [] := rfl

theorem splits_seq : (seq a b).splits w prev s = (a.splits w prev s).flatMap fun r =>
    (b.splits w (lastOr prev r.1) r.2).map fun r' => (r.1 ++ r'.1, r'.2) := rfl

theorem splits_alt : (alt a b).splits w prev s = a.splits w prev s ++ b.splits w prev s := rfl

theorem mem_splitMany : r ∈ splitMany p s ↔ s = r.1 ++ r.2 ∧ ∀ c ∈ r.1, p c = true := by
  induction s generalizing r with
  | nil =>
      obtain ⟨u, v⟩ := r
      simp only [splitMany, List.mem_singleton, Prod.mk.injEq, List.nil_eq, List.append_eq_nil_iff]
      constructor
      · rintro ⟨rfl, rfl⟩
        simp
      · exact And.left
  | cons c s ih =>
      obtain ⟨u, v⟩ := r
      simp only [splitMany, List.mem_append, List.mem_singleton]
      constructor
      · rintro (h | h)
        · split at h
          · rename_i hc
            obtain ⟨r, hr, heq⟩ := List.mem_map.mp h
            obtain ⟨rfl, hall⟩ := ih.mp hr
            cases heq
            exact ⟨rfl, List.forall_mem_cons.mpr ⟨hc, hall⟩⟩
          · cases h
        · cases h
          exact ⟨rfl, by simp⟩
      · rintro ⟨hs, hall⟩
        cases u with
        | nil =>
            cases hs
            exact .inr rfl
        | cons d u =>
            cases hs
            obtain ⟨hc, hall⟩ := List.forall_mem_cons.mp hall
            refine .inl ?_
            rw [if_pos hc]
            exact List.mem_map.mpr ⟨(u, v), ih.mpr ⟨rfl, hall⟩, rfl⟩

theorem head?_splitMany (p : Char → Bool) (s : Text) :
    (splitMany p s).head? = some (s.takeWhile p, s.dropWhile p) := by
  induction s with
  | nil => rfl
  | cons c s ih =>
      cases hc : p c with
      | false => simp [splitMany, hc]
      | true => simp [splitMany, hc, ih]

theorem mem_splits_char :
    r ∈ (char p).splits w prev s ↔ ∃ c, s = c :: r.2 ∧ p c = true ∧ r.1 = [c] := by
  cases s with
  | nil => simp [splits_char]
  | cons c s =>
      obtain ⟨u, v⟩ := r
      by_cases hc : p c = true
      · simp only [splits_char, hc, if_true, List.mem_singleton, Prod.mk.injEq, List.cons.injEq]
        constructor
        · rintro ⟨rfl, rfl⟩
          exact ⟨c, ⟨rfl, rfl⟩, hc, rfl⟩
        · rintro ⟨d, ⟨rfl, rfl⟩, -, rfl⟩
          exact ⟨rfl, rfl⟩
      · simp only [splits_char, hc, List.cons.injEq]
        constructor
        · intro h
          cases h
        · rintro ⟨d, ⟨rfl, -⟩, hd, -⟩
          exact absurd hd hc

theorem mem_splits_many :
    r ∈ (many p).splits w prev s ↔ s = r.1 ++ r.2 ∧ ∀ c ∈ r.1, p c = true :=
  mem_splitMany

theorem mem_splits_boundary : r ∈ boundary.splits w prev s ↔
    w.boundary prev s.head? = true ∧ r = ([], s) := by
  rw [splits_boundary, List.mem_ite_nil_right, List.mem_singleton]

theorem mem_splits_seq : r ∈ (seq a b).splits w prev s ↔
    ∃ r₁ ∈ a.splits w prev s, ∃ r₂ ∈ b.splits w (lastOr prev r₁.1) r₁.2,
      r = (r₁.1 ++ r₂.1, r₂.2) := by
  simp only [splits_seq, List.mem_flatMap, List.mem_map, eq_comm]

theorem mem_splits_alt : r ∈ (alt a b).splits w prev s ↔
    r ∈ a.splits w prev s ∨ r ∈ b.splits w prev s := by
  rw [splits_alt, List.mem_append]

theorem eq_append_of_mem_splits (h : r ∈ a.splits w prev s) : s = r.1 ++ r.2 := by
  induction a generalizing prev s r with
  | empty =>
      rw [splits_empty, List.mem_singleton] at h
      rw [h, List.nil_append]
  | char p =>
      obtain ⟨c, rfl, -, hu⟩ := mem_splits_char.mp h
      rw [hu, List.singleton_append]
  | many p => exact (mem_splits_many.mp h).1
  | boundary =>
      obtain ⟨-, rfl⟩ := mem_splits_boundary.mp h
      rfl
  | seq a b iha ihb =>
      obtain ⟨r₁, h₁, r₂, h₂, rfl⟩ := mem_splits_seq.mp h
      rw [iha h₁, ihb h₂, List.append_assoc]
  | alt a b iha ihb =>
      rcases mem_splits_alt.mp h with h | h
      · exact iha h
      · exact ihb h

theorem ne_nil_of_consumes (ha : a.consumes = true) (h : r ∈ a.splits w prev s) : r.1 ≠ [] := by
  induction a generalizing prev s r with
  | char p =>
      obtain ⟨c, -, -, hu⟩ := mem_splits_char.mp h
      rw [hu]
      exact List.cons_ne_nil c []
  | seq a b iha ihb =>
      obtain ⟨r₁, h₁, r₂, h₂, rfl⟩ := mem_splits_seq.mp h
      rw [consumes, Bool.or_eq_true] at ha
      rcases ha with ha | ha
      · exact List.append_ne_nil_of_left_ne_nil (iha ha h₁) _
      · exact List.append_ne_nil_of_right_ne_nil _ (ihb ha h₂)
  | alt a b iha ihb =>
      rw [consumes, Bool.and_eq_true] at ha
      rcases mem_splits_alt.mp h with h | h
      · exact iha ha.1 h
      · exact ihb ha.2 h
  | empty | many p | boundary => cases ha

theorem mem_splits_empty : r ∈ empty.splits w prev s ↔ r = ([], s) := by
  rw [splits_empty, List.mem_singleton]

/-- What each part takes is followed by what the others take. -/
theorem mem_splits_seqs_cons {l : List Regex} : (u, v) ∈ (seqs (a :: l)).splits w prev s ↔
    ∃ u₁ u₂, u = u₁ ++ u₂ ∧ (u₁, u₂ ++ v) ∈ a.splits w prev s ∧
      (u₂, v) ∈ (seqs l).splits w (lastOr prev u₁) (u₂ ++ v) := by
  rw [seqs, mem_splits_seq]
  constructor
  · rintro ⟨⟨u₁, s₁⟩, h₁, ⟨u₂, v₂⟩, h₂, heq⟩
    obtain ⟨rfl, rfl⟩ := Prod.mk.inj heq
    have hs₁ := eq_append_of_mem_splits h₂
    simp only at h₁ h₂ hs₁
    rw [hs₁] at h₁ h₂
    exact ⟨u₁, u₂, rfl, h₁, h₂⟩
  · rintro ⟨u₁, u₂, rfl, h₁, h₂⟩
    exact ⟨(u₁, u₂ ++ v), h₁, (u₂, v), h₂, rfl⟩

theorem mem_splits_literal {t : Text} :
    r ∈ (literal t).splits w prev s ↔ r.1 = t ∧ s = t ++ r.2 := by
  obtain ⟨u, v⟩ := r
  induction t generalizing prev s u with
  | nil => simp [literal, seqs, splits_empty, eq_comm]
  | cons c t ih =>
      have ih' {prev : Option Char} {s u : Text} : (u, v) ∈
          (seqs (t.map fun c => char (· == c))).splits w prev s ↔ u = t ∧ s = t ++ v := ih u
      simp only [literal, List.map_cons, seqs, mem_splits_seq, mem_splits_char]
      constructor
      · rintro ⟨⟨_, _⟩, ⟨d, rfl, hd, rfl⟩, ⟨_, _⟩, hrest, heq⟩
        cases heq
        obtain ⟨rfl, hs⟩ := ih'.mp hrest
        simp only at hs
        exact ⟨by simpa using hd, by simp [hs, beq_iff_eq.mp hd]⟩
      · rintro ⟨rfl, rfl⟩
        exact ⟨([c], t ++ v), ⟨c, rfl, by simp, rfl⟩, (t, v), ih'.mpr ⟨rfl, rfl⟩, rfl⟩

theorem mem_splits_atLeast {n : Nat} : r ∈ (atLeast p n).splits w prev s ↔
    s = r.1 ++ r.2 ∧ (∀ c ∈ r.1, p c = true) ∧ n ≤ r.1.length := by
  obtain ⟨u, v⟩ := r
  induction n generalizing prev s u with
  | zero => simp [atLeast, mem_splits_many]
  | succ n ih =>
      simp only [atLeast, mem_splits_seq, mem_splits_char]
      constructor
      · rintro ⟨⟨_, _⟩, ⟨d, rfl, hd, rfl⟩, ⟨_, _⟩, hrest, heq⟩
        cases heq
        obtain ⟨hs, hall, hn⟩ := (ih _).mp hrest
        simp only at hs
        exact ⟨by simp [hs], List.forall_mem_cons.mpr ⟨hd, hall⟩, by simpa using hn⟩
      · rintro ⟨rfl, hall, hn⟩
        cases u with
        | nil => cases hn
        | cons c u =>
            obtain ⟨hc, hall⟩ := List.forall_mem_cons.mp hall
            exact ⟨([c], u ++ v), ⟨c, rfl, hc, rfl⟩, (u, v),
              (ih u).mpr ⟨rfl, hall, by simpa using hn⟩, rfl⟩

/-! ## Where the preferred match stops -/

theorem head?_rest_of_seq {Q : Text → Prop}
    (hb : ∀ prev s r, (b.splits w prev s).head? = some r → Q r.2)
    (h : ((seq a b).splits w prev s).head? = some r) : Q r.2 := by
  rw [splits_seq, List.head?_flatMap] at h
  obtain ⟨r₁, -, h⟩ := List.exists_of_findSome?_eq_some h
  rw [List.head?_map, Option.map_eq_some_iff] at h
  obtain ⟨r₂, h₂, rfl⟩ := h
  exact hb _ _ r₂ h₂

theorem head?_rest_of_many (h : ((many p).splits w prev s).head? = some r) :
    ∀ c ∈ r.2.head?, p c = false := by
  rw [splits_many, head?_splitMany] at h
  cases h
  intro c hc
  have hstop := List.head?_dropWhile_not p s
  rw [Option.mem_def.mp hc] at hstop
  exact hstop

theorem head?_rest_of_atLeast {n : Nat} (h : ((atLeast p n).splits w prev s).head? = some r) :
    ∀ c ∈ r.2.head?, p c = false := by
  induction n generalizing prev s r with
  | zero => exact head?_rest_of_many h
  | succ n ih =>
      exact head?_rest_of_seq (Q := fun v => ∀ c ∈ v.head?, p c = false) (fun _ _ _ => ih) h

theorem head?_splits_alt (h : ((alt a b).splits w prev s).head? = some r) :
    (a.splits w prev s).head? = some r ∨ (b.splits w prev s).head? = some r := by
  rw [splits_alt, List.head?_append] at h
  cases ha : (a.splits w prev s).head? with
  | none => exact .inr (by simpa [ha] using h)
  | some r' => exact .inl (by simpa [ha] using h)

end Regex

/-! ## Substitution -/

/--
What a match takes falls into what `\1`, or `\1\2`, keeps of it and what is
replaced; the latter is never empty.
-/
structure Rule where
  kept : Regex
  dropped : Regex
  replacement : Text
  consumes : dropped.consumes = true

namespace Rule

open Regex

variable (w : WordClass) (rule : Rule)

def find (prev : Option Char) (s : Text) : Option (Text × Text) :=
  ((rule.kept.splits w prev s).flatMap fun k =>
    (rule.dropped.splits w (lastOr prev k.1) k.2).map fun d => (k.1, d.1)).head?

/-- One pass over the text; `skip` characters of it belong to the last match. -/
def subFrom : Option Char → Nat → Text → Text
  | _, _, [] => []
  | _, skip + 1, c :: s => subFrom (some c) skip s
  | prev, 0, c :: s =>
      match rule.find w prev (c :: s) with
      | some m =>
          m.1 ++ (rule.replacement ++ subFrom (some c) ((m.1 ++ m.2).length - 1) s)
      | none => c :: subFrom (some c) 0 s

def sub (s : Text) : Text := subFrom w rule none 0 s

variable {w rule} {prev : Option Char} {s k d : Text}

theorem find_eq_some (h : rule.find w prev s = some (k, d)) :
    ∃ v, s = k ++ (d ++ v) ∧ (k, d ++ v) ∈ rule.kept.splits w prev s ∧
      (rule.dropped.splits w (lastOr prev k) (d ++ v)).head? = some (d, v) := by
  rw [find, List.head?_flatMap] at h
  obtain ⟨r, hr, h⟩ := List.exists_of_findSome?_eq_some h
  rw [List.head?_map, Option.map_eq_some_iff] at h
  obtain ⟨r', hr', heq⟩ := h
  cases heq
  have hs := eq_append_of_mem_splits hr
  have hrest := eq_append_of_mem_splits (List.mem_of_head? hr')
  refine ⟨r'.2, ?_, ?_, ?_⟩
  · rw [hs, ← hrest]
  · rwa [← hrest]
  · rwa [← hrest]

theorem find_append {v : Text} (h : rule.find w prev (k ++ (d ++ v)) = some (k, d)) :
    (k, d ++ v) ∈ rule.kept.splits w prev (k ++ (d ++ v)) ∧
      (rule.dropped.splits w (lastOr prev k) (d ++ v)).head? = some (d, v) := by
  obtain ⟨v', heq, hkept, hdropped⟩ := find_eq_some h
  obtain rfl : v = v' := List.append_cancel_left (List.append_cancel_left heq)
  exact ⟨hkept, hdropped⟩

theorem find_eq_none (h : rule.find w prev s = none) {r : Text × Text}
    (hr : r ∈ rule.kept.splits w prev s) :
    rule.dropped.splits w (lastOr prev r.1) r.2 = [] := by
  rw [find, List.head?_eq_none_iff, List.flatMap_eq_nil_iff] at h
  exact List.map_eq_nil_iff.mp (h r hr)

theorem dropped_ne_nil (h : rule.find w prev s = some (k, d)) : d ≠ [] := by
  obtain ⟨v, -, -, hd⟩ := find_eq_some h
  exact ne_nil_of_consumes rule.consumes (List.mem_of_head? hd)

theorem subFrom_append (prev : Option Char) (d s : Text) :
    subFrom w rule prev d.length (d ++ s) = subFrom w rule (lastOr prev d) 0 s := by
  induction d generalizing prev with
  | nil => rfl
  | cons c d ih =>
      rw [List.cons_append, List.length_cons, subFrom, ih, lastOr_cons]

theorem subFrom_of_find_eq_some {v : Text} (h : rule.find w prev (k ++ (d ++ v)) = some (k, d)) :
    subFrom w rule prev 0 (k ++ (d ++ v)) =
      k ++ (rule.replacement ++ subFrom w rule (lastOr prev (k ++ d)) 0 v) := by
  cases hm : k ++ d with
  | nil => exact absurd (List.append_eq_nil_iff.mp hm).2 (dropped_ne_nil h)
  | cons c m =>
      rw [← List.append_assoc, hm, List.cons_append] at h ⊢
      rw [subFrom, h]
      simp only [hm, List.length_cons, Nat.add_sub_cancel, subFrom_append, lastOr_cons]

/--
What one pass preserves.  The text so far is `y`, what is still to be read is
`v`, and `prev` is the character read last, which may have been replaced in `y`.
-/
theorem subFrom_invariant {I : Option Char → Text → Text → Prop}
    (hskip : ∀ {prev y c v}, I prev y (c :: v) → rule.find w prev (c :: v) = none →
      I (some c) (y ++ [c]) v)
    (hhit : ∀ {prev y k d v}, I prev y (k ++ (d ++ v)) →
      rule.find w prev (k ++ (d ++ v)) = some (k, d) →
      I (lastOr prev (k ++ d)) (y ++ (k ++ rule.replacement)) v)
    {y : Text} (h : I prev y s) : ∃ prev', I prev' (y ++ subFrom w rule prev 0 s) [] := by
  induction hn : s.length using Nat.strong_induction_on generalizing prev y s with
  | _ n ih =>
      cases s with
      | nil => exact ⟨prev, by simpa [subFrom] using h⟩
      | cons c s =>
          cases hfind : rule.find w prev (c :: s) with
          | none =>
              have hrest := ih s.length (by simp [← hn]) (hskip h hfind) rfl
              simpa [subFrom, hfind] using hrest
          | some m =>
              obtain ⟨k, d⟩ := m
              obtain ⟨v, hs, -⟩ := find_eq_some hfind
              have hd := List.length_pos_iff.mpr (dropped_ne_nil hfind)
              rw [hs] at h hfind hn ⊢
              rw [subFrom_of_find_eq_some hfind]
              simp only [List.length_append] at hn
              have hrest := ih v.length (by omega) (hhit h hfind) rfl
              simpa using hrest

theorem sub_invariant (rule : Rule) {I : Option Char → Text → Text → Prop}
    (hskip : ∀ {prev y c v}, I prev y (c :: v) → rule.find w prev (c :: v) = none →
      I (some c) (y ++ [c]) v)
    (hhit : ∀ {prev y k d v}, I prev y (k ++ (d ++ v)) →
      rule.find w prev (k ++ (d ++ v)) = some (k, d) →
      I (lastOr prev (k ++ d)) (y ++ (k ++ rule.replacement)) v)
    (h : I none [] s) : ∃ prev, I prev (rule.sub w s) [] :=
  subFrom_invariant hskip hhit h

end Rule

end StorageService.Foundation
