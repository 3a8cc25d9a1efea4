import Mathlib.Data.List.Chain
import StorageService.Actions.ErrorMatches

/-!
# Stored error messages as one line

What the joining of the words gives, and what replacing and removing parts of it
leaves of that.
-/

namespace StorageService.Results

open StorageService.Foundation
open StorageService.Storage
open StorageService.Actions

section ErrorLines

variable {w : WordClass} {s t l d v rep : Text}

structure OneLine (s : Text) : Prop where
  blanks : ∀ c ∈ s, isSpace c = true → c = ' '
  single : s.IsChain fun a b => isSpace a = false ∨ isSpace b = false
  head : ∀ c ∈ s.head?, isSpace c = false
  last : ∀ c ∈ s.getLast?, isSpace c = false

theorem oneLine_nil : OneLine [] := ⟨by simp, .nil, by simp, by simp⟩

theorem oneLine_of_word {u : Text} (h : ∀ c ∈ u, isSpace c = false) : OneLine u where
  blanks c hc hspace := by
    rw [h c hc] at hspace
    cases hspace
  single := by
    induction u with
    | nil => exact .nil
    | cons a u ih =>
        refine List.isChain_cons.mpr ⟨fun b _ => .inl (h a List.mem_cons_self), ih fun c hc => ?_⟩
        exact h c (List.mem_cons_of_mem a hc)
  head c hc := h c (List.mem_of_head? hc)
  last c hc := h c (List.mem_of_getLast? hc)

theorem OneLine.of_append (hblanks : ∀ c ∈ s ++ t, isSpace c = true → c = ' ')
    (hs : s.IsChain fun a b => isSpace a = false ∨ isSpace b = false)
    (ht : t.IsChain fun a b => isSpace a = false ∨ isSpace b = false)
    (hjoin : (∀ c ∈ s.getLast?, isSpace c = false) ∨ ∀ c ∈ t.head?, isSpace c = false)
    (hhead : ∀ c ∈ (s ++ t).head?, isSpace c = false)
    (hlast : ∀ c ∈ (s ++ t).getLast?, isSpace c = false) : OneLine (s ++ t) where
  blanks := hblanks
  single := List.isChain_append.mpr ⟨hs, ht, fun a ha b hb =>
    hjoin.imp (fun h => h a ha) fun h => h b hb⟩
  head := hhead
  last := hlast

theorem OneLine.replace (h : OneLine (s ++ (d ++ t))) (hrep : ∀ c ∈ rep, isSpace c = false)
    (hne : rep ≠ []) : OneLine (s ++ (rep ++ t)) := by
  obtain ⟨hs, hdt, -⟩ := List.isChain_append.mp h.single
  obtain ⟨-, ht, -⟩ := List.isChain_append.mp hdt
  have hhead : ∀ c ∈ (rep ++ t).head?, isSpace c = false := by
    intro c hc
    rw [List.head?_append_of_ne_nil _ hne] at hc
    exact hrep c (List.mem_of_head? hc)
  have hword := oneLine_of_word hrep
  refine .of_append (fun c hc hspace => ?_) hs
    (List.isChain_append.mpr ⟨hword.single, ht, fun a ha b _ => .inl (hword.last a ha)⟩)
    (.inr hhead) ?_ ?_
  · simp only [List.mem_append] at hc
    rcases hc with hc | hc | hc
    · exact h.blanks c (by simp [hc]) hspace
    · exact hword.blanks c hc hspace
    · exact h.blanks c (by simp [hc]) hspace
  · cases s with
    | nil => exact hhead
    | cons a s => exact h.head
  · cases t with
    | nil =>
        intro c hc
        rw [List.append_nil, List.getLast?_append_of_ne_nil _ hne] at hc
        exact hword.last c hc
    | cons a t =>
        intro c hc
        refine h.last c ?_
        simpa [List.getLast?_append] using hc

theorem OneLine.remove (h : OneLine (s ++ (d ++ t))) {c : Char} (hs : s.getLast? = some c)
    (hc : isSpace c = false) : OneLine (s ++ t) := by
  obtain ⟨hchain, hdt, -⟩ := List.isChain_append.mp h.single
  obtain ⟨-, ht, -⟩ := List.isChain_append.mp hdt
  have hne : s ≠ [] := by
    rintro rfl
    cases hs
  have hend : ∀ b ∈ s.getLast?, isSpace b = false := by
    intro b hb
    rw [hs] at hb
    cases hb
    exact hc
  refine .of_append (fun b hb hspace => h.blanks b ?_ hspace) hchain ht (.inl hend) ?_ ?_
  · simp only [List.mem_append] at hb ⊢
    exact hb.imp_right .inr
  · rw [List.head?_append_of_ne_nil _ hne]
    have hhead := h.head
    rwa [List.head?_append_of_ne_nil _ hne] at hhead
  · cases t with
    | nil => simpa using hend
    | cons a t =>
        intro b hb
        refine h.last b ?_
        simpa [List.getLast?_append] using hb

/-! ### Joining the words -/

theorem exists_word (s : Text) : (∀ c ∈ s, isSpace c = false) ∨
    ∃ u c t, s = u ++ c :: t ∧ (∀ d ∈ u, isSpace d = false) ∧ isSpace c = true := by
  simpa using exists_first (isSpace · = false) s

theorem textWords_of_word {u : Text} (hu : ∀ c ∈ u, isSpace c = false) (hne : u ≠ []) :
    textWords u = [u] := by
  rw [textWords, List.splitOnP_eq_singleton hu]
  simp [hne]

theorem textWords_append {u : Text} {c : Char} (hu : ∀ d ∈ u, isSpace d = false)
    (hc : isSpace c = true) (t : Text) :
    textWords (u ++ c :: t) = if u = [] then textWords t else u :: textWords t := by
  rw [textWords, List.splitOnP_append_cons_of_forall_mem hu c hc t, List.filter_cons]
  by_cases hne : u = [] <;> simp [hne, textWords]

theorem oneLine_append {u : Text} {c : Char} (hu : ∀ d ∈ u, isSpace d = false)
    (hc : isSpace c = true) (t : Text) : oneLine (u ++ c :: t) =
      if u = [] then oneLine t else if textWords t = [] then u else u ++ ' ' :: oneLine t := by
  rw [oneLine, textWords_append hu hc]
  split
  · rfl
  · split
    · rename_i hnil
      rw [hnil, List.intercalate_singleton]
    · rename_i hne
      rw [List.intercalate_cons_of_ne_nil hne]
      simp [oneLine]

theorem oneLine_ne_nil (h : textWords s ≠ []) : oneLine s ≠ [] := by
  have hword : ∀ u ∈ textWords s, u ≠ [] := fun u hu => by
    simpa using (List.mem_filter.mp hu).2
  rw [oneLine]
  cases hwords : textWords s with
  | nil => exact absurd hwords h
  | cons u us =>
      have hu : u ≠ [] := hword u (by simp [hwords])
      cases us with
      | nil => simpa using hu
      | cons u' us =>
          rw [List.intercalate_cons_cons]
          simp

theorem OneLine.join {u : Text} (hu : ∀ c ∈ u, isSpace c = false) (hne : u ≠ [])
    (ht : OneLine t) (htne : t ≠ []) : OneLine (u ++ ' ' :: t) := by
  have hword := oneLine_of_word hu
  refine .of_append (fun c hc hspace => ?_) hword.single
    (List.isChain_cons.mpr ⟨fun b hb => .inr (ht.head b hb), ht.single⟩) (.inl hword.last) ?_ ?_
  · rcases List.mem_append.mp hc with hc | hc
    · exact hword.blanks c hc hspace
    rcases List.mem_cons.mp hc with rfl | hc
    · rfl
    · exact ht.blanks c hc hspace
  · rw [List.head?_append_of_ne_nil _ hne]
    exact hword.head
  · intro c hc
    refine ht.last c ?_
    obtain ⟨a, t, rfl⟩ := List.exists_cons_of_ne_nil htne
    simpa [List.getLast?_append] using hc

theorem isOneLine_oneLine (s : Text) : OneLine (oneLine s) := by
  induction hn : s.length using Nat.strong_induction_on generalizing s with
  | _ n ih =>
      rcases exists_word s with hs | ⟨u, c, t, rfl, hu, hc⟩
      · by_cases hne : s = []
        · subst hne
          exact oneLine_nil
        · rw [oneLine, textWords_of_word hs hne, List.intercalate_singleton]
          exact oneLine_of_word hs
      · have ht := ih t.length (by simp [← hn]; omega) t rfl
        rw [oneLine_append hu hc]
        split
        · exact ht
        split
        · exact oneLine_of_word hu
        · rename_i hne hwords
          exact .join hu hne ht (oneLine_ne_nil hwords)

theorem oneLine_eq_self (h : OneLine s) : oneLine s = s := by
  induction hn : s.length using Nat.strong_induction_on generalizing s with
  | _ n ih =>
      rcases exists_word s with hs | ⟨u, c, t, rfl, hu, hc⟩
      · by_cases hne : s = []
        · subst hne
          rfl
        · rw [oneLine, textWords_of_word hs hne, List.intercalate_singleton]
      · obtain rfl : c = ' ' := h.blanks c (by simp) hc
        have hne : u ≠ [] := by
          rintro rfl
          have := h.head ' ' (by simp)
          rw [hc] at this
          cases this
        obtain ⟨-, hchain, -⟩ := List.isChain_append.mp h.single
        obtain ⟨hnext, hchain⟩ := List.isChain_cons.mp hchain
        have htne : t ≠ [] := by
          rintro rfl
          have := h.last ' ' (by simp)
          rw [hc] at this
          cases this
        have ht : OneLine t := {
          blanks := fun b hb => h.blanks b (by simp [hb])
          single := hchain
          head := fun b hb => (hnext b hb).resolve_left (by simp [hc])
          last := fun b hb => h.last b (by
            obtain ⟨a, t, rfl⟩ := List.exists_cons_of_ne_nil htne
            simpa [List.getLast?_append] using hb) }
        have hself := ih t.length (by simp [← hn]; omega) ht rfl
        have hwords : textWords t ≠ [] := by
          intro hnil
          rw [oneLine, hnil] at hself
          exact htne hself.symm
        rw [oneLine_append hu hc, if_neg hne, if_neg hwords, hself]

/-! ### The passes -/

theorem eq_blank_of_oneLine {b : Text} (h : OneLine (l ++ (b ++ v))) (hne : b ≠ [])
    (hb : ∀ c ∈ b, isSpace c = true) : b = [' '] := by
  obtain ⟨-, hchain, -⟩ := List.isChain_append.mp h.single
  have hspace : ∀ c ∈ b, c = ' ' := fun c hc => h.blanks c (by simp [hc]) (hb c hc)
  rcases b with - | ⟨c, - | ⟨c', b⟩⟩
  · exact absurd rfl hne
  · rw [hspace c (by simp)]
  · have hnext := (List.isChain_cons.mp hchain).1 c' rfl
    simp [hb c (by simp), hb c' (by simp)] at hnext

theorem OneLine.sub {rule : Rule} (hrule : ∀ {prev y k d v}, OneLine (y ++ (k ++ (d ++ v))) →
      rule.find w prev (k ++ (d ++ v)) = some (k, d) →
      OneLine (y ++ (k ++ (rule.replacement ++ v)))) (hline : OneLine s) :
    OneLine (rule.sub w s) := by
  obtain ⟨-, hend⟩ := Rule.sub_invariant rule (I := fun _ y v => OneLine (y ++ v))
    (fun hI _ => by simpa using hI) (fun hI hfind => by simpa using hrule hI hfind) hline
  simpa using hend

theorem oneLine_of_filtered {rule : Rule} (hrep : rule.replacement = filtered)
    (hline : OneLine s) : OneLine (rule.sub w s) := by
  refine hline.sub fun {prev y k d v} hI _ => ?_
  rw [← List.append_assoc] at hI ⊢
  rw [hrep]
  exact hI.replace (fun c => not_isSpace_of_mem_filtered) (by decide)

theorem oneLine_bearerRe (hline : OneLine s) : OneLine (bearerRe.sub w s) := by
  refine hline.sub fun {prev y k d v} hI hfind => ?_
  obtain ⟨-, -, -, -, b, u, rfl, hne, hblanks, -⟩ := find_bearerRe hfind
  have hI' : OneLine (y ++ k ++ (b ++ (u ++ v))) := by simpa using hI
  obtain rfl := eq_blank_of_oneLine hI' hne hblanks
  have hnow : OneLine (y ++ k ++ [' '] ++ (u ++ v)) := by simpa using hI
  have hmark := hnow.replace (fun c => not_isSpace_of_mem_filtered) (by decide)
  simpa [bearerRe] using hmark

theorem not_isSpace_of_not_endsUrl {c : Char} (h : endsUrl c = false) : isSpace c = false := by
  simp only [endsUrl, Bool.or_eq_false_iff] at h
  exact h.1.1.1.1

theorem isSchemePart_of_mem_scheme {scheme : Text} (h : IsScheme scheme) {c : Char}
    (hc : c ∈ scheme) : isSchemePart c = true := by
  obtain ⟨a, rest, rfl, ha, hrest⟩ := h
  rcases List.mem_cons.mp hc with rfl | hc
  · exact isSchemePart_of_isAlpha ha
  · exact hrest c hc

theorem OneLine.removed {y k : Text} (hne : k ≠ []) (hk : ∀ c ∈ k, endsUrl c = false)
    (h : OneLine (y ++ (k ++ (d ++ v)))) : OneLine (y ++ (k ++ ([] ++ v))) := by
  have hlast : (y ++ k).getLast? = some (k.getLast hne) := by
    rw [List.getLast?_append_of_ne_nil _ hne, List.getLast?_eq_some_getLast hne]
  have hleft := OneLine.remove (s := y ++ k) (d := d) (t := v) (by simpa using h) hlast
    (not_isSpace_of_not_endsUrl (hk _ (List.getLast_mem hne)))
  simpa using hleft

theorem oneLine_urlQueryRe (hline : OneLine s) : OneLine (urlQueryRe.sub w s) := by
  refine hline.sub fun hI hfind => hI.removed ?_ ?_
  all_goals obtain ⟨⟨scheme, p, hscheme, -, rfl, hp⟩, -⟩ := find_urlQueryRe hfind
  · simp [schemeEnd]
  · intro c hc
    simp only [List.mem_append] at hc
    rcases hc with hc | hc | hc
    · exact not_endsUrl_of_isSchemePart (isSchemePart_of_mem_scheme hscheme hc)
    · exact (not_endsUrl_of_mem_schemeEnd hc).1
    · exact (hp c hc).1

theorem oneLine_urlUserinfoRe (hline : OneLine s) : OneLine (urlUserinfoRe.sub w s) := by
  refine hline.sub fun hI hfind => hI.removed ?_ ?_
  all_goals obtain ⟨⟨scheme, hscheme, -, rfl⟩, -⟩ := find_urlUserinfoRe hfind
  · simp [schemeEnd]
  · intro c hc
    rcases List.mem_append.mp hc with hc | hc
    · exact not_endsUrl_of_isSchemePart (isSchemePart_of_mem_scheme hscheme hc)
    · exact (not_endsUrl_of_mem_schemeEnd hc).1

/-! ### The cut -/

theorem oneLine_shortened (h : OneLine s) : OneLine (shortened s) := by
  rw [shortened]
  split
  · rename_i hlong
    have hchain := h.single
    rw [← List.take_append_drop (errorMessageMax - 1) s] at hchain
    have hhead := h.head
    have hne : s.take (errorMessageMax - 1) ≠ [] := by
      apply List.ne_nil_of_length_pos
      simp only [errorMessageMax, List.length_take] at hlong ⊢
      omega
    rw [← List.take_append_drop (errorMessageMax - 1) s,
      List.head?_append_of_ne_nil _ hne] at hhead
    refine .of_append (fun c hc hspace => ?_) (List.isChain_append.mp hchain).1 (by simp)
      (.inr fun c hc => ?_) ?_ ?_
    · rcases List.mem_append.mp hc with hc | hc
      · exact h.blanks c (List.mem_of_mem_take hc) hspace
      · rw [List.mem_singleton.mp hc] at hspace
        exact absurd hspace (by decide)
    · cases hc
      decide
    · rwa [List.head?_append_of_ne_nil _ hne]
    · intro c hc
      rw [List.getLast?_append_of_ne_nil _ (by simp)] at hc
      cases hc
      decide
  · exact h

theorem length_shortened_le (s : Text) : (shortened s).length ≤ errorMessageMax := by
  rw [shortened]
  split
  · simp only [errorMessageMax, List.length_append, List.length_take, List.length_singleton]
    omega
  · omega

theorem shortened_eq_self (h : s.length ≤ errorMessageMax) : shortened s = s :=
  if_neg (Nat.not_lt.mpr h)

end ErrorLines

end StorageService.Results
