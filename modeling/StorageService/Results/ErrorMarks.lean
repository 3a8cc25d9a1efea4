import StorageService.Results.ErrorLines

/-!
# Marks in stored error messages

Four of the substitutions put `[Filtered]` for what they find.  Apart from the
marks the text stays as it is, and nothing that a pattern looks for begins in a
mark or reaches over one, so a match found beside the marks was there before.
-/

namespace StorageService.Results

open StorageService.Foundation
open StorageService.Foundation.Regex
open StorageService.Storage
open StorageService.Actions

section ErrorMarks

variable {w : WordClass} {K D : Text → Text → Text → Prop} {rule : Rule}
  {tail after l s r a b k d v m : Text} {prev : Option Char}

/-- No word begins behind a mark that did not begin there before. -/
def Seals (w : WordClass) (d v : Text) : Prop :=
  ∀ c ∈ v.head?, beginsWord c = true → w.isWord c = true → ∀ b ∈ d.getLast?, w.isWord b = false

/-- What is known of every part that a mark is put for. -/
structure MarkDrop (w : WordClass) (l d v : Text) : Prop where
  ne : d ≠ []
  opens : ∀ c ∈ l.getLast?, w.isWord c = false
  seals : Seals w d v

/-- What is known of the tokens and credentials that a mark is put for. -/
structure TokenDrop (w : WordClass) (l d v : Text) : Prop extends MarkDrop w l d v where
  parts : ∀ c ∈ d, isCredentialPart c = true
  path : '/' ∉ d ∨ l.getLast? = some ' '

theorem filtered_ne_nil : filtered ≠ [] := by decide

theorem not_isWord_mark (w : WordClass) : w.isWord '[' = false ∧ w.isWord ']' = false :=
  ⟨w.ascii '[' (by decide), w.ascii ']' (by decide)⟩

theorem mem_of_suffix_filtered {m₁ m₂ : Text} (h : filtered = m₁ ++ m₂) (hne : m₂ ≠ []) :
    ']' ∈ m₂ := by
  have hlast := congrArg List.getLast? h
  rw [List.getLast?_append_of_ne_nil _ hne] at hlast
  exact List.mem_of_getLast? hlast.symm

/-- A text without brackets that is no part of a mark stands beside the marks. -/
theorem marked_literal (h : Rewrites K D filtered tail after l s (a ++ (m ++ b)))
    (hopen : '[' ∉ m) (hclose : ']' ∉ m) (hin : ¬m <:+: filtered) :
    ∃ s₁ s₂, s = s₁ ++ (m ++ s₂) ∧
      Rewrites K D filtered (m ++ s₂ ++ tail) (m ++ b ++ after) l s₁ a ∧
      K (l ++ s₁) (m ++ s₂ ++ tail) (m ++ b ++ after) ∧
      Rewrites K D filtered tail after (l ++ s₁ ++ m) s₂ b := by
  rcases h.split with ⟨s₁, s₂, rfl, h₁, h₂⟩ | ⟨m₁, m₂, r, -, hm₂, hrep, hb⟩
  · obtain ⟨s₃, rfl, h₃⟩ := Rewrites.literal_of_head h₂ hopen
    refine ⟨s₁, s₃, rfl, h₁, ?_, h₃⟩
    cases m with
    | nil => exact absurd List.nil_infix hin
    | cons c m => exact Rewrites.kept_of_head h₂ (List.ne_of_not_mem_cons hopen).symm
  · refine absurd ?_ hin
    rcases List.append_eq_append_iff.mp hb with ⟨m', rfl, -⟩ | ⟨m', rfl, -⟩
    · exact ⟨m₁, m', by rw [hrep, List.append_assoc]⟩
    · exact absurd (List.mem_append_left _ (mem_of_suffix_filtered hrep hm₂)) hclose

/-- Before a word stands a word character if and only if one stood there before. -/
theorem marked_last {c : Char} {p : Option Char}
    (h : Rewrites K D filtered tail after l s a) (hD : ∀ l d v, D l d v → MarkDrop w l d v)
    (htail : tail.head? = some c) (hc : beginsWord c = true)
    (hboundary : w.boundary (lastOr p a) (some c) = true) :
    (lastOr p s).any w.isWord = (lastOr p a).any w.isWord := by
  induction h generalizing p with
  | nil l => rfl
  | keep _ _ ih => simpa using ih (by simpa using hboundary)
  | @drop l d s r hdropped h ih =>
      have hnil := h.eq_nil_iff filtered_ne_nil fun l d v hd => (hD l d v hd).ne
      have hmark := hD _ _ _ hdropped
      by_cases hs : s = []
      · obtain rfl : r = [] := hnil.mp hs
        have hbracket : lastOr p (filtered ++ []) = some ']' := rfl
        rw [hbracket] at hboundary ⊢
        have hword : w.isWord c = true := by
          simpa [WordClass.boundary, (not_isWord_mark w).2] using hboundary
        have hlast := hmark.seals c (by simp [hs, htail]) hc hword
        rw [hs, List.append_nil, lastOr_of_ne_nil hmark.ne]
        obtain ⟨b, hb⟩ : ∃ b, d.getLast? = some b := ⟨_, List.getLast?_eq_some_getLast hmark.ne⟩
        simp [hb, hlast b hb, (not_isWord_mark w).2]
      · have hr : r ≠ [] := fun hr => hs (hnil.mpr hr)
        rw [lastOr_append, lastOr_append, lastOr_of_ne_nil hs, lastOr_of_ne_nil hr] at *
        have hrest := ih (p := p) (by rwa [lastOr_of_ne_nil hr])
        rwa [lastOr_of_ne_nil hs, lastOr_of_ne_nil hr] at hrest

/-! ### Matches beside marks -/

/-- What the patterns for tokens have in common. -/
structure Recurs (w : WordClass) (rule : Rule) : Prop where
  shape : ∀ {prev k d v}, rule.find w prev (k ++ (d ++ v)) = some (k, d) →
    '[' ∉ k ++ d ∧ ']' ∉ k ++ d ∧ ¬k ++ d <:+: filtered ∧
      ∃ c rest, k ++ d = c :: rest ∧ beginsWord c = true ∧ w.boundary prev (some c) = true
  ends : ∀ {prev k d v}, rule.find w prev (k ++ (d ++ v)) = some (k, d) →
    rule.dropped.hasBoundary = true → w.boundary d.getLast? v.head? = true

theorem marked_find (hrule : Recurs w rule) (hD : ∀ l d v, D l d v → MarkDrop w l d v)
    (h : Rewrites K D filtered [] [] [] s (a ++ v)) {k d : Text}
    (hfind : rule.find w (lastOr none a) v = some (k, d)) :
    ∃ s₁ s₂ b, s = s₁ ++ (k ++ (d ++ s₂)) ∧ v = k ++ (d ++ b) ∧
      K s₁ (k ++ (d ++ s₂)) v ∧ rule.find w (lastOr none s₁) (k ++ (d ++ s₂)) ≠ none := by
  obtain ⟨b, rfl, -⟩ := Rule.find_eq_some hfind
  obtain ⟨hopen, hclose, hin, c, rest, hcons, hc, hboundary⟩ := hrule.shape hfind
  rw [← List.append_assoc k] at h
  obtain ⟨s₁, s₂, rfl, h₁, hkept, h₂⟩ := marked_literal h hopen hclose hin
  simp only [List.nil_append, List.append_nil] at hkept h₂
  refine ⟨s₁, s₂, b, by simp, rfl, by simpa using hkept, Rule.find_again hfind ?_ ?_⟩
  · exact (marked_last h₁ hD (by simp [hcons]) hc hboundary).symm
  · intro hends
    cases h₂ with
    | nil => rfl
    | keep => rfl
    | @drop _ d' s r hdropped _ =>
        have hopens := (hD _ _ _ hdropped).opens
        have hboundary' := hrule.ends hfind hends
        have hd := Rule.dropped_ne_nil hfind
        obtain ⟨e, he⟩ : ∃ e, d.getLast? = some e := ⟨_, List.getLast?_eq_some_getLast hd⟩
        have hlast : (s₁ ++ (k ++ d)).getLast? = some e := by
          rw [List.getLast?_append_of_ne_nil _ (List.append_ne_nil_of_right_ne_nil _ hd),
            List.getLast?_append_of_ne_nil _ hd, he]
        have hno := hopens e hlast
        simp [WordClass.boundary, he, hno, filtered, (not_isWord_mark w).1] at hboundary'

theorem noMatch_of_marked (hrule : Recurs w rule) (hD : ∀ l d v, D l d v → MarkDrop w l d v)
    (h : Rewrites K D filtered [] [] [] s r) (hs : rule.NoMatch w s) : rule.NoMatch w r := by
  rintro a v rfl
  cases hfind : rule.find w (lastOr none a) v with
  | none => rfl
  | some m =>
      obtain ⟨k, d⟩ := m
      obtain ⟨s₁, s₂, b, rfl, -, -, hne⟩ := marked_find hrule hD h hfind
      exact absurd (hs s₁ _ rfl) hne

/-- A pass for tokens leaves none of them. -/
theorem noMatch_sub (hrule : Recurs w rule) (hkept : rule.kept = .empty)
    (hrep : rule.replacement = filtered)
    (hD : ∀ l d v, rule.Drops w s l d v → MarkDrop w l d v) : rule.NoMatch w (rule.sub w s) := by
  intro a v hr
  have h := Rule.rewrites_sub w rule s
  rw [hrep, hr] at h
  cases hfind : rule.find w (lastOr none a) v with
  | none => rfl
  | some m =>
      obtain ⟨k, d⟩ := m
      obtain ⟨s₁, s₂, b, -, -, ⟨-, hkeeps⟩, hne⟩ := marked_find hrule hD h hfind
      rcases hkeeps with hnone | ⟨y, k₁, k₂, d', v', hk₂, -, -, -, hfind'⟩
      · exact absurd hnone hne
      · obtain ⟨v'', -, hmem, -⟩ := Rule.find_eq_some hfind'
        rw [hkept, mem_splits_empty] at hmem
        exact absurd (List.append_eq_nil_iff.mp (Prod.mk.inj hmem).1).2 hk₂

/-! ## The four passes -/

theorem isWord_of_isAlphanum {c : Char} (h : c.isAlphanum = true) : w.isWord c = true := by
  rw [w.ascii c (toNat_lt_of_isAlphanum h), h]
  rfl

theorem not_isWord_space (w : WordClass) : w.isWord ' ' = false := w.ascii ' ' (by decide)

theorem not_isWord_quote {c : Char} (h : isQuote c = true) : w.isWord c = false := by
  simp only [isQuote, Bool.or_eq_true, beq_iff_eq] at h
  rcases h with rfl | rfl
  · exact w.ascii singleQuote (by decide)
  · exact w.ascii doubleQuote (by decide)

theorem not_isWord_sign {c : Char} (h : isSign c = true) : w.isWord c = false := by
  obtain ⟨-, -, -, hlt, halnum, hunderscore⟩ := isSign_facts h
  simp [w.ascii c hlt, halnum, hunderscore]

theorem markDrop_of_token {c : Char} {rest : Text} (hd : d = c :: rest)
    (hc : c.isAlphanum = true) (hstart : w.boundary (lastOr none l) d.head? = true)
    (hend : w.boundary d.getLast? v.head? = true) : MarkDrop w l d v where
  ne := by simp [hd]
  opens b hb := by
    have hlast : lastOr none l = some b := by
      rw [lastOr, Option.mem_def.mp hb]
      rfl
    simpa [WordClass.boundary, hd, hlast, isWord_of_isAlphanum hc] using hstart
  seals b hb _ hword e he := by
    simpa [WordClass.boundary, Option.mem_def.mp hb, Option.mem_def.mp he, hword] using hend

theorem isToken_cons (h : IsToken m) : ∃ rest, m = 'e' :: rest := by
  obtain ⟨p₁, p₂, p₃, rfl, -⟩ := h
  exact ⟨_, rfl⟩

theorem isHexToken_cons (h : IsHexToken m) :
    ∃ c rest, m = c :: rest ∧ c.isAlphanum = true := by
  obtain ⟨hall, hlength⟩ := h
  cases m with
  | nil => cases hlength
  | cons c rest => exact ⟨c, rest, rfl, isAlphanum_of_isHexDigit (hall c (by simp))⟩

theorem isCredentialPart_of_isAlphanum {c : Char} (h : c.isAlphanum = true) :
    isCredentialPart c = true :=
  isCredentialPart_of_beginsWord (beginsWord_of_isAlphanum h)

theorem mem_isToken (h : IsToken m) {c : Char} (hc : c ∈ m) :
    c.isAlphanum = true ∨ c ∈ ['_', '-', '.'] := by
  obtain ⟨p₁, p₂, p₃, rfl, hparts⟩ := h
  have hpart : ∀ p ∈ [p₁, p₂, p₃], c ∈ p → c.isAlphanum = true ∨ c ∈ ['_', '-', '.'] := by
    intro p hp hmem
    have hjwt := (hparts p hp).1 c hmem
    simp only [isJwtPart, Bool.or_eq_true, beq_iff_eq] at hjwt
    rcases hjwt with (hjwt | rfl) | rfl
    · exact .inl hjwt
    · simp
    · simp
  simp only [List.mem_append, List.mem_cons] at hc
  rcases hc with hc | hc | rfl | hc | rfl | hc
  · left
    have hall : ∀ b ∈ ['e', 'y', 'J'], b.isAlphanum = true := forall_mem_of_all (by decide)
    exact hall c (by simpa using hc)
  · exact hpart p₁ (by simp) hc
  · simp
  · exact hpart p₂ (by simp) hc
  · simp
  · exact hpart p₃ (by simp) hc

/-- No bracket and nothing of a mark belongs to a token, which begins as a word. -/
def TokenShape (m : Text) : Prop :=
  (∀ c ∈ m, isCredentialPart c = true ∧ c ≠ '/' ∧ c ≠ '[' ∧ c ≠ ']') ∧ ¬m <:+: filtered ∧
    filtered.length ≤ m.length ∧ ∃ c rest, m = c :: rest ∧ c.isAlphanum = true

theorem tokenShape_isToken (h : IsToken m) : TokenShape m := by
  have hmem {c : Char} (hc : c ∈ m) := mem_isToken h hc
  have hall : ∀ c ∈ ['_', '-', '.'],
      isCredentialPart c = true ∧ c ≠ '/' ∧ c ≠ '[' ∧ c ≠ ']' :=
    forall_mem_of_all (by decide)
  refine ⟨fun c hc => ?_, ?_, ?_, ?_⟩
  · rcases hmem hc with halnum | hother
    · refine ⟨isCredentialPart_of_isAlphanum halnum, ?_, ?_, ?_⟩ <;>
      · rintro rfl
        exact absurd halnum (by decide)
    · exact hall c hother
  · intro hin
    obtain ⟨p₁, p₂, p₃, rfl, -⟩ := h
    exact absurd (hin.subset (by simp : '.' ∈ _)) (by decide)
  · obtain ⟨p₁, p₂, p₃, rfl, hparts⟩ := h
    have h₁ := (hparts p₁ (by simp)).2
    have h₂ := (hparts p₂ (by simp)).2
    simp only [filtered, List.length_append, List.length_cons, List.length_nil]
    omega
  · obtain ⟨rest, hcons⟩ := isToken_cons h
    exact ⟨'e', rest, hcons, by decide⟩

theorem tokenShape_isHexToken (h : IsHexToken m) : TokenShape m := by
  have hlength : filtered.length = 10 := rfl
  obtain ⟨hall, hlong⟩ := h
  refine ⟨fun c hc => ?_, fun hin => ?_, by omega, isHexToken_cons ⟨hall, hlong⟩⟩
  · have halnum := isAlphanum_of_isHexDigit (hall c hc)
    refine ⟨isCredentialPart_of_isAlphanum halnum, ?_, ?_, ?_⟩ <;>
    · rintro rfl
      exact absurd halnum (by decide)
  · have := hin.length_le
    omega

theorem TokenShape.not_mem (h : TokenShape m) : '/' ∉ m ∧ '[' ∉ m ∧ ']' ∉ m :=
  ⟨fun hm => (h.1 _ hm).2.1 rfl, fun hm => (h.1 _ hm).2.2.1 rfl, fun hm => (h.1 _ hm).2.2.2 rfl⟩

theorem TokenShape.eight_le (h : TokenShape m) : 8 ≤ m.length := by
  have hlength : filtered.length = 10 := rfl
  obtain ⟨-, -, hlong, -⟩ := h
  omega

theorem TokenShape.tokenDrop (h : TokenShape d)
    (hstart : w.boundary (lastOr none l) d.head? = true)
    (hend : w.boundary d.getLast? v.head? = true) : TokenDrop w l d v := by
  obtain ⟨hall, -, -, c, rest, hd, hc⟩ := h
  exact { markDrop_of_token hd hc hstart hend with
    parts := fun b hb => (hall b hb).1
    path := .inl fun hb => (hall _ hb).2.1 rfl }

theorem tokenDrop_jwtRe {whole : Text} (h : jwtRe.Drops w whole l d v) :
    TokenShape d ∧ TokenDrop w l d v := by
  obtain ⟨-, y, k, rfl, hfind⟩ := h
  obtain ⟨rfl, htoken, hstart, hend⟩ := find_jwtRe hfind
  have hshape := tokenShape_isToken htoken
  exact ⟨hshape, hshape.tokenDrop (by simpa using hstart) hend⟩

theorem tokenDrop_longHexRe {whole : Text} (h : longHexRe.Drops w whole l d v) :
    IsHexToken d ∧ TokenDrop w l d v := by
  obtain ⟨-, y, k, rfl, hfind⟩ := h
  obtain ⟨rfl, htoken, hstart, hend⟩ := find_longHexRe hfind
  exact ⟨htoken, (tokenShape_isHexToken htoken).tokenDrop (by simpa using hstart) hend⟩

theorem recurs_of_shape (h : TokenShape d) {c : Option Char}
    (hstart : w.boundary c d.head? = true) : '[' ∉ [] ++ d ∧ ']' ∉ [] ++ d ∧
      ¬[] ++ d <:+: filtered ∧
        ∃ b rest, [] ++ d = b :: rest ∧ beginsWord b = true ∧ w.boundary c (some b) = true := by
  obtain ⟨-, hopen, hclose⟩ := h.not_mem
  obtain ⟨-, hin, -, b, rest, rfl, hb⟩ := h
  exact ⟨hopen, hclose, hin, b, rest, rfl, beginsWord_of_isAlphanum hb, hstart⟩

theorem recurs_jwtRe : Recurs w jwtRe where
  shape hfind := by
    obtain ⟨rfl, htoken, hstart, -⟩ := find_jwtRe hfind
    exact recurs_of_shape (tokenShape_isToken htoken) hstart
  ends hfind _ := (find_jwtRe hfind).2.2.2

theorem recurs_longHexRe : Recurs w longHexRe where
  shape hfind := by
    obtain ⟨rfl, htoken, hstart, -⟩ := find_longHexRe hfind
    exact recurs_of_shape (tokenShape_isHexToken htoken) hstart
  ends hfind _ := (find_longHexRe hfind).2.2.2

theorem recurs_bearerRe : Recurs w bearerRe where
  shape hfind := by
    obtain ⟨⟨c, rest, rfl, hc, hboundary⟩, hbegins, -, -, b, u, rfl, hne, hblanks, hcredential,
      -⟩ := find_bearerRe hfind
    have hbracket {x : Char} (hx : beginsWord x = false) (hx' : isSpace x = false)
        (hx'' : isCredentialPart x = false) : x ∉ c :: rest ++ (b ++ u) := by
      intro hmem
      rcases List.mem_append.mp hmem with hmem | hmem
      · rw [hbegins x hmem] at hx
        cases hx
      rcases List.mem_append.mp hmem with hmem | hmem
      · rw [hblanks x hmem] at hx'
        cases hx'
      · rw [hcredential x hmem] at hx''
        cases hx''
    refine ⟨hbracket (by decide) (by decide) (by decide),
      hbracket (by decide) (by decide) (by decide), fun hin => ?_, c, _, rfl, hc, hboundary⟩
    obtain ⟨e, b, rfl⟩ := List.exists_cons_of_ne_nil hne
    have hspace := hblanks e (by simp)
    rw [not_isSpace_of_mem_filtered (hin.subset (by simp))] at hspace
    cases hspace
  ends _ hends := by cases hends

/-! ### Credentials -/

/-- On one line a single blank stands before the credential, and it stays. -/
structure BearerDrop (l d v : Text) : Prop where
  blank : l.getLast? = some ' '
  credential : ∀ c ∈ d, isCredentialPart c = true
  length : 8 ≤ d.length
  stop : ∀ c ∈ v.head?, isCredentialPart c = false

theorem BearerDrop.tokenDrop (h : BearerDrop l d v) : TokenDrop w l d v where
  ne := List.ne_nil_of_length_pos (by have := h.length; omega)
  opens b hb := by
    rw [h.blank] at hb
    cases hb
    exact not_isWord_space w
  seals c hc hbegins _ := by
    have hstop := h.stop c hc
    rw [isCredentialPart_of_beginsWord hbegins] at hstop
    cases hstop
  parts := h.credential
  path := .inr h.blank

theorem bearerDrop_of_drops (hline : OneLine s) (h : bearerRe.Drops w s l d v) :
    ∃ d', d = ' ' :: d' ∧ BearerDrop (l ++ [' ']) d' v := by
  obtain ⟨hs, y, k, rfl, hfind⟩ := h
  obtain ⟨-, -, -, hstop, b, u, rfl, hne, hblanks, hcredential, hlength⟩ := find_bearerRe hfind
  rw [hs, List.append_assoc b] at hline
  obtain rfl := eq_blank_of_oneLine hline hne hblanks
  exact ⟨u, rfl, by simp, hcredential, hlength, hstop⟩

theorem rewrites_bearerRe (hline : OneLine s) :
    Rewrites (fun _ _ _ => True) BearerDrop filtered [] [] [] s (bearerRe.sub w s) :=
  (Rule.rewrites_sub w bearerRe s).keep_head fun _ _ _ h => bearerDrop_of_drops hline h

theorem noMatch_bearerRe (hline : OneLine s) : bearerRe.NoMatch w (bearerRe.sub w s) := by
  intro a v hr
  have h := Rule.rewrites_sub w bearerRe s
  rw [hr] at h
  cases hfind : bearerRe.find w (lastOr none a) v with
  | none => rfl
  | some m =>
      obtain ⟨k, d⟩ := m
      obtain ⟨b', rfl, -⟩ := Rule.find_eq_some hfind
      obtain ⟨hopen, -, -, -⟩ := recurs_bearerRe.shape hfind
      obtain ⟨⟨c, rest, hk, hc, hboundary⟩, hbegins, hhead, -, b, u, hd, hne, hblanks, hcredential,
        hlength⟩ := find_bearerRe hfind
      have hmark : c ∉ bearerRe.replacement := by
        have hall : ∀ x ∈ bearerRe.replacement, ignoreCase x ≠ 'b' :=
          forall_mem_of_all (by decide)
        exact fun hmem => hall c hmem (hhead c (by simp [hk]))
      have hbracket : ∀ x t, d ++ b' ≠ x :: '[' :: t := by
        intro x t heq
        rcases hcons : d with - | ⟨x', - | ⟨e, d'⟩⟩
        · simp [hcons] at hd
          exact hne hd.1
        · have : (b ++ u).length = 1 := by rw [← hd, hcons]; rfl
          have := List.length_pos_iff.mpr hne
          simp only [List.length_append] at *
          omega
        · rw [hcons] at heq
          obtain ⟨-, heq⟩ := List.cons.inj heq
          obtain ⟨rfl, -⟩ := List.cons.inj heq
          exact hopen (by simp [hcons])
      subst hk
      rw [List.cons_append] at h
      obtain ⟨s₁, s₂, rfl, h₁, ⟨-, hkeeps⟩, h₂⟩ := h.split_cons hmark
      rw [← List.append_assoc] at h₂
      obtain ⟨s₃, rfl, -⟩ := h₂.literal fun m₁ m₂ d' s' r' hm hm₂ _ _ heq => by
        rcases m₂ with - | ⟨x, - | ⟨e, m₂⟩⟩
        · exact hm₂ rfl
        · obtain ⟨rfl, -⟩ := List.cons.inj heq
          have hlast := congrArg List.getLast? hm
          have hu : u ≠ [] := List.ne_nil_of_length_pos (by omega)
          rw [hd, List.getLast?_append_of_ne_nil _ (by simp [hu]),
            List.getLast?_append_of_ne_nil _ hu, List.getLast?_concat] at hlast
          exact absurd (hcredential ' ' (List.mem_of_getLast? hlast)) (by decide)
        · obtain ⟨-, heq⟩ := List.cons.inj heq
          obtain ⟨rfl, -⟩ := List.cons.inj heq
          have hmem : '[' ∈ rest ++ d := by simp [hm]
          exact hopen (List.mem_cons_of_mem c hmem)
      rcases hkeeps with hnone | ⟨y, k₁, k₂, d', v', hk₂, -, -, hout, hfind'⟩
      · refine absurd hnone ?_
        have h₁' := h₁.keep_head fun _ _ _ h => bearerDrop_of_drops hline h
        have hprev := marked_last h₁' (fun _ _ _ h => h.tokenDrop.toMarkDrop) rfl hc
          hboundary
        have hagain : bearerRe.find w (lastOr none s₁) (c :: rest ++ (d ++ s₃)) ≠ none :=
          Rule.find_again hfind hprev.symm (by intro h; cases h)
        simpa using hagain
      · obtain ⟨v'', hs, -⟩ := Rule.find_eq_some hfind'
        rw [hs] at hfind'
        obtain ⟨-, hbegins', -⟩ := find_bearerRe hfind'
        have hspace {x : Char} (hx : beginsWord x = true) : (!isSpace x) = true := by
          cases hblank : isSpace x with
          | false => rfl
          | true =>
              have hpart := isNamePart_of_beginsWord hx
              rw [not_isNamePart_of_isSpace hblank] at hpart
              cases hpart
        rw [List.append_nil, ← List.cons_append] at hout
        have hblank : ∀ x ∈ (d ++ b').head?, (!isSpace x) = false := by
          obtain ⟨e, b, rfl⟩ := List.exists_cons_of_ne_nil hne
          intro x hx
          rw [hd] at hx
          cases hx
          simp [hblanks e (by simp)]
        obtain ⟨-, heq⟩ := append_inj_of_stop hout (fun x hx => hspace (hbegins x hx))
          (fun x hx => hspace (hbegins' x (by simp [hx]))) hblank fun x hx => by
            cases hx
            decide
        exact absurd heq (hbracket _ _)

end ErrorMarks

end StorageService.Results
