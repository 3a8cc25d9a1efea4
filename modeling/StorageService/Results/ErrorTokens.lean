import StorageService.Results.ErrorMarks
import StorageService.Results.ErrorTexts

/-!
# Tokens and credentials in stored error messages

What is left of a URL, where the value of a secret pair ends and which head comes
late is asked before each pass.  A mark for a token moves no end of a URL and no
quote, so the answers behind a pass for tokens are those before it.
-/

namespace StorageService.Results

open StorageService.Foundation
open StorageService.Foundation.Regex
open StorageService.Storage
open StorageService.Actions

section ErrorTokens

variable {w : WordClass} {K D : Text → Text → Text → Prop} {stop mark : Char → Bool} {seen : Bool}
  {tail after l s r a b k d v x z : Text} {c : Char}

/-! ## Between two passes -/

/-- What stands behind a `scheme://`, whose scheme is `seen` if it begins at a word boundary. -/
def UrlAt (w : WordClass) (seen : Bool) (s b : Text) : Prop :=
  ∃ a scheme, s = a ++ (scheme ++ (schemeEnd ++ b)) ∧ IsScheme scheme ∧
    (seen = true → w.boundary (lastOr none a) scheme.head? = true)

def Reaches (w : WordClass) (seen : Bool) (stop mark : Char → Bool) (s : Text) : Prop :=
  ∃ p c q, UrlAt w seen s (p ++ c :: q) ∧ (∀ b ∈ p, stop b = false ∧ mark b = false) ∧
    mark c = true

def HidesNow (w : WordClass) (seen : Bool) (stop mark : Char → Bool) (s : Text) : Prop :=
  ∃ x c z e q, UrlAt w seen s (x ++ c :: (z ++ e :: q)) ∧ PairReaches w stop mark x c ∧
    ValuesRun (c :: z) ∧ mark e = true

def QuoteRuns (w : WordClass) (s : Text) : Prop :=
  ∃ a head q u c r, s = a ++ (head ++ q :: (u ++ q :: c :: r)) ∧
    w.boundary (lastOr none a) head.head? = true ∧ SecretHead w head ∧ isQuote q = true ∧
    q ∉ u ∧ isSecretPart c = true

/-- Something fragile where the cut may come: `f` bounds what is up to its end, `g` what stays. -/
def CutIn (w : WordClass) (f g : Text → Nat) (s : Text) : Prop :=
  ∃ a m q, s = a ++ (m ++ q) ∧ w.boundary (lastOr none a) m.head? = true ∧ Fragile w m ∧
    g a < errorMessageMax ∧ errorMessageMax < f (a ++ m) + 12

/-- What ends a URL and what is looked for in it. -/
structure UrlEnds (stop mark : Char → Bool) : Prop where
  space : ∀ {c}, isSpace c = true → stop c = true
  quote : ∀ {c}, isQuote c = true → stop c = true
  part : ∀ {c}, mark c = true → isSecretPart c = true
  plain : ∀ c ∈ filtered, stop c = false ∧ mark c = false
  url : ∀ {c}, endsUrl c = false → c ≠ '/' → stop c = false
  slash : stop '/' = true ∨ ∀ {c}, endsUrl c = true → stop c = true
  credential : ∀ {c}, isCredentialPart c = true → c ≠ '/' → stop c = false ∧ mark c = false

theorem endsUrl_of_isQuote (h : isQuote c = true) : endsUrl c = true := by
  simp only [isQuote, Bool.or_eq_true, beq_iff_eq] at h
  rcases h with rfl | rfl <;> decide

theorem not_isHostEnd (h : endsUrl c = false) (hne : c ≠ '/') : isHostEnd c = false := by
  have hquote : isQuote c = false := by
    cases hc : isQuote c with
    | false => rfl
    | true =>
        rw [endsUrl_of_isQuote hc] at h
        cases h
  simp [isHostEnd, hquote, hne, not_isSpace_of_not_endsUrl h]

theorem urlEnds_host : UrlEnds isHostEnd (· == '@') where
  space h := by simp [isHostEnd, h]
  quote h := by simp [isHostEnd, h]
  part h := by
    rw [beq_iff_eq.mp h]
    decide
  plain := forall_mem_of_all (by decide)
  url := not_isHostEnd
  slash := .inl (by decide)
  credential h hne := by
    obtain ⟨-, hurl, -, hat⟩ := isCredentialPart_facts h
    exact ⟨not_isHostEnd hurl hne, by simpa using hat⟩

theorem urlEnds_query : UrlEnds endsUrl startsQuery where
  space h := by simp [endsUrl, h]
  quote := endsUrl_of_isQuote
  part h := by
    simp only [startsQuery, Bool.or_eq_true, beq_iff_eq] at h
    rcases h with rfl | rfl <;> decide
  plain := forall_mem_of_all (by decide)
  url h _ := h
  slash := .inr fun h => h
  credential h _ := by
    obtain ⟨-, hurl, hquery, -⟩ := isCredentialPart_facts h
    exact ⟨hurl, hquery⟩

theorem UrlEnds.stop_not_mem (h : UrlEnds stop mark) (hc : stop c = true) : c ∉ filtered := by
  intro hmem
  rw [(h.plain c hmem).1] at hc
  cases hc

theorem UrlEnds.mark_not_mem (h : UrlEnds stop mark) (hc : mark c = true) : c ∉ filtered := by
  intro hmem
  rw [(h.plain c hmem).2] at hc
  cases hc

theorem not_mem_filtered_of_isQuote (h : isQuote c = true) : c ∉ filtered :=
  urlEnds_query.stop_not_mem (urlEnds_query.quote h)

theorem not_mem_filtered_of_isSeparator (h : isSeparator c = true) : c ∉ filtered := by
  have hall : ∀ c ∈ filtered, isSeparator c = false := forall_mem_of_all (by decide)
  intro hmem
  rw [hall c hmem] at h
  cases h

theorem url_facts {scheme : Text} (h : IsScheme scheme) (hc : c ∈ scheme ++ schemeEnd) :
    endsUrl c = false ∧ startsQuery c = false ∧ c ≠ '@' ∧ c ≠ '[' ∧ c ≠ ']' := by
  rcases List.mem_append.mp hc with hc | hc
  · obtain ⟨hurl, hquery, -, -, hat, hopen, hclose⟩ :=
      isSchemePart_facts (isSchemePart_of_mem_scheme h hc)
    exact ⟨hurl, hquery, hat, hopen, hclose⟩
  · have hall : ∀ c ∈ schemeEnd,
        endsUrl c = false ∧ startsQuery c = false ∧ c ≠ '@' ∧ c ≠ '[' ∧ c ≠ ']' :=
      forall_mem_of_all (by decide)
    exact hall c hc

theorem UrlAt.forget (h : UrlAt w seen s b) : UrlAt w false s b := by
  obtain ⟨a, scheme, rfl, hscheme, -⟩ := h
  exact ⟨a, scheme, rfl, hscheme, by simp⟩

theorem reaches_of_free {p q : Text} (hurl : UrlAt w seen s (p ++ c :: q))
    (hp : ∀ b ∈ p, stop b = false) (hc : mark c = true) : Reaches w seen stop mark s := by
  rcases exists_first (mark · = false) p with hall | ⟨p₁, e, p₂, rfl, hp₁, he⟩
  · exact ⟨p, c, q, hurl, fun b hb => ⟨hp b hb, hall b hb⟩, hc⟩
  · exact ⟨p₁, e, p₂ ++ c :: q, by simpa using hurl,
      fun b hb => ⟨hp b (List.mem_append_left _ hb), hp₁ b hb⟩, by simpa using he⟩

/-! ## Marks of any kind -/

/-- Behind a mark a word begins at a boundary if and only if it did before. -/
theorem boundary_of_marked {p : Option Char} (hD : ∀ l d v, D l d v → MarkDrop w l d v)
    (h : Rewrites K D filtered tail after l s a) (htail : tail.head? = some c)
    (hc : beginsWord c = true) (hboundary : w.boundary (lastOr p a) (some c) = true) :
    w.boundary (lastOr p s) (some c) = true := by
  rwa [boundary_congr (marked_last h hD htail hc hboundary) rfl]

theorem urlAt_of_marked (hD : ∀ l d v, D l d v → MarkDrop w l d v)
    (h : Rewrites K D filtered [] [] [] s r) (hr : UrlAt w seen r b) :
    ∃ l s₂, s = l ++ s₂ ∧ UrlAt w seen s s₂ ∧ l.getLast? = some '/' ∧
      Rewrites K D filtered [] [] l s₂ b := by
  obtain ⟨a, scheme, rfl, hscheme, hseen⟩ := hr
  have hurl {c : Char} (hc : c ∈ scheme ++ schemeEnd) := url_facts hscheme hc
  rw [← List.append_assoc scheme] at h
  obtain ⟨s₁, s₂, rfl, h₁, -, h₂⟩ := marked_literal h (fun hm => (hurl hm).2.2.2.1 rfl)
    (fun hm => (hurl hm).2.2.2.2 rfl)
    fun hin => absurd (hin.subset (by simp [schemeEnd] : ':' ∈ _)) (by decide)
  refine ⟨s₁ ++ (scheme ++ schemeEnd), s₂, by simp, ⟨s₁, scheme, by simp, hscheme, fun hs => ?_⟩,
    by simp [schemeEnd], by simpa using h₂⟩
  have hboundary := hseen hs
  obtain ⟨c, rest, rfl, hc, -⟩ := hscheme
  exact boundary_of_marked hD h₁ rfl (beginsWord_of_isAlpha hc) hboundary

theorem not_endsUrl_of_isNamePart (h : isNamePart c = true) :
    endsUrl c = false ∧ isQuote c = false ∧ c ≠ '/' := by
  obtain ⟨-, hurl, -, hends⟩ := isNamePart_facts h
  simp only [nameEnds, List.mem_cons, not_or] at hends
  exact ⟨hurl, by simp [isQuote, hends], hends.2.2.2.1⟩

/-- It begins as a word, has no slash and belongs to no mark. -/
theorem Fragile.shape {m : Text} (h : Fragile w m) :
    ('[' ∉ m ∧ ']' ∉ m ∧ '/' ∉ m) ∧ ¬m <:+: filtered ∧
      ∃ c name rest, m = c :: name ++ rest ∧ beginsWord c = true ∧
        ∀ b ∈ c :: name, endsUrl b = false := by
  rcases h with hhead | ⟨token, e, rfl, he, htoken⟩
  · refine ⟨⟨hhead.not_mem (by decide), hhead.not_mem (by decide), hhead.not_mem (by decide)⟩,
      hhead.not_infix, ?_⟩
    obtain ⟨name, b₁, sign, b₂, rfl, hname, -⟩ := hhead
    obtain ⟨⟨c, name, rfl, hc⟩, hparts⟩ := secretName_facts hname
    exact ⟨c, name, _, rfl, hc, fun b hb => (not_endsUrl_of_isNamePart (hparts b hb)).1⟩
  · have hshape : TokenShape token := by
      rcases htoken with ⟨htoken, -⟩ | ⟨htoken, -⟩
      · exact tokenShape_isToken htoken
      · exact tokenShape_isHexToken htoken
    obtain ⟨hslash, hopen, hclose⟩ := hshape.not_mem
    have hmem {x : Char} (hx : x ∉ token) (hword : w.isWord x = false) : x ∉ token ++ [e] := by
      simp only [List.mem_append, List.mem_singleton, not_or]
      refine ⟨hx, ?_⟩
      rintro rfl
      rw [he] at hword
      cases hword
    obtain ⟨hall, hin, -, c, rest, rfl, hc⟩ := hshape
    refine ⟨⟨hmem hopen (not_isWord_mark w).1, hmem hclose (not_isWord_mark w).2,
      hmem hslash (w.ascii '/' (by decide))⟩,
      fun hin' => hin ((List.prefix_append _ [e]).isInfix.trans hin'), c, rest, [e], rfl,
      beginsWord_of_isAlphanum hc, fun b hb => (isCredentialPart_facts (hall b hb).1).2.1⟩

theorem cutIn_of_marked {f g f' g' : Text → Nat} (hD : ∀ l d v, D l d v → MarkDrop w l d v)
    (hf : ∀ u v, f (u ++ v) = f u + f v) (hf' : ∀ u v, f' (u ++ v) = f' u + f' v)
    (hff : ∀ u, f' u ≤ f u)
    (hupper : ∀ {tail after s r}, Rewrites K D filtered tail after [] s r → f' r ≤ f s)
    (hlower : ∀ {tail after s r}, Rewrites K D filtered tail after [] s r → g s ≤ g' r)
    (h : Rewrites K D filtered [] [] [] s r) (hr : CutIn w f' g' r) : CutIn w f g s := by
  obtain ⟨a, m, q, rfl, hboundary, hm, hstays, hlate⟩ := hr
  obtain ⟨⟨hopen, hclose, -⟩, hin, c, name, rest, rfl, hc, -⟩ := hm.shape
  obtain ⟨s₁, s₂, rfl, h₁, -, -⟩ := marked_literal h hopen hclose hin
  have hup := hupper h₁
  have hlow := hlower h₁
  have hle := hff (c :: name ++ rest)
  refine ⟨s₁, _, s₂, rfl, boundary_of_marked hD h₁ rfl hc hboundary, hm, by omega, ?_⟩
  rw [hf'] at hlate
  rw [hf]
  omega

/-! ## Lengths -/

/-- The length of a text together with what marks may still add for signs and blanks. -/
def weight (m n : Nat) (t : Text) : Nat := t.length + m * t.countP isSign + n * t.count ' '

variable {m n m' n' : Nat}

theorem weight_append (u v : Text) : weight m n (u ++ v) = weight m n u + weight m n v := by
  simp only [weight, List.length_append, List.countP_append, List.count_append, Nat.mul_add]
  omega

theorem weight_mono (hm : m ≤ m') (hn : n ≤ n') (t : Text) : weight m n t ≤ weight m' n' t := by
  have := Nat.mul_le_mul_right (t.countP isSign) hm
  have := Nat.mul_le_mul_right (t.count ' ') hn
  simp only [weight]
  omega

theorem length_le_weight (t : Text) : t.length ≤ weight m n t := by
  simp only [weight]
  omega

theorem weight_filtered (m n : Nat) : weight m n filtered = 10 := by
  have hsign : filtered.countP isSign = 0 := by decide
  have hblank : filtered.count ' ' = 0 := by decide
  simp only [weight, hsign, hblank]
  rfl

theorem weight_nil : weight m n [] = 0 := rfl

theorem weight_le_of_removal (h : Rewrites K D [] tail after l s r) :
    weight m n r ≤ weight m n s := by
  have hle := h.measure_le (f := weight m n) (g := weight m n) (fun _ => 0) weight_append
    weight_append (fun _ _ => le_rfl) fun l d v _ => by simp [weight_nil]
  simpa using hle

theorem weight_le_of_shape (hD : ∀ l d v, D l d v → TokenShape d)
    (h : Rewrites K D filtered tail after l s r) : weight m n r ≤ weight m n s := by
  have hle := h.measure_le (f := weight m n) (g := weight m n) (fun _ => 0) weight_append
    weight_append (fun _ _ => le_rfl) fun l d v hdropped => by
      obtain ⟨-, -, hlength, -⟩ := hD _ _ _ hdropped
      rw [weight_filtered]
      exact Nat.le_trans hlength (length_le_weight d)
  simpa using hle

/-- A blank lends two characters to the mark behind it. -/
theorem weight_le_of_bearers (h : Rewrites K BearerDrop filtered tail after [] s r) :
    weight 9 0 r ≤ weight 9 2 s := by
  have hle := h.measure_le (f := weight 9 2) (g := weight 9 0)
    (fun l => if l.getLast? = some ' ' then 2 else 0) weight_append weight_append
    (fun l c => by
      by_cases hc : c = ' '
      · subst hc
        simp [weight, isSign]
      · simp [weight, hc])
    fun l d v hdropped => by
      obtain ⟨hblank, hparts, hlength, -⟩ := hdropped
      have hno : (l ++ d).getLast? ≠ some ' ' := by
        rw [List.getLast?_append_of_ne_nil _ (List.ne_nil_of_length_pos (by omega))]
        intro hlast
        have hpart := hparts ' ' (List.mem_of_getLast? hlast)
        exact absurd hpart (by decide)
      have hweight := length_le_weight (m := 9) (n := 2) d
      simp only [hno, hblank, weight_filtered, if_false, if_true]
      omega
  simpa using hle

/-! ### What stays -/

theorem not_isSteady_of_sign {u y : Text} (hl : l = [] ∨ l.getLast? = some ' ')
    (heq : l ++ u = y ++ k) (hblank : ' ' ∉ k) (hsign : ':' ∈ k) (v : Text) :
    isSteady (u ++ v) = false := by
  obtain ⟨t, rfl⟩ : ∃ t, u = t ++ k := by
    rcases hl with rfl | hl
    · exact ⟨y, by simpa using heq⟩
    · obtain ⟨t, hu, -⟩ := suffix_of_getLast? heq hl hblank
      exact ⟨t, hu⟩
  refine Bool.eq_false_iff.mpr fun hsteady => ?_
  simp only [isSteady, Bool.and_eq_true, List.all_eq_true] at hsteady
  exact absurd (hsteady.2 ':' (by simp [hsign])) (by decide)

theorem not_isSteady_of_length (hd : 8 ≤ d.length) (u v : Text) :
    isSteady (u ++ (d ++ v)) = false := by
  refine Bool.eq_false_iff.mpr fun hsteady => ?_
  simp only [isSteady, Bool.and_eq_true, decide_eq_true_eq, List.length_append] at hsteady
  omega

theorem leastLength_le {rep : Text} (hrep : ' ' ∉ rep)
    (hquote : ∀ {b}, isQuote b = true → b ∉ rep)
    (hD : ∀ l d v, D l d v → d ≠ [] ∧ ' ' ∉ d)
    (hno : ∀ {l u d v x : Text}, (l = [] ∨ l.getLast? = some ' ') → D (l ++ u) d v →
      isSteady (u ++ (d ++ x)) = false)
    (h : Rewrites K D rep tail after [] s r) : leastLength s ≤ leastLength r := by
  unfold leastLength
  by_cases hs : s.any isQuote = true
  · rw [if_pos hs]
    exact Nat.zero_le _
  · have hr : r.any isQuote = false := by
      refine Bool.eq_false_iff.mpr fun hr => hs ?_
      obtain ⟨b, hb, hb'⟩ := List.any_eq_true.mp hr
      exact List.any_eq_true.mpr ⟨b, h.mem_of_mem (hquote hb') hb, hb'⟩
    rw [if_neg hs, if_neg (by simp [hr])]
    refine h.wordSum_le hD hrep (fun {l u r tail after} hl _ _ hu => ?_) (.inl rfl)
    by_cases hsteady : isSteady u = true
    · have hsame := hu.eq_of_no_drop fun u₁ d v heq hdropped => by
        rw [heq, hno hl hdropped] at hsteady
        cases hsteady
      rw [hsame]
    · rw [if_neg hsteady]
      exact Nat.zero_le _

theorem leastLength_le_of_tokens (hD : ∀ l d v, D l d v → TokenDrop w l d v ∧ 8 ≤ d.length)
    (h : Rewrites K D filtered tail after [] s r) : leastLength s ≤ leastLength r := by
  refine leastLength_le (by decide) not_mem_filtered_of_isQuote (fun l d v hd => ?_)
    (fun _ hd => not_isSteady_of_length (hD _ _ _ hd).2 _ _) h
  refine ⟨(hD l d v hd).1.ne, fun hmem => ?_⟩
  exact absurd ((hD l d v hd).1.parts ' ' hmem) (by decide)

/-- The words that are too short for tokens. -/
def shortLength (t : Text) : Nat :=
  wordSum ' ' (fun u => if u.length < 32 then u.length else 0) t

theorem shortLength_le_length (t : Text) : shortLength t ≤ t.length := by
  refine wordSum_le_length (fun u => ?_) t
  split
  · exact le_rfl
  · exact Nat.zero_le _

theorem shortLength_le_of_hex (hD : ∀ l d v, D l d v → IsHexToken d)
    (h : Rewrites K D filtered tail after [] s r) : shortLength s ≤ shortLength r := by
  refine h.wordSum_le (fun l d v hd => ?_) (by decide) (fun {l u r tail after} _ _ _ hu => ?_)
    (.inl rfl)
  · obtain ⟨hall, hlength⟩ := hD l d v hd
    exact ⟨List.ne_nil_of_length_pos (by omega), fun hmem => absurd (hall ' ' hmem) (by decide)⟩
  · by_cases hshort : u.length < 32
    · have hsame := hu.eq_of_no_drop fun u₁ d v heq hdropped => by
        obtain ⟨-, hlength⟩ := hD _ _ _ hdropped
        simp only [heq, List.length_append] at hshort
        omega
      rw [hsame]
    · rw [if_neg hshort]
      exact Nat.zero_le _

/-! ## Marks for tokens and credentials -/

theorem forall_mem_of_tokens (hends : UrlEnds stop mark)
    (hD : ∀ l d v, D l d v → TokenDrop w l d v) (h : Rewrites K D filtered tail after l s r)
    (hl : l.getLast? ≠ some ' ') (hr : ∀ b ∈ r, stop b = false ∧ mark b = false) :
    ∀ b ∈ s, stop b = false ∧ mark b = false := by
  refine h.forall_mem_of_last (B := (· = ' ')) ?_ ?_ ?_ hr
  · rintro b rfl ⟨hstop, -⟩
    rw [hends.space (by decide)] at hstop
    cases hstop
  · intro l d v hdropped
    have hdrop := hD _ _ _ hdropped
    refine ⟨hdrop.ne, hdrop.path.imp (fun hpath b hb => ?_) fun hlast => ⟨' ', hlast, rfl⟩⟩
    refine hends.credential (hdrop.parts b hb) ?_
    rintro rfl
    exact hpath hb
  · rintro b hb rfl
    exact hl hb

theorem reaches_of_tokens (hends : UrlEnds stop mark)
    (hD : ∀ l d v, D l d v → TokenDrop w l d v) (h : Rewrites K D filtered [] [] [] s r)
    (hr : Reaches w seen stop mark r) : Reaches w seen stop mark s := by
  obtain ⟨p, c, q, hurl, hp, hc⟩ := hr
  obtain ⟨l, s₂, rfl, hurl, hlast, h₂⟩ :=
    urlAt_of_marked (fun l d v hd => (hD l d v hd).toMarkDrop) h hurl
  obtain ⟨p', q', rfl, h₃, -, -⟩ := h₂.split_cons (hends.mark_not_mem hc)
  exact ⟨p', c, q', hurl, forall_mem_of_tokens hends hD h₃ (by simp [hlast]) hp, hc⟩

theorem pairReaches_of_tokens (hends : UrlEnds stop mark)
    (hD : ∀ l d v, D l d v → TokenDrop w l d v)
    (h : Rewrites K D filtered tail after l s (x ++ c :: b))
    (hl : l.getLast? = some '/') (hx : PairReaches w stop mark x c) :
    ∃ x' s₂, s = x' ++ c :: s₂ ∧ PairReaches w stop mark x' c ∧
      Rewrites K D filtered tail after (l ++ x' ++ [c]) s₂ b := by
  obtain ⟨x₁, name, sign, d, rfl, hgood, hboundary, hname, hsign, hstop, hspace⟩ := hx
  obtain ⟨s₁, s₂, rfl, h₁, -, h₂⟩ := h.split_cons (hends.stop_not_mem hstop)
  have hhead : SecretHead w (name ++ [sign]) :=
    ⟨name, [], sign, [], rfl, hname, by simp, hsign, by simp⟩
  rw [show name ++ sign :: d = name ++ [sign] ++ d by simp] at h₁
  obtain ⟨t₁, t₂, rfl, h₃, -, h₄⟩ := marked_literal h₁ (hhead.not_mem (by decide))
    (hhead.not_mem (by decide)) hhead.not_infix
  obtain ⟨⟨n, rest, hn, hbegins⟩, -⟩ := secretName_facts hname
  simp only at hn
  refine ⟨_, s₂, rfl, ⟨t₁, name, sign, t₂, by simp, ?_, ?_, hname, hsign, hstop, hspace⟩,
    by simpa using h₂⟩
  · rw [List.forall_mem_append] at hgood ⊢
    refine ⟨forall_mem_of_tokens hends hD h₃ (by simp [hl]) hgood.1,
      forall_mem_of_tokens hends hD h₄ ?_ hgood.2⟩
    rw [← List.append_assoc, List.getLast?_concat]
    rintro ⟨⟩
    cases hsign
  · rw [hn] at hboundary ⊢
    exact boundary_of_marked (fun l d v hd => (hD l d v hd).toMarkDrop) h₃ (by simp [hn]) hbegins
      hboundary

theorem valuesRun_of_rewrites {rep : Text} (hquote : ∀ {b}, isQuote b = true → b ∉ rep)
    (hsep : ∀ {b}, isSeparator b = true → b ∉ rep)
    (hD : ∀ l d v, D l d v → ∀ b ∈ d, isSpace b = false)
    (h : Rewrites K D rep tail after l s z) (hz : ValuesRun (c :: z)) : ValuesRun (c :: s) := by
  obtain ⟨hruns, b, hb, hends⟩ := hz
  refine ⟨?_, b, h.mem_of_mem (hends.elim hsep hquote) hb, hends⟩
  rcases hruns with hall | ⟨z₁, q, z₂, heq, hz₁, hq⟩
  · obtain ⟨hc, hz⟩ := List.forall_mem_cons.mp hall
    exact .inl (List.forall_mem_cons.mpr ⟨hc, h.forall_mem hD hz⟩)
  · right
    rcases z₁ with - | ⟨c', z₁⟩
    · obtain ⟨rfl, rfl⟩ := List.cons.inj heq
      exact ⟨[], c, s, rfl, by simp, hq⟩
    · obtain ⟨rfl, rfl⟩ := List.cons.inj heq
      obtain ⟨s₁, s₂, rfl, h₁, -, -⟩ := h.split_cons (hquote hq)
      obtain ⟨hc, hz₁⟩ := List.forall_mem_cons.mp hz₁
      exact ⟨c :: s₁, q, s₂, rfl, List.forall_mem_cons.mpr ⟨hc, h₁.forall_mem hD hz₁⟩, hq⟩

theorem hidesNow_of_tokens (hends : UrlEnds stop mark)
    (hD : ∀ l d v, D l d v → TokenDrop w l d v) (h : Rewrites K D filtered [] [] [] s r)
    (hr : HidesNow w seen stop mark r) : HidesNow w seen stop mark s := by
  obtain ⟨x, c, z, e, q, hurl, hx, hz, he⟩ := hr
  obtain ⟨l, s₂, rfl, hurl, hlast, h₂⟩ :=
    urlAt_of_marked (fun l d v hd => (hD l d v hd).toMarkDrop) h hurl
  obtain ⟨x', s₃, rfl, hx', h₃⟩ := pairReaches_of_tokens hends hD h₂ hlast hx
  obtain ⟨z', q', rfl, h₄, -, -⟩ := h₃.split_cons (hends.mark_not_mem he)
  refine ⟨x', c, z', e, q', hurl, hx', ?_, he⟩
  refine valuesRun_of_rewrites not_mem_filtered_of_isQuote not_mem_filtered_of_isSeparator
    (fun l d v hd b hb => ?_) h₄ hz
  exact not_isSpace_of_isSecretPart (isCredentialPart_facts ((hD l d v hd).parts b hb)).1

theorem quoteRuns_of_tokens (hD : ∀ l d v, D l d v → TokenDrop w l d v)
    (h : Rewrites K D filtered [] [] [] s r) (hr : QuoteRuns w r) : QuoteRuns w s := by
  obtain ⟨a, head, q, u, c, b, rfl, hboundary, hhead, hq, hu, hc⟩ := hr
  have hqnot := not_mem_filtered_of_isQuote hq
  obtain ⟨s₁, s₂, rfl, h₁, -, h₂⟩ := marked_literal h (hhead.not_mem (by decide))
    (hhead.not_mem (by decide)) hhead.not_infix
  obtain ⟨s₃, s₄, rfl, h₃, -, h₄⟩ := h₂.split_cons (a := []) hqnot
  obtain rfl : s₃ = [] :=
    (h₃.eq_nil_iff filtered_ne_nil fun l d v hd => (hD l d v hd).ne).mpr rfl
  obtain ⟨u', s₅, rfl, h₅, -, h₆⟩ := h₄.split_cons hqnot
  obtain ⟨e, t, hcons, he⟩ : ∃ e t, s₅ = e :: t ∧ isSecretPart e = true := by
    generalize heq : c :: b = b' at h₆
    cases h₆ with
    | nil => cases heq
    | keep _ _ =>
        obtain ⟨rfl, -⟩ := List.cons.inj heq
        exact ⟨c, _, rfl, hc⟩
    | @drop _ d t _ hdropped _ =>
        obtain ⟨e, d, rfl⟩ := List.exists_cons_of_ne_nil (hD _ _ _ hdropped).ne
        exact ⟨e, d ++ t, rfl, (isCredentialPart_facts ((hD _ _ _ hdropped).parts e (by simp))).1⟩
  obtain ⟨n, rest, rfl, hn⟩ := hhead.cons
  refine ⟨s₁, n :: rest, q, u', e, t, by simp [hcons], boundary_of_marked
    (fun l d v hd => (hD l d v hd).toMarkDrop) h₁ rfl hn hboundary, hhead, hq, fun hmem => ?_, he⟩
  have hall := h₅.forall_mem (p := (· ≠ q)) (fun l d v hd b hb heq => ?_)
    fun b hb heq => hu (heq ▸ hb)
  · exact hall q hmem rfl
  · have hpart := (isCredentialPart_facts ((hD l d v hd).parts b hb)).2.1
    rw [heq, endsUrl_of_isQuote hq] at hpart
    cases hpart

end ErrorTokens

end StorageService.Results
