import StorageService.Results.ErrorTokens

/-!
# Secret pairs in stored error messages

The value of a pair is all that a mark is put for, so a value may take the end of
a URL with it; and a mark is the whole value again where nothing goes on behind
it.
-/

namespace StorageService.Results

open StorageService.Foundation
open StorageService.Foundation.Regex
open StorageService.Storage
open StorageService.Actions

section ErrorPairs

variable {w : WordClass} {K D : Text → Text → Text → Prop} {stop mark : Char → Bool} {seen : Bool}
  {tail after l s r a k d v : Text} {c : Char}

/-! ## Heads and values -/

def Value (d v : Text) : Prop :=
  Quoted d ∨ d ≠ [] ∧ (∀ c ∈ d, isSecretPart c = true) ∧ ∀ c ∈ v.head?, isSecretPart c = false

def SecretDrop (w : WordClass) (l d v : Text) : Prop :=
  OneLine (l ++ (d ++ v)) ∧ ∃ y k, l = y ++ k ∧ w.boundary (lastOr none y) k.head? = true ∧
    SecretHead w k ∧ Value d v

theorem secretDrop_of_drops (hline : OneLine s) (h : secretPairRe.Drops w s l d v) :
    SecretDrop w l d v := by
  obtain ⟨rfl, y, k, rfl, hfind⟩ := h
  obtain ⟨hboundary, hhead, hvalue⟩ := find_secretPairRe hfind
  exact ⟨hline, y, k, rfl, hboundary, hhead, hvalue⟩

theorem Value.head (h : Value d v) : ∃ c d', d = c :: d' ∧ isSecretPart c = true := by
  rcases h with ⟨q, u, rfl, hq, -⟩ | ⟨hne, hall, -⟩
  · exact ⟨q, _, rfl, isSecretPart_of_isQuote hq⟩
  · obtain ⟨c, d', rfl⟩ := List.exists_cons_of_ne_nil hne
    exact ⟨c, d', rfl, hall c (by simp)⟩

/-- On one line a head ends with its sign or with a blank. -/
theorem last_of_head (hline : OneLine (l ++ v)) (hl : l = a ++ k) (h : SecretHead w k) :
    ∀ c ∈ l.getLast?, isSign c = true ∨ c = ' ' := by
  obtain ⟨name, b₁, sign, b₂, rfl, -, -, hsign, hb₂⟩ := h
  intro c hc
  rw [hl, List.getLast?_append_of_ne_nil _ (by simp), List.getLast?_append_of_ne_nil _ (by simp),
    List.getLast?_append_of_ne_nil _ (by simp)] at hc
  cases b₂ with
  | nil =>
      cases hc
      exact .inl hsign
  | cons b b₂ =>
      rw [List.getLast?_cons_cons] at hc
      have hmem := List.mem_of_getLast? hc
      have hin : c ∈ l ++ v := by
        rw [hl]
        simp only [List.mem_append, List.mem_cons]
        exact .inl (.inr (.inr (.inr (.inr (List.mem_cons.mp hmem)))))
      exact .inr (hline.blanks c hin (hb₂ c hmem))

theorem SecretDrop.last (h : SecretDrop w l d v) : ∀ c ∈ l.getLast?, isSign c = true ∨ c = ' ' := by
  obtain ⟨hline, y, k, rfl, -, hhead, -⟩ := h
  exact last_of_head hline rfl hhead

theorem SecretDrop.markDrop (h : SecretDrop w l d v) : MarkDrop w l d v := by
  have hlast := h.last
  obtain ⟨-, y, k, rfl, -, -, hvalue⟩ := h
  refine ⟨?_, fun c hc => ?_, ?_⟩
  · obtain ⟨c, d', rfl, -⟩ := hvalue.head
    simp
  · rcases hlast c hc with hsign | rfl
    · exact not_isWord_sign hsign
    · exact not_isWord_space w
  · intro c hc hbegins _ b hb
    rcases hvalue with ⟨q, u, rfl, hq, -⟩ | ⟨-, -, hstop⟩
    · rw [← List.cons_append, List.getLast?_concat] at hb
      cases hb
      exact not_isWord_quote hq
    · have hpart := isSecretPart_of_isNamePart (isNamePart_of_beginsWord hbegins)
      rw [hstop c hc] at hpart
      cases hpart

theorem rewrites_secretPairRe (hline : OneLine s) :
    Rewrites (secretPairRe.Keeps w s) (SecretDrop w) filtered [] [] [] s
      (secretPairRe.sub w s) :=
  (Rule.rewrites_sub w secretPairRe s).imp (fun _ _ _ h => h)
    fun _ _ _ h => secretDrop_of_drops hline h

/-- Nine characters, if a sign and perhaps blanks end the text. -/
def signCredit (l : Text) : Nat :=
  if (l.reverse.dropWhile isSpace).head?.any isSign then 9 else 0

theorem signCredit_snoc (l : Text) (c : Char) : signCredit (l ++ [c]) =
    if isSpace c then signCredit l else if isSign c then 9 else 0 := by
  by_cases hspace : isSpace c <;> simp [signCredit, hspace]

theorem signCredit_head {y : Text} (h : SecretHead w k) : signCredit (y ++ k) = 9 := by
  obtain ⟨name, b₁, sign, b₂, rfl, -, -, hsign, hb₂⟩ := h
  have hblanks : ∀ b ∈ b₂.reverse, isSpace b = true := fun b hb => hb₂ b (List.mem_reverse.mp hb)
  simp [signCredit, List.dropWhile_append_of_pos hblanks, (isSign_facts hsign).2.1, hsign]

/-- The sign before a value lends nine characters to its mark. -/
theorem weight_le_of_pairs (h : Rewrites K (SecretDrop w) filtered tail after [] s r) :
    weight 0 0 r ≤ weight 9 0 s := by
  have hle := h.measure_le (f := weight 9 0) (g := weight 0 0) signCredit weight_append
    weight_append
    (fun l c => by
      rw [signCredit_snoc]
      cases hspace : isSpace c <;> cases hsign : isSign c <;> simp [weight, hsign])
    fun l d v hdropped => by
      obtain ⟨-, y, k, rfl, -, hhead, hvalue⟩ := hdropped
      have hlast : ∃ d' e, d = d' ++ [e] ∧ isSpace e = false := by
        rcases hvalue with ⟨q, u, rfl, hq, -⟩ | ⟨hne, hparts, -⟩
        · exact ⟨q :: u, q, rfl, not_isSpace_of_isSecretPart (isSecretPart_of_isQuote hq)⟩
        · rcases List.eq_nil_or_concat d with rfl | ⟨d', e, rfl⟩
          · exact absurd rfl hne
          · exact ⟨d', e, by simp, not_isSpace_of_isSecretPart (hparts e (by simp))⟩
      obtain ⟨d', e, rfl, he⟩ := hlast
      rw [weight_filtered, signCredit_head hhead, ← List.append_assoc, signCredit_snoc,
        weight_append]
      cases hsign : isSign e <;> simp [weight, hsign, he]
  simpa [signCredit] using hle

/-- Between two heads nothing is replaced. -/
theorem eq_of_secretDrop (hD : ∀ l d v, D l d v → SecretDrop w l d v)
    (h : Rewrites K D filtered tail after l s r)
    (hl : ∀ b ∈ l.getLast?, isSign b = false ∧ b ≠ ' ')
    (hs : ∀ b ∈ s, isSign b = false ∧ b ≠ ' ') (hne : l ≠ []) : s = r := by
  refine h.eq_of_no_drop fun u d v heq hdropped => ?_
  have hlast := (hD _ _ _ hdropped).last
  have hgood : ∀ b ∈ (l ++ u).getLast?, isSign b = false ∧ b ≠ ' ' := by
    by_cases hu : u = []
    · simpa [hu] using hl
    · rw [List.getLast?_append_of_ne_nil _ hu]
      exact fun b hb => hs b (by simp [heq, List.mem_of_getLast? hb])
  obtain ⟨b, hb⟩ : ∃ b, (l ++ u).getLast? = some b :=
    ⟨_, List.getLast?_eq_some_getLast (by simp [hne])⟩
  obtain ⟨hsign, hblank⟩ := hgood b hb
  rcases hlast b hb with h | h
  · rw [hsign] at h
    cases h
  · exact hblank h

/-- A word without signs has a value at most at its beginning. -/
theorem length_le_of_secretDrop (hD : ∀ l d v, D l d v → SecretDrop w l d v ∧ ' ' ∉ d)
    (h : Rewrites K D filtered tail after l s r) (hblank : ' ' ∉ s) (hs : isSteady s = true) :
    r.length < 32 ∧ s.length ≤ r.length := by
  simp only [isSteady, Bool.and_eq_true, decide_eq_true_eq, List.all_eq_true,
    Bool.not_eq_true'] at hs
  obtain ⟨hshort, hsign⟩ := hs
  have hgood : ∀ b ∈ s, isSign b = false ∧ b ≠ ' ' :=
    fun b hb => ⟨hsign b hb, ne_of_mem_of_not_mem hb hblank⟩
  have hdrops : ∀ l d v, D l d v → SecretDrop w l d v := fun l d v hd => (hD l d v hd).1
  cases h with
  | nil => simp
  | @keep l s r c _ h =>
      obtain ⟨hc, hs⟩ := List.forall_mem_cons.mp hgood
      obtain rfl := eq_of_secretDrop hdrops h (by simpa using hc) hs (by simp)
      exact ⟨by omega, le_rfl⟩
  | @drop l d s r hdropped h =>
      have hlength : filtered.length = 10 := rfl
      obtain ⟨hd, hs⟩ := List.forall_mem_append.mp hgood
      obtain ⟨c, d, rfl⟩ := List.exists_cons_of_ne_nil (hdrops _ _ _ hdropped).markDrop.ne
      obtain rfl := eq_of_secretDrop hdrops h (fun b hb => by
        rw [List.getLast?_append_of_ne_nil _ (by simp)] at hb
        exact hd b (List.mem_of_getLast? hb)) hs (by simp)
      simp only [List.length_append] at hshort ⊢
      omega

theorem leastLength_le_of_pairs (h : Rewrites K (SecretDrop w) filtered tail after [] s r) :
    leastLength s ≤ shortLength r := by
  unfold leastLength
  by_cases hs : s.any isQuote = true
  · rw [if_pos hs]
    exact Nat.zero_le _
  · rw [if_neg hs]
    have hD : ∀ l d v, SecretDrop w l d v ∧ d ⊆ s → SecretDrop w l d v ∧ ' ' ∉ d := by
      rintro l d v ⟨hdropped, hsub⟩
      refine ⟨hdropped, ?_⟩
      obtain ⟨-, -, -, -, -, -, hvalue⟩ := hdropped
      rcases hvalue with ⟨q, u, rfl, hq, -⟩ | ⟨-, hparts, -⟩
      · exact absurd (List.any_eq_true.mpr ⟨q, hsub (by simp), hq⟩) hs
      · exact fun hmem => absurd (hparts ' ' hmem) (by decide)
    refine h.drops_subset.wordSum_le (fun l d v hd => ⟨hd.1.markDrop.ne, (hD l d v hd).2⟩)
      (by decide) (fun {l u r tail after} _ hblank _ hu => ?_) (.inl rfl)
    by_cases hsteady : isSteady u = true
    · obtain ⟨hshort, hle⟩ := length_le_of_secretDrop hD hu hblank hsteady
      rw [if_pos hsteady, if_pos hshort]
      exact hle
    · rw [if_neg hsteady]
      exact Nat.zero_le _

/-! ## What is hidden by the mark of a value -/

theorem not_isSecretPart (h : isSecretPart c = false) :
    isSpace c = true ∨ isSeparator c = true := by
  simp only [isSecretPart, Bool.not_eq_false', Bool.or_eq_true] at h
  rcases h with ((h | h) | h) | h
  · exact .inl h
  all_goals simp [isSeparator, h]

/-- The head of a value that is replaced in a URL stands in the URL, without blanks. -/
theorem head_of_secretDrop (hends : UrlEnds stop mark) (hl : l.getLast? = some '/')
    (hs : ∀ b ∈ s, stop b = false ∧ mark b = false) (h : SecretDrop w (l ++ s) d v) :
    ∃ x name sign, s = x ++ (name ++ [sign]) ∧ IsSecretName w name ∧ isSign sign = true ∧
      w.boundary (lastOr (some '/') x) name.head? = true := by
  obtain ⟨-, y, k, heq, hboundary, hhead, -⟩ := h
  obtain ⟨x, rfl, rfl⟩ := suffix_of_getLast? heq hl (hhead.not_mem (by decide))
  obtain ⟨name, b₁, sign, b₂, rfl, hname, hb₁, hsign, hb₂⟩ := hhead
  have hnone {b : Text} (hsub : ∀ c ∈ b, c ∈ x ++ (name ++ (b₁ ++ sign :: b₂)))
      (hb : ∀ c ∈ b, isSpace c = true) : b = [] := by
    refine List.eq_nil_iff_forall_not_mem.mpr fun c hc => ?_
    have hstop := (hs c (hsub c hc)).1
    rw [hends.space (hb c hc)] at hstop
    cases hstop
  obtain rfl := hnone (b := b₁) (by simp +contextual) hb₁
  obtain rfl := hnone (b := b₂) (by simp +contextual) hb₂
  refine ⟨x, name, sign, rfl, hname, hsign, ?_⟩
  obtain ⟨⟨c, rest, hcons, -⟩, -⟩ := secretName_facts hname
  simp only at hcons
  have hslash : lastOr none l = some '/' := by rw [lastOr, hl, Option.some_or]
  simpa [hcons, hslash] using hboundary

/-- What follows on a value up to the next `mark`, where no `stop` is left. -/
theorem valuesRun_of_secretDrop {d₁ d₂ : Text} {e m : Char} (hends : UrlEnds stop mark)
    (hd₁ : ∀ b ∈ d₁, stop b = false) (hvalue : Value (d₁ ++ e :: d₂) (s ++ m :: v))
    (hm : mark m = true) (h : Rewrites K (SecretDrop w) filtered tail after l s r)
    (hr : ∀ b ∈ r, stop b = false) :
    isSpace e = false ∧ ValuesRun (e :: (d₂ ++ s)) := by
  rcases hvalue with ⟨q, u, heq, hq, -⟩ | ⟨-, hparts, hstop⟩
  · rcases d₁ with - | ⟨b, d₁⟩
    · obtain ⟨rfl, rfl⟩ := List.cons.inj heq
      exact ⟨not_isSpace_of_isSecretPart (isSecretPart_of_isQuote hq),
        .inr ⟨[], e, _, rfl, by simp, hq⟩, e, by simp, .inr hq⟩
    · have hnot := hd₁ b (by simp)
      rw [(List.cons.inj heq).1, hends.quote hq] at hnot
      cases hnot
  · have hspace : ∀ b ∈ e :: d₂, isSpace b = false := fun b hb =>
      not_isSpace_of_isSecretPart (hparts b (by simp [List.mem_cons.mp hb]))
    refine ⟨hspace e (by simp), ?_, ?_⟩
    · have hplain : ∀ b ∈ r, isSpace b = false := fun b hb => by
        cases hb' : isSpace b with
        | false => rfl
        | true =>
            have hnot := hr b hb
            rw [hends.space hb'] at hnot
            cases hnot
      rcases h.forall_mem_or_drop hplain with hs | ⟨s₁, d, s₂, -, rfl, hs₁, hdropped, hd, -⟩
      · exact .inl fun b hb => (List.mem_append.mp (by simpa using hb)).elim (hspace b) (hs b)
      · obtain ⟨-, -, -, -, -, -, hvalue⟩ := hdropped
        rcases hvalue with ⟨q, u, rfl, hq, -⟩ | ⟨-, hparts', -⟩
        · refine .inr ⟨e :: d₂ ++ s₁, q, u ++ [q] ++ s₂, by simp, ?_, hq⟩
          exact List.forall_mem_append.mpr ⟨hspace, hs₁⟩
        · exact absurd (fun b hb => not_isSpace_of_isSecretPart (hparts' b hb)) hd
    · rcases s with - | ⟨b, s⟩
      · have hpart := hends.part hm
        rw [hstop m rfl] at hpart
        cases hpart
      · refine ⟨b, by simp, .inl ((not_isSecretPart (hstop b rfl)).resolve_left fun hb => ?_)⟩
        generalize ht : b :: s = t at h
        cases h with
        | nil => cases ht
        | keep _ _ =>
            obtain ⟨rfl, -⟩ := List.cons.inj ht
            have hnot := hr b (by simp)
            rw [hends.space hb] at hnot
            cases hnot
        | drop hdropped _ =>
            obtain ⟨-, -, -, -, -, -, hvalue⟩ := hdropped
            obtain ⟨c, d', rfl, hc⟩ := hvalue.head
            obtain ⟨rfl, -⟩ := List.cons.inj ht
            rw [hstop b rfl] at hc
            cases hc

theorem reaches_of_pairs (hends : UrlEnds stop mark) (hline : OneLine s)
    (hr : Reaches w seen stop mark (secretPairRe.sub w s)) :
    Reaches w seen stop mark s ∨ HidesNow w seen stop mark s := by
  obtain ⟨p, m, q, hurl, hp, hm⟩ := hr
  obtain ⟨l, s₂, rfl, hurl, hlast, h₂⟩ :=
    urlAt_of_marked (fun _ _ _ hd => hd.markDrop) (rewrites_secretPairRe hline) hurl
  obtain ⟨p', q', rfl, h₃, -, -⟩ := h₂.split_cons (hends.mark_not_mem hm)
  rcases h₃.forall_mem_or_drop hp with hall | ⟨s₁, d, s₃, r₃, rfl, hs₁, hdropped, hd, h₄, hr₃⟩
  · exact .inl ⟨p', m, q', hurl, hall, hm⟩
  · rcases exists_first (fun b => stop b = false ∧ mark b = false) d with
      hall | ⟨d₁, e, d₂, rfl, hd₁, he⟩
    · exact absurd hall hd
    · have hgood : ∀ b ∈ s₁ ++ d₁, stop b = false ∧ mark b = false :=
        List.forall_mem_append.mpr ⟨hs₁, hd₁⟩
      by_cases hmark : mark e = true
      · exact .inl ⟨s₁ ++ d₁, e, d₂ ++ (s₃ ++ m :: q'), by simpa using hurl, hgood, hmark⟩
      · obtain ⟨x, name, sign, rfl, hname, hsign, hboundary⟩ :=
          head_of_secretDrop hends hlast hs₁ hdropped
        obtain ⟨-, -, -, -, -, -, hvalue⟩ := hdropped
        obtain ⟨hspace, hruns⟩ := valuesRun_of_secretDrop hends (fun b hb => (hd₁ b hb).1)
          (by simpa using hvalue) hm h₄ fun b hb => (hr₃ b hb).1
        have hstop : stop e = true := by
          simpa [Bool.eq_false_iff.mpr hmark] using he
        refine .inr ⟨x ++ (name ++ sign :: d₁), e, d₂ ++ s₃, m, q', by simpa using hurl,
          ⟨x, name, sign, d₁, rfl, fun b hb => hgood b ?_, hboundary, hname, hsign, hstop, hspace⟩,
          hruns, hm⟩
        rcases List.mem_append.mp hb with hb | hb <;> simp [hb]

/-! ## Marked values -/

/-- Every value of a secret pair is a mark. -/
def PairsMarked (w : WordClass) (s : Text) : Prop :=
  ∀ a k v, s = a ++ (k ++ v) → w.boundary (lastOr none a) k.head? = true → SecretHead w k →
    (∃ c ∈ v.head?, isSecretPart c = true) →
      ∃ v', v = filtered ++ v' ∧ ∀ c ∈ v'.head?, isSecretPart c = false

theorem forall_mem_filtered : ∀ c ∈ filtered, isSecretPart c = true :=
  forall_mem_of_all (by decide)

theorem PairsMarked.sub_eq_self (h : PairsMarked w s) : secretPairRe.sub w s = s := by
  refine Rule.sub_eq_self fun a v k d hs hfind => ?_
  obtain ⟨v, rfl, -⟩ := Rule.find_eq_some hfind
  obtain ⟨hboundary, hhead, hvalue⟩ := find_secretPairRe hfind
  obtain ⟨c, d', hd, hc⟩ := Value.head hvalue
  obtain ⟨v', heq, hv'⟩ := h a k (d ++ v) hs hboundary hhead ⟨c, by simp [hd], hc⟩
  rcases hvalue with ⟨q, u, rfl, hq, -⟩ | ⟨-, hparts, hstop⟩
  · obtain ⟨rfl, -⟩ := List.cons.inj heq
    exact absurd hq (by decide)
  · exact (append_inj_of_stop heq hparts forall_mem_filtered hstop hv').1

/-- Where a value begins in the result, one begins in the text. -/
theorem isSecretPart_of_rewrites
    (hD : ∀ l d v, D l d v → ∃ c d', d = c :: d' ∧ isSecretPart c = true)
    (h : Rewrites K D filtered tail after l s v) (hv : ∃ c ∈ v.head?, isSecretPart c = true) :
    ∃ c ∈ s.head?, isSecretPart c = true := by
  cases h with
  | nil => exact hv
  | keep _ _ => exact hv
  | drop hdropped _ =>
      obtain ⟨c, d', rfl, hc⟩ := hD _ _ _ hdropped
      exact ⟨c, rfl, hc⟩

theorem quoteRuns_of_value {y : Text} (hboundary : w.boundary (lastOr none y) k.head? = true)
    (hhead : SecretHead w k) (hvalue : Value d v) (hno : ¬QuoteRuns w (y ++ (k ++ (d ++ v)))) :
    ∀ c ∈ v.head?, isSecretPart c = false := by
  rcases hvalue with ⟨q, u, rfl, hq, hu⟩ | ⟨-, -, hstop⟩
  · intro c hc
    refine Bool.eq_false_iff.mpr fun hpart => hno ?_
    cases v with
    | nil => cases hc
    | cons b v =>
        cases hc
        exact ⟨y, k, q, u, c, v, by simp, hboundary, hhead, hq, hu, hpart⟩
  · exact hstop

theorem pairsMarked_sub (hline : OneLine s) (hno : ¬QuoteRuns w s) :
    PairsMarked w (secretPairRe.sub w s) := by
  intro a k v hr hboundary hhead hv
  have h := rewrites_secretPairRe (w := w) hline
  rw [hr] at h
  obtain ⟨s₁, s₂, rfl, h₁, ⟨-, hkeeps⟩, h₂⟩ := marked_literal h (hhead.not_mem (by decide))
    (hhead.not_mem (by decide)) hhead.not_infix
  have hs₂ := isSecretPart_of_rewrites (fun l d v hd => by
    obtain ⟨-, -, -, -, -, -, hvalue⟩ := hd
    exact hvalue.head) h₂ hv
  obtain ⟨n, rest, hcons, hn⟩ := hhead.cons
  have hbefore : w.boundary (lastOr none s₁) k.head? = true := by
    rw [hcons] at hboundary ⊢
    exact boundary_of_marked (fun _ _ _ hd => hd.markDrop) h₁ (by simp [hcons]) hn hboundary
  simp only [List.append_nil, List.nil_append] at hkeeps
  rcases hkeeps with hnone | ⟨y, k₁, k₂, d, v', hk₂, rfl, hs, hout, hfind⟩
  · exact absurd hnone (find_secretPairRe_ne_none hhead hbefore hs₂)
  -- `k₂` is the rest of a head that stands before a value: `k` is all of it
  rw [hs, ← List.append_assoc] at hfind
  obtain ⟨hboundary', hhead', hvalue⟩ := find_secretPairRe hfind
  have hfirst : k₂.head? = some n := by
    have := congrArg List.head? hs
    rw [List.head?_append_of_ne_nil _ hk₂] at this
    rw [← this, hcons]
    rfl
  obtain ⟨c, d', hd, hc⟩ := Value.head hvalue
  have hshape := hhead'.shape.suffix ⟨n, hfirst, isNamePart_of_beginsWord hn⟩
  obtain ⟨rfl, rfl⟩ := hhead.shape.unique hshape hs
    (fun b hb => by
      obtain ⟨b', hb', hpart⟩ := hs₂
      rw [Option.mem_unique hb hb']
      exact not_isSpace_of_isSecretPart hpart)
    (fun b hb => by
      rw [hd] at hb
      cases hb
      exact not_isSpace_of_isSecretPart hc)
  refine ⟨_, List.append_cancel_left hout, fun b hb => ?_⟩
  rw [Rule.head?_subFrom rfl] at hb
  refine quoteRuns_of_value (y := y) hboundary' hhead' hvalue ?_ b hb
  simpa using hno

theorem pairsMarked_of_hex (hD : ∀ l d v, D l d v → IsHexToken d)
    (hmark : ∀ l d v, D l d v → MarkDrop w l d v) (h : Rewrites K D filtered [] [] [] s r)
    (hs : PairsMarked w s) : PairsMarked w r := by
  have hpart {d : Text} (hd : IsHexToken d) : ∃ c d', d = c :: d' ∧ isSecretPart c = true := by
    obtain ⟨c, d', rfl, hc⟩ := isHexToken_cons hd
    exact ⟨c, d', rfl, isSecretPart_of_isNamePart
      (isNamePart_of_beginsWord (beginsWord_of_isAlphanum hc))⟩
  rintro a k v rfl hboundary hhead hv
  obtain ⟨s₁, s₂, rfl, h₁, -, h₂⟩ := marked_literal h (hhead.not_mem (by decide))
    (hhead.not_mem (by decide)) hhead.not_infix
  obtain ⟨n, rest, hcons, hn⟩ := hhead.cons
  have hbefore : w.boundary (lastOr none s₁) k.head? = true := by
    rw [hcons] at hboundary ⊢
    exact boundary_of_marked hmark h₁ (by simp [hcons]) hn hboundary
  obtain ⟨v', rfl, hv'⟩ := hs s₁ k s₂ rfl hbefore hhead
    (isSecretPart_of_rewrites (fun l d v hd => hpart (hD l d v hd)) h₂ hv)
  obtain ⟨r', rfl, h₃⟩ := h₂.literal_left fun m₁ m₂ d s' hm hne heq hdropped => by
    obtain ⟨hhex, hlength⟩ := hD _ _ _ hdropped
    have hbracket := mem_of_suffix_filtered hm hne
    have hle := congrArg List.length hm
    rcases List.append_eq_append_iff.mp heq with ⟨m', rfl, -⟩ | ⟨m', rfl, -⟩
    · exact absurd (hhex ']' (List.mem_append_left _ hbracket)) (by decide)
    · simp only [List.length_append, filtered, List.length_cons, List.length_nil] at hle
      omega
  refine ⟨r', rfl, fun b hb => ?_⟩
  cases h₃ with
  | nil => cases hb
  | keep _ _ => exact hv' b hb
  | drop hdropped _ =>
      obtain ⟨c, d', rfl, hc⟩ := hpart (hD _ _ _ hdropped)
      rw [hv' c rfl] at hc
      cases hc

end ErrorPairs

end StorageService.Results
