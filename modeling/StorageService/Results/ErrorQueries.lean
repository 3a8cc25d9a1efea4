import StorageService.Results.ErrorUsers

/-!
# Queries in stored error messages

The first pass takes away what stands between the first `?` or `#` of a URL and
its end.  What is asked of the text allows for it: between two ends of URLs at
most one query is gone.
-/

namespace StorageService.Results

open StorageService.Foundation
open StorageService.Foundation.Regex
open StorageService.Storage
open StorageService.Actions

section ErrorQueries

variable {w : WordClass} {K D : Text → Text → Text → Prop} {stop mark : Char → Bool} {seen : Bool}
  {tail after l s r t a b d k m p v y : Text} {c e : Char}

/-! ## What is taken away -/

def QueryDrop (l d v : Text) : Prop :=
  (∃ y k, l = y ++ k ∧ (∀ c ∈ schemeEnd, c ∈ k) ∧ ∀ c ∈ k, endsUrl c = false) ∧
    (∃ x d', d = x :: d' ∧ startsQuery x = true ∧ ∀ c ∈ d', endsUrl c = false) ∧
    ∀ c ∈ v.head?, endsUrl c = true

theorem rewrites_urlQueryRe (s : Text) :
    Rewrites (urlQueryRe.Keeps w s) QueryDrop [] [] [] [] s (urlQueryRe.sub w s) := by
  refine (Rule.rewrites_sub w urlQueryRe s).imp (fun _ _ _ h => h) fun l d v h => ?_
  obtain ⟨-, y, k, rfl, hfind⟩ := h
  obtain ⟨⟨scheme, p, hscheme, -, rfl, hp⟩, hd, hv⟩ := find_urlQueryRe hfind
  refine ⟨⟨y, _, rfl, fun c hc => by simp [hc], fun c hc => ?_⟩, hd, hv⟩
  rw [← List.append_assoc] at hc
  rcases List.mem_append.mp hc with hc | hc
  · exact (url_facts hscheme hc).1
  · exact (hp c hc).1

theorem not_endsUrl_of_startsQuery (h : startsQuery c = true) : endsUrl c = false := by
  simp only [startsQuery, Bool.or_eq_true, beq_iff_eq] at h
  rcases h with rfl | rfl <;> decide

theorem QueryDrop.parts (h : QueryDrop l d v) (hc : c ∈ d) : endsUrl c = false := by
  obtain ⟨-, ⟨x, d', rfl, hx, hd⟩, -⟩ := h
  rcases List.mem_cons.mp hc with rfl | hc
  · exact not_endsUrl_of_startsQuery hx
  · exact hd c hc

/-- A query that is taken away begins behind the last end of a URL. -/
theorem QueryDrop.slash (h : QueryDrop l d v) (hl : l = y ++ e :: k) (he : endsUrl e = true) :
    '/' ∈ k := by
  obtain ⟨⟨y', k', heq, hslash, hk'⟩, -⟩ := h
  have hno : e ∉ k' := fun hmem => by
    rw [hk' e hmem] at he
    cases he
  rcases List.append_eq_append_iff.mp (hl.symm.trans heq) with ⟨t, -, ht⟩ | ⟨t, -, ht⟩
  · rcases t with - | ⟨e', t⟩
    · exact absurd (by simp [show k' = e :: k from ht.symm]) hno
    · rw [(List.cons.inj ht).2]
      exact List.mem_append_right _ (hslash '/' (by decide))
  · exact absurd (by simp [ht]) hno

section Queries

variable (hD : ∀ l d v, D l d v → QueryDrop l d v)
include hD

theorem eq_of_queries (h : Rewrites K D [] tail after l s r) (hl : l = y ++ e :: k)
    (he : endsUrl e = true) (hk : '/' ∉ k ++ r) : s = r := by
  induction h generalizing k with
  | nil l => rfl
  | @keep l s r c _ _ ih =>
      rw [ih (k := k ++ [c]) (by simp [hl]) (by simpa using hk)]
  | drop hdropped _ =>
      exact absurd (List.mem_append_left _ ((hD _ _ _ hdropped).slash hl he)) hk

/-- At most one query is gone from a part that has no slash behind the end of a URL. -/
theorem queried_of_rewrites (h : Rewrites K D [] tail after l s r)
    (hr : ∀ u e v, r = u ++ e :: v → endsUrl e = true → '/' ∉ v) :
    s = r ∨ ∃ p x d v, s = p ++ (x :: d ++ v) ∧ r = p ++ v ∧ startsQuery x = true ∧
      (∀ c ∈ d, endsUrl c = false) ∧ ∀ c ∈ (v ++ tail).head?, endsUrl c = true := by
  induction h with
  | nil l => exact .inl rfl
  | @keep l s r c _ _ ih =>
      rcases ih fun u e v hv => hr (c :: u) e v (by rw [hv, List.cons_append]) with
        rfl | ⟨p, x, d, v, rfl, rfl, hx, hd, hv⟩
      · exact .inl rfl
      · exact .inr ⟨c :: p, x, d, v, rfl, rfl, hx, hd, hv⟩
  | @drop l d s r hdropped h _ =>
      obtain ⟨-, ⟨x, d', rfl, hx, hd⟩, hv⟩ := hD _ _ _ hdropped
      have hsame : s = r := by
        cases h with
        | nil => rfl
        | @keep _ s r e _ h =>
            have he := hv e rfl
            rw [eq_of_queries hD h (k := []) rfl he (hr [] e r rfl he)]
        | drop hdropped' _ =>
            obtain ⟨-, ⟨x', d', rfl, hx', -⟩, -⟩ := hD _ _ _ hdropped'
            have hno := not_endsUrl_of_startsQuery hx'
            rw [hv x' rfl] at hno
            cases hno
      exact .inr ⟨[], x, d', s, rfl, hsame.symm, hx, hd, hv⟩

/-- The same with the character behind the part. -/
theorem unqueried_of_rewrites (h : Rewrites K D [] (c :: tail) after l s r)
    (hr : ∀ u e v, r = u ++ e :: v → endsUrl e = true → '/' ∉ v) :
    Unqueried (s ++ [c]) (r ++ [c]) := by
  rcases queried_of_rewrites hD h hr with rfl | ⟨p, x, d, v, rfl, rfl, hx, hd, hv⟩
  · exact .inl rfl
  · cases v with
    | nil => exact .inr ⟨p, x, d, c, [], by simp, by simp, hx, hd, hv c rfl⟩
    | cons e v => exact .inr ⟨p, x, d, e, v ++ [c], by simp, by simp, hx, hd, hv e rfl⟩

theorem block_of_queries (h : Rewrites K D [] [] [] [] s (a ++ (m ++ b)))
    (hm : ∀ c ∈ m, endsUrl c = false) (hne : m ≠ []) :
    ∃ s₁ s₂, s = s₁ ++ (m ++ s₂) ∧
      Rewrites K D [] (m ++ s₂ ++ []) (m ++ b ++ []) [] s₁ a ∧
      K s₁ (m ++ s₂) (m ++ b) ∧ lastOr none s₁ = lastOr none a ∧
      Rewrites K D [] [] [] (s₁ ++ m) s₂ b := by
  have hstop : ∀ l d v, D l d v → ∀ c ∈ v.head?, endsUrl c = true :=
    fun l d v hd => (hD l d v hd).2.2
  obtain ⟨s₁, s₂, rfl, h₁, hkept, h₂⟩ := h.block_of_stop (E := fun c => endsUrl c = true)
    (fun l d v hd => by
      obtain ⟨-, ⟨x, d', rfl, hx, -⟩, hv⟩ := hD l d v hd
      exact ⟨⟨x, d', rfl, by simp [not_endsUrl_of_startsQuery hx]⟩, hv⟩)
    (fun c hc => by simp [hm c hc]) hne
  refine ⟨s₁, s₂, rfl, h₁, by simpa using hkept, h₁.lastOr_of_stop hstop ?_ none,
    by simpa using h₂⟩
  obtain ⟨c, m, rfl⟩ := List.exists_cons_of_ne_nil hne
  exact ⟨c, rfl, by simp [hm c (by simp)]⟩

/-- Where no query is left, a part that is kept stands in none. -/
theorem not_inQuery (h : Rewrites K D [] tail after [] s a)
    (htail : ∃ c ∈ tail.head?, ¬endsUrl c = true)
    (hno : ¬Reaches w true endsUrl startsQuery (a ++ b)) : ¬InQuery w s := by
  rintro ⟨s₁, scheme, p, x, d, rfl, hscheme, hboundary, hpd, hx⟩
  have hstop : ∀ l d v, D l d v → ∀ c ∈ v.head?, endsUrl c = true :=
    fun l d v hd => (hD l d v hd).2.2
  have hfree : ∀ c ∈ scheme ++ (schemeEnd ++ (p ++ x :: d)), ¬endsUrl c = true := by
    intro c hc
    rw [← List.append_assoc] at hc
    rcases List.mem_append.mp hc with hc | hc
    · simp [(url_facts hscheme hc).1]
    · rcases List.mem_append.mp hc with hc | hc
      · simp [hpd c (List.mem_append_left _ hc)]
      rcases List.mem_cons.mp hc with rfl | hc
      · simp [not_endsUrl_of_startsQuery hx]
      · simp [hpd c (List.mem_append_right _ hc)]
  obtain ⟨a, rfl, h₁⟩ := h.kept_of_stop hstop hfree htail
  have hlast := h₁.lastOr_of_stop hstop (by
    obtain ⟨c, rest, rfl, -⟩ := hscheme
    exact ⟨c, rfl, hfree c (by simp)⟩) none
  refine hno (reaches_of_free (p := p) (c := x) (q := d ++ b) ⟨a, scheme, by simp, hscheme,
    fun _ => ?_⟩ (fun c hc => hpd c (List.mem_append_left _ hc)) hx)
  rwa [← hlast]

end Queries

/-! ## What is left -/

theorem mem_url_path {scheme : Text} (hscheme : IsScheme scheme)
    (hp : ∀ b ∈ p, endsUrl b = false ∧ startsQuery b = false)
    (hc : c ∈ scheme ++ (schemeEnd ++ p)) : endsUrl c = false ∧ startsQuery c = false := by
  rw [← List.append_assoc] at hc
  rcases List.mem_append.mp hc with hc | hc
  · exact ⟨(url_facts hscheme hc).1, (url_facts hscheme hc).2.1⟩
  · exact hp c hc

theorem not_reaches_sub (s : Text) : ¬Reaches w true endsUrl startsQuery (urlQueryRe.sub w s) := by
  rintro ⟨p, c, q, ⟨a, scheme, hr, hscheme, hseen⟩, hp, hc⟩
  have hdrop : ∀ l d v, QueryDrop l d v → QueryDrop l d v := fun _ _ _ h => h
  have hpath {b : Char} (hb : b ∈ scheme ++ (schemeEnd ++ p)) := mem_url_path hscheme hp hb
  have h := rewrites_urlQueryRe (w := w) s
  rw [hr, show scheme ++ (schemeEnd ++ (p ++ c :: q)) =
    scheme ++ (schemeEnd ++ p) ++ [c] ++ q by simp] at h
  obtain ⟨s₁, s₂, rfl, -, ⟨-, hkept⟩, hlast, -⟩ := block_of_queries hdrop h
    (List.forall_mem_append.mpr ⟨fun b hb => (hpath hb).1, by
      simpa using not_endsUrl_of_startsQuery hc⟩) (by simp)
  rcases hkept with hnone | ⟨y, k₁, k₂, d, v, hk₂, rfl, hs, hout, hfind⟩
  · refine not_urlQuery_of_find hnone (m := scheme ++ (schemeEnd ++ p) ++ [c]) rfl ?_
      ⟨scheme, p, c, by simp, hscheme, hp, hc⟩
    rw [hlast, List.append_assoc, head?_scheme hscheme]
    exact hseen rfl
  · rw [hs, ← List.append_assoc] at hfind
    obtain ⟨⟨scheme', p', hscheme', -, hk, hp'⟩, ⟨x, d', rfl, hx, -⟩, hv⟩ := find_urlQueryRe hfind
    have hstart {b : Char} (hb : startsQuery b = true) (t : Text) :
        ∀ a ∈ (b :: t).head?, (!startsQuery a) = false := by
      intro a ha
      cases ha
      simp [hb]
    have hpath' : ∀ b ∈ k₂, (!startsQuery b) = true := fun b hb => by
      have hmem : b ∈ scheme' ++ (schemeEnd ++ p') := hk ▸ List.mem_append_right _ hb
      simp [(mem_url_path hscheme' hp' hmem).2]
    have hsplit : scheme ++ (schemeEnd ++ p) ++ c :: s₂ = k₂ ++ x :: (d' ++ v) := by
      simpa using hs
    obtain ⟨rfl, -⟩ := append_inj_of_stop hsplit (fun b hb => by simp [(hpath hb).2]) hpath'
      (hstart hc _) (hstart hx _)
    have hout' : c :: q = urlQueryRe.replacement ++ urlQueryRe.subFrom w
        (lastOr none (y ++ k₁ ++ (scheme ++ (schemeEnd ++ p) ++ x :: d'))) 0 v := by
      rw [List.append_assoc _ [c], List.singleton_append] at hout
      exact List.append_cancel_left hout
    have hhead := congrArg List.head? hout'
    rw [show urlQueryRe.replacement = [] from rfl, List.nil_append, Rule.head?_subFrom rfl] at hhead
    have hurl := hv c hhead.symm
    rw [not_endsUrl_of_startsQuery hc] at hurl
    cases hurl

theorem noMatch_urlQueryRe (h : ¬Reaches w true endsUrl startsQuery s) :
    urlQueryRe.NoMatch w s := by
  intro a v hs
  cases hfind : urlQueryRe.find w (lastOr none a) v with
  | none => rfl
  | some m =>
      obtain ⟨k, d⟩ := m
      obtain ⟨q, rfl, -⟩ := Rule.find_eq_some hfind
      obtain ⟨⟨scheme, p, hscheme, hboundary, rfl, hp⟩, ⟨x, d', rfl, hx, -⟩, -⟩ :=
        find_urlQueryRe hfind
      exact absurd ⟨p, x, d' ++ q, ⟨a, scheme, by simp [hs], hscheme, fun _ => hboundary⟩, hp, hx⟩ h

/-- A scheme that is seen in the text is seen where only queries are gone. -/
theorem urlAt_of_schemeSeen {scheme : Text} (hD : ∀ l d v, D l d v → QueryDrop l d v)
    (h : Rewrites K D [] (scheme ++ tail) after [] s a) (hscheme : IsScheme scheme)
    (hseen : SchemeSeen w (s ++ scheme)) : UrlAt w true (a ++ (scheme ++ (schemeEnd ++ b))) b := by
  have hstop : ∀ l d v, D l d v → ∀ c ∈ v.head?, endsUrl c = true :=
    fun l d v hd => (hD l d v hd).2.2
  have hfirst {scheme t : Text} (hscheme : IsScheme scheme) :
      ∃ c ∈ (scheme ++ t).head?, ¬endsUrl c = true := by
    have hurl := fun c hc => (url_facts (c := c) hscheme hc).1
    obtain ⟨c, rest, rfl, -⟩ := hscheme
    exact ⟨c, rfl, by simp [hurl c (by simp)]⟩
  obtain ⟨a₀, scheme₀, heq, hscheme₀, hboundary⟩ := hseen
  rcases List.append_eq_append_iff.mp heq with ⟨m, rfl, rfl⟩ | ⟨m, rfl, rfl⟩
  · refine ⟨a ++ m, scheme₀, by simp, hscheme₀, fun _ => ?_⟩
    rw [lastOr_append, h.lastOr_of_stop hstop (hfirst hscheme), ← lastOr_append] at hboundary
    exact hboundary
  · obtain ⟨a', rfl, h₁⟩ := h.kept_of_stop (E := fun c => endsUrl c = true) hstop (fun c hc => by
      simp [(url_facts (c := c) hscheme₀ (by simp [hc])).1]) (hfirst hscheme)
    refine ⟨a', m ++ scheme, by simp, hscheme₀, fun _ => ?_⟩
    rw [← List.append_assoc] at h₁
    rwa [h₁.lastOr_of_stop hstop (hfirst hscheme₀)] at hboundary

theorem usersSeen_sub (h : UsersPlain w s) : UsersSeen w (urlQueryRe.sub w s) := by
  rintro p q ⟨a, scheme, hr, hscheme, -⟩ hhost
  have hdrop : ∀ l d v, QueryDrop l d v → QueryDrop l d v := fun _ _ _ h => h
  have hslash := slash_not_mem hhost
  have hall := rewrites_urlQueryRe (w := w) s
  rw [hr, ← List.append_assoc scheme] at hall
  obtain ⟨s₁, s₂, rfl, h₁, -, -, h₂⟩ := block_of_queries hdrop hall
    (fun c hc => (url_facts hscheme hc).1) (by simp [schemeEnd])
  obtain ⟨x, q', rfl, h₃, -, -⟩ := h₂.split_cons (by simp)
  have hx : Unqueried x p := by
    rcases queried_of_rewrites hdrop h₃ fun u e v hp _ hmem => hslash (by simp [hp, hmem]) with
      rfl | ⟨p₁, y, d, v, rfl, rfl, hy, hd, hv⟩
    · exact .inl rfl
    · cases v with
      | nil => exact absurd (hv '@' rfl) (by decide)
      | cons e v => exact .inr ⟨p₁, y, d, e, v, rfl, rfl, hy, hd, hv e rfl⟩
  have hquery : ¬InQuery w s₁ := not_inQuery hdrop h₁ (by
    have hurl := fun c hc => (url_facts (c := c) hscheme hc).1
    obtain ⟨c, rest, rfl, -⟩ := hscheme
    exact ⟨c, rfl, by simp [hurl c (by simp)]⟩) (hr ▸ not_reaches_sub _)
  obtain ⟨rfl, hseen, hurl, hplain⟩ := h s₁ scheme x p q' (by simp) hscheme hquery hx hhost
  have hat : UrlAt w true (urlQueryRe.sub w (s₁ ++ (scheme ++ schemeEnd ++ (x ++ '@' :: q'))))
      (x ++ '@' :: q) := by
    rw [hr]
    simp only [List.append_assoc] at h₁
    exact urlAt_of_schemeSeen hdrop h₁ hscheme hseen
  have hnone : ∀ c ∈ x, startsQuery c = false := by
    intro c hc
    obtain ⟨x₁, x₂, rfl⟩ := List.append_of_mem hc
    refine Bool.eq_false_iff.mpr fun hc' => not_reaches_sub (w := w) _
      (reaches_of_free (p := x₁) (c := c) (q := x₂ ++ '@' :: q) (by simpa using hat)
        (fun b hb => hurl b (by simp [hb])) hc')
  obtain ⟨hne, hno⟩ := hplain hnone
  refine ⟨hat, hne, fun c hc => ?_⟩
  have hc₁ : c ≠ '/' := ne_of_mem_of_not_mem hc hslash
  have hc₂ : c ≠ '@' := ne_of_mem_of_not_mem hc hno
  simp [isUserPart, hurl c hc, hc₁, hc₂]

/-! ## What is hidden and what is late -/

theorem Unqueried.append_left (m : Text) (h : Unqueried t s) : Unqueried (m ++ t) (m ++ s) := by
  rcases h with rfl | ⟨p, x, d, e, r, rfl, rfl, hx, hd, he⟩
  · exact .inl rfl
  · exact .inr ⟨m ++ p, x, d, e, r, by simp, by simp, hx, hd, he⟩

section Hidden

variable (hD : ∀ l d v, D l d v → QueryDrop l d v)
include hD

theorem hidesEnd_of_queries (hends : UrlEnds stop mark) (h : Rewrites K D [] [] [] [] s r)
    (hno : ¬Reaches w true endsUrl startsQuery r) (hr : HidesUser w stop mark r) :
    HidesEnd w stop mark s := by
  obtain ⟨user, x, c, z, e, q, ⟨a, scheme, rfl, hscheme, -⟩, huser, hx, hat, hz, he⟩ := hr
  rw [show scheme ++ (schemeEnd ++ (user ++ (x ++ c :: (z ++ e :: q)))) =
    scheme ++ schemeEnd ++ user ++ (x ++ c :: (z ++ e :: q)) by simp] at h
  obtain ⟨s₁, s₂, rfl, h₁, -, -, h₂⟩ := block_of_queries hD h
    (List.forall_mem_append.mpr ⟨fun c hc => (url_facts hscheme hc).1,
      fun c hc => (huser.parts hc).1⟩) (by simp [schemeEnd])
  have hquery : ¬InQuery w s₁ := not_inQuery hD h₁ (by
    have hurl := fun c hc => (url_facts (c := c) hscheme hc).1
    obtain ⟨c, rest, rfl, -⟩ := hscheme
    exact ⟨c, rfl, by simp [hurl c (by simp)]⟩) hno
  obtain ⟨x', s₃, rfl, h₃, -, h₄⟩ := h₂.split_cons (by simp)
  obtain ⟨z', q', rfl, h₅, -, -⟩ := h₄.split_cons (by simp)
  refine ⟨s₁, scheme, user, x', x, c, z', e, q', by simp, hscheme, hquery, huser,
    unqueried_of_rewrites hD h₃ fun u b v hb hbend => ?_, hx, hat,
    valuesRun_of_rewrites (by simp) (by simp) (fun l d v hd b hb => ?_) h₅ hz, he⟩
  · rcases hends.slash with hslash | hurl
    · exact fun hmem => (hx.plain hends (e := '/') (by simp [hb, hmem])).2.2 hslash rfl
    · obtain ⟨x, name, sign, d, rfl, hgood, -, hname, hsign, -⟩ := hx
      have hmem : b ∈ x ++ (name ++ sign :: d) := by simp [hb]
      rcases mem_pair hmem with hmem | hmem
      · have hstop := (hgood b hmem).1
        rw [hurl hbend] at hstop
        cases hstop
      · rw [(name_facts hname hsign hmem).1] at hbend
        cases hbend
  · exact not_isSpace_of_not_endsUrl ((hD l d v hd).parts hb)

/-- Something fragile begins in the text as it is, and the rest of it stands behind. -/
theorem fragile_of_queries (h : Rewrites K D [] [] [] [] s (a ++ (m ++ b))) (hm : Fragile w m)
    (hboundary : w.boundary (lastOr none a) m.head? = true)
    (hno : ¬Reaches w true endsUrl startsQuery (a ++ (m ++ b))) :
    ∃ s₁ name rest s₂, s = s₁ ++ (name ++ s₂) ∧ m = name ++ rest ∧
      Rewrites K D [] (name ++ s₂ ++ []) (name ++ (rest ++ b) ++ []) [] s₁ a ∧ ¬InQuery w s₁ ∧
      (∀ t, w.boundary (lastOr none s₁) (name ++ t).head? = true) ∧
      (∀ u e v, rest = u ++ e :: v → endsUrl e = true → '/' ∉ v) ∧
      Rewrites K D [] [] [] (s₁ ++ name) s₂ (rest ++ b) := by
  obtain ⟨⟨-, -, hslash⟩, -, c, name, rest, rfl, -, hname⟩ := hm.shape
  rw [List.append_assoc (c :: name)] at h
  obtain ⟨s₁, s₂, rfl, h₁, -, hlast, h₂⟩ := block_of_queries hD h hname (by simp)
  refine ⟨s₁, c :: name, rest, s₂, rfl, rfl, h₁,
    not_inQuery hD h₁ ⟨c, rfl, by simp [hname c (by simp)]⟩ hno, fun t => ?_,
    fun u e v hrest _ hmem => hslash (by simp [hrest, hmem]), h₂⟩
  rw [hlast]
  exact hboundary

theorem quoteGoesOn_of_queries (h : Rewrites K D [] [] [] [] s r)
    (hno : ¬Reaches w true endsUrl startsQuery r) (hr : QuoteRuns w r) : QuoteGoesOn w s := by
  obtain ⟨a, head, q, u, c, b, rfl, hboundary, hhead, hq, hu, hc⟩ := hr
  obtain ⟨s₁, name, rest, s₂, rfl, rfl, -, hquery, hbefore, hrest, h₂⟩ :=
    fragile_of_queries hD h (.inl hhead) hboundary hno
  obtain ⟨y, s₃, rfl, h₃, -, h₄⟩ := h₂.split_cons (by simp)
  obtain ⟨u', s₄, rfl, h₅, -, h₆⟩ := h₄.split_cons (by simp)
  have hqurl := endsUrl_of_isQuote hq
  obtain ⟨c', s₅, rfl, hc'⟩ : ∃ c' s₅, s₄ = c' :: s₅ ∧ isSecretPart c' = true := by
    generalize hcb : c :: b = b' at h₆
    cases h₆ with
    | nil => cases hcb
    | keep _ _ =>
        obtain ⟨rfl, -⟩ := List.cons.inj hcb
        exact ⟨c, _, rfl, hc⟩
    | drop hdropped _ =>
        exact absurd ((hD _ _ _ hdropped).slash rfl hqurl) (by simp)
  have hunqueried := unqueried_of_rewrites hD h₃ hrest
  refine ⟨s₁, name ++ y, name ++ rest, q, u', c', s₅, by simp, hbefore y, hquery,
    by simpa using hunqueried.append_left name, hhead, hq, fun hmem => ?_, hc'⟩
  have hall := h₅.forall_mem (p := (· ≠ q)) (fun l d v hd b hb heq => ?_)
    fun b hb heq => hu (heq ▸ hb)
  · exact hall q hmem rfl
  · have hpart := (hD l d v hd).parts hb
    rw [heq, hqurl] at hpart
    cases hpart

theorem leastLength_le_of_queries (h : Rewrites K D [] tail after [] s r) :
    leastLength s ≤ leastLength r := by
  refine leastLength_le (by simp) (by simp) (fun l d v hd => ⟨?_, fun hmem => ?_⟩)
    (fun {l u d v x} hl hd => ?_) h
  · rintro rfl
    obtain ⟨-, ⟨x, d', hnil, -⟩, -⟩ := hD l [] v hd
    cases hnil
  · exact absurd ((hD l d v hd).parts hmem) (by decide)
  · obtain ⟨⟨y, k, hy, hsign, hk⟩, -⟩ := hD _ _ _ hd
    refine not_isSteady_of_sign hl hy (fun hblank => ?_) (hsign ':' (by decide)) _
    exact absurd (hk ' ' hblank) (by decide)

theorem cutIn_of_queries (h : Rewrites K D [] [] [] [] s r)
    (hno : ¬Reaches w true endsUrl startsQuery r) (hr : CutIn w (weight 9 2) leastLength r) :
    ∃ a x m q, s = a ++ (x ++ q) ∧ w.boundary (lastOr none a) x.head? = true ∧ ¬InQuery w a ∧
      Unqueried x m ∧ Fragile w m ∧ leastLength a < errorMessageMax ∧
      errorMessageMax < markedLength (a ++ x) + 12 := by
  obtain ⟨a, m, q, rfl, hboundary, hm, hstays, hlate⟩ := hr
  obtain ⟨s₁, name, rest, s₂, rfl, rfl, h₁, hquery, hbefore, hrest, h₂⟩ :=
    fragile_of_queries hD h hm hboundary hno
  have hup := weight_le_of_removal (m := 9) (n := 2) h₁
  have hlow := leastLength_le_of_queries hD h₁
  have hlong {x : Text} (hx : weight 9 2 rest ≤ weight 9 2 x) :
      errorMessageMax < markedLength (s₁ ++ (name ++ x)) + 12 := by
    have hsame : markedLength (s₁ ++ (name ++ x)) = weight 9 2 (s₁ ++ (name ++ x)) := rfl
    rw [hsame]
    simp only [weight_append] at hlate ⊢
    omega
  rcases h₂.split with ⟨y, s₃, rfl, h₃, -⟩ | ⟨m₁, m₂, -, hm₁, -, hnil, -⟩
  swap
  · exact absurd (List.append_eq_nil_iff.mp hnil.symm).1 hm₁
  rcases queried_of_rewrites hD h₃ hrest with rfl | ⟨p, x, d, v, rfl, rfl, hx, hd, hv⟩
  · exact ⟨s₁, name ++ y, name ++ y, s₃, by simp, hbefore y, hquery, .inl rfl, hm, by omega,
      hlong le_rfl⟩
  · cases v with
    | nil =>
        rw [List.append_nil] at hm hlong
        exact ⟨s₁, name ++ p, name ++ p, x :: d ++ s₃, by simp, hbefore p, hquery, .inl rfl, hm,
          by omega, hlong le_rfl⟩
    | cons e v =>
        refine ⟨s₁, name ++ (p ++ (x :: d ++ e :: v)), name ++ (p ++ e :: v), s₃, by simp,
          hbefore _, hquery, .append_left name (.inr ⟨p, x, d, e, v, rfl, rfl, hx, hd, hv e rfl⟩),
          hm, by omega, hlong ?_⟩
        simp only [weight_append]
        omega

end Hidden

end ErrorQueries

end StorageService.Results
