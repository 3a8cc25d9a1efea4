import StorageService.Results.ErrorTokens

/-!
# User information in stored error messages

The pass takes away what stands between a `scheme://` and the first `@`, if that
is all there is of it, and nothing else; what a text says of secret pairs is the
same with the user information in front.
-/

namespace StorageService.Results

open StorageService.Foundation
open StorageService.Foundation.Regex
open StorageService.Storage
open StorageService.Actions

section ErrorUsers

variable {w : WordClass} {K D : Text → Text → Text → Prop} {stop mark : Char → Bool} {seen : Bool}
  {tail after l s r a b d m p q u v x z scheme user : Text} {c : Char}

/-! ## What is taken away -/

def UserDrop (l d _ : Text) : Prop :=
  (∃ y, l = y ++ schemeEnd) ∧ ∃ u, d = u ++ ['@'] ∧ u ≠ [] ∧ ∀ c ∈ u, isUserPart c = true

theorem userDrop_of_drops (h : urlUserinfoRe.Drops w s l d v) : UserDrop l d v := by
  obtain ⟨-, y, k, rfl, hfind⟩ := h
  obtain ⟨⟨scheme, -, -, rfl⟩, huser⟩ := find_urlUserinfoRe hfind
  exact ⟨⟨y ++ scheme, by simp⟩, huser⟩

theorem rewrites_urlUserinfoRe (s : Text) :
    Rewrites (urlUserinfoRe.Keeps w s) UserDrop [] [] [] [] s (urlUserinfoRe.sub w s) :=
  (Rule.rewrites_sub w urlUserinfoRe s).imp (fun _ _ _ h => h) fun _ _ _ => userDrop_of_drops

theorem isUserPart_facts (h : isUserPart c = true) :
    endsUrl c = false ∧ c ≠ '/' ∧ c ≠ '@' := by
  simpa [isUserPart, and_assoc] using h

theorem UserDrop.last (h : UserDrop l d v) : l.getLast? = some '/' := by
  obtain ⟨⟨y, rfl⟩, -⟩ := h
  rw [List.getLast?_append_of_ne_nil _ (by decide)]
  rfl

theorem UserDrop.parts (h : UserDrop l d v) (hc : c ∈ d) : endsUrl c = false ∧ c ≠ '/' := by
  obtain ⟨-, u, rfl, -, hu⟩ := h
  rcases List.mem_append.mp hc with hc | hc
  · exact ⟨(isUserPart_facts (hu c hc)).1, (isUserPart_facts (hu c hc)).2.1⟩
  · rw [List.mem_singleton.mp hc]
    decide

theorem UserDrop.isUser (h : UserDrop l d v) : IsUser d := .inr h.2

theorem UserDrop.mem_at (h : UserDrop l d v) : d.getLast? = some '@' := by
  obtain ⟨-, u, rfl, -⟩ := h
  exact List.getLast?_concat

theorem IsUser.eq_nil (h : IsUser user) (hall : ∀ c ∈ user, isUserPart c = true) : user = [] := by
  rcases h with rfl | ⟨u, rfl, -⟩
  · rfl
  · exact absurd rfl (isUserPart_facts (hall '@' (by simp))).2.2

theorem IsUser.eq_nil_of_not_mem (h : IsUser user) (hno : '@' ∉ user) : user = [] := by
  rcases h with rfl | ⟨u, rfl, -⟩
  · rfl
  · exact absurd (by simp) hno

theorem IsUser.parts (h : IsUser user) (hc : c ∈ user) : endsUrl c = false ∧ c ≠ '/' := by
  rcases h with rfl | huser
  · cases hc
  · exact UserDrop.parts (l := schemeEnd) (v := []) ⟨⟨[], rfl⟩, huser⟩ hc

section Users

variable (hD : ∀ l d v, D l d v → UserDrop l d v)
include hD

theorem users_nil (h : Rewrites K D [] tail after l s r) (hr : r = []) : IsUser s := by
  cases h with
  | nil => exact .inl rfl
  | keep _ _ => cases hr
  | @drop _ d s r hdropped h =>
      have hdrop := hD _ _ _ hdropped
      cases h with
      | nil => simpa using hdrop.isUser
      | keep _ _ => cases hr
      | drop hdropped' _ =>
          have hlast := (hD _ _ _ hdropped').last
          rw [List.getLast?_append_of_ne_nil _ (by intro h; simpa [h] using hdrop.mem_at),
            hdrop.mem_at] at hlast
          cases hlast

theorem users_nil_of_not (h : Rewrites K D [] tail after l s r) (hr : r = [])
    (hl : ¬∃ y, l = y ++ schemeEnd) : s = [] := by
  cases h with
  | nil => rfl
  | keep _ _ => cases hr
  | drop hdropped _ => exact absurd (hD _ _ _ hdropped).1 hl

theorem user_cons (h : Rewrites K D [] tail after l s (c :: b)) :
    ∃ user s₂, s = user ++ c :: s₂ ∧ IsUser user ∧
      Rewrites K D [] tail after (l ++ user ++ [c]) s₂ b := by
  obtain ⟨user, s₂, rfl, h₁, -, h₂⟩ := Rewrites.split_cons (a := []) (by simp) h
  exact ⟨user, s₂, rfl, users_nil hD h₁ rfl, h₂⟩

theorem any_of_users (h : Rewrites K D [] tail after l s r) {p : Option Char}
    (hp : p.any w.isWord = (lastOr none l).any w.isWord) :
    (lastOr none (l ++ s)).any w.isWord = (lastOr p r).any w.isWord := by
  induction h generalizing p with
  | nil l => simpa using hp.symm
  | keep _ _ ih =>
      rw [lastOr_cons]
      simpa using ih (by simp)
  | @drop l d s r hdropped _ ih =>
      have hdrop := hD _ _ _ hdropped
      have hslash : w.isWord '/' = false := w.ascii '/' (by decide)
      have hat : w.isWord '@' = false := w.ascii '@' (by decide)
      rw [List.nil_append, ← List.append_assoc]
      refine ih ?_
      rw [hp, lastOr_append]
      simp [lastOr, hdrop.last, hdrop.mem_at, hslash, hat]

/-- A part without slashes, but for its end, stands in the text. -/
theorem block_of_users (h : Rewrites K D [] [] [] [] s (a ++ (c :: m ++ b))) (hc : c ≠ '/')
    (hm : '/' ∉ m.dropLast) :
    ∃ s₁ s₂, s = s₁ ++ (c :: m ++ s₂) ∧
      Rewrites K D [] (c :: m ++ s₂ ++ []) (c :: m ++ b ++ []) [] s₁ a ∧
      (w.boundary (lastOr none a) (some c) = true → w.boundary (lastOr none s₁) (some c) = true) ∧
      Rewrites K D [] [] [] (s₁ ++ (c :: m)) s₂ b := by
  obtain ⟨s₁, s₂, rfl, h₁, h₂⟩ := h.block_of_last (fun l d v hd => (hD l d v hd).last) hc hm
  have hany := any_of_users (w := w) hD h₁ (p := none) rfl
  rw [List.nil_append] at hany
  exact ⟨s₁, s₂, rfl, h₁, fun hboundary => by rwa [boundary_congr hany rfl], by simpa using h₂⟩

theorem scheme_of_users (hscheme : IsScheme scheme)
    (h : Rewrites K D [] tail after l s (a ++ (scheme ++ (schemeEnd ++ b)))) :
    ∃ s₁ s₂, s = s₁ ++ (scheme ++ (schemeEnd ++ s₂)) ∧
      Rewrites K D [] (scheme ++ (schemeEnd ++ s₂) ++ tail) (scheme ++ (schemeEnd ++ b) ++ after) l
        s₁ a ∧
      Rewrites K D [] tail after (l ++ s₁ ++ (scheme ++ schemeEnd)) s₂ b := by
  have hparts {c : Char} (hc : c ∈ scheme) :=
    isSchemePart_facts (isSchemePart_of_mem_scheme hscheme hc)
  obtain ⟨c, rest, rfl, -⟩ := hscheme
  have hblock : c :: rest ++ (schemeEnd ++ b) = c :: (rest ++ [':', '/']) ++ '/' :: b := by
    simp [schemeEnd]
  rw [hblock] at h
  obtain ⟨s₁, s₂, rfl, h₁, h₂⟩ := h.block_of_last (fun l d v hd => (hD l d v hd).last)
    (hparts (c := c) (by simp)).2.2.2.1 (by
      rw [List.dropLast_append_of_ne_nil (by simp)]
      intro hmem
      rcases List.mem_append.mp hmem with hmem | hmem
      · exact (hparts (c := '/') (by simp [hmem])).2.2.2.1 rfl
      · exact absurd hmem (by decide))
  obtain ⟨t, s₃, rfl, h₃, -, h₄⟩ := h₂.split_cons (a := []) (by simp)
  obtain rfl : t = [] := by
    refine users_nil_of_not hD h₃ rfl ?_
    rintro ⟨y, hy⟩
    have hend : l ++ s₁ ++ (c :: rest) ++ [':', '/'] = y ++ [':'] ++ ['/', '/'] := by
      simpa [schemeEnd] using hy
    have hpair := (List.append_inj' hend rfl).2
    exact absurd hpair (by decide)
  exact ⟨s₁, s₃, by simp [schemeEnd], by simpa [schemeEnd] using h₁, by
    simpa [schemeEnd] using h₄⟩

theorem urlAt_of_users (h : Rewrites K D [] [] [] [] s r) (hr : UrlAt w seen r b) :
    ∃ l s₂, UrlAt w seen s s₂ ∧ Rewrites K D [] [] [] l s₂ b := by
  obtain ⟨a, scheme, rfl, hscheme, hseen⟩ := hr
  obtain ⟨s₁, s₂, rfl, h₁, h₂⟩ := scheme_of_users hD hscheme h
  refine ⟨_, s₂, ⟨s₁, scheme, rfl, hscheme, fun hs => ?_⟩, h₂⟩
  have hany := any_of_users (w := w) hD h₁ (p := none) rfl
  rw [List.nil_append] at hany
  rw [boundary_congr hany rfl]
  exact hseen hs

/-- Where no slash follows, the user information is all that was taken away. -/
theorem host_of_users (h : Rewrites K D [] tail after l s (p ++ c :: b)) (hp : '/' ∉ p) :
    ∃ user s₂, s = user ++ (p ++ c :: s₂) ∧ IsUser user ∧
      ∃ l', Rewrites K D [] tail after l' s₂ b := by
  cases p with
  | nil =>
      obtain ⟨user, s₂, rfl, huser, h₂⟩ := user_cons hD h
      exact ⟨user, s₂, rfl, huser, _, h₂⟩
  | cons e p =>
      obtain ⟨user, s₂, rfl, huser, h₂⟩ := user_cons hD h
      have h₂' : Rewrites K D [] tail after (l ++ user ++ [e]) s₂ (p ++ [c] ++ b) := by
        simpa using h₂
      obtain ⟨s₃, rfl, h₃⟩ := h₂'.literal_of_last (fun l d v hd => (hD l d v hd).last)
        (by simpa using (List.ne_of_not_mem_cons hp).symm)
        (by simpa using List.not_mem_of_not_mem_cons hp)
      exact ⟨user, s₃, by simp, huser, _, h₃⟩

end Users

/-! ## What is left -/

/-- Every `@` that is left ends the user information of a URL that the pattern sees. -/
def UsersSeen (w : WordClass) (s : Text) : Prop :=
  ∀ p q, UrlAt w false s (p ++ '@' :: q) → (∀ c ∈ p, isHostEnd c = false) →
    UrlAt w true s (p ++ '@' :: q) ∧ p ≠ [] ∧ ∀ c ∈ p, isUserPart c = true

theorem credentialLeft_iff : CredentialLeft s ↔ Reaches w false isHostEnd (· == '@') s := by
  constructor
  · rintro ⟨a, scheme, p, q, rfl, hscheme, hp⟩
    exact reaches_of_free ⟨a, scheme, rfl, hscheme, by simp⟩ hp rfl
  · rintro ⟨p, c, q, ⟨a, scheme, rfl, hscheme, -⟩, hp, hc⟩
    obtain rfl := beq_iff_eq.mp hc
    exact ⟨a, scheme, p, q, rfl, hscheme, fun b hb => (hp b hb).1⟩

theorem slash_not_mem (h : ∀ b ∈ p, isHostEnd b = false) : '/' ∉ p := by
  intro hmem
  exact absurd (h '/' hmem) (by decide)

/-- At a scheme that is seen the pass takes the user information, and goes on behind it. -/
theorem sub_of_user (hscheme : IsScheme scheme)
    (hboundary : w.boundary (lastOr none a) scheme.head? = true) (hne : p ≠ [])
    (hp : ∀ c ∈ p, isUserPart c = true)
    (h : urlUserinfoRe.Keeps w s a (scheme ++ (schemeEnd ++ (p ++ '@' :: q)))
      (scheme ++ (schemeEnd ++ b))) :
    b = urlUserinfoRe.subFrom w (some '@') 0 q := by
  have hin {c : Char} (hc : c ∈ scheme) := isSchemePart_of_mem_scheme hscheme hc
  obtain ⟨-, hnone | ⟨y, k₁, k₂, d, v, hk₂, rfl, hs, hout, hfind⟩⟩ := h
  · refine absurd ⟨scheme, p, '@', rfl, hscheme, hne, hp, rfl⟩
      (not_urlUser_of_find hnone (m := scheme ++ (schemeEnd ++ (p ++ ['@']))) (q := q) (by simp) ?_)
    rwa [head?_scheme hscheme]
  · rw [hs, ← List.append_assoc] at hfind
    obtain ⟨⟨scheme', hscheme', -, heq⟩, u, rfl, -, hu⟩ := find_urlUserinfoRe hfind
    -- `k₂` begins in the scheme that was found, so it is the rest of it
    obtain ⟨n, hn, halpha⟩ : ∃ n, k₂.head? = some n ∧ n.isAlpha = true := by
      obtain ⟨n, rest, rfl, halpha, -⟩ := hscheme
      have := congrArg List.head? hs
      rw [List.head?_append_of_ne_nil _ hk₂] at this
      exact ⟨n, this.symm, halpha⟩
    obtain ⟨rest, rfl, hrest⟩ : ∃ rest, k₂ = rest ++ schemeEnd ∧
        ∀ c ∈ rest, isSchemePart c = true := by
      rcases List.append_eq_append_iff.mp heq with ⟨rest, hscheme'', rfl⟩ | ⟨m, -, hm⟩
      · refine ⟨rest, rfl, fun c hc => isSchemePart_of_mem_scheme hscheme' ?_⟩
        rw [hscheme'']
        exact List.mem_append_right _ hc
      · have hmem : n ∈ schemeEnd := hm ▸ List.mem_append_right _ (List.mem_of_head? hn)
        have hall : ∀ c ∈ schemeEnd, c.isAlpha = false := forall_mem_of_all (by decide)
        rw [hall n hmem] at halpha
        cases halpha
    have hcolon (t : Text) : ∀ c ∈ (schemeEnd ++ t).head?, isSchemePart c = false := by
      intro c hc
      cases hc
      decide
    have hat (t : Text) : ∀ c ∈ ('@' :: t).head?, isUserPart c = false := by
      intro c hc
      cases hc
      decide
    simp only [List.append_assoc, List.singleton_append] at hs hout
    obtain ⟨rfl, hend⟩ := append_inj_of_stop hs (fun c => hin) hrest (hcolon _) (hcolon _)
    have huser := List.append_cancel_left hend
    obtain ⟨rfl, hbehind⟩ := append_inj_of_stop huser hp hu (hat _) (hat _)
    obtain rfl := (List.cons.inj hbehind).2
    have hb := List.append_cancel_left (List.append_cancel_left hout)
    simpa [urlUserinfoRe, lastOr] using hb

theorem not_credentialLeft_sub (h : UsersSeen w s) : ¬CredentialLeft (urlUserinfoRe.sub w s) := by
  intro hleft
  obtain ⟨p, c, q, ⟨a, scheme, hr, hscheme, -⟩, hp, hc⟩ := (credentialLeft_iff (w := w)).mp hleft
  obtain rfl := beq_iff_eq.mp hc
  have hhost : ∀ b ∈ p, isHostEnd b = false := fun b hb => (hp b hb).1
  have hdrop : ∀ l d v, UserDrop l d v → UserDrop l d v := fun _ _ _ h => h
  have hall := rewrites_urlUserinfoRe (w := w) s
  rw [hr, ← List.append_assoc scheme, ← List.append_assoc a] at hall
  obtain ⟨l, s₂, rfl, hL, hR⟩ : ∃ l s₂, s = l ++ s₂ ∧
      Rewrites (urlUserinfoRe.Keeps w s) UserDrop [] (s₂ ++ []) (p ++ '@' :: q ++ []) [] l
        (a ++ (scheme ++ schemeEnd)) ∧
      Rewrites (urlUserinfoRe.Keeps w s) UserDrop [] [] [] ([] ++ l) s₂ (p ++ '@' :: q) := by
    rcases hall.split with hsplit | ⟨m₁, m₂, -, hm₁, -, hnil, -⟩
    · exact hsplit
    · exact absurd (List.append_eq_nil_iff.mp hnil.symm).1 hm₁
  have hL' := hL
  rw [← List.append_nil schemeEnd] at hL'
  obtain ⟨s₁, user, rfl, -, h₂⟩ := scheme_of_users hdrop hscheme hL'
  obtain ⟨user', s₃, rfl, huser', -⟩ := host_of_users hdrop hR (slash_not_mem hhost)
  have huser := users_nil hdrop h₂ rfl
  obtain ⟨⟨a₀, scheme₀, hsame, hscheme₀, hseen⟩, hne, hparts⟩ := h (user ++ user' ++ p) s₃
    ⟨s₁, scheme, by simp, hscheme, by simp⟩ fun b hb => by
      simp only [List.mem_append] at hb
      rcases hb with (hb | hb) | hb
      · exact not_isHostEnd (huser.parts hb).1 (huser.parts hb).2
      · exact not_isHostEnd (huser'.parts hb).1 (huser'.parts hb).2
      · exact hhost b hb
  obtain rfl := huser.eq_nil fun b hb => hparts b (by simp [hb])
  obtain rfl := huser'.eq_nil fun b hb => hparts b (by simp [hb])
  simp only [List.nil_append, List.append_nil] at hsame hparts hne hL
  have hwhole : s₁ ++ (scheme ++ schemeEnd) ++ (p ++ '@' :: s₃) =
      a₀ ++ (scheme₀ ++ schemeEnd) ++ (p ++ '@' :: s₃) := by
    simpa using hsame
  have hl := List.append_cancel_right hwhole
  rw [hl] at hL
  have hno : '@' ∉ scheme₀ ++ schemeEnd := fun hmem => (url_facts hscheme₀ hmem).2.2.1 rfl
  rcases hL.split_left with ⟨r₁, r₂, hr₂, -, h₃⟩ | ⟨a₁, d₁, d₂, b₂, -, hb, -, hd₂, hdropped⟩
  swap
  · have hlast := hdropped.mem_at
    rw [List.getLast?_append_of_ne_nil _ hd₂] at hlast
    exact absurd (by simp [hb, List.mem_of_getLast? hlast]) hno
  have hliteral := h₃
  rw [← List.append_nil (scheme₀ ++ schemeEnd)] at hliteral
  obtain ⟨r₃, rfl, hrest⟩ := hliteral.literal_left fun m₁ m₂ d s' hm _ heq hdropped => by
    rw [List.append_nil] at heq
    exact hno (by simp [hm, heq, List.mem_of_getLast? hdropped.mem_at])
  obtain rfl : r₃ = [] := List.eq_nil_iff_forall_not_mem.mpr fun b hb =>
    absurd (hrest.mem_of_mem (by simp) hb) (by simp)
  have hstay : urlUserinfoRe.Keeps w (a₀ ++ (scheme₀ ++ schemeEnd) ++ (p ++ '@' :: s₃)) a₀
      (scheme₀ ++ (schemeEnd ++ (p ++ '@' :: s₃))) (scheme₀ ++ (schemeEnd ++ (p ++ '@' :: q))) := by
    obtain ⟨e, rest, rfl, -⟩ := hscheme₀
    obtain ⟨t, s₄, ht, h₄, hkept, -⟩ := h₃.split_cons (a := []) (by simp)
    obtain rfl : t = [] := (users_nil hdrop h₄ rfl).eq_nil_of_not_mem fun hmem =>
      hno (by rw [ht]; exact List.mem_append_left _ hmem)
    obtain ⟨-, rfl⟩ := List.cons.inj ht
    simpa [hl] using hkept
  have hq := sub_of_user hscheme₀ (hseen rfl) hne hparts hstay
  have hpass : Rewrites (urlUserinfoRe.Keeps w ('@' :: s₃)) (urlUserinfoRe.Drops w ('@' :: s₃)) []
      [] [] ['@'] s₃ (urlUserinfoRe.subFrom w (lastOr none ['@']) 0 s₃) :=
    Rule.rewrites_subFrom rfl
  have hagain := hpass.imp (fun _ _ _ h => h) fun _ _ _ => userDrop_of_drops
  have hlast : lastOr none ['@'] = some '@' := rfl
  rw [hlast, ← hq, show p ++ '@' :: q = p ++ ['@'] ++ q by simp] at hagain
  obtain ⟨s₄, rfl, -⟩ := hagain.literal_of_last (fun l d v hd => hd.last) (by decide)
    (by simpa using slash_not_mem hhost)
  have htwice : ∀ b ∈ p ++ '@' :: p, isHostEnd b = false := by
    intro b hb
    simp only [List.mem_append, List.mem_cons] at hb
    rcases hb with hb | rfl | hb
    · exact hhost b hb
    · decide
    · exact hhost b hb
  obtain ⟨-, -, hboth⟩ := h (p ++ '@' :: p) s₄ ⟨s₁, scheme, by simp, hscheme, by simp⟩ htwice
  exact absurd (hboth '@' (by simp)) (by decide)

theorem noMatch_urlUserinfoRe (h : ¬CredentialLeft s) : urlUserinfoRe.NoMatch w s := by
  intro a v hs
  cases hfind : urlUserinfoRe.find w (lastOr none a) v with
  | none => rfl
  | some m =>
      obtain ⟨k, d⟩ := m
      obtain ⟨q, rfl, -⟩ := Rule.find_eq_some hfind
      obtain ⟨⟨scheme, hscheme, -, rfl⟩, p, rfl, -, hp⟩ := find_urlUserinfoRe hfind
      refine absurd ⟨a, scheme, p, q, by simp [hs], hscheme, fun c hc => ?_⟩ h
      obtain ⟨hurl, hslash, -⟩ := isUserPart_facts (hp c hc)
      exact not_isHostEnd hurl hslash

/-! ## What is hidden and what is late -/

/-- The end of a URL is hidden, whose user information is set apart. -/
def HidesUser (w : WordClass) (stop mark : Char → Bool) (s : Text) : Prop :=
  ∃ user x c z e q, UrlAt w false s (user ++ (x ++ c :: (z ++ e :: q))) ∧ IsUser user ∧
    PairReaches w stop mark x c ∧ '@' ∉ x.takeWhile (· ≠ '/') ∧ ValuesRun (c :: z) ∧ mark e = true

/-- Nothing of a head before its blanks ends a URL. -/
theorem name_facts {name : Text} {sign : Char} (hname : IsSecretName w name)
    (hsign : isSign sign = true) (hc : c ∈ name ++ [sign]) :
    endsUrl c = false ∧ isQuote c = false ∧ c ≠ '/' := by
  rcases List.mem_append.mp hc with hc | hc
  · exact not_endsUrl_of_isNamePart ((secretName_facts hname).2 c hc)
  · obtain rfl := List.mem_singleton.mp hc
    simp only [isSign, Bool.or_eq_true, beq_iff_eq] at hsign
    rcases hsign with rfl | rfl <;> decide

theorem mem_pair {name : Text} {sign e : Char} (h : e ∈ x ++ (name ++ sign :: d)) :
    e ∈ x ++ d ∨ e ∈ name ++ [sign] := by
  simp only [List.mem_append, List.mem_cons] at h
  rcases h with h | h | rfl | h
  · exact .inl (List.mem_append_left _ h)
  · exact .inr (List.mem_append_left _ h)
  · exact .inr (by simp)
  · exact .inl (List.mem_append_right _ h)

theorem PairReaches.plain {e : Char} (hends : UrlEnds stop mark) (h : PairReaches w stop mark x c)
    (he : e ∈ x) : isSpace e = false ∧ isQuote e = false ∧ (stop '/' = true → e ≠ '/') := by
  obtain ⟨x, name, sign, d, rfl, hgood, -, hname, hsign, -⟩ := h
  rcases mem_pair he with hmem | hmem
  swap
  · obtain ⟨hurl, hquote, hslash⟩ := name_facts hname hsign hmem
    exact ⟨not_isSpace_of_not_endsUrl hurl, hquote, fun _ => hslash⟩
  · have hstop := (hgood e hmem).1
    refine ⟨?_, ?_, ?_⟩
    · cases hspace : isSpace e with
      | false => rfl
      | true =>
          rw [hends.space hspace] at hstop
          cases hstop
    · cases hquote : isQuote e with
      | false => rfl
      | true =>
          rw [hends.quote hquote] at hstop
          cases hstop
    · rintro hslash rfl
      rw [hslash] at hstop
      cases hstop

theorem PairReaches.at_not_mem (hends : UrlEnds stop mark) (hx : PairReaches w stop mark x c)
    (hurl : UrlAt w seen s (x ++ b)) (hno : ¬CredentialLeft s) : '@' ∉ x.takeWhile (· ≠ '/') := by
  intro hmem
  obtain ⟨p, q, hpq⟩ := List.append_of_mem hmem
  obtain ⟨t, ht⟩ : ∃ t, x = p ++ '@' :: q ++ t :=
    ⟨x.dropWhile (· ≠ '/'), by rw [← hpq, List.takeWhile_append_dropWhile]⟩
  refine hno ((credentialLeft_iff (w := w)).mpr (reaches_of_free (p := p) (c := '@')
    (q := q ++ (t ++ b)) ?_ (fun e he => ?_) rfl))
  · rw [ht] at hurl
    simpa using hurl.forget
  · have hin : e ∈ x.takeWhile (· ≠ '/') := hpq ▸ List.mem_append_left _ he
    have hslash : e ≠ '/' := by simpa using List.mem_takeWhile_imp hin
    obtain ⟨hspace, hquote, -⟩ := hx.plain hends ((List.takeWhile_prefix _).subset hin)
    simp [isHostEnd, hspace, hquote, hslash]

section Hidden

variable (hD : ∀ l d v, D l d v → UserDrop l d v)
include hD

theorem eq_of_users (h : Rewrites K D [] tail after l s r) (hl : l.getLast? ≠ some '/')
    (hr : '/' ∉ r) : s = r := by
  induction h with
  | nil l => rfl
  | keep _ _ ih =>
      simp only [List.mem_cons, not_or] at hr
      rw [ih (by simpa using Ne.symm hr.1) hr.2]
  | drop hdropped _ => exact absurd (hD _ _ _ hdropped).last hl

theorem at_of_users (h : Rewrites K D [] tail after l s r) (hl : l.getLast? ≠ some '/')
    (hr : '@' ∉ r.takeWhile (· ≠ '/')) : '@' ∉ s.takeWhile (· ≠ '/') := by
  induction h with
  | nil l => exact hr
  | @keep l s r c _ _ ih =>
      by_cases hc : c = '/'
      · simp [hc]
      · rw [List.takeWhile_cons_of_pos (by simpa using hc), List.mem_cons, not_or] at hr ⊢
        exact ⟨hr.1, ih (by simpa using hc) hr.2⟩
  | drop hdropped _ => exact absurd (hD _ _ _ hdropped).last hl

theorem hidden_of_users (hends : UrlEnds stop mark) (h : Rewrites K D [] [] [] [] s r)
    (hr : HidesNow w seen stop mark r) (hno : ¬CredentialLeft r) :
    ∃ user e x x' c z m q l tail after, UrlAt w seen s (user ++ (e :: x' ++ c :: (z ++ m :: q))) ∧
      IsUser user ∧ PairReaches w stop mark (e :: x) c ∧
      Rewrites K D [] tail after (l ++ [e]) x' x ∧ '@' ∉ (e :: x').takeWhile (· ≠ '/') ∧
      ValuesRun (c :: z) ∧ mark m = true := by
  obtain ⟨x, c, z, m, q, hurl, hx, hz, hm⟩ := hr
  have hat := hx.at_not_mem hends hurl hno
  obtain ⟨e, x, rfl⟩ : ∃ e x', x = e :: x' := by
    obtain ⟨x₁, name, sign, d, rfl, -⟩ := hx
    exact List.exists_cons_of_ne_nil (by simp)
  obtain ⟨l, s₂, hurl, h₂⟩ := urlAt_of_users hD h hurl
  obtain ⟨user, s₃, rfl, huser, h₃⟩ := user_cons hD h₂
  obtain ⟨x', s₄, rfl, h₄, -, h₅⟩ := Rewrites.split_cons (a := x) (by simp) h₃
  obtain ⟨z', q', rfl, h₆, -, -⟩ := h₅.split_cons (by simp)
  refine ⟨user, e, x, x', c, z', m, q', l ++ user, _, _, by simpa using hurl, huser, hx, h₄, ?_,
    ?_, hm⟩
  · by_cases he : e = '/'
    · simp [he]
    · rw [List.takeWhile_cons_of_pos (by simpa using he), List.mem_cons, not_or] at hat ⊢
      exact ⟨hat.1, at_of_users hD h₄ (by simpa using he) hat.2⟩
  · refine valuesRun_of_rewrites (by simp) (by simp) (fun l d v hd b hb => ?_) h₆ hz
    exact not_isSpace_of_not_endsUrl ((hD l d v hd).parts hb).1

theorem hidesUser_host (h : Rewrites K D [] [] [] [] s r)
    (hr : HidesNow w seen isHostEnd (· == '@') r) (hno : ¬CredentialLeft r) :
    HidesUser w isHostEnd (· == '@') s := by
  obtain ⟨user, e, x, x', c, z, m, q, l, tail, after, hurl, huser, hx, h₂, hat, hz, hm⟩ :=
    hidden_of_users hD urlEnds_host h hr hno
  have hslash {b : Char} (hb : b ∈ e :: x) : b ≠ '/' :=
    (hx.plain urlEnds_host hb).2.2 (by decide)
  obtain rfl := eq_of_users hD h₂ (by simpa using hslash (b := e) (by simp))
    fun hmem => hslash (List.mem_cons_of_mem e hmem) rfl
  exact ⟨user, e :: x', c, z, m, q, hurl.forget, huser, hx, hat, hz, hm⟩

theorem pair_of_users {e : Char} (h : Rewrites K D [] tail after (l ++ [e]) s x)
    (hx : PairReaches w stop mark (e :: x) c)
    (hs : ∀ b ∈ e :: s, stop b = false ∧ mark b = false) : PairReaches w stop mark (e :: s) c := by
  obtain ⟨x₁, name, sign, d, heq, -, hboundary, hname, hsign, hstop, hspace⟩ := hx
  obtain ⟨⟨n, rest, rfl, -⟩, hparts⟩ := secretName_facts hname
  have hslash {b : Char} (hb : b ∈ n :: rest ++ [sign]) : b ≠ '/' := (name_facts hname hsign hb).2.2
  have hrest : '/' ∉ (rest ++ [sign]).dropLast := by
    rw [List.dropLast_concat]
    exact fun hmem => hslash (by simp [hmem]) rfl
  cases x₁ with
  | nil =>
      obtain ⟨rfl, rfl⟩ := List.cons.inj heq
      have h' : Rewrites K D [] tail after (l ++ [e]) s (rest ++ [sign] ++ d) := by simpa using h
      obtain ⟨d', rfl, -⟩ := h'.literal_of_last (fun l d v hd => (hD l d v hd).last)
        (by simpa using hslash (b := e) (by simp)) hrest
      exact ⟨[], e :: rest, sign, d', by simp, fun b hb => hs b (by
        simp only [List.nil_append] at hb
        simp [hb]), hboundary, hname, hsign, hstop, hspace⟩
  | cons e' x₁ =>
      obtain ⟨rfl, rfl⟩ := List.cons.inj heq
      have h' : Rewrites K D [] tail after (l ++ [e]) s (x₁ ++ (n :: (rest ++ [sign]) ++ d)) := by
        simpa using h
      obtain ⟨t, d', rfl, h₁, -⟩ := h'.block_of_last (fun l d v hd => (hD l d v hd).last)
        (hslash (by simp)) hrest
      refine ⟨e :: t, n :: rest, sign, d', by simp, fun b hb => hs b ?_, ?_, hname, hsign, hstop,
        hspace⟩
      · rcases List.mem_append.mp hb with hb | hb
        · rcases List.mem_cons.mp hb with rfl | hb
          · simp
          · simp [hb]
        · simp [hb]
      · have hany := any_of_users (w := w) hD h₁ (p := some e) (by simp)
        rw [lastOr_append, lastOr_append] at hany
        rw [lastOr_cons] at hboundary ⊢
        rw [← hboundary]
        exact boundary_congr (by simpa using hany) rfl

theorem hidesUser_query (h : Rewrites K D [] [] [] [] s r)
    (hr : HidesNow w true endsUrl startsQuery r) (hno : ¬CredentialLeft r)
    (hs : ¬Reaches w true endsUrl startsQuery s) : HidesUser w endsUrl startsQuery s := by
  obtain ⟨user, e, x, x', c, z, m, q, l, tail, after, hurl, huser, hx, h₂, hat, hz, hm⟩ :=
    hidden_of_users hD urlEnds_query h hr hno
  have hplain : ∀ b ∈ e :: x, endsUrl b = false := by
    intro b hb
    obtain ⟨x₁, name, sign, d, heq, hgood, -, hname, hsign, -⟩ := hx
    rw [heq] at hb
    rcases mem_pair hb with hmem | hmem
    · exact (hgood b hmem).1
    · exact (name_facts hname hsign hmem).1
  have hfree : ∀ b ∈ user ++ (e :: x'), endsUrl b = false := by
    refine List.forall_mem_append.mpr ⟨fun b hb => (huser.parts hb).1, ?_⟩
    obtain ⟨he, hx⟩ := List.forall_mem_cons.mp hplain
    exact List.forall_mem_cons.mpr ⟨he, h₂.forall_mem
      (fun l d v hd b hb => ((hD l d v hd).parts hb).1) hx⟩
  have hquery : ∀ b ∈ user ++ (e :: x'), startsQuery b = false := by
    intro b hb
    obtain ⟨p, p', hp⟩ := List.append_of_mem hb
    refine Bool.eq_false_iff.mpr fun hb' => hs (reaches_of_free (p := p) (c := b)
      (q := p' ++ c :: (z ++ m :: q)) ?_ (fun a ha => hfree a (by simp [hp, ha])) hb')
    have hsame : p ++ b :: (p' ++ c :: (z ++ m :: q)) =
        user ++ (e :: x') ++ c :: (z ++ m :: q) := by
      rw [hp]
      simp
    rw [hsame]
    simpa using hurl
  refine ⟨user, e :: x', c, z, m, q, hurl.forget, huser, pair_of_users hD h₂ hx fun b hb => ?_, hat,
    hz, hm⟩
  exact ⟨hfree b (List.mem_append_right _ hb), hquery b (List.mem_append_right _ hb)⟩

theorem reaches_of_users (h : Rewrites K D [] [] [] [] s r)
    (hr : Reaches w seen endsUrl startsQuery r) : Reaches w seen endsUrl startsQuery s := by
  obtain ⟨p, c, q, hurl, hp, hc⟩ := hr
  obtain ⟨l, s₂, hurl, h₂⟩ := urlAt_of_users hD h hurl
  obtain ⟨p', q', rfl, h₃, -, -⟩ := h₂.split_cons (by simp)
  exact reaches_of_free hurl (h₃.forall_mem (fun l d v hd b hb => ((hD l d v hd).parts hb).1)
    fun b hb => (hp b hb).1) hc

theorem quoteRuns_of_users (h : Rewrites K D [] [] [] [] s r) (hr : QuoteRuns w r) :
    QuoteRuns w s := by
  obtain ⟨a, head, q, u, c, b, rfl, hboundary, hhead, hq, hu, hc⟩ := hr
  have hslash : '/' ∉ head := hhead.not_mem (by decide)
  have hqslash : q ≠ '/' := by
    rintro rfl
    cases hq
  obtain ⟨n, rest, rfl, -⟩ := hhead.cons
  rw [show n :: rest ++ q :: (u ++ q :: c :: b) = n :: (rest ++ [q]) ++ (u ++ q :: c :: b) by simp]
    at h
  obtain ⟨s₁, s₂, rfl, -, hbefore, h₂⟩ := block_of_users (w := w) hD h
    (List.ne_of_not_mem_cons hslash).symm (by
      rw [List.dropLast_concat]
      exact List.not_mem_of_not_mem_cons hslash)
  obtain ⟨u', s₃, rfl, h₃, -, h₄⟩ := h₂.split_cons (by simp)
  obtain ⟨s₄, rfl, -⟩ := Rewrites.literal_of_last (m := [c]) h₄
    (fun l d v hd => (hD l d v hd).last) (by
      rw [List.getLast?_concat]
      simpa using hqslash) (by simp)
  refine ⟨s₁, n :: rest, q, u', c, s₄, by simp, hbefore hboundary, hhead, hq, fun hmem => ?_, hc⟩
  have hall := h₃.forall_mem (p := (· ≠ q)) (fun l d v hd b hb heq => ?_)
    fun b hb heq => hu (heq ▸ hb)
  · exact hall q hmem rfl
  · have hpart := ((hD l d v hd).parts hb).1
    rw [heq, endsUrl_of_isQuote hq] at hpart
    cases hpart

theorem leastLength_le_of_users (h : Rewrites K D [] tail after [] s r) :
    leastLength s ≤ leastLength r := by
  refine leastLength_le (by simp) (by simp) (fun l d v hd => ⟨?_, fun hmem => ?_⟩)
    (fun {l u d v x} hl hd => ?_) h
  · intro hnil
    simpa [hnil] using (hD l d v hd).mem_at
  · exact absurd ((hD l d v hd).parts hmem).1 (by decide)
  · obtain ⟨y, hy⟩ := (hD _ _ _ hd).1
    exact not_isSteady_of_sign hl hy (by decide) (by decide) _

theorem cutIn_of_users (h : Rewrites K D [] [] [] [] s r)
    (hr : CutIn w (weight 9 2) leastLength r) : CutIn w (weight 9 2) leastLength s := by
  obtain ⟨a, m, q, rfl, hboundary, hm, hstays, hlate⟩ := hr
  obtain ⟨⟨-, -, hslash⟩, -, c, name, rest, rfl, -⟩ := hm.shape
  rw [List.cons_append] at hslash h hboundary hm hlate
  obtain ⟨s₁, s₂, rfl, h₁, hbefore, -⟩ := block_of_users (w := w) hD h
    (List.ne_of_not_mem_cons hslash).symm fun hmem =>
      List.not_mem_of_not_mem_cons hslash (List.dropLast_subset _ hmem)
  have hup := weight_le_of_removal (m := 9) (n := 2) h₁
  have hlow := leastLength_le_of_users hD h₁
  refine ⟨s₁, _, s₂, rfl, hbefore hboundary, hm, by omega, ?_⟩
  rw [weight_append] at hlate ⊢
  omega

end Hidden

end ErrorUsers

end StorageService.Results
