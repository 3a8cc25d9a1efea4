import StorageService.Actions.ErrorMessages
import StorageService.Foundation.Rewriting

/-!
# What the patterns for stored error messages take

For each of the six rules: what it keeps and what it replaces, and what stands
on the two sides of that.
-/

namespace StorageService.Actions

open StorageService.Foundation
open StorageService.Foundation.Regex
open StorageService.Storage

/-! ## What the patterns match -/

def IsScheme (scheme : Text) : Prop :=
  ∃ c rest, scheme = c :: rest ∧ c.isAlpha = true ∧ ∀ d ∈ rest, isSchemePart d = true

def UrlBlock (P : Text → Char → Prop) (m : Text) : Prop :=
  ∃ scheme p c, m = scheme ++ (schemeEnd ++ (p ++ [c])) ∧ IsScheme scheme ∧ P p c

def UrlQuery : Text → Prop :=
  UrlBlock fun p c => (∀ d ∈ p, endsUrl d = false ∧ startsQuery d = false) ∧ startsQuery c = true

variable {w : WordClass} {prev : Option Char} {s k d v : Text}

theorem mem_splits_url {tail : List Regex} {r : Text × Text} :
    r ∈ (Regex.seqs (.boundary :: .char Char.isAlpha :: .many isSchemePart ::
      .literal schemeEnd :: tail)).splits w prev s ↔
    ∃ scheme v, IsScheme scheme ∧ s = scheme ++ (schemeEnd ++ v) ∧
      w.boundary prev s.head? = true ∧ ∃ r' ∈ (Regex.seqs tail).splits w (some '/') v,
        r = (scheme ++ (schemeEnd ++ r'.1), r'.2) := by
  simp only [Regex.seqs, mem_splits_seq, mem_splits_boundary, mem_splits_char, mem_splits_many,
    mem_splits_literal]
  constructor
  · rintro ⟨_, ⟨hboundary, rfl⟩, _, ⟨⟨_, _⟩, ⟨c, hc, hletter, rfl⟩, _, ⟨⟨_, _⟩, ⟨hs, hall⟩,
      _, ⟨⟨_, _⟩, ⟨rfl, hend⟩, r', hr', rfl⟩, rfl⟩, rfl⟩, rfl⟩
    simp only at hs hend
    subst hend hs hc
    refine ⟨c :: _, _, ⟨c, _, rfl, hletter, hall⟩, rfl, hboundary, r', ?_, by simp⟩
    simpa [schemeEnd] using hr'
  · rintro ⟨_, v, ⟨c, rest, rfl, hletter, hall⟩, rfl, hboundary, r', hr', rfl⟩
    refine ⟨([], _), ⟨hboundary, rfl⟩, _, ⟨([c], rest ++ (schemeEnd ++ v)), ⟨c, rfl, hletter, rfl⟩,
      _, ⟨(rest, schemeEnd ++ v), ⟨rfl, hall⟩, _, ⟨(schemeEnd, v), ⟨rfl, rfl⟩, r', ?_, rfl⟩,
      rfl⟩, rfl⟩, by simp⟩
    simpa [schemeEnd] using hr'

theorem head?_scheme {scheme : Text} (h : IsScheme scheme) (t : Text) :
    (scheme ++ t).head? = scheme.head? := by
  obtain ⟨c, rest, rfl, -⟩ := h
  rfl

theorem find_urlQueryRe (h : urlQueryRe.find w prev (k ++ (d ++ v)) = some (k, d)) :
    (∃ scheme p, IsScheme scheme ∧ w.boundary prev scheme.head? = true ∧
      k = scheme ++ (schemeEnd ++ p) ∧ ∀ c ∈ p, endsUrl c = false ∧ startsQuery c = false) ∧
    (∃ x d', d = x :: d' ∧ startsQuery x = true ∧ ∀ c ∈ d', endsUrl c = false) ∧
    ∀ c ∈ v.head?, endsUrl c = true := by
  obtain ⟨hkept, hdropped⟩ := Rule.find_append h
  refine ⟨?_, ?_, ?_⟩
  · obtain ⟨scheme, v', hscheme, hs, hboundary, r, hr, heq⟩ := mem_splits_url.mp hkept
    obtain ⟨r₁, h₁, r₂, h₂, rfl⟩ := mem_splits_seq.mp hr
    rw [Regex.seqs, mem_splits_empty] at h₂
    subst h₂
    obtain ⟨-, hall⟩ := mem_splits_many.mp h₁
    have hk := (Prod.mk.inj heq).1
    rw [hs, head?_scheme hscheme] at hboundary
    refine ⟨scheme, r₁.1, hscheme, hboundary, by simpa using hk, fun c hc => ?_⟩
    simpa using hall c hc
  · obtain ⟨r₁, h₁, r₂, h₂, heq⟩ := mem_splits_seq.mp (List.mem_of_head? hdropped)
    obtain ⟨x, -, hx, hr₁⟩ := mem_splits_char.mp h₁
    obtain ⟨-, hall⟩ := mem_splits_many.mp h₂
    have hd := (Prod.mk.inj heq).1
    refine ⟨x, r₂.1, by rw [hd, hr₁, List.singleton_append], hx, fun c hc => ?_⟩
    simpa using hall c hc
  · intro c hc
    have hstop := head?_rest_of_seq (Q := fun v => ∀ c ∈ v.head?, (!endsUrl c) = false)
      (fun _ _ _ => head?_rest_of_many) hdropped c hc
    simpa using hstop

theorem not_urlQuery_of_find (h : urlQueryRe.find w prev s = none) {m q : Text} (hs : s = m ++ q)
    (hboundary : w.boundary prev m.head? = true) : ¬UrlQuery m := by
  rintro ⟨scheme, p, c, rfl, hscheme, hp, hc⟩
  have hhead : (scheme ++ (schemeEnd ++ (p ++ [c]))).head? = s.head? := by
    obtain ⟨d, rest, rfl, -⟩ := hscheme
    rw [hs]
    rfl
  have hp' : (p, c :: q) ∈ (Regex.seqs [.many fun c => !(endsUrl c || startsQuery c)]).splits w
      (some '/') (p ++ c :: q) :=
    mem_splits_seq.mpr ⟨(p, c :: q), mem_splits_many.mpr ⟨rfl, fun d hd => by simp [hp d hd]⟩,
      ([], c :: q), mem_splits_empty.mpr rfl, by simp⟩
  have hkept : (scheme ++ (schemeEnd ++ p), c :: q) ∈ urlQueryRe.kept.splits w prev s :=
    mem_splits_url.mpr ⟨scheme, p ++ c :: q, hscheme, by simp [hs], hhead ▸ hboundary, _, hp', rfl⟩
  have hnone := Rule.find_eq_none h hkept
  have hquery : ([c], q) ∈ urlQueryRe.dropped.splits w
      (lastOr prev (scheme ++ (schemeEnd ++ p))) (c :: q) :=
    mem_splits_seq.mpr ⟨([c], q), mem_splits_char.mpr ⟨c, rfl, hc, rfl⟩, ([], q),
      mem_splits_many.mpr ⟨rfl, by simp⟩, rfl⟩
  rw [hnone] at hquery
  cases hquery

theorem find_urlUserinfoRe (h : urlUserinfoRe.find w prev (k ++ (d ++ v)) = some (k, d)) :
    (∃ scheme, IsScheme scheme ∧ w.boundary prev scheme.head? = true ∧
      k = scheme ++ schemeEnd) ∧
    ∃ u, d = u ++ ['@'] ∧ u ≠ [] ∧ ∀ c ∈ u, isUserPart c = true := by
  obtain ⟨hkept, hdropped⟩ := Rule.find_append h
  constructor
  · obtain ⟨scheme, v', hscheme, hs, hboundary, r, hr, heq⟩ := mem_splits_url.mp hkept
    rw [Regex.seqs, mem_splits_empty] at hr
    subst hr
    have hk := (Prod.mk.inj heq).1
    rw [hs, head?_scheme hscheme] at hboundary
    exact ⟨scheme, hscheme, hboundary, by simpa using hk⟩
  · obtain ⟨r₁, h₁, r₂, h₂, heq⟩ := mem_splits_seq.mp (List.mem_of_head? hdropped)
    obtain ⟨-, hall, hlength⟩ := mem_splits_atLeast.mp h₁
    obtain ⟨c, -, hc, hr₂⟩ := mem_splits_char.mp h₂
    cases heq
    exact ⟨r₁.1, by rw [hr₂, beq_iff_eq.mp hc], List.ne_nil_of_length_pos hlength, hall⟩

theorem not_urlUser_of_find (h : urlUserinfoRe.find w prev s = none) {m q : Text}
    (hs : s = m ++ q) (hboundary : w.boundary prev m.head? = true) :
    ¬UrlBlock (fun p c => p ≠ [] ∧ (∀ d ∈ p, isUserPart d = true) ∧ c = '@') m := by
  rintro ⟨scheme, p, c, rfl, hscheme, hne, hp, rfl⟩
  have hhead : (scheme ++ (schemeEnd ++ (p ++ ['@']))).head? = s.head? := by
    obtain ⟨d, rest, rfl, -⟩ := hscheme
    rw [hs]
    rfl
  have hkept : (scheme ++ schemeEnd, p ++ '@' :: q) ∈ urlUserinfoRe.kept.splits w prev s :=
    mem_splits_url.mpr ⟨scheme, p ++ '@' :: q, hscheme, by simp [hs], hhead ▸ hboundary,
      ([], p ++ '@' :: q), mem_splits_empty.mpr rfl, by simp⟩
  have hnone := Rule.find_eq_none h hkept
  have huser : (p ++ ['@'], q) ∈ urlUserinfoRe.dropped.splits w
      (lastOr prev (scheme ++ schemeEnd)) (p ++ '@' :: q) :=
    mem_splits_seq.mpr ⟨(p, '@' :: q),
      mem_splits_atLeast.mpr ⟨rfl, hp, List.length_pos_iff.mpr hne⟩, (['@'], q),
      mem_splits_char.mpr ⟨'@', rfl, rfl, rfl⟩, rfl⟩
  rw [hnone] at huser
  cases huser

@[elab_as_elim]
theorem forall_ascii {P : Char → Prop} (h : ∀ n < 128, P (Char.ofNat n)) {c : Char}
    (hc : c.toNat < 128) : P c := by
  have := h c.toNat hc
  rwa [Char.ofNat_toNat] at this

theorem toNat_lt_of_isAlphanum {c : Char} (h : c.isAlphanum = true) : c.toNat < 128 := by
  simp only [Char.isAlphanum, Bool.or_eq_true] at h
  rcases h with hletter | hdigit
  · have := toNat_of_isAlpha hletter
    omega
  · simp only [Char.isDigit, Bool.and_eq_true, decide_eq_true_eq, UInt32.le_iff_toNat_le] at hdigit
    have hlast : c.toNat ≤ 57 := hdigit.2
    omega

/-- What the words that the patterns look for begin with. -/
def beginsWord (c : Char) : Bool := (ignoreCase c).isAlphanum

def isNamePart (c : Char) : Bool :=
  beginsWord c || ignoreCase c == '_' || ignoreCase c == '-'

/-- What stands between names, apart from blanks. -/
def nameEnds : Text :=
  [',', ';', '&', '/', '@', '?', '#', '<', '>', '=', ':', '[', ']', singleQuote, doubleQuote]

/-- One check of the ASCII characters for all that is needed of them. -/
theorem ascii_facts {c : Char} (h : c.toNat < 128) :
    (isSpace c = true ∨ c ∈ nameEnds → isNamePart c = false) ∧
      (isCredentialPart c = true → isNamePart c = true ∨ c ∈ ['.', '~', '+', '/', '=']) ∧
      (c.isAlphanum = true → beginsWord c = true) ∧
      (isHexDigit c = true → c.isAlphanum = true) := by
  refine forall_ascii ?_ h
  decide +kernel

theorem ignoreCase_cases (c : Char) :
    (c.toNat = 0x130 ∨ c.toNat = 0x131 ∨ c.toNat = 0x17f ∨ c.toNat = 0x212a) ∨
      ignoreCase c = c.toLower := by
  unfold ignoreCase
  split_ifs with hi hs hk
  · omega
  · omega
  · omega
  · exact .inr rfl

theorem toLower_of_ge {c : Char} (h : 128 ≤ c.toNat) : c.toLower = c := by
  unfold Char.toLower
  refine dif_neg fun hupper => ?_
  have hle : c.toNat ≤ 90 := by simpa [UInt32.le_iff_toNat_le] using hupper.2
  omega

theorem not_isNamePart {c : Char} (h : isSpace c = true ∨ c ∈ nameEnds) : isNamePart c = false := by
  rcases Nat.lt_or_ge c.toNat 128 with hlt | hge
  · exact (ascii_facts hlt).1 h
  · rcases h with hspace | hmem
    · have hspecial : ¬(c.toNat = 0x130 ∨ c.toNat = 0x131 ∨ c.toNat = 0x17f ∨
          c.toNat = 0x212a) := by
        simp only [isSpace, Bool.or_eq_true, Bool.and_eq_true, decide_eq_true_eq, beq_iff_eq]
          at hspace
        omega
      have hsame : ignoreCase c = c := by
        rw [(ignoreCase_cases c).resolve_left hspecial, toLower_of_ge hge]
      have halnum : c.isAlphanum = false := by
        refine Bool.eq_false_iff.mpr fun h => ?_
        have := toNat_lt_of_isAlphanum h
        omega
      have hunderscore : c ≠ '_' := by
        rintro rfl
        exact absurd hge (by decide)
      have hdash : c ≠ '-' := by
        rintro rfl
        exact absurd hge (by decide)
      simp [isNamePart, beginsWord, hsame, halnum, hunderscore, hdash]
    · have hall : ∀ b ∈ nameEnds, b.toNat < 128 := forall_mem_of_all (by decide)
      have := hall c hmem
      omega

theorem isNamePart_facts {c : Char} (h : isNamePart c = true) :
    isSecretPart c = true ∧ endsUrl c = false ∧ startsQuery c = false ∧ c ∉ nameEnds := by
  have hno : ¬(isSpace c = true ∨ c ∈ nameEnds) := fun hno => by
    rw [not_isNamePart hno] at h
    cases h
  simp only [nameEnds, List.mem_cons, not_or, Bool.not_eq_true] at hno
  refine ⟨?_, ?_, ?_, ?_⟩
  · simp [isSecretPart, hno]
  · simp [endsUrl, hno]
  · simp [startsQuery, hno]
  · simp [nameEnds, hno]

theorem isNamePart_of_beginsWord {c : Char} (h : beginsWord c = true) : isNamePart c = true := by
  simp [isNamePart, h]

theorem isSecretPart_of_isNamePart {c : Char} (h : isNamePart c = true) :
    isSecretPart c = true :=
  (isNamePart_facts h).1

theorem isCredentialPart_of_beginsWord {c : Char} (h : beginsWord c = true) :
    isCredentialPart c = true := by
  simp only [beginsWord] at h
  simp [isCredentialPart, h]

theorem isCredentialPart_cases {c : Char} (h : isCredentialPart c = true) :
    isNamePart c = true ∨ c ∈ ['.', '~', '+', '/', '='] := by
  rcases Nat.lt_or_ge c.toNat 128 with hlt | hge
  · exact (ascii_facts hlt).2.1 h
  · left
    simp only [isCredentialPart, Bool.or_eq_true, List.contains_iff_mem] at h
    rcases h with h | h
    · exact isNamePart_of_beginsWord h
    · have hall : ∀ b ∈ ['.', '_', '~', '+', '/', '=', '-'], b.toNat < 128 ∧ b ≠ 'i' ∧ b ≠ 's' ∧
          b ≠ 'k' :=
        forall_mem_of_all (by decide)
      obtain ⟨hsmall, hi, hs, hk⟩ := hall _ h
      have hsame : ignoreCase c = c := by
        unfold ignoreCase at hi hs hk ⊢
        split_ifs at hi hs hk ⊢ <;> first | exact absurd rfl ‹_› | exact toLower_of_ge hge
      rw [hsame] at hsmall
      omega

theorem isCredentialPart_facts {c : Char} (h : isCredentialPart c = true) :
    isSecretPart c = true ∧ endsUrl c = false ∧ startsQuery c = false ∧ c ≠ '@' := by
  rcases isCredentialPart_cases h with hpart | hmem
  · obtain ⟨hsecret, hurl, hquery, hends⟩ := isNamePart_facts hpart
    exact ⟨hsecret, hurl, hquery, fun hat => hends (hat ▸ by decide)⟩
  · have hall : ∀ c ∈ ['.', '~', '+', '/', '='],
        isSecretPart c = true ∧ endsUrl c = false ∧ startsQuery c = false ∧ c ≠ '@' :=
      forall_mem_of_all (by decide)
    exact hall c hmem

theorem beginsWord_of_isAlphanum {c : Char} (h : c.isAlphanum = true) : beginsWord c = true :=
  (ascii_facts (toNat_lt_of_isAlphanum h)).2.2.1 h

theorem isAlphanum_of_isHexDigit {c : Char} (h : isHexDigit c = true) : c.isAlphanum = true := by
  rcases Nat.lt_or_ge c.toNat 128 with hlt | hge
  · exact (ascii_facts hlt).2.2.2 h
  · simp only [isHexDigit, Bool.or_eq_true, toLower_of_ge hge, List.contains_iff_mem] at h
    rcases h with h | h
    · simp [Char.isAlphanum, h]
    · have hall : ∀ b ∈ ['a', 'b', 'c', 'd', 'e', 'f'], b.toNat < 128 :=
        forall_mem_of_all (by decide)
      have := hall c h
      omega

theorem isSchemePart_of_isAlpha {c : Char} (h : c.isAlpha = true) : isSchemePart c = true := by
  simp [isSchemePart, Char.isAlphanum, h]

theorem beginsWord_of_isAlpha {c : Char} (h : c.isAlpha = true) : beginsWord c = true :=
  beginsWord_of_isAlphanum (by simp [Char.isAlphanum, h])

theorem isSchemePart_facts {c : Char} (h : isSchemePart c = true) :
    endsUrl c = false ∧ startsQuery c = false ∧ c ≠ ':' ∧ c ≠ '/' ∧ c ≠ '@' ∧ c ≠ '[' ∧
      c ≠ ']' := by
  simp only [isSchemePart, Bool.or_eq_true, beq_iff_eq] at h
  rcases h with ((h | rfl) | rfl) | rfl
  · obtain ⟨-, hurl, hquery, hends⟩ :=
      isNamePart_facts (isNamePart_of_beginsWord (beginsWord_of_isAlphanum h))
    simp only [nameEnds, List.mem_cons, not_or] at hends
    simp [hurl, hquery, hends]
  all_goals decide

theorem not_endsUrl_of_isSchemePart {c : Char} (h : isSchemePart c = true) :
    endsUrl c = false := (isSchemePart_facts h).1

theorem not_endsUrl_of_mem_schemeEnd {c : Char} (h : c ∈ schemeEnd) :
    endsUrl c = false ∧ startsQuery c = false := by
  simp only [schemeEnd, List.mem_cons, List.not_mem_nil, or_false] at h
  rcases h with rfl | rfl | rfl <;> decide

theorem not_isSpace_of_mem_filtered {c : Char} (h : c ∈ filtered) : isSpace c = false := by
  simp only [filtered, List.mem_cons, List.not_mem_nil, or_false] at h
  rcases h with rfl | rfl | rfl | rfl | rfl | rfl | rfl | rfl | rfl | rfl <;> decide

/-! ### Secret pairs -/

def isQuote (c : Char) : Bool := c == singleQuote || c == doubleQuote

def isSign (c : Char) : Bool := c == '=' || c == ':'

def IsSecretName (w : WordClass) (name : Text) : Prop :=
  (name, []) ∈ secretNameRe.splits w none name

/-- A secret name and its sign, with blanks behind each. -/
def SecretHead (w : WordClass) (head : Text) : Prop :=
  ∃ name b₁ sign b₂, head = name ++ (b₁ ++ sign :: b₂) ∧ IsSecretName w name ∧
    (∀ c ∈ b₁, isSpace c = true) ∧ isSign sign = true ∧ ∀ c ∈ b₂, isSpace c = true

def Quoted (d : Text) : Prop := ∃ q u, d = q :: (u ++ [q]) ∧ isQuote q = true ∧ q ∉ u

theorem map_ignoreCase_of_mem_splits {text : Text} {r : Text × Text}
    (h : r ∈ (wordIgnoringCase text).splits w prev s) : r.1.map ignoreCase = text := by
  induction text generalizing prev s r with
  | nil =>
      rw [wordIgnoringCase, List.map_nil, Regex.seqs, mem_splits_empty] at h
      rw [h]
      rfl
  | cons c text ih =>
      rw [wordIgnoringCase, List.map_cons, Regex.seqs] at h
      obtain ⟨r₁, h₁, r₂, h₂, rfl⟩ := mem_splits_seq.mp h
      obtain ⟨b, -, hb, hr₁⟩ := mem_splits_char.mp h₁
      have hrest := ih (r := r₂) h₂
      simp [hr₁, hrest, beq_iff_eq.mp hb]

theorem mem_splits_foldl_alt {l : List Regex} {a : Regex} {r : Text × Text}
    (h : r ∈ (l.foldl .alt a).splits w prev s) : ∃ b ∈ a :: l, r ∈ b.splits w prev s := by
  induction l generalizing a with
  | nil => exact ⟨a, by simp, h⟩
  | cons b l ih =>
      obtain ⟨e, he, hr⟩ := ih h
      rcases List.mem_cons.mp he with rfl | he
      · rcases mem_splits_alt.mp hr with hr | hr
        · exact ⟨a, by simp, hr⟩
        · exact ⟨b, by simp, hr⟩
      · exact ⟨e, by simp [he], hr⟩

/-- The names as the pattern reads them, without regard to case. -/
def secretNames : List Text :=
  ["token", "access_token", "refresh_token", "apikey", "api_key", "api-key", "key", "secret",
    "password", "passwd", "pwd", "authorization", "code", "state", "signature", "sig"].map
      String.toList

theorem mem_secretNames {r : Text × Text} (h : r ∈ secretNameRe.splits w prev s) :
    r.1.map ignoreCase ∈ secretNames := by
  unfold secretNameRe at h
  obtain ⟨b, hb, hr⟩ := mem_splits_foldl_alt h
  simp only [List.mem_cons, List.not_mem_nil, or_false] at hb
  rcases hb with rfl | rfl | rfl | rfl | rfl | rfl | rfl | rfl | rfl | rfl | rfl | rfl | rfl | rfl
  case inr.inr.inr.inl =>
    simp only [Regex.seqs, Regex.optional, mem_splits_seq, mem_splits_alt, mem_splits_empty] at hr
    obtain ⟨r₁, h₁, r₂, ⟨r₃, h₃, r₄, ⟨r₅, h₅, r₆, rfl, rfl⟩, rfl⟩, rfl⟩ := hr
    have hapi := map_ignoreCase_of_mem_splits h₁
    have hkey := map_ignoreCase_of_mem_splits h₅
    rcases h₃ with h₃ | rfl
    · obtain ⟨c, -, hc, hr₃⟩ := mem_splits_char.mp h₃
      simp only [Bool.or_eq_true, beq_iff_eq] at hc
      rcases hc with rfl | rfl
      · simp only [List.map_append, hapi, hkey, hr₃]
        decide
      · simp only [List.map_append, hapi, hkey, hr₃]
        decide
    · simp only [List.map_append, hapi, hkey, List.map_nil]
      decide
  all_goals
    rw [map_ignoreCase_of_mem_splits hr]
    decide

theorem secretName_facts {r : Text × Text} (h : r ∈ secretNameRe.splits w prev s) :
    (∃ c rest, r.1 = c :: rest ∧ beginsWord c = true) ∧ ∀ c ∈ r.1, isNamePart c = true := by
  have hall : ∀ name ∈ secretNames, name.head?.any Char.isAlphanum = true ∧
      name.all (fun c => c.isAlphanum || c == '_' || c == '-') = true := by
    decide +kernel
  obtain ⟨hhead, hparts⟩ := hall _ (mem_secretNames h)
  obtain ⟨c, hc, hfirst⟩ := (Option.any_eq_true _ _).mp hhead
  constructor
  · cases hr : r.1 with
    | nil => simp [hr] at hc
    | cons b rest =>
        rw [hr, List.map_cons, List.head?_cons, Option.some_inj] at hc
        exact ⟨b, rest, rfl, by rw [beginsWord, hc]; exact hfirst⟩
  · intro c hc
    have hpart := List.all_eq_true.mp hparts _ (List.mem_map_of_mem hc)
    simp only [Bool.or_eq_true, beq_iff_eq] at hpart
    rcases hpart with (hpart | hpart) | hpart
    · simp [isNamePart, beginsWord, hpart]
    · simp [isNamePart, hpart]
    · simp [isNamePart, hpart]

theorem not_isNamePart_of_isSpace {c : Char} (h : isSpace c = true) : isNamePart c = false :=
  not_isNamePart (.inl h)

theorem isSecretPart_of_isQuote {c : Char} (h : isQuote c = true) : isSecretPart c = true := by
  simp only [isQuote, Bool.or_eq_true, beq_iff_eq] at h
  rcases h with rfl | rfl <;> decide

theorem not_isSpace_of_isSecretPart {c : Char} (h : isSecretPart c = true) : isSpace c = false := by
  simp only [isSecretPart, Bool.not_eq_true', Bool.or_eq_false_iff] at h
  exact h.1.1.1

theorem isSign_facts {c : Char} (h : isSign c = true) :
    isNamePart c = false ∧ isSpace c = false ∧ c ∉ filtered ∧ c.toNat < 128 ∧
      c.isAlphanum = false ∧ c ≠ '_' := by
  simp only [isSign, Bool.or_eq_true, beq_iff_eq] at h
  rcases h with rfl | rfl <;> decide

theorem mem_splits_secretPairRe {r : Text × Text} :
    r ∈ secretPairRe.kept.splits w prev s ↔
      s = r.1 ++ r.2 ∧ w.boundary prev s.head? = true ∧ SecretHead w r.1 := by
  have hplain : secretNameRe.hasBoundary = true → False := by decide
  simp only [secretPairRe, Regex.seqs, mem_splits_seq, mem_splits_boundary, mem_splits_many,
    mem_splits_char, mem_splits_empty]
  constructor
  · rintro ⟨_, ⟨hboundary, rfl⟩, _, ⟨⟨name, _⟩, hname, _, ⟨⟨b₁, _⟩, ⟨rfl, hb₁⟩, _, ⟨⟨_, _⟩,
      ⟨sign, rfl, hsign, rfl⟩, _, ⟨⟨b₂, _⟩, ⟨rfl, hb₂⟩, _, rfl, rfl⟩, rfl⟩, rfl⟩, rfl⟩, rfl⟩
    have hs := eq_append_of_mem_splits hname
    simp only at hs hname
    rw [hs] at hname
    refine ⟨by simpa using hs, hboundary, name, b₁, sign, b₂, by simp, ?_, hb₁, hsign, hb₂⟩
    have hname' : (name, []) ∈ secretNameRe.splits w none (name ++ []) :=
      mem_splits_congr (fun h => (hplain h).elim) hname
    rwa [List.append_nil] at hname'
  · obtain ⟨u, v⟩ := r
    rintro ⟨hs, hboundary, name, b₁, sign, b₂, hu, hname, hb₁, hsign, hb₂⟩
    simp only at hs hu
    subst hs hu
    refine ⟨_, ⟨hboundary, rfl⟩, _, ⟨(name, b₁ ++ (sign :: (b₂ ++ v))), ?_, _,
      ⟨(b₁, sign :: (b₂ ++ v)), ⟨rfl, hb₁⟩, _, ⟨([sign], b₂ ++ v), ⟨sign, rfl, hsign, rfl⟩, _,
      ⟨(b₂, v), ⟨rfl, hb₂⟩, _, rfl, rfl⟩, rfl⟩, rfl⟩, rfl⟩, by simp⟩
    have hname' : (name, []) ∈ secretNameRe.splits w none (name ++ []) := by
      rw [List.append_nil]
      exact hname
    have hbefore : (name, b₁ ++ (sign :: (b₂ ++ v))) ∈
        secretNameRe.splits w prev (name ++ (b₁ ++ (sign :: (b₂ ++ v)))) :=
      mem_splits_congr (fun h => (hplain h).elim) hname'
    simpa using hbefore

theorem find_secretPairRe (h : secretPairRe.find w prev (k ++ (d ++ v)) = some (k, d)) :
    w.boundary prev k.head? = true ∧ SecretHead w k ∧
      (Quoted d ∨ d ≠ [] ∧ (∀ c ∈ d, isSecretPart c = true) ∧
        ∀ c ∈ v.head?, isSecretPart c = false) := by
  obtain ⟨hkept, hdropped⟩ := Rule.find_append h
  obtain ⟨-, hboundary, hhead⟩ := mem_splits_secretPairRe.mp hkept
  have hk : (k ++ (d ++ v)).head? = k.head? := by
    obtain ⟨name, b₁, sign, b₂, hk, -⟩ := hhead
    obtain ⟨c, rest, hcons⟩ : ∃ c rest, k = c :: rest := by
      cases hk' : k with
      | nil => simp [hk'] at hk
      | cons c rest => exact ⟨c, rest, rfl⟩
    rw [hcons]
    rfl
  refine ⟨hk ▸ hboundary, hhead, ?_⟩
  have hquoted {q : Char} (hq : isQuote q = true) {prev : Option Char}
      (hr : (d, v) ∈ (Regex.seqs [.char fun c => c == q, .many fun c => c != q,
        .char fun c => c == q]).splits w prev (d ++ v)) : Quoted d := by
    simp only [Regex.seqs, mem_splits_seq, mem_splits_many, mem_splits_char, mem_splits_empty]
      at hr
    obtain ⟨⟨_, _⟩, ⟨c, -, hc, rfl⟩, ⟨_, _⟩, ⟨⟨u, _⟩, ⟨-, hu⟩, ⟨_, _⟩, ⟨⟨_, _⟩, ⟨e, -, he, rfl⟩, _,
      rfl, heq⟩, heq'⟩, heq''⟩ := hr
    rw [Prod.mk.injEq] at heq heq' heq''
    have hd := heq''.1
    rw [heq'.1, heq.1] at hd
    refine ⟨q, u, ?_, hq, fun hmem => ?_⟩
    · rw [hd, beq_iff_eq.mp hc, beq_iff_eq.mp he]
      simp
    · have := hu q hmem
      simp at this
  rcases head?_splits_alt hdropped with hquote | hplain
  · rcases head?_splits_alt hquote with hdouble | hsingle
    · exact .inl (hquoted (by decide) (List.mem_of_head? hdouble))
    · exact .inl (hquoted (by decide) (List.mem_of_head? hsingle))
  · obtain ⟨-, hall, hlength⟩ := mem_splits_atLeast.mp (List.mem_of_head? hplain)
    exact .inr ⟨List.ne_nil_of_length_pos hlength, hall, head?_rest_of_atLeast hplain⟩

theorem find_secretPairRe_ne_none {t : Text} (hhead : SecretHead w k)
    (hboundary : w.boundary prev k.head? = true) (ht : ∃ c ∈ t.head?, isSecretPart c = true) :
    secretPairRe.find w prev (k ++ t) ≠ none := by
  obtain ⟨c, hc, hpart⟩ := ht
  obtain ⟨t, rfl⟩ : ∃ t', t = c :: t' := by
    cases t with
    | nil => cases hc
    | cons b t => exact ⟨t, by rw [Option.mem_some_iff.mp hc]⟩
  have hk : (k ++ c :: t).head? = k.head? := by
    obtain ⟨name, b₁, sign, b₂, hk, -⟩ := hhead
    cases k with
    | nil => simp at hk
    | cons b k => rfl
  refine Rule.find_ne_none (k := k) (d := [c]) (v := t) ?_ ?_
  · exact mem_splits_secretPairRe.mpr ⟨rfl, hk.symm ▸ hboundary, hhead⟩
  · refine mem_splits_alt.mpr (.inr (mem_splits_atLeast.mpr ⟨rfl, ?_, by simp⟩))
    simpa using hpart

theorem SecretHead.cons (h : SecretHead w k) :
    ∃ c rest, k = c :: rest ∧ beginsWord c = true := by
  obtain ⟨name, b₁, sign, b₂, rfl, hname, -⟩ := h
  obtain ⟨⟨c, rest, hcons, hc⟩, -⟩ := secretName_facts hname
  simp only at hcons
  exact ⟨c, _, by rw [hcons, List.cons_append], hc⟩

theorem SecretHead.mem {c : Char} (h : SecretHead w k) (hc : c ∈ k) :
    isNamePart c = true ∨ isSpace c = true ∨ isSign c = true := by
  obtain ⟨name, b₁, sign, b₂, rfl, hname, hb₁, hsign, hb₂⟩ := h
  simp only [List.mem_append, List.mem_cons] at hc
  rcases hc with hc | hc | rfl | hc
  · exact .inl ((secretName_facts hname).2 c hc)
  · exact .inr (.inl (hb₁ c hc))
  · exact .inr (.inr hsign)
  · exact .inr (.inl (hb₂ c hc))

theorem SecretHead.not_mem {c : Char} (h : SecretHead w k)
    (hc : isNamePart c = false ∧ isSpace c = false ∧ isSign c = false) : c ∉ k := by
  intro hmem
  rcases SecretHead.mem h hmem with h | h | h
  · rw [h] at hc
    exact absurd hc.1 (by simp)
  · rw [h] at hc
    exact absurd hc.2.1 (by simp)
  · rw [h] at hc
    exact absurd hc.2.2 (by simp)

theorem SecretHead.not_infix (h : SecretHead w k) : ¬k <:+: filtered := by
  intro hin
  obtain ⟨name, b₁, sign, b₂, rfl, -, -, hsign, -⟩ := h
  exact (isSign_facts hsign).2.2.1 (hin.subset (by simp))

/-- What a head looks like, and what is left of one when its name begins later. -/
def HeadShape (k : Text) : Prop :=
  ∃ name b₁ sign b₂, k = name ++ (b₁ ++ sign :: b₂) ∧ (∀ c ∈ name, isNamePart c = true) ∧
    (∀ c ∈ b₁, isSpace c = true) ∧ isSign sign = true ∧ ∀ c ∈ b₂, isSpace c = true

theorem SecretHead.shape (h : SecretHead w k) : HeadShape k := by
  obtain ⟨name, b₁, sign, b₂, rfl, hname, hb₁, hsign, hb₂⟩ := h
  exact ⟨name, b₁, sign, b₂, rfl, (secretName_facts hname).2, hb₁, hsign, hb₂⟩

theorem HeadShape.suffix {k₁ k₂ : Text} (h : HeadShape (k₁ ++ k₂))
    (hk₂ : ∃ c ∈ k₂.head?, isNamePart c = true) : HeadShape k₂ := by
  obtain ⟨name, b₁, sign, b₂, heq, hname, hb₁, hsign, hb₂⟩ := h
  obtain ⟨c, hc, hpart⟩ := hk₂
  rcases List.append_eq_append_iff.mp heq with ⟨n₂, rfl, rfl⟩ | ⟨m, rfl, hm⟩
  · exact ⟨n₂, b₁, sign, b₂, rfl, fun d hd => hname d (List.mem_append_right _ hd), hb₁, hsign,
      hb₂⟩
  · have hmem : c ∈ b₁ ++ sign :: b₂ := hm ▸ List.mem_append_right _ (List.mem_of_head? hc)
    simp only [List.mem_append, List.mem_cons] at hmem
    rcases hmem with hmem | rfl | hmem
    · rw [not_isNamePart_of_isSpace (hb₁ c hmem)] at hpart
      cases hpart
    · rw [(isSign_facts hsign).1] at hpart
      cases hpart
    · rw [not_isNamePart_of_isSpace (hb₂ c hmem)] at hpart
      cases hpart

/-- A head is all there is of it before a value. -/
theorem HeadShape.unique {k' t t' : Text} (hk : HeadShape k) (hk' : HeadShape k')
    (h : k ++ t = k' ++ t') (ht : ∀ c ∈ t.head?, isSpace c = false)
    (ht' : ∀ c ∈ t'.head?, isSpace c = false) : k = k' ∧ t = t' := by
  obtain ⟨name, b₁, sign, b₂, rfl, hname, hb₁, hsign, hb₂⟩ := hk
  obtain ⟨name', b₁', sign', b₂', rfl, hname', hb₁', hsign', hb₂'⟩ := hk'
  have hend {b : Text} {c : Char} (hb : ∀ a ∈ b, isSpace a = true) (hc : isSign c = true)
      (t : Text) : ∀ a ∈ (b ++ c :: t).head?, isNamePart a = false := by
    intro a ha
    cases b with
    | nil =>
        cases ha
        exact (isSign_facts hc).1
    | cons a' b =>
        cases ha
        exact not_isNamePart_of_isSpace (hb a (by simp))
  have hstop {c : Char} (hc : isSign c = true) (t : Text) :
      ∀ a ∈ (c :: t).head?, isSpace a = false := by
    intro a ha
    cases ha
    exact (isSign_facts hc).2.1
  simp only [List.append_assoc, List.cons_append] at h
  obtain ⟨rfl, hrest⟩ := append_inj_of_stop h hname hname' (hend hb₁ hsign _) (hend hb₁' hsign' _)
  obtain ⟨rfl, hsigns⟩ := append_inj_of_stop hrest hb₁ hb₁' (hstop hsign _) (hstop hsign' _)
  obtain ⟨rfl, hvalues⟩ := List.cons.inj hsigns
  obtain ⟨rfl, hvalue⟩ := append_inj_of_stop hvalues hb₂ hb₂' ht ht'
  exact ⟨rfl, hvalue⟩

/-! ### Tokens -/

def IsToken (m : Text) : Prop :=
  ∃ p₁ p₂ p₃, m = ['e', 'y', 'J'] ++ (p₁ ++ '.' :: (p₂ ++ '.' :: p₃)) ∧
    ∀ p ∈ [p₁, p₂, p₃], (∀ c ∈ p, isJwtPart c = true) ∧ 5 ≤ p.length

def IsHexToken (m : Text) : Prop := (∀ c ∈ m, isHexDigit c = true) ∧ 32 ≤ m.length

theorem find_of_kept_empty {rule : Rule} (hkept : rule.kept = .empty)
    (h : rule.find w prev (k ++ (d ++ v)) = some (k, d)) :
    k = [] ∧ (d, v) ∈ rule.dropped.splits w prev (d ++ v) := by
  obtain ⟨hk, hdropped⟩ := Rule.find_append h
  rw [hkept, mem_splits_empty] at hk
  obtain rfl := (Prod.mk.inj hk).1
  exact ⟨rfl, List.mem_of_head? hdropped⟩

theorem mem_splits_jwtRe {r : Text × Text} :
    r ∈ jwtRe.dropped.splits w prev s ↔ s = r.1 ++ r.2 ∧ IsToken r.1 ∧
      w.boundary prev s.head? = true ∧ w.boundary (lastOr prev r.1) r.2.head? = true := by
  obtain ⟨u, v⟩ := r
  constructor
  · intro h
    have hs := eq_append_of_mem_splits h
    obtain ⟨u₀, u, rfl, h₀, h⟩ := mem_splits_seqs_cons.mp h
    obtain ⟨u₁, u, rfl, h₁, h⟩ := mem_splits_seqs_cons.mp h
    obtain ⟨p₁, u, rfl, hm₁, h⟩ := mem_splits_seqs_cons.mp h
    obtain ⟨d₁, u, rfl, hd₁, h⟩ := mem_splits_seqs_cons.mp h
    obtain ⟨p₂, u, rfl, hm₂, h⟩ := mem_splits_seqs_cons.mp h
    obtain ⟨d₂, u, rfl, hd₂, h⟩ := mem_splits_seqs_cons.mp h
    obtain ⟨p₃, u, rfl, hm₃, h⟩ := mem_splits_seqs_cons.mp h
    obtain ⟨u₂, u, rfl, h₂, h⟩ := mem_splits_seqs_cons.mp h
    obtain ⟨hstart, heq₀⟩ := mem_splits_boundary.mp h₀
    obtain ⟨rfl, -⟩ := Prod.mk.inj heq₀
    obtain ⟨rfl, -⟩ := mem_splits_literal.mp h₁
    obtain ⟨-, hp₁⟩ := mem_splits_atLeast.mp hm₁
    obtain ⟨c₁, -, hc₁, rfl⟩ := mem_splits_char.mp hd₁
    obtain ⟨-, hp₂⟩ := mem_splits_atLeast.mp hm₂
    obtain ⟨c₂, -, hc₂, rfl⟩ := mem_splits_char.mp hd₂
    obtain ⟨-, hp₃⟩ := mem_splits_atLeast.mp hm₃
    obtain ⟨hend, heq₂⟩ := mem_splits_boundary.mp h₂
    obtain ⟨rfl, -⟩ := Prod.mk.inj heq₂
    obtain ⟨rfl, -⟩ := Prod.mk.inj (mem_splits_empty.mp h)
    obtain rfl := beq_iff_eq.mp hc₁
    obtain rfl := beq_iff_eq.mp hc₂
    refine ⟨hs, ⟨p₁, p₂, p₃, by simp, ?_⟩, hstart, by simpa using hend⟩
    simp only [List.forall_mem_cons, List.not_mem_nil, false_implies, implies_true, and_true]
    exact ⟨hp₁, hp₂, hp₃⟩
  · rintro ⟨rfl, ⟨p₁, p₂, p₃, rfl, hparts⟩, hstart, hend⟩
    simp only [List.forall_mem_cons, List.not_mem_nil, false_implies, implies_true, and_true]
      at hparts
    obtain ⟨hp₁, hp₂, hp₃⟩ := hparts
    refine mem_splits_seqs_cons.mpr ⟨[], _, rfl, mem_splits_boundary.mpr ⟨hstart, rfl⟩, ?_⟩
    refine mem_splits_seqs_cons.mpr ⟨_, _, rfl, mem_splits_literal.mpr ⟨rfl, by simp⟩, ?_⟩
    refine mem_splits_seqs_cons.mpr ⟨p₁, _, rfl, mem_splits_atLeast.mpr ⟨by simp, hp₁⟩, ?_⟩
    refine mem_splits_seqs_cons.mpr ⟨['.'], _, rfl, mem_splits_char.mpr ⟨'.', by simp⟩, ?_⟩
    refine mem_splits_seqs_cons.mpr ⟨p₂, _, rfl, mem_splits_atLeast.mpr ⟨by simp, hp₂⟩, ?_⟩
    refine mem_splits_seqs_cons.mpr ⟨['.'], _, rfl, mem_splits_char.mpr ⟨'.', by simp⟩, ?_⟩
    refine mem_splits_seqs_cons.mpr ⟨p₃, [], by simp, mem_splits_atLeast.mpr ⟨by simp, hp₃⟩, ?_⟩
    refine mem_splits_seqs_cons.mpr ⟨[], [], rfl, mem_splits_boundary.mpr ⟨?_, rfl⟩,
      mem_splits_empty.mpr rfl⟩
    simpa using hend

theorem mem_splits_longHexRe {r : Text × Text} :
    r ∈ longHexRe.dropped.splits w prev s ↔ s = r.1 ++ r.2 ∧ IsHexToken r.1 ∧
      w.boundary prev s.head? = true ∧ w.boundary (lastOr prev r.1) r.2.head? = true := by
  obtain ⟨u, v⟩ := r
  simp only [longHexRe, Regex.seqs, mem_splits_seq, mem_splits_boundary, mem_splits_empty]
  constructor
  · rintro ⟨_, ⟨hstart, rfl⟩, _, ⟨r, hr, _, ⟨_, ⟨hend, rfl⟩, _, rfl, rfl⟩, rfl⟩, heq⟩
    obtain ⟨hs, hall, hlength⟩ := mem_splits_atLeast.mp hr
    rw [Prod.mk.injEq] at heq
    obtain ⟨rfl, rfl⟩ := heq
    exact ⟨by simpa using hs, ⟨by simpa using hall, by simpa using hlength⟩, hstart,
      by simpa using hend⟩
  · rintro ⟨rfl, ⟨hall, hlength⟩, hstart, hend⟩
    exact ⟨_, ⟨hstart, rfl⟩, _, ⟨(u, v), mem_splits_atLeast.mpr ⟨rfl, hall, hlength⟩, _,
      ⟨_, ⟨by simpa using hend, rfl⟩, _, rfl, rfl⟩, rfl⟩, by simp⟩

theorem find_jwtRe (h : jwtRe.find w prev (k ++ (d ++ v)) = some (k, d)) :
    k = [] ∧ IsToken d ∧ w.boundary prev d.head? = true ∧
      w.boundary d.getLast? v.head? = true := by
  have hne := Rule.dropped_ne_nil h
  obtain ⟨hk, hmem⟩ := find_of_kept_empty rfl h
  obtain ⟨-, htoken, hstart, hend⟩ := mem_splits_jwtRe.mp hmem
  rw [List.head?_append_of_ne_nil _ hne] at hstart
  rw [lastOr_of_ne_nil hne] at hend
  exact ⟨hk, htoken, hstart, hend⟩

theorem find_longHexRe (h : longHexRe.find w prev (k ++ (d ++ v)) = some (k, d)) :
    k = [] ∧ IsHexToken d ∧ w.boundary prev d.head? = true ∧
      w.boundary d.getLast? v.head? = true := by
  have hne := Rule.dropped_ne_nil h
  obtain ⟨hk, hmem⟩ := find_of_kept_empty rfl h
  obtain ⟨-, htoken, hstart, hend⟩ := mem_splits_longHexRe.mp hmem
  rw [List.head?_append_of_ne_nil _ hne] at hstart
  rw [lastOr_of_ne_nil hne] at hend
  exact ⟨hk, htoken, hstart, hend⟩

theorem find_bearerRe (h : bearerRe.find w prev (k ++ (d ++ v)) = some (k, d)) :
    (∃ c rest, k = c :: rest ∧ beginsWord c = true ∧ w.boundary prev (some c) = true) ∧
      (∀ c ∈ k, beginsWord c = true) ∧ (∀ c ∈ k.head?, ignoreCase c = 'b') ∧
      (∀ c ∈ v.head?, isCredentialPart c = false) ∧
      ∃ b u, d = b ++ u ∧ b ≠ [] ∧ (∀ c ∈ b, isSpace c = true) ∧
        (∀ c ∈ u, isCredentialPart c = true) ∧ 8 ≤ u.length := by
  obtain ⟨hkept, hdropped⟩ := Rule.find_append h
  have hword : w.boundary prev (k ++ (d ++ v)).head? = true ∧
      k.map ignoreCase ∈ [['b', 'e', 'a', 'r', 'e', 'r'], ['b', 'a', 's', 'i', 'c']] := by
    simp only [bearerRe, Regex.seqs, mem_splits_seq, mem_splits_boundary, mem_splits_alt,
      mem_splits_empty] at hkept
    obtain ⟨_, ⟨hboundary, rfl⟩, _, ⟨r, hr, _, rfl, rfl⟩, heq⟩ := hkept
    obtain rfl : k = r.1 := by simpa using (Prod.mk.inj heq).1
    refine ⟨hboundary, ?_⟩
    rcases hr with hr | hr
    · simp [map_ignoreCase_of_mem_splits hr]
    · simp [map_ignoreCase_of_mem_splits hr]
  obtain ⟨hboundary, hmem⟩ := hword
  have hall : ∀ word ∈ [['b', 'e', 'a', 'r', 'e', 'r'], ['b', 'a', 's', 'i', 'c']],
      word.head? = some 'b' ∧ word.all Char.isAlphanum = true := by
    decide
  obtain ⟨hhead, hletters⟩ := hall _ hmem
  have hbegins : ∀ c ∈ k, beginsWord c = true := fun c hc =>
    List.all_eq_true.mp hletters _ (List.mem_map_of_mem hc)
  refine ⟨?_, hbegins, fun c hc => ?_, ?_, ?_⟩
  · cases k with
    | nil => cases hhead
    | cons c rest => exact ⟨c, rest, rfl, hbegins c (by simp), hboundary⟩
  · simpa [Option.mem_def.mp hc] using hhead
  · exact head?_rest_of_seq (Q := fun v => ∀ c ∈ v.head?, isCredentialPart c = false)
      (fun _ _ _ => head?_rest_of_atLeast) hdropped
  · obtain ⟨r₁, h₁, r₂, h₂, heq⟩ := mem_splits_seq.mp (List.mem_of_head? hdropped)
    obtain ⟨-, hblanks, hlength⟩ := mem_splits_atLeast.mp h₁
    obtain ⟨-, hcredential, hlength'⟩ := mem_splits_atLeast.mp h₂
    exact ⟨r₁.1, r₂.1, (Prod.mk.inj heq).1, List.ne_nil_of_length_pos hlength, hblanks, hcredential,
      hlength'⟩

end StorageService.Actions
