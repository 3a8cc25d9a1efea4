import StorageService.Actions.ErrorMatches

/-!
# What is asked of stored error messages, and of the texts they are made of

The patterns take a URL apart step by step, so what they leave depends on how a
text is made: where a URL has its user information and its query, and whether
the value of a secret pair reaches over the end of a URL.
-/

namespace StorageService.Results

open StorageService.Foundation
open StorageService.Foundation.Regex
open StorageService.Storage
open StorageService.Actions

/-! ## The message -/

/-- A slash, a blank or a quote. -/
def isHostEnd (c : Char) : Bool := isSpace c || isQuote c || c == '/'

/-- A `scheme://` with an `@` before the next slash, blank or quote. -/
def CredentialLeft (s : Text) : Prop :=
  ∃ a scheme p q, s = a ++ (scheme ++ (schemeEnd ++ (p ++ '@' :: q))) ∧ IsScheme scheme ∧
    ∀ c ∈ p, isHostEnd c = false

/-! ## The text -/

/-- The text with a query taken out of it that ended where a URL does. -/
def Unqueried (t s : Text) : Prop :=
  t = s ∨ ∃ p x d e r, t = p ++ (x :: d ++ e :: r) ∧ s = p ++ e :: r ∧
    startsQuery x = true ∧ (∀ c ∈ d, endsUrl c = false) ∧ endsUrl e = true

/-- What follows on the text stands in the query of a URL that the pattern sees. -/
def InQuery (w : WordClass) (a : Text) : Prop :=
  ∃ b scheme p x d, a = b ++ (scheme ++ (schemeEnd ++ (p ++ x :: d))) ∧ IsScheme scheme ∧
    w.boundary (lastOr none b) scheme.head? = true ∧ (∀ c ∈ p ++ d, endsUrl c = false) ∧
    startsQuery x = true

/-- A scheme at the end of the text that begins at a word boundary. -/
def SchemeSeen (w : WordClass) (s : Text) : Prop :=
  ∃ a scheme, s = a ++ scheme ∧ IsScheme scheme ∧
    w.boundary (lastOr none a) scheme.head? = true

/--
Wherever a `scheme://` outside queries has an `@` before the next slash, blank or
quote, not counting a query: the scheme begins at a word boundary, there is no
angle bracket before the `@`, and if no query begins before it, it is the first
one and something stands before it.
-/
def UsersPlain (w : WordClass) (t : Text) : Prop :=
  ∀ a scheme x p q, t = a ++ (scheme ++ (schemeEnd ++ (x ++ '@' :: q))) → IsScheme scheme →
    ¬InQuery w a → Unqueried x p → (∀ c ∈ p, isHostEnd c = false) →
    x = p ∧ SchemeSeen w (a ++ scheme) ∧ (∀ c ∈ p, endsUrl c = false) ∧
      ((∀ c ∈ p, startsQuery c = false) → p ≠ [] ∧ '@' ∉ p)

/-- What stands of a URL before `c` has a secret pair in it, whose value goes on at `c`. -/
def PairReaches (w : WordClass) (stop mark : Char → Bool) (url : Text) (c : Char) : Prop :=
  ∃ x name sign d, url = x ++ (name ++ sign :: d) ∧
    (∀ b ∈ x ++ d, stop b = false ∧ mark b = false) ∧
    w.boundary (lastOr (some '/') x) name.head? = true ∧ IsSecretName w name ∧
    isSign sign = true ∧ stop c = true ∧ isSpace c = false

def isSeparator (c : Char) : Bool := c == ',' || c == ';' || c == '&'

/-- Values may follow one another without a blank between them, and end. -/
def ValuesRun (z : Text) : Prop :=
  ((∀ c ∈ z, isSpace c = false) ∨
    ∃ z₁ q z₂, z = z₁ ++ q :: z₂ ∧ (∀ c ∈ z₁, isSpace c = false) ∧ isQuote q = true) ∧
  ∃ c ∈ z.tail, isSeparator c = true ∨ isQuote c = true

def IsUser (user : Text) : Prop :=
  user = [] ∨ ∃ u, user = u ++ ['@'] ∧ u ≠ [] ∧ ∀ c ∈ u, isUserPart c = true

/--
A mark for the value of a secret pair takes away the `stop` of a URL, and the
values that follow are ended by a `mark`, which then seems to belong to the URL.
-/
def HidesEnd (w : WordClass) (stop mark : Char → Bool) (t : Text) : Prop :=
  ∃ a scheme user x url c z e q,
    t = a ++ (scheme ++ (schemeEnd ++ (user ++ (x ++ c :: (z ++ e :: q))))) ∧
    IsScheme scheme ∧ ¬InQuery w a ∧ IsUser user ∧ Unqueried (x ++ [c]) (url ++ [c]) ∧
    PairReaches w stop mark url c ∧ '@' ∉ url.takeWhile (· ≠ '/') ∧ ValuesRun (c :: z) ∧
    mark e = true

/-- A quoted value goes on behind its second quote. -/
def QuoteGoesOn (w : WordClass) (t : Text) : Prop :=
  ∃ a x head q u c r, t = a ++ (x ++ q :: (u ++ q :: c :: r)) ∧
    w.boundary (lastOr none a) x.head? = true ∧ ¬InQuery w a ∧ Unqueried (x ++ [q]) (head ++ [q]) ∧
    SecretHead w head ∧ isQuote q = true ∧ q ∉ u ∧ isSecretPart c = true

/-! ### The cut -/

/-- How long a text can become by marks. -/
def markedLength (t : Text) : Nat := t.length + 9 * t.countP isSign + 2 * t.count ' '

/-- A word that nothing is taken of unless a longer mark comes for it. -/
def isSteady (u : Text) : Bool := decide (u.length < 8) && u.all (!isSign ·)

/-- How long a text without quotes stays at least, up to its last blank. -/
def leastLength (t : Text) : Nat :=
  if t.any isQuote then 0 else wordSum ' ' (fun u => if isSteady u then u.length else 0) t

/-- A head before a mark, or a token before a word character that cannot be a part of it. -/
def Fragile (w : WordClass) (m : Text) : Prop :=
  SecretHead w m ∨ ∃ token c, m = token ++ [c] ∧ w.isWord c = true ∧
    (IsToken token ∧ isJwtPart c = false ∨ IsHexToken token ∧ isHexDigit c = false)

/-- The cut comes before what it may not split, or well behind it. -/
def CutApart (w : WordClass) (t : Text) : Prop :=
  markedLength t ≤ errorMessageMax ∨
    ∀ a x m r, t = a ++ (x ++ r) → w.boundary (lastOr none a) x.head? = true → ¬InQuery w a →
      Unqueried x m → Fragile w m →
        errorMessageMax ≤ leastLength a ∨ markedLength (a ++ x) + 12 ≤ errorMessageMax

/-- What the six passes and the cut can do without hiding anything from one another. -/
structure Settles (w : WordClass) (t : Text) : Prop where
  users : UsersPlain w t
  hosts : ¬HidesEnd w isHostEnd (· == '@') t
  queries : ¬HidesEnd w endsUrl startsQuery t
  quotes : ¬QuoteGoesOn w t
  cut : CutApart w t

end StorageService.Results
