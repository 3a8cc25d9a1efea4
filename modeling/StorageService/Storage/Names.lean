import StorageService.Storage.Settings

/-!
# Object names, folder markers and ids as text

The three normalisers of the source live side by side here: `safeObjectPath`,
by which names are stored, `normalizePath`, by which grants are matched, and
the pair `folderPlaceholderPath` and `folderPathFromPlaceholder`, by which a
folder and the marker object standing for it are exchanged.
-/

namespace StorageService.Storage

open StorageService.Foundation

def isSpace (c : Char) : Bool :=
  let n := c.toNat
  (9 ≤ n && n ≤ 13) || (28 ≤ n && n ≤ 32) || n == 133 || n == 160 || n == 5760 ||
    (8192 ≤ n && n ≤ 8202) || n == 8232 || n == 8233 || n == 8239 || n == 8287 ||
    n == 12288

def isSlash (c : Char) : Bool := c == '/'

/-- `a <= b` for `str`: by code points. -/
def textLe : Text → Text → Bool
  | [], _ => true
  | _ :: _, [] => false
  | a :: s, b :: t => a.toNat < b.toNat || a == b && textLe s t

def strip (s : Text) : Text := trim isSpace s

def stripSlash (s : Text) : Text := trim isSlash s

/-! ## Folder markers -/

def folderPlaceholderName : Text :=
  ['.', 'e', 'm', 'p', 't', 'y', 'F', 'o', 'l', 'd', 'e', 'r',
    'P', 'l', 'a', 'c', 'e', 'h', 'o', 'l', 'd', 'e', 'r']

def placeholderSuffix : Text := '/' :: folderPlaceholderName

def folderPlaceholderPath (folderPath : Text) : Text :=
  let folder := stripSlash (strip folderPath)
  if folder = [] then folderPlaceholderName
  else folder ++ placeholderSuffix

def folderPathFromPlaceholder (objectName : Text) : Text :=
  let name := stripSlash (strip objectName)
  if name = folderPlaceholderName then []
  else if placeholderSuffix <:+ name then
    name.take (name.length - placeholderSuffix.length)
  else name

/-! ## Paths -/

def pathParts (raw : Text) : List Text :=
  (raw.splitOn '/').filter fun part => part ≠ [] ∧ part ≠ ['.']

def safeObjectPath (path : Text) : Except Failure Text :=
  let raw := stripSlash (path.map fun c => if c = '\\' then '/' else c)
  let parts := pathParts raw
  if raw = [] then .error (.valueError "Object path must not be empty.")
  else if ['.', '.'] ∈ parts then
    .error (.valueError "Object path must not contain parent segments.")
  else if parts = [] then .error (.valueError "Object path must not be empty.")
  else .ok (List.intercalate ['/'] parts)

def normalizePath (path : Text) : Text := stripSlash (strip path)

def folderMatches (folder path : Text) : Bool :=
  decide (normalizePath folder = [] ∨
    Under '/' (normalizePath folder) (normalizePath path))

def Trimmed (s : Text) : Prop := normalizePath s = s ∧ s ≠ []

instance (s : Text) : Decidable (Trimmed s) := inferInstanceAs (Decidable (_ ∧ _))

theorem normalizePath_eq_self_iff (s : Text) :
    normalizePath s = s ↔
      ∀ h : s ≠ [], (isSpace (s.head h) = false ∧ isSlash (s.head h) = false) ∧
        isSpace (s.getLast h) = false ∧ isSlash (s.getLast h) = false := by
  rw [normalizePath, stripSlash, strip, trim_trim_eq_self_iff,
    trim_eq_self_iff, trim_eq_self_iff]
  constructor
  · rintro ⟨hspace, hslash⟩ h
    exact ⟨⟨(hspace h).1, (hslash h).1⟩, (hspace h).2, (hslash h).2⟩
  · intro hs
    exact ⟨fun h => ⟨(hs h).1.1, (hs h).2.1⟩, fun h => ⟨(hs h).1.2, (hs h).2.2⟩⟩

theorem trimmed_append {s t : Text} (hs : s ≠ []) (ht : t ≠ [])
    (hhead : isSpace (s.head hs) = false ∧ isSlash (s.head hs) = false)
    (hlast : isSpace (t.getLast ht) = false ∧ isSlash (t.getLast ht) = false) :
    Trimmed (s ++ t) := by
  refine ⟨?_, by simp [hs]⟩
  rw [normalizePath_eq_self_iff]
  intro h
  rw [List.head_append_of_ne_nil hs, List.getLast_append_of_ne_nil h ht]
  exact ⟨hhead, hlast⟩

theorem Trimmed.head {s : Text} (hs : Trimmed s) :
    isSpace (s.head hs.2) = false ∧ isSlash (s.head hs.2) = false :=
  ((normalizePath_eq_self_iff s).mp hs.1 hs.2).1

theorem Trimmed.last {s : Text} (hs : Trimmed s) :
    isSpace (s.getLast hs.2) = false ∧ isSlash (s.getLast hs.2) = false :=
  ((normalizePath_eq_self_iff s).mp hs.1 hs.2).2

theorem folderPathFromPlaceholder_of_normalized {folder : Text}
    (h : normalizePath (folder ++ placeholderSuffix) = folder ++ placeholderSuffix) :
    folderPathFromPlaceholder (folder ++ placeholderSuffix) = folder := by
  have hself : stripSlash (strip (folder ++ placeholderSuffix)) =
      folder ++ placeholderSuffix := h
  have hne : folder ++ placeholderSuffix ≠ folderPlaceholderName := by
    intro heq
    have hlen := congrArg List.length heq
    simp [placeholderSuffix] at hlen
    omega
  simp [folderPathFromPlaceholder, hself, hne]

theorem folderPathFromPlaceholder_append {folder : Text} (h : Trimmed folder) :
    folderPathFromPlaceholder (folder ++ placeholderSuffix) = folder :=
  folderPathFromPlaceholder_of_normalized
    (trimmed_append h.2 (by decide) h.head (by decide)).1

theorem folderPathFromPlaceholder_length_le (name : Text) :
    (folderPathFromPlaceholder name).length ≤ name.length := by
  have hle : (stripSlash (strip name)).length ≤ name.length :=
    ((trim_isInfix isSlash _).trans (trim_isInfix isSpace name)).length_le
  simp only [folderPathFromPlaceholder]
  split
  · exact Nat.zero_le _
  · split
    · exact (List.length_take_le' _ _).trans hle
    · exact hle

/-! ## MIME types -/

def octetStream : Text :=
  ['a', 'p', 'p', 'l', 'i', 'c', 'a', 't', 'i', 'o', 'n', '/',
    'o', 'c', 't', 'e', 't', '-', 's', 't', 'r', 'e', 'a', 'm']

def cleanedMime (env : Env) (value : Text) : Text :=
  env.lower (strip (value.takeWhile (· ≠ ';')))

def guessMimeType (env : Env) (filename : Text) : Text :=
  (env.guessType filename).getD octetStream

def normalizeMimeType (env : Env) (value : Option Text) (filename : Text) : Text :=
  let cleaned := cleanedMime env (value.getD [])
  if value.getD [] ≠ [] ∧ cleaned ≠ [] ∧ cleaned ≠ octetStream then cleaned
  else guessMimeType env filename

/-- Exact entries or prefix wildcards (`image/*`); an empty list permits every type. -/
def mimeAllowed (env : Env) (mimeType : Text) (allowed : List Text) : Bool :=
  if allowed = [] then true
  else
    let mime := cleanedMime env mimeType
    allowed.any fun entry =>
      let pattern := env.lower (strip entry)
      if pattern = [] then false
      else if ['/', '*'] <:+ pattern then decide (pattern.dropLast <+: mime)
      else decide (mime = pattern)

/-! ## Numerals -/

def decimalZeros : List Nat :=
  [0x30, 0x660, 0x6f0, 0x7c0, 0x966, 0x9e6, 0xa66, 0xae6, 0xb66, 0xbe6, 0xc66, 0xce6, 0xd66,
    0xde6, 0xe50, 0xed0, 0xf20, 0x1040, 0x1090, 0x17e0, 0x1810, 0x1946, 0x19d0, 0x1a80,
    0x1a90, 0x1b50, 0x1bb0, 0x1c40, 0x1c50, 0xa620, 0xa8d0, 0xa900, 0xa9d0, 0xa9f0, 0xaa50,
    0xabf0, 0xff10, 0x104a0, 0x10d30, 0x10d40, 0x11066, 0x110f0, 0x11136, 0x111d0, 0x112f0,
    0x11450, 0x114d0, 0x11650, 0x116c0, 0x116d0, 0x116da, 0x11730, 0x118e0, 0x11950, 0x11bf0,
    0x11c50, 0x11d50, 0x11da0, 0x11f50, 0x16130, 0x16a60, 0x16ac0, 0x16b50, 0x16d70, 0x1ccf0,
    0x1d7ce, 0x1d7d8, 0x1d7e2, 0x1d7ec, 0x1d7f6, 0x1e140, 0x1e2f0, 0x1e4f0, 0x1e5f1, 0x1e950,
    0x1fbf0]

def decimalDigit? (c : Char) : Option Nat :=
  (decimalZeros.find? fun first => decide (first ≤ c.toNat ∧ c.toNat < first + 10)).map
    fun first => c.toNat - first

/-- `int` reads every space beyond ASCII as a blank and every digit as the ASCII one. -/
def asciiNumeral (c : Char) : Char :=
  if c.toNat < 127 then c
  else if isSpace c then ' '
  else (decimalDigit? c).elim '?' hexChar

/-- The blanks of C: `int` skips them at the ends, and no other character `str.strip` removes. -/
def isBlank (c : Char) : Bool := c == ' ' || (9 ≤ c.toNat && c.toNat ≤ 13)

def numeral (s : Text) : Text := trim isBlank (s.map asciiNumeral)

/-! ## Ids as text -/

def decimal (n : Nat) : Text := Nat.toDigits 10 n

theorem decimal_injective : Function.Injective decimal := by
  intro m n h
  have hvalue := congrArg (fun digits => Nat.ofDigitChars 10 digits 0) h
  simpa [decimal] using hvalue

def uuidText (id : UUID) : Text :=
  let digits := hexText 32 id
  List.intercalate ['-']
    [digits.take 8, (digits.drop 8).take 4, (digits.drop 12).take 4,
      (digits.drop 16).take 4, digits.drop 20]

def removeInfix (pat : Text) : Nat → Text → Text
  | _, [] => []
  | skip + 1, _ :: s => removeInfix pat skip s
  | 0, c :: s =>
      if pat <+: c :: s then removeInfix pat (pat.length - 1) s
      else c :: removeInfix pat 0 s

/-- `int(s, 16)` on texts without a minus sign. -/
def hexInt? (s : Text) : Option Nat :=
  let s := numeral s
  let s := if ['+'] <+: s then s.drop 1 else s
  let marked := ['0', 'x'] <+: s ∨ ['0', 'X'] <+: s
  let s := if marked then s.drop 2 else s
  let s := if marked ∧ ['_'] <+: s then s.drop 1 else s
  let groups := s.splitOn '_'
  if [] ∈ groups then none else hexValue? groups.flatten

def uuidOfText (text : Text) : Option UUID :=
  let hex := removeInfix ['u', 'r', 'n', ':'] 0 text
  let hex := removeInfix ['u', 'u', 'i', 'd', ':'] 0 hex
  let hex := trim (fun c => c == '{' || c == '}') hex
  let hex := hex.filter (· != '-')
  if hex.length = 32 then hexInt? hex else none

theorem uuidText_filter (id : UUID) :
    (uuidText id).filter (· != '-') = hexText 32 id := by
  have hdigits : ∀ s : Text, (∀ c ∈ s, c ∈ hexText 32 id) →
      s.filter (· != '-') = s := by
    intro s hs
    rw [List.filter_eq_self]
    intro c hc
    have hchar := hexText_chars 32 id c (hs c hc)
    have : ∀ c ∈ hexChars, (c != '-') = true := by simp [hexChars]
    exact this c hchar
  set digits := hexText 32 id with hset
  have htake : ∀ k n, ((digits.drop k).take n).filter (· != '-') =
      (digits.drop k).take n := fun k n =>
    hdigits _ fun c hc => List.mem_of_mem_drop (List.mem_of_mem_take hc)
  have hfirst := htake 0 8
  have hlast := hdigits (digits.drop 20) fun c hc => List.mem_of_mem_drop hc
  simp only [List.drop_zero] at hfirst
  simp only [uuidText, ← hset, List.intercalate, List.intersperse, List.flatten_cons,
    List.flatten_nil, List.filter_append, List.append_nil, hfirst, htake, hlast]
  have hdash : List.filter (fun c : Char => c != '-') ['-'] = [] := by decide
  simp only [hdash, List.nil_append]
  have hsplit : ∀ k n, (digits.drop k).take n ++ digits.drop (k + n) = digits.drop k := by
    intro k n
    rw [← List.drop_drop, List.take_append_drop]
  rw [hsplit 16 4, hsplit 12 4, hsplit 8 4]
  exact List.take_append_drop 8 digits

theorem uuidText_injective : Function.Injective uuidText := by
  intro a b h
  have hhex : hexText 32 a = hexText 32 b := by
    rw [← uuidText_filter a, ← uuidText_filter b, h]
  have hvalue := congrArg hexValue? hhex
  simpa using hvalue

theorem slash_not_mem_uuidText (id : UUID) : '/' ∉ uuidText id := by
  intro h
  have hmem : '/' ∈ (uuidText id).filter (· != '-') := by
    simp [h]
  rw [uuidText_filter] at hmem
  exact absurd (hexText_chars 32 id '/' hmem) (by decide)

end StorageService.Storage
