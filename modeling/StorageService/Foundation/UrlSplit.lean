import StorageService.Foundation.IpAddress

/-!
# URLs

`urlparse` of `urllib.parse`: the parts of a URL, the checks on its host, and
host name and port as they are read from the network location.
-/

namespace StorageService.Foundation

structure Unicode where
  lower : Text → Text
  nfkc : Text → Text
  isDigit : Char → Bool
  lower_nil : lower [] = []
  /-- Nothing else becomes a bracket in small letters. -/
  lower_bracket : ∀ s, (lower s).head? = some '[' → s.head? = some '['
  isDigit_ascii : ∀ c : Char, c.toNat < 128 → isDigit c = c.isDigit

/-! ## Cutting texts -/

def before (sep : Char) (s : Text) : Text := s.takeWhile fun c => decide (c ≠ sep)

def after (sep : Char) (s : Text) : Text := (s.dropWhile fun c => decide (c ≠ sep)).drop 1

def afterLast (sep : Char) (s : Text) : Text := s.rtakeWhile fun c => decide (c ≠ sep)

/-! ## The network location -/

def checkBracketedHost (hostname : Text) : Bool :=
  if hostname.head? = some 'v' then
    let rest := hostname.drop 1
    let address := rest.dropWhile fun c => (hexDigit? c).isSome
    rest.head?.any (fun c => (hexDigit? c).isSome) && address.head? == some '.' &&
      decide (1 < address.length) && !address.contains '\n'
  else
    match IpAddress.parse hostname with
    | some (.v6 _ _) => true
    | _ => false

def checkBracketedNetloc (netloc : Text) : Bool :=
  let hostinfo := afterLast '@' netloc
  if hostinfo.contains '[' then
    let bracketed := after '[' hostinfo
    let port := after ']' bracketed
    decide (before '[' hostinfo = []) && (port.isEmpty || port.head? == some ':') &&
      checkBracketedHost (before ']' bracketed)
  else checkBracketedHost (before ':' hostinfo)

/-- The host is written in characters that do not become others in a name. -/
def checkNetloc (unicode : Unicode) (netloc : Text) : Bool :=
  let n := netloc.filter fun c => !List.contains ['@', ':', '#', '?'] c
  let normal := unicode.nfkc n
  netloc.all (fun c => decide (c.toNat < 128)) || decide (n = normal) ||
    !normal.any fun c => List.contains ['/', '?', '#', '@', ':'] c

/-! ## The parts of a URL -/

structure ParseResult where
  scheme : Text
  netloc : Text
  path : Text
  query : Text
  deriving DecidableEq, Repr

def inScheme (c : Char) : Bool := c.isAlphanum || List.contains ['+', '-', '.'] c

def splitScheme (unicode : Unicode) (url : Text) : Text × Text :=
  let scheme := before ':' url
  if url.contains ':' && scheme.head?.any Char.isAlpha && scheme.all inScheme then
    (unicode.lower scheme, after ':' url)
  else ([], url)

def splitNetloc (url : Text) : Text × Text :=
  let isHostChar := fun c => !List.contains ['/', '?', '#'] c
  if ['/', '/'] <+: url then ((url.drop 2).takeWhile isHostChar, (url.drop 2).dropWhile isHostChar)
  else ([], url)

def bracketsAccepted (netloc : Text) : Bool :=
  if netloc.contains '[' && netloc.contains ']' then checkBracketedNetloc netloc
  else !netloc.contains '[' && !netloc.contains ']'

def usesParams : List Text :=
  ["", "ftp", "hdl", "prospero", "http", "https", "shttp", "rtsp", "rtsps", "rtspu", "sip",
    "sips", "mms", "sftp", "tel"].map String.toList

def withoutParams (path : Text) : Text :=
  let last := afterLast '/' path
  path.take (path.length - last.length) ++ before ';' last

/-- `urlparse`; nothing where it raises a `ValueError`. -/
def urlparse (unicode : Unicode) (url : Text) : Option ParseResult :=
  let url := url.dropWhile fun c => decide (c.toNat ≤ 0x20)
  let url := url.filter fun c => !List.contains ['\t', '\r', '\n'] c
  let (scheme, url) := splitScheme unicode url
  let (netloc, url) := splitNetloc url
  let url := before '#' url
  let path := before '?' url
  if bracketsAccepted netloc && checkNetloc unicode netloc then
    some
      { scheme := scheme
        netloc := netloc
        path := if usesParams.contains scheme then withoutParams path else path
        query := after '?' url }
  else none

namespace ParseResult

def hostinfo (parsed : ParseResult) : Text × Text :=
  let hostinfo := afterLast '@' parsed.netloc
  if hostinfo.contains '[' then
    let bracketed := after '[' hostinfo
    (before ']' bracketed, after ':' (after ']' bracketed))
  else (before ':' hostinfo, after ':' hostinfo)

/-- Empty where the source has `None`; the name of a scope is kept in its case. -/
def hostname (unicode : Unicode) (parsed : ParseResult) : Text :=
  let name := parsed.hostinfo.1
  if name = [] then []
  else unicode.lower (before '%' name) ++ name.dropWhile fun c => decide (c ≠ '%')

def port (parsed : ParseResult) : Option (Option Nat) :=
  let text := parsed.hostinfo.2
  if text = [] then some none
  else if text.all Char.isDigit ∧ text.length ≤ 4300 ∧ Nat.ofDigitChars 10 text 0 ≤ 65535 then
    some (some (Nat.ofDigitChars 10 text 0))
  else none

end ParseResult

end StorageService.Foundation
