import StorageService.Foundation.Pattern
import StorageService.Foundation.Regex
import StorageService.Storage.Names

/-!
# Stored error messages

The part of `scheduled_jobs.py` that shortens and cleans the text of an
exception: the text becomes one line, six substitutions run over it one after
the other, and what is too long is cut.
-/

namespace StorageService.Actions

open StorageService.Foundation
open StorageService.Storage

def singleQuote : Char := Char.ofNat 39

def doubleQuote : Char := Char.ofNat 34

/-- Blanks, quotes and angle brackets, at which the patterns end a URL. -/
def endsUrl (c : Char) : Bool :=
  isSpace c || c == singleQuote || c == doubleQuote || c == '<' || c == '>'

def isSchemePart (c : Char) : Bool := c.isAlphanum || c == '+' || c == '.' || c == '-'

def startsQuery (c : Char) : Bool := c == '?' || c == '#'

def schemeEnd : Text := [':', '/', '/']

def filtered : Text := ['[', 'F', 'i', 'l', 't', 'e', 'r', 'e', 'd', ']']

/-! ## The patterns -/

open Regex

/-- A word in small letters under `(?i)`. -/
def wordIgnoringCase (text : Text) : Regex :=
  .seqs (text.map fun c => .char fun d => ignoreCase d == c)

def urlQueryRe : Rule where
  kept := .seqs [.boundary, .char Char.isAlpha, .many isSchemePart, .literal schemeEnd,
    .many fun c => !(endsUrl c || startsQuery c)]
  dropped := .seq (.char startsQuery) (.many fun c => !endsUrl c)
  replacement := []
  consumes := rfl

def isUserPart (c : Char) : Bool := !(endsUrl c || c == '/' || c == '@')

def urlUserinfoRe : Rule where
  kept := .seqs [.boundary, .char Char.isAlpha, .many isSchemePart, .literal schemeEnd]
  dropped := .seq (.atLeast isUserPart 1) (.char fun c => c == '@')
  replacement := []
  consumes := rfl

/-- `[A-Za-z0-9._~+/=-]` under `(?i)` -/
def isCredentialPart (c : Char) : Bool :=
  (ignoreCase c).isAlphanum || ['.', '_', '~', '+', '/', '=', '-'].contains (ignoreCase c)

def bearerRe : Rule where
  kept := .seqs [.boundary,
    .alt (wordIgnoringCase ['b', 'e', 'a', 'r', 'e', 'r'])
      (wordIgnoringCase ['b', 'a', 's', 'i', 'c'])]
  dropped := .seq (.atLeast isSpace 1) (.atLeast isCredentialPart 8)
  replacement := ' ' :: filtered
  consumes := rfl

def isJwtPart (c : Char) : Bool := c.isAlphanum || c == '_' || c == '-'

def jwtRe : Rule where
  kept := .empty
  dropped := .seqs [.boundary, .literal ['e', 'y', 'J'], .atLeast isJwtPart 5,
    .char fun c => c == '.', .atLeast isJwtPart 5, .char fun c => c == '.',
    .atLeast isJwtPart 5, .boundary]
  replacement := filtered
  consumes := rfl

def secretNameRe : Regex :=
  [wordIgnoringCase ['a', 'c', 'c', 'e', 's', 's', '_', 't', 'o', 'k', 'e', 'n'],
    wordIgnoringCase ['r', 'e', 'f', 'r', 'e', 's', 'h', '_', 't', 'o', 'k', 'e', 'n'],
    .seqs [wordIgnoringCase ['a', 'p', 'i'], .optional (.char fun c => c == '_' || c == '-'),
      wordIgnoringCase ['k', 'e', 'y']],
    wordIgnoringCase ['k', 'e', 'y'],
    wordIgnoringCase ['s', 'e', 'c', 'r', 'e', 't'],
    wordIgnoringCase ['p', 'a', 's', 's', 'w', 'o', 'r', 'd'],
    wordIgnoringCase ['p', 'a', 's', 's', 'w', 'd'],
    wordIgnoringCase ['p', 'w', 'd'],
    wordIgnoringCase ['a', 'u', 't', 'h', 'o', 'r', 'i', 'z', 'a', 't', 'i', 'o', 'n'],
    wordIgnoringCase ['c', 'o', 'd', 'e'],
    wordIgnoringCase ['s', 't', 'a', 't', 'e'],
    wordIgnoringCase ['s', 'i', 'g', 'n', 'a', 't', 'u', 'r', 'e'],
    wordIgnoringCase ['s', 'i', 'g']].foldl .alt
      (wordIgnoringCase ['t', 'o', 'k', 'e', 'n'])

def isSecretPart (c : Char) : Bool := !(isSpace c || c == ',' || c == ';' || c == '&')

def secretValueRe : Regex :=
  .alt
    (.alt
      (.seqs [.char fun c => c == doubleQuote, .many fun c => c != doubleQuote,
        .char fun c => c == doubleQuote])
      (.seqs [.char fun c => c == singleQuote, .many fun c => c != singleQuote,
        .char fun c => c == singleQuote]))
    (.atLeast isSecretPart 1)

def secretPairRe : Rule where
  kept := .seqs [.boundary, secretNameRe, .many isSpace, .char fun c => c == '=' || c == ':',
    .many isSpace]
  dropped := secretValueRe
  replacement := filtered
  consumes := rfl

def isHexDigit (c : Char) : Bool :=
  c.isDigit || ['a', 'b', 'c', 'd', 'e', 'f'].contains c.toLower

def longHexRe : Rule where
  kept := .empty
  dropped := .seqs [.boundary, .atLeast isHexDigit 32, .boundary]
  replacement := filtered
  consumes := rfl

/-! ## The message -/

def errorMessageMax : Nat := 300

/-- `text.split()` -/
def textWords (text : Text) : List Text := (text.splitOnP isSpace).filter (· ≠ [])

def oneLine (text : Text) : Text := List.intercalate [' '] (textWords text)

def shortened (value : Text) : Text :=
  if errorMessageMax < value.length then value.take (errorMessageMax - 1) ++ ['…'] else value

def sanitizeErrorMessage (w : WordClass) (text : Text) : Text :=
  let value := oneLine text
  let value := urlQueryRe.sub w value
  let value := urlUserinfoRe.sub w value
  let value := bearerRe.sub w value
  let value := jwtRe.sub w value
  let value := secretPairRe.sub w value
  let value := longHexRe.sub w value
  shortened value

structure JobError where
  errorKey : Text
  className : Text
  text : Text

def describeError (w : WordClass) (error : JobError) : Text × Text × Text :=
  (error.errorKey, error.className.take 128,
    sanitizeErrorMessage w (if error.text = [] then error.className else error.text))

end StorageService.Actions
