import StorageService.Foundation.PercentEncoding
import StorageService.Storage.Endpoints

/-!
# Links of the WebDAV answers

The hrefs that the answers carry and the two ways by which they come back: as the
path of a request, and in a Destination header.
-/

namespace StorageService.Webdav

open StorageService.Foundation
open StorageService.Storage

def href (bucket objectPath : Text) (collection : Bool) : Text :=
  let parts := [['/', 'd', 'a', 'v']] ++
    (if bucket = [] then [] else [quote bucket]) ++
    (if objectPath = [] then []
      else ((objectPath.splitOn '/').filter fun seg => decide (seg ≠ [])).map quote)
  let href := List.intercalate ['/'] parts
  if collection && !decide (href.getLast? = some '/') then href ++ ['/'] else href

/--
What the URL patterns `dav/` and `^(?P<path>.*)$` capture of a path that is decoded; the
dot stands for no line feed.
-/
def routedPath (path : Text) : Option Text :=
  if ['/', 'd', 'a', 'v', '/'] <+: path ∧ '\n' ∉ path.drop 5 then some (path.drop 5) else none

/-! ## `urlsplit(url).path` -/

def isSchemeChar (c : Char) : Bool := c.isAlphanum || c == '+' || c == '-' || c == '.'

def afterScheme (url : Text) : Text :=
  let scheme := url.takeWhile fun c => decide (c ≠ ':')
  if url.contains ':' && (scheme.head?.any Char.isAlpha && scheme.all isSchemeChar) then
    url.drop (scheme.length + 1)
  else url

/-- `_splitnetloc`; the checks that follow pass a host of Latin-1 without brackets. -/
def afterNetloc (url : Text) : Text :=
  if ['/', '/'] <+: url then (url.drop 2).dropWhile fun c => !List.contains ['/', '?', '#'] c
  else url

def urlPath (url : Text) : Text :=
  let url := url.dropWhile fun c => decide (c.toNat ≤ 0x20)
  let url := url.filter fun c => !List.contains ['\t', '\r', '\n'] c
  ((afterNetloc (afterScheme url)).takeWhile fun c => decide (c ≠ '#')).takeWhile
    fun c => decide (c ≠ '?')

/-- The handlers with the functions of `urllib.parse`. -/
def withUrllib (env : Env) : Env := { env with unquote := unquote, urlPath := urlPath }

/-! ## Following a link -/

def isHostChar (c : Char) : Bool :=
  decide (c.toNat < 256) && !List.contains ['/', '?', '#', '[', ']', '\t', '\r', '\n'] c

def Origin (origin : Text) : Prop :=
  ∃ scheme netloc, origin = scheme ++ ':' :: '/' :: '/' :: netloc ∧
    scheme.head?.any Char.isAlpha = true ∧ scheme.all isSchemeChar = true ∧
    netloc.all isHostChar = true

structure LeadsBack (env : Env) (bucket name link : Text) : Prop where
  request : ∃ tail, routedPath (unquote link) = some tail ∧
    parsePath (withUrllib env) tail = (bucket, name)
  destination : ∀ origin, origin = [] ∨ Origin origin →
    ∃ tail, destinationDavPath (withUrllib env) (origin ++ link) = some tail ∧
      parsePath (withUrllib env) tail = (bucket, name)

end StorageService.Webdav
