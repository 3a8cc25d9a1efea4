import StorageService.Storage.Canonical
import StorageService.Storage.System
import StorageService.Webdav.Links

/-!
# Following WebDAV links

A link is encoded once.  The URL configuration and `_destination_dav_path` decode it
once, and `_parse_path` decodes what they return again, so a name comes back unless it
contains what looks like an escape itself.
-/

namespace StorageService.Results

open StorageService.Foundation
open StorageService.Storage
open StorageService.Webdav

section Links

variable {env : Env} {bucket name : Text}

/-! ## The characters of a link -/

theorem href_eq (hbucket : bucket ≠ []) (hname : Canonical name) (collection : Bool) :
    ∃ slash : Text, (slash = [] ∨ collection = true ∧ slash = ['/']) ∧
      href bucket name collection =
        ['/', 'd', 'a', 'v', '/'] ++ (quote bucket ++ '/' ::
          (List.intercalate ['/'] ((name.splitOn '/').map quote) ++ slash)) := by
  have hkept : (name.splitOn '/').filter (fun seg => decide (seg ≠ [])) = name.splitOn '/' := by
    rw [List.filter_eq_self]
    intro seg hseg
    exact decide_eq_true ((canonical_iff.mp hname).2 seg hseg).1
  have hparts : (name.splitOn '/').map quote ≠ [] := by
    simp
  have hjoined : List.intercalate ['/'] ([['/', 'd', 'a', 'v']] ++ [quote bucket] ++
      (name.splitOn '/').map quote) = ['/', 'd', 'a', 'v', '/'] ++ (quote bucket ++ '/' ::
        List.intercalate ['/'] ((name.splitOn '/').map quote)) := by
    rw [intercalate_append_ne_nil (by simp) hparts]
    simp [List.intercalate_cons_cons]
  simp only [href, if_neg hbucket, if_neg hname.ne_nil, hkept, hjoined]
  split
  · rename_i hslash
    rw [Bool.and_eq_true] at hslash
    exact ⟨['/'], .inr ⟨hslash.1, rfl⟩, by simp⟩
  · exact ⟨[], .inl rfl, by simp⟩

def isLinkChar (c : Char) : Bool := alwaysSafe.contains c || c == '%' || c == '/'

theorem quoteByte_isLinkChar {b : Nat} (hb : b < 256) : ∀ c ∈ quoteByte b, isLinkChar c = true := by
  have hhex : ∀ d < 16, isLinkChar (upperHexChar d) = true := by decide
  intro c hc
  unfold quoteByte at hc
  split at hc
  · rename_i hsafe
    rw [List.mem_singleton.mp hc, isLinkChar, hsafe]
    rfl
  · simp only [List.mem_cons, List.not_mem_nil, or_false] at hc
    rcases hc with rfl | rfl | rfl
    · decide
    · exact hhex _ (by omega)
    · exact hhex _ (by omega)

theorem quote_isLinkChar (s : Text) : ∀ c ∈ quote s, isLinkChar c = true := by
  intro c hc
  obtain ⟨d, -, hd⟩ := List.mem_flatMap.mp hc
  obtain ⟨b, hb, hbyte⟩ := List.mem_flatMap.mp hd
  exact quoteByte_isLinkChar (encodeUtf8_lt d b hb) c hbyte

theorem href_isLinkChar (hbucket : bucket ≠ []) (hname : Canonical name) (collection : Bool) :
    ∀ c ∈ href bucket name collection, isLinkChar c = true := by
  obtain ⟨slash, hslash, heq⟩ := href_eq hbucket hname collection
  have hfront : ∀ c ∈ ['/', 'd', 'a', 'v', '/'], isLinkChar c = true :=
    List.all_eq_true.mp (by decide)
  intro c hc
  rw [heq] at hc
  simp only [List.mem_append, List.mem_cons (a := c)] at hc
  rcases hc with hc | hc | rfl | hc | hc
  · exact hfront c (by simpa using hc)
  · exact quote_isLinkChar bucket c hc
  · decide
  · rcases mem_intercalate hc with rfl | ⟨seg, hseg, hmem⟩
    · decide
    · obtain ⟨part, -, rfl⟩ := List.mem_map.mp hseg
      exact quote_isLinkChar part c hmem
  · rcases hslash with rfl | ⟨-, rfl⟩
    · cases hc
    · rw [List.mem_singleton.mp hc]
      decide

/-! ## Decoding a link -/

theorem unquote_segments (segs : List Text) (rest : Text) :
    unquote (List.intercalate ['/'] (segs.map quote) ++ rest) =
      List.intercalate ['/'] segs ++ unquote rest := by
  induction segs with
  | nil => rfl
  | cons first segs ih =>
      cases segs with
      | nil => simpa using unquote_quote_append first rest
      | cons second segs =>
          rw [List.map_cons] at ih
          simp only [List.map_cons, List.intercalate_cons_cons, List.append_assoc,
            List.cons_append, List.nil_append] at ih ⊢
          rw [unquote_quote_append, unquote_cons (by decide) (by decide), ih]

theorem unquote_href (hbucket : bucket ≠ []) (hname : Canonical name) (collection : Bool) :
    ∃ slash : Text, (slash = [] ∨ collection = true ∧ slash = ['/']) ∧
      unquote (href bucket name collection) =
        ['/', 'd', 'a', 'v', '/'] ++ (bucket ++ '/' :: (name ++ slash)) := by
  obtain ⟨slash, hslash, heq⟩ := href_eq hbucket hname collection
  have hsame : unquote slash = slash := by
    rcases hslash with rfl | ⟨-, rfl⟩
    · rfl
    · decide
  refine ⟨slash, hslash, ?_⟩
  rw [heq]
  simp only [List.cons_append, List.nil_append]
  rw [unquote_cons (by decide) (by decide), unquote_cons (by decide) (by decide),
    unquote_cons (by decide) (by decide), unquote_cons (by decide) (by decide),
    unquote_cons (by decide) (by decide), unquote_quote_append,
    unquote_cons (by decide) (by decide), unquote_segments, List.intercalate_splitOn, hsame]

theorem not_escaped_append_slash {s slash : Text} (hslash : slash = [] ∨ slash = ['/'])
    (h : ¬Escaped s) : ¬Escaped (s ++ slash) := by
  rcases hslash with rfl | rfl
  · rwa [List.append_nil]
  · rintro ⟨front, c, a, b, back, heq, hescape⟩
    rcases List.eq_nil_or_concat back with rfl | ⟨back', d, rfl⟩
    · have hsplit : front ++ c :: a :: [b] = (front ++ [c, a]) ++ [b] := by simp
      rw [hsplit] at heq
      obtain ⟨-, hlast⟩ := List.append_inj' heq rfl
      obtain rfl : b = '/' := by simpa using hlast.symm
      have hdigit : hexDigit? '/' = none := by decide
      simp only [escaped?, hdigit] at hescape
      split at hescape
      · split at hescape <;> simp_all
      · contradiction
    · have hsplit : front ++ c :: a :: b :: back'.concat d =
          (front ++ c :: a :: b :: back') ++ [d] := by simp
      rw [hsplit] at heq
      obtain ⟨hs, -⟩ := List.append_inj' heq rfl
      exact h ⟨front, c, a, b, back', hs, hescape⟩

/-! ## Parsing the path -/

theorem slashFree_path (hbucket : bucket ≠ []) (hslash : '/' ∉ bucket) (hname : Canonical name) :
    SlashFree (bucket ++ '/' :: name) := by
  obtain ⟨hne, -, hlast⟩ := hname.slashFree
  refine ⟨by simp, ?_, ?_⟩
  · rw [List.head_append_of_ne_nil hbucket, isSlash, beq_eq_false_iff_ne]
    exact fun h => hslash (h ▸ List.head_mem hbucket)
  · rwa [List.getLast_append_of_ne_nil _ (by simp), List.getLast_cons hne]

theorem parsePath_eq (env : Env) (hbucket : bucket ≠ []) (hslash : '/' ∉ bucket)
    (hname : Canonical name) {slash : Text} (htrail : slash = [] ∨ slash = ['/'])
    (hescaped : ¬Escaped (bucket ++ '/' :: name)) :
    parsePath (withUrllib env) (bucket ++ '/' :: (name ++ slash)) = (bucket, name) := by
  have hread : unquote (bucket ++ '/' :: (name ++ slash)) = bucket ++ '/' :: (name ++ slash) := by
    have hsplit : bucket ++ '/' :: (name ++ slash) = (bucket ++ '/' :: name) ++ slash := by simp
    rw [hsplit]
    exact unquote_of_not_escaped (not_escaped_append_slash htrail hescaped)
  have hstrip : stripSlash (bucket ++ '/' :: (name ++ slash)) = bucket ++ '/' :: name := by
    have hsplit : bucket ++ '/' :: (name ++ slash) = (bucket ++ '/' :: name) ++ slash := by simp
    rw [hsplit, stripSlash_append_slash (slashFree_path hbucket hslash hname) htrail]
  have hkept : ∀ c ∈ bucket, decide (c ≠ '/') = true := by
    intro c hc
    have hne : c ≠ '/' := fun h => hslash (h ▸ hc)
    simpa using hne
  have hparts : partitionSlash (bucket ++ '/' :: name) = (bucket, name) := by
    rw [partitionSlash, List.takeWhile_append_of_pos hkept, List.dropWhile_append_of_pos hkept]
    simp
  have hparse : ∀ path, parsePath (withUrllib env) path =
      ((partitionSlash (stripSlash (unquote path))).1,
        stripSlash (partitionSlash (stripSlash (unquote path))).2) := fun _ => rfl
  rw [hparse, hread, hstrip, hparts, hname.stripSlash_eq]

theorem length_le_of_parsePath {path : Text} (hname : name ≠ [])
    (h : parsePath (withUrllib env) path = (bucket, name)) :
    bucket.length + 1 + name.length ≤ (unquote path).length := by
  set cleaned := stripSlash (unquote path) with hcleaned
  obtain ⟨rfl, rfl⟩ : (partitionSlash cleaned).1 = bucket ∧
      stripSlash (partitionSlash cleaned).2 = name := by
    exact Prod.mk.inj h
  have hshorter : ∀ s : Text, (stripSlash s).length ≤ s.length :=
    fun s => (trim_isInfix isSlash s).length_le
  have hle : cleaned.length ≤ (unquote path).length := hshorter _
  have hrest := hshorter (partitionSlash cleaned).2
  have hsplit : (cleaned.takeWhile (· ≠ '/')).length + (cleaned.dropWhile (· ≠ '/')).length =
      cleaned.length := by
    rw [← List.length_append, List.takeWhile_append_dropWhile]
  have hpos := List.length_pos_iff.mpr hname
  simp only [partitionSlash, List.length_drop] at hrest hpos ⊢
  omega

/-! ## The Destination header -/

theorem isLinkChar_facts {c : Char} (h : isLinkChar c = true) :
    0x20 < c.toNat ∧ isSpace c = false ∧ (c ≠ ':' ∧ c ≠ '#' ∧ c ≠ '?') ∧
      ['\t', '\r', '\n'].contains c = false := by
  have hall : (alwaysSafe ++ ['%', '/']).all (fun c => decide (0x20 < c.toNat ∧
      isSpace c = false ∧ (c ≠ ':' ∧ c ≠ '#' ∧ c ≠ '?') ∧
        ['\t', '\r', '\n'].contains c = false)) = true := by
    decide
  have hmem : c ∈ alwaysSafe ++ ['%', '/'] := by simpa [isLinkChar, or_assoc] using h
  exact of_decide_eq_true (List.all_eq_true.mp hall c hmem)

theorem isAlpha_facts {c : Char} (h : c.isAlpha = true) : 0x20 < c.toNat ∧ isSpace c = false := by
  have hbounds := toNat_of_isAlpha h
  refine ⟨by omega, ?_⟩
  simp only [isSpace, Bool.or_eq_false_iff, Bool.and_eq_false_iff, decide_eq_false_iff_not,
    beq_eq_false_iff_ne]
  omega

theorem isSchemeChar_facts {c : Char} (h : isSchemeChar c = true) :
    c ≠ ':' ∧ ['\t', '\r', '\n'].contains c = false := by
  have hnot : ∀ d ∈ [':', '\t', '\r', '\n'], isSchemeChar d = false := by
    simp only [List.forall_mem_cons]
    exact ⟨by decide, by decide, by decide, by decide, List.forall_mem_nil _⟩
  have hne : ∀ d ∈ [':', '\t', '\r', '\n'], c ≠ d := by
    rintro d hd rfl
    rw [hnot c hd] at h
    contradiction
  simp only [List.mem_cons, List.not_mem_nil, or_false, forall_eq_or_imp, forall_eq] at hne
  refine ⟨hne.1, ?_⟩
  simpa using hne.2

theorem afterScheme_origin {scheme : Text} (hletter : scheme.head?.any Char.isAlpha = true)
    (hscheme : scheme.all isSchemeChar = true) (rest : Text) :
    afterScheme (scheme ++ ':' :: rest) = rest := by
  have hcolon : ∀ c ∈ scheme, decide (c ≠ ':') = true := fun c hc =>
    decide_eq_true (isSchemeChar_facts (List.all_eq_true.mp hscheme c hc)).1
  have htake : (scheme ++ ':' :: rest).takeWhile (fun c => decide (c ≠ ':')) = scheme := by
    rw [List.takeWhile_append_of_pos hcolon]
    simp
  have hcontains : (scheme ++ ':' :: rest).contains ':' = true := by simp
  have hsplit : scheme ++ ':' :: rest = (scheme ++ [':']) ++ rest := by simp
  rw [afterScheme, htake, hcontains, hletter, hscheme, if_pos (by decide), hsplit]
  exact List.drop_left' (by simp)

theorem isHostChar_facts {c : Char} (h : isHostChar c = true) :
    ['/', '?', '#'].contains c = false ∧ ['\t', '\r', '\n'].contains c = false := by
  simp only [isHostChar, List.contains_cons, Bool.and_eq_true, Bool.not_eq_true',
    Bool.or_eq_false_iff] at h ⊢
  tauto

theorem afterNetloc_origin {netloc rest : Text}
    (hnetloc : ∀ c ∈ netloc, ['/', '?', '#'].contains c = false) :
    afterNetloc ('/' :: '/' :: (netloc ++ '/' :: rest)) = '/' :: rest := by
  have hkept : ∀ c ∈ netloc, (!List.contains ['/', '?', '#'] c) = true := fun c hc => by
    rw [hnetloc c hc]
    rfl
  rw [afterNetloc, if_pos ⟨_, rfl⟩]
  change (netloc ++ '/' :: rest).dropWhile _ = _
  rw [List.dropWhile_append_of_pos hkept]
  rfl

theorem filter_eq_of_no_breaks {url : Text}
    (h : ∀ c ∈ url, ['\t', '\r', '\n'].contains c = false) :
    url.filter (fun c => !List.contains ['\t', '\r', '\n'] c) = url := by
  rw [List.filter_eq_self]
  intro c hc
  rw [h c hc]
  rfl

theorem takeWhile_link {path : Text} (hpath : ∀ c ∈ path, isLinkChar c = true) :
    (path.takeWhile fun c => decide (c ≠ '#')).takeWhile (fun c => decide (c ≠ '?')) = path := by
  have hfacts : ∀ c ∈ path, c ≠ '#' ∧ c ≠ '?' := fun c hc =>
    (isLinkChar_facts (hpath c hc)).2.2.1.2
  have hhash : path.takeWhile (fun c => decide (c ≠ '#')) = path :=
    List.takeWhile_eq_self_iff.mpr fun c hc => decide_eq_true (hfacts c hc).1
  rw [hhash]
  exact List.takeWhile_eq_self_iff.mpr fun c hc => decide_eq_true (hfacts c hc).2

theorem urlPath_of_path {path : Text} (hpath : ∀ c ∈ path, isLinkChar c = true)
    (hhead : ∃ c rest, path = '/' :: c :: rest ∧ c ≠ '/') : urlPath path = path := by
  obtain ⟨d, rest, hsplit, hd⟩ := hhead
  have hlead : path.dropWhile (fun c => decide (c.toNat ≤ 0x20)) = path := by
    rw [hsplit]
    rfl
  have hfilter := filter_eq_of_no_breaks fun c hc => (isLinkChar_facts (hpath c hc)).2.2.2
  have hcolon : path.contains ':' = false := by
    rw [Bool.eq_false_iff]
    intro hmem
    exact (isLinkChar_facts (hpath _ (List.contains_iff_mem.mp hmem))).2.2.1.1 rfl
  have hscheme : afterScheme path = path := by
    rw [afterScheme]
    simp only [hcolon, Bool.false_and, Bool.false_eq_true, if_false]
  have hnetloc : afterNetloc path = path := by
    rw [afterNetloc, if_neg]
    rw [hsplit]
    simpa [eq_comm] using hd
  simp only [urlPath, hlead, hfilter, hscheme, hnetloc, takeWhile_link hpath]

theorem no_breaks_of_origin {scheme netloc path : Text} (hscheme : scheme.all isSchemeChar = true)
    (hnetloc : netloc.all isHostChar = true)
    (hpath : ∀ c ∈ path, isLinkChar c = true) :
    ∀ c ∈ scheme ++ ':' :: '/' :: '/' :: netloc ++ path,
      ['\t', '\r', '\n'].contains c = false := by
  have hsigns : ∀ c ∈ [':', '/', '/'], ['\t', '\r', '\n'].contains c = false := by
    simp only [List.forall_mem_cons]
    exact ⟨by decide, by decide, by decide, List.forall_mem_nil _⟩
  have hall : ∀ c ∈ scheme ++ [':', '/', '/'] ++ netloc ++ path,
      ['\t', '\r', '\n'].contains c = false := by
    simp only [List.forall_mem_append]
    refine ⟨⟨⟨fun c hc => ?_, hsigns⟩, fun c hc => ?_⟩, fun c hc => ?_⟩
    · exact (isSchemeChar_facts (List.all_eq_true.mp hscheme c hc)).2
    · exact (isHostChar_facts (List.all_eq_true.mp hnetloc c hc)).2
    · exact (isLinkChar_facts (hpath c hc)).2.2.2
  intro c hc
  exact hall c (by simpa using hc)

theorem urlPath_append {origin path : Text} (horigin : origin = [] ∨ Origin origin)
    (hpath : ∀ c ∈ path, isLinkChar c = true)
    (hhead : ∃ c rest, path = '/' :: c :: rest ∧ c ≠ '/') :
    urlPath (origin ++ path) = path := by
  rcases horigin with rfl | ⟨scheme, netloc, rfl, hletter, hscheme, hnetloc⟩
  · exact urlPath_of_path hpath hhead
  · obtain ⟨d, rest, hsplit, -⟩ := hhead
    have hlead : (scheme ++ ':' :: '/' :: '/' :: netloc ++ path).dropWhile
        (fun c => decide (c.toNat ≤ 0x20)) = scheme ++ ':' :: '/' :: '/' :: netloc ++ path := by
      cases scheme with
      | nil => simp at hletter
      | cons first scheme =>
          have hfirst := (isAlpha_facts (by simpa using hletter)).1
          rw [List.cons_append, List.cons_append, List.dropWhile_cons_of_neg]
          simpa using hfirst
    have hfilter := filter_eq_of_no_breaks (no_breaks_of_origin hscheme hnetloc hpath)
    have hhost : ∀ c ∈ netloc, ['/', '?', '#'].contains c = false := fun c hc =>
      (isHostChar_facts (List.all_eq_true.mp hnetloc c hc)).1
    have hafter : afterNetloc (afterScheme (scheme ++ ':' :: '/' :: '/' :: netloc ++ path)) =
        path := by
      rw [List.append_assoc, List.cons_append, afterScheme_origin hletter hscheme, hsplit]
      exact afterNetloc_origin hhost
    simp only [urlPath, hlead, hfilter, hafter, takeWhile_link hpath]

theorem davTail_eq {tail : Text} (hne : tail ≠ []) (hline : '\n' ∉ tail) :
    davTail (['/', 'd', 'a', 'v', '/'] ++ tail) = some tail := by
  have hlast : tail.getLast? ≠ some '\n' := fun h => hline (List.mem_of_getLast? h)
  change davTail ('/' :: 'd' :: 'a' :: 'v' :: '/' :: tail) = _
  rw [davTail]
  simp [hlast, hne, hline]

theorem destinationDavPath_href (env : Env) {origin tail : Text}
    (horigin : origin = [] ∨ Origin origin) (hbucket : bucket ≠ []) (hname : Canonical name)
    {collection : Bool} (htail : tail ≠ []) (hline : '\n' ∉ tail)
    (hread : unquote (href bucket name collection) = ['/', 'd', 'a', 'v', '/'] ++ tail) :
    destinationDavPath (withUrllib env) (origin ++ href bucket name collection) = some tail := by
  have hchars := href_isLinkChar hbucket hname collection
  have hhead : ∃ c rest, href bucket name collection = '/' :: c :: rest ∧ c ≠ '/' := by
    obtain ⟨slash, -, heq⟩ := href_eq hbucket hname collection
    rw [heq]
    exact ⟨_, _, rfl, by decide⟩
  have hpath := urlPath_append horigin hchars hhead
  obtain ⟨c, rest, hlink, -⟩ := hhead
  have hne : href bucket name collection ≠ [] := by simp [hlink]
  have hstrip : strip (origin ++ href bucket name collection) =
      origin ++ href bucket name collection := by
    rw [strip, trim_eq_self_iff]
    intro _
    constructor
    · rcases horigin with rfl | ⟨scheme, netloc, rfl, hletter, -⟩
      · exact (isLinkChar_facts (hchars _ (List.head_mem hne))).2.1
      · cases scheme with
        | nil => simp at hletter
        | cons first scheme => exact (isAlpha_facts (by simpa using hletter)).2
    · rw [List.getLast_append_of_ne_nil _ hne]
      exact (isLinkChar_facts (hchars _ (List.getLast_mem hne))).2.1
  have hraw : origin ++ href bucket name collection ≠ [] := by simp [hne]
  rw [destinationDavPath]
  simp only [hstrip, if_neg hraw, withUrllib, hpath, if_neg hne, hread]
  exact davTail_eq htail hline

/-! ## When a link leads back -/

/-- Without line feeds and escapes in its name an object is found again, as is a folder. -/
theorem leadsBack_of_plain (env : Env) (hbucket : bucket ≠ []) (hslash : '/' ∉ bucket)
    (hname : Canonical name) (hline : '\n' ∉ bucket ++ '/' :: name)
    (hescaped : ¬Escaped (bucket ++ '/' :: name)) (collection : Bool) :
    LeadsBack env bucket name (href bucket name collection) := by
  obtain ⟨slash, htrail, hread⟩ := unquote_href hbucket hname collection
  have htrail' : slash = [] ∨ slash = ['/'] := htrail.imp_right And.right
  have hparse := parsePath_eq env hbucket hslash hname htrail' hescaped
  have htail : bucket ++ '/' :: (name ++ slash) ≠ [] := by simp
  have hline' : '\n' ∉ bucket ++ '/' :: (name ++ slash) := by
    have hsplit : bucket ++ '/' :: (name ++ slash) = (bucket ++ '/' :: name) ++ slash := by simp
    rw [hsplit, List.mem_append, not_or]
    refine ⟨hline, ?_⟩
    rcases htrail' with rfl | rfl <;> decide
  constructor
  · refine ⟨_, ?_, hparse⟩
    rw [routedPath, hread, if_pos]
    · rfl
    · exact ⟨List.prefix_append .., hline'⟩
  · exact fun origin horigin =>
      ⟨_, destinationDavPath_href env horigin hbucket hname htail hline' hread, hparse⟩

/-- A line feed is never routed, and an escape is decoded once too often. -/
theorem plain_of_leadsBack (hbucket : bucket ≠ []) (hname : Canonical name)
    (h : LeadsBack env bucket name (href bucket name false)) :
    '\n' ∉ bucket ++ '/' :: name ∧ ¬Escaped (bucket ++ '/' :: name) := by
  obtain ⟨slash, rfl | ⟨hfalse, -⟩, hread⟩ := unquote_href hbucket hname false
  · obtain ⟨tail, hrouted, hparse⟩ := h.request
    rw [List.append_nil] at hread
    rw [routedPath, hread, Option.ite_none_right_eq_some, Option.some.injEq] at hrouted
    obtain ⟨⟨-, hline⟩, htail⟩ := hrouted
    have hdrop : (['/', 'd', 'a', 'v', '/'] ++ (bucket ++ '/' :: name)).drop 5 =
        bucket ++ '/' :: name := rfl
    rw [hdrop] at hline htail
    refine ⟨hline, fun hescaped => ?_⟩
    have hlt := length_unquote_lt hescaped
    have hle := length_le_of_parsePath hname.ne_nil hparse
    rw [← htail] at hle
    simp only [List.length_append, List.length_cons] at hlt
    omega
  · contradiction

/--
The link of an object leads back to it if and only if neither a line feed nor what
looks like an escape stands in the names.
-/
theorem leadsBack_iff (env : Env) (bucket name : Text) (hbucket : bucket ≠ [])
    (hslash : '/' ∉ bucket) (hname : Canonical name) :
    LeadsBack env bucket name (href bucket name false) ↔
      '\n' ∉ bucket ++ '/' :: name ∧ ¬Escaped (bucket ++ '/' :: name) :=
  ⟨plain_of_leadsBack hbucket hname, fun ⟨hline, hescaped⟩ =>
    leadsBack_of_plain env hbucket hslash hname hline hescaped false⟩

theorem leadsBack_iff_percent :
    LeadsBack (sampleEnv false) companyBucketName
      ['d', 'a', 'v', '/', '1', '0', '0', '%', ' ', 'o', 'k', '?']
      (href companyBucketName
        ['d', 'a', 'v', '/', '1', '0', '0', '%', ' ', 'o', 'k', '?'] false) := by
  have hname : Canonical ['d', 'a', 'v', '/', '1', '0', '0', '%', ' ', 'o', 'k', '?'] := by
    rw [canonical_iff]
    decide
  exact (leadsBack_iff (sampleEnv false) companyBucketName _ (by decide) (by decide) hname).mpr
    ⟨by decide, by decide +kernel⟩

/-- The object `a%41` has a link that leads to `aA`. -/
theorem not_leadsBack :
    ¬∀ (env : Env) (bucket name : Text), bucket ≠ [] → '/' ∉ bucket → Canonical name →
      LeadsBack env bucket name (href bucket name false) := by
  intro h
  have hname : Canonical ['a', '%', '4', '1'] := by
    rw [canonical_iff]
    decide
  have hback := h (sampleEnv false) companyBucketName ['a', '%', '4', '1'] (by decide)
    (by decide) hname
  exact (plain_of_leadsBack (by decide) hname hback).2 (by decide +kernel)

end Links

end StorageService.Results
