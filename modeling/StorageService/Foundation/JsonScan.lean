import StorageService.Foundation.JsonText

/-!
# Where the parts of a JSON text end

A scan keeps track of no more than whether it is inside a quoted text and how many
brackets are open.  Whatever `readValue` takes off a text, the scan passes from
outside to outside at the depth it came from.  It follows that what is cut off an
object's text behind one of its characters is no JSON text, wherever the cut is.
-/

namespace StorageService.Foundation.JsonText

inductive Place where
  | outside
  | inside
  | escaped
  deriving DecidableEq, Repr

/-- Where a scan is, and how many brackets it has seen opened and not closed. -/
abbrev Scan := Place × Nat

def scanBracket (depth : Nat) (c : Char) : Option Nat :=
  if c = '[' ∨ c = '{' then some (depth + 1)
  else if c = ']' ∨ c = '}' then if depth = 0 then none else some (depth - 1)
  else some depth

def scanChar : Scan → Char → Option Scan
  | (.outside, depth), c =>
      if c = '\\' then none
      else if c = '"' then some (.inside, depth)
      else (scanBracket depth c).map fun depth => (.outside, depth)
  | (.inside, depth), c =>
      some (if c = '\\' then .escaped else if c = '"' then .outside else .inside, depth)
  | (.escaped, depth), _ => some (.inside, depth)

def scanText (scan : Scan) (s : Text) : Option Scan := s.foldlM scanChar scan

section Scanning

variable {scan scan' : Scan} {place place' : Place} {depth depth' : Nat} {c : Char} {s t : Text}

theorem scanText_nil : scanText scan [] = some scan := rfl

theorem scanText_cons : scanText scan (c :: s) = (scanChar scan c).bind fun scan' =>
    scanText scan' s := rfl

theorem scanText_append :
    scanText scan (s ++ t) = (scanText scan s).bind fun scan' => scanText scan' t :=
  List.foldlM_append ..

theorem scanBracket_succ (h : scanBracket depth c = some depth') :
    scanBracket (depth + 1) c = some (depth' + 1) := by
  unfold scanBracket at h ⊢
  split
  · rw [if_pos (by assumption)] at h
    rw [← Option.some.inj h]
  · rw [if_neg (by assumption)] at h
    split
    · rw [if_pos (by assumption)] at h
      split at h
      · contradiction
      · rw [if_neg (Nat.succ_ne_zero depth), ← Option.some.inj h]
        congr 1
        omega
    · rw [if_neg (by assumption)] at h
      rw [← Option.some.inj h]

theorem scanChar_succ (h : scanChar (place, depth) c = some (place', depth')) :
    scanChar (place, depth + 1) c = some (place', depth' + 1) := by
  cases place with
  | inside | escaped =>
      have h := Option.some.inj h
      rw [Prod.mk.injEq] at h
      rw [scanChar, h.1, h.2]
  | outside =>
      rw [scanChar] at h ⊢
      split
      · rw [if_pos (by assumption)] at h
        contradiction
      · rw [if_neg (by assumption)] at h
        split
        · rw [if_pos (by assumption)] at h
          have h := Option.some.inj h
          rw [Prod.mk.injEq] at h
          rw [h.1, h.2]
        · rw [if_neg (by assumption)] at h
          obtain ⟨d, hd, heq⟩ := Option.map_eq_some_iff.mp h
          rw [Prod.mk.injEq] at heq
          rw [scanBracket_succ hd, Option.map_some, heq.1, heq.2]

theorem scanText_succ (h : scanText (place, depth) s = some (place', depth')) :
    scanText (place, depth + 1) s = some (place', depth' + 1) := by
  induction s generalizing place depth with
  | nil =>
      have h := Option.some.inj h
      rw [Prod.mk.injEq] at h
      rw [scanText_nil, h.1, h.2]
  | cons c s ih =>
      rw [scanText_cons] at h ⊢
      obtain ⟨⟨q, d⟩, hc, hs⟩ := Option.bind_eq_some_iff.mp h
      rw [scanChar_succ hc]
      exact ih hs

/-- Scans of one text from inside and from outside go in step, and end apart. -/
theorem scanText_parity {scan scan' : Scan} (hin : scanText (.inside, depth) s = some scan)
    (hout : scanText (.outside, depth') s = some scan') : scan.1 ≠ scan'.1 := by
  suffices h : ∀ depth depth' scan scan', scanText (.inside, depth) s = some scan →
      scanText (.outside, depth') s = some scan' →
      scan.1 = .inside ∧ scan'.1 = .outside ∨ scan.1 = .outside ∧ scan'.1 = .inside by
    rcases h _ _ _ _ hin hout with ⟨h, h'⟩ | ⟨h, h'⟩ <;> rw [h, h'] <;> decide
  clear hin hout
  induction s with
  | nil =>
      rintro d d' _ _ ⟨⟩ ⟨⟩
      exact .inl ⟨rfl, rfl⟩
  | cons c s ih =>
      intro d d' scan scan' hin hout
      simp only [scanText_cons, scanChar, Option.bind_some] at hin hout
      by_cases hslash : c = '\\'
      · rw [if_pos hslash] at hout
        contradiction
      · rw [if_neg hslash] at hin hout
        by_cases hquote : c = '"'
        · rw [if_pos hquote] at hin hout
          exact (ih _ _ _ _ hout hin).symm.imp And.symm And.symm
        · rw [if_neg hquote] at hin hout
          obtain ⟨q, hq, hout⟩ := Option.bind_eq_some_iff.mp hout
          obtain ⟨d'', -, rfl⟩ := Option.map_eq_some_iff.mp hq
          exact ih _ _ _ _ hin hout

end Scanning

/-! ## What is read -/

def Passed (scan scan' : Nat → Scan) (s rest : Text) : Prop :=
  ∃ part, s = part ++ rest ∧ ∀ depth, scanText (scan depth) part = some (scan' depth)

section Passing

variable {scan scan' scan'' : Nat → Scan} {s rest rest' : Text} {c : Char}

theorem Passed.refl (scan : Nat → Scan) (s : Text) : Passed scan scan s s :=
  ⟨[], rfl, fun _ => rfl⟩

theorem Passed.trans (h : Passed scan scan' s rest) (h' : Passed scan' scan'' rest rest') :
    Passed scan scan'' s rest' := by
  obtain ⟨part, rfl, hpart⟩ := h
  obtain ⟨part', rfl, hpart'⟩ := h'
  refine ⟨part ++ part', (List.append_assoc ..).symm, fun depth => ?_⟩
  rw [scanText_append, hpart, Option.bind_some, hpart']

theorem Passed.char (h : ∀ depth, scanChar (scan depth) c = some (scan' depth)) :
    Passed scan scan' (c :: s) s :=
  ⟨[c], rfl, fun depth => by rw [scanText_cons, h]; rfl⟩

theorem Passed.head (hhead : s.head? = some c)
    (h : ∀ depth, scanChar (scan depth) c = some (scan' depth)) : Passed scan scan' s s.tail := by
  obtain ⟨s, rfl⟩ := List.head?_eq_some_iff.mp hhead
  exact .char h

end Passing

def out (depth : Nat) : Scan := (.outside, depth)

def within (depth : Nat) : Scan := (.inside, depth)

theorem scanChar_out {c : Char} (h : c ∉ ['\\', '"', '[', '{', ']', '}']) (depth : Nat) :
    scanChar (out depth) c = some (out depth) := by
  simp only [List.mem_cons, List.not_mem_nil, or_false, not_or] at h
  obtain ⟨hslash, hquote, hlist, hdict, hlist', hdict'⟩ := h
  simp [scanChar, out, scanBracket, hslash, hquote, hlist, hdict, hlist', hdict']

theorem scanChar_within {c : Char} (hslash : c ≠ '\\') (hquote : c ≠ '"') (depth : Nat) :
    scanChar (within depth) c = some (within depth) := by
  simp [scanChar, within, hslash, hquote]

theorem scanText_plain {scan : Scan} {s : Text}
    (h : ∀ c ∈ s, scanChar scan c = some scan) : scanText scan s = some scan := by
  induction s with
  | nil => rfl
  | cons c s ih =>
      rw [scanText_cons, h c List.mem_cons_self, Option.bind_some]
      exact ih fun c' hc' => h c' (List.mem_cons_of_mem c hc')

section Texts

variable {s rest text : Text} {c : Char} {n : Nat}

theorem hexDigit?_plain (hc : c = '"' ∨ c = '\\') : hexDigit? c = none := by
  rcases hc with rfl | rfl <;> decide

theorem hexDigits?_plain {digits : List Nat} (h : hexDigits? s = some digits) :
    ∀ c ∈ s, c ≠ '"' ∧ c ≠ '\\' := by
  induction s generalizing digits with
  | nil => simp
  | cons c s ih =>
      simp only [hexDigits?, Option.bind_eq_bind, Option.bind_eq_some_iff] at h
      obtain ⟨d, hd, ds, hds, -⟩ := h
      have hc : ¬(c = '"' ∨ c = '\\') := by
        intro hc
        rw [hexDigit?_plain hc] at hd
        contradiction
      exact List.forall_mem_cons.mpr ⟨not_or.mp hc, ih hds⟩

theorem readEscape_passed (h : readEscape s = some (c, rest)) :
    Passed (fun depth => (.escaped, depth)) within s rest := by
  cases s with
  | nil => contradiction
  | cons e s =>
      have hescape : Passed (fun depth => (.escaped, depth)) within (e :: s) s :=
        .char fun _ => rfl
      rw [readEscape] at h
      split at h
      · obtain ⟨n, hn, hvalid⟩ := Option.bind_eq_some_iff.mp h
        obtain ⟨digits, hdigits, -⟩ := Option.map_eq_some_iff.mp hn
        split at hvalid
        · obtain ⟨-, rfl⟩ := Prod.mk.inj (Option.some.inj hvalid)
          have hplain := hexDigits?_plain hdigits
          refine hescape.trans ⟨s.take 4, (List.take_append_drop 4 s).symm, fun depth => ?_⟩
          exact scanText_plain fun c hc =>
            scanChar_within (hplain c hc).2 (hplain c hc).1 depth
        · contradiction
      · obtain ⟨pair, -, heq⟩ := Option.map_eq_some_iff.mp h
        obtain ⟨-, rfl⟩ := Prod.mk.inj heq
        exact hescape

theorem readChar_passed (hquote : s.head? ≠ some '"') (h : readChar s = some (c, rest)) :
    Passed within within s rest := by
  cases s with
  | nil => contradiction
  | cons d s =>
      rw [readChar] at h
      split at h
      · rename_i hslash
        have hbegin : Passed within (fun depth => (.escaped, depth)) (d :: s) s :=
          .char fun _ => by simp [scanChar, within, hslash]
        exact hbegin.trans (readEscape_passed h)
      · rename_i hslash
        split at h
        · contradiction
        · obtain ⟨-, rfl⟩ := Prod.mk.inj (Option.some.inj h)
          have hd : d ≠ '"' := fun hd => hquote (by rw [hd]; rfl)
          exact .char fun depth => scanChar_within hslash hd depth

theorem readText_passed (h : readText n s = some (text, rest)) : Passed within out s rest := by
  induction n generalizing s text with
  | zero => contradiction
  | succ n ih =>
      rw [readText] at h
      split at h
      · rename_i hquote
        obtain ⟨-, rfl⟩ := Prod.mk.inj (Option.some.inj h)
        exact .head hquote fun _ => rfl
      · rename_i hquote
        simp only [Option.bind_eq_bind, Option.bind_eq_some_iff] at h
        obtain ⟨⟨c, s'⟩, hc, ⟨chars, rest'⟩, hchars, heq⟩ := h
        obtain ⟨-, rfl⟩ := Prod.mk.inj (Option.some.inj heq)
        exact (readChar_passed hquote hc).trans (ih hchars)

end Texts

section Values

variable {format : FloatFormat} {v : Json} {s rest : Text} {n : Nat}

theorem isNumberChar_plain {c : Char} (h : isNumberChar c = true) :
    c ∉ ['\\', '"', '[', '{', ']', '}'] := by
  intro hmem
  simp only [List.mem_cons, List.not_mem_nil, or_false] at hmem
  rcases hmem with rfl | rfl | rfl | rfl | rfl | rfl <;> revert h <;> decide

theorem readNumber_passed (h : readNumber format s = some (v, rest)) : Passed out out s rest := by
  obtain ⟨v', -, heq⟩ := Option.map_eq_some_iff.mp h
  obtain ⟨-, rfl⟩ := Prod.mk.inj heq
  refine ⟨s.takeWhile isNumberChar, List.takeWhile_append_dropWhile.symm, fun depth => ?_⟩
  exact scanText_plain fun c hc =>
    scanChar_out (isNumberChar_plain (List.mem_takeWhile_imp hc)) depth

theorem readKeyword_passed (h : readKeyword s = some (v, rest)) : Passed out out s rest := by
  obtain ⟨keyword, hkeyword, heq⟩ := Option.map_eq_some_iff.mp h
  obtain ⟨-, rfl⟩ := Prod.mk.inj heq
  have hprefix : keyword.1 <+: s := by simpa using List.find?_some hkeyword
  have hplain : ∀ keyword ∈ keywords, ∀ c ∈ keyword.1, c ∉ ['\\', '"', '[', '{', ']', '}'] := by
    simp [keywords]
  obtain ⟨rest, rfl⟩ := hprefix
  rw [List.drop_left]
  exact ⟨keyword.1, rfl, fun depth => scanText_plain fun c hc =>
    scanChar_out (hplain keyword (List.mem_of_find?_eq_some hkeyword) c hc) depth⟩

section Groups

variable {α : Type} {read : Text → Option (α × Text)} {closing : Char} {parts : List α}

theorem readParts_passed
    (hread : ∀ s a rest, read s = some (a, rest) → Passed out out s rest)
    (h : readParts read closing n s = some (parts, rest)) :
    Passed out out s (closing :: rest) := by
  induction n generalizing s parts with
  | zero => contradiction
  | succ n ih =>
      simp only [readParts, Option.bind_eq_bind, Option.bind_eq_some_iff] at h
      obtain ⟨⟨a, s'⟩, ha, h⟩ := h
      have hfirst := hread s a s' ha
      split at h
      · rename_i hcomma
        obtain ⟨⟨more, rest'⟩, hmore, heq⟩ := Option.bind_eq_some_iff.mp h
        obtain ⟨-, rfl⟩ := Prod.mk.inj (Option.some.inj heq)
        have hsep : Passed out out s' s'.tail :=
          .head hcomma fun depth => scanChar_out (by decide) depth
        exact (hfirst.trans hsep).trans (ih hmore)
      · split at h
        · rename_i hclosing
          obtain ⟨-, rfl⟩ := Prod.mk.inj (Option.some.inj h)
          have hs' : closing :: s'.tail = s' := List.cons_head?_tail hclosing
          rwa [← hs'] at hfirst
        · contradiction

theorem readGroup_passed
    (hread : ∀ s a rest, read s = some (a, rest) → Passed out out s rest)
    (h : readGroup read closing s = some (parts, rest)) :
    Passed out out s (closing :: rest) := by
  rw [readGroup] at h
  split at h
  · rename_i hclosing
    obtain ⟨-, rfl⟩ := Prod.mk.inj (Option.some.inj h)
    rw [List.cons_head?_tail hclosing]
    exact .refl out s
  · exact readParts_passed hread h

end Groups

theorem readField_passed {read : Text → Option (Json × Text)} {field : Text × Json}
    (hread : ∀ s v rest, read s = some (v, rest) → Passed out out s rest)
    (h : readField read s = some (field, rest)) : Passed out out s rest := by
  rw [readField] at h
  split at h
  · rename_i hquote
    simp only [Option.bind_eq_bind, Option.bind_eq_some_iff] at h
    obtain ⟨⟨key, s'⟩, hkey, h⟩ := h
    have hbegin : Passed out within s s.tail := .head hquote fun _ => rfl
    have hkey' := hbegin.trans (readText_passed hkey)
    split at h
    · rename_i hcolon
      obtain ⟨⟨v, rest'⟩, hv, heq⟩ := Option.bind_eq_some_iff.mp h
      obtain ⟨-, rfl⟩ := Prod.mk.inj (Option.some.inj heq)
      have hsep : Passed out out s' s'.tail :=
        .head hcolon fun depth => scanChar_out (by decide) depth
      exact (hkey'.trans hsep).trans (hread _ _ _ hv)
    · contradiction
  · contradiction

def deeper (depth : Nat) : Scan := out (depth + 1)

theorem Passed.deeper (h : Passed out out s rest) : Passed deeper deeper s rest := by
  obtain ⟨part, hs, hpart⟩ := h
  exact ⟨part, hs, fun depth => hpart (depth + 1)⟩

theorem readValue_passed (h : readValue format n s = some (v, rest)) : Passed out out s rest := by
  induction n generalizing s v rest with
  | zero => contradiction
  | succ n ih =>
      cases s with
      | nil => contradiction
      | cons c s =>
          rw [readValue] at h
          by_cases hquote : c = '"'
          · rw [if_pos hquote] at h
            obtain ⟨⟨chars, rest'⟩, hchars, heq⟩ := Option.map_eq_some_iff.mp h
            obtain ⟨-, rfl⟩ := Prod.mk.inj heq
            have hbegin : Passed out within (c :: s) s := .char fun _ => by rw [hquote]; rfl
            exact hbegin.trans (readText_passed hchars)
          rw [if_neg hquote] at h
          by_cases hlist : c = '['
          · rw [if_pos hlist] at h
            obtain ⟨⟨items, rest'⟩, hitems, heq⟩ := Option.map_eq_some_iff.mp h
            obtain ⟨-, rfl⟩ := Prod.mk.inj heq
            have hbegin : Passed out deeper (c :: s) s := .char fun _ => by rw [hlist]; rfl
            have hend : Passed deeper out (']' :: rest') rest' := .char fun _ => rfl
            exact (hbegin.trans (readGroup_passed (fun _ _ _ => ih) hitems).deeper).trans hend
          rw [if_neg hlist] at h
          by_cases hdict : c = '{'
          · rw [if_pos hdict] at h
            obtain ⟨⟨fields, rest'⟩, hfields, heq⟩ := Option.map_eq_some_iff.mp h
            obtain ⟨-, rfl⟩ := Prod.mk.inj heq
            have hbegin : Passed out deeper (c :: s) s := .char fun _ => by rw [hdict]; rfl
            have hend : Passed deeper out ('}' :: rest') rest' := .char fun _ => rfl
            have hgroup := readGroup_passed (fun _ _ _ => readField_passed fun _ _ _ => ih) hfields
            exact (hbegin.trans hgroup.deeper).trans hend
          rw [if_neg hdict] at h
          rcases Option.or_eq_some_iff.mp h with hnumber | ⟨-, hkeyword⟩
          · exact readNumber_passed hnumber
          · exact readKeyword_passed hkeyword

theorem scanText_of_loads (h : loads format s = some v) (depth : Nat) :
    scanText (out depth) s = some (out depth) := by
  rw [loads] at h
  split at h
  · rename_i v' hread
    obtain ⟨part, hs, hpart⟩ := readValue_passed hread
    rw [hs, List.append_nil]
    exact hpart depth
  · contradiction

/-! ## Cutting an object's text -/

theorem write_dict_scan {fields : List (Text × Json)}
    (hv : Proper format.isFloat (.dict fields)) :
    ∃ inner, write format (.dict fields) = '{' :: inner ++ ['}'] ∧
      ∀ depth, scanText (out depth) inner = some (out depth) := by
  have hends : Ends [] := fun c hc => nomatch hc
  have hread := readValue_write hv hends (Nat.lt_succ_self (write format (.dict fields)).length)
  rw [List.append_nil, write_dict, group, List.cons_append, readValue, if_neg (by decide),
    if_neg (by decide), if_pos rfl] at hread
  obtain ⟨⟨fields', rest'⟩, hfields, heq⟩ := Option.map_eq_some_iff.mp hread
  obtain ⟨-, rfl⟩ := Prod.mk.inj heq
  have hgroup := readGroup_passed
    (fun _ _ _ h => readField_passed (fun _ _ _ => readValue_passed) h) hfields
  obtain ⟨inner, hinner, hpassed⟩ := hgroup
  refine ⟨inner, ?_, hpassed⟩
  rw [write_dict, group, List.cons_append, hinner, List.cons_append]

theorem escaped_of_scanChar {scan : Scan} {depth : Nat} {c : Char}
    (h : scanChar scan c = some (.escaped, depth)) : c = '\\' := by
  obtain ⟨place, k⟩ := scan
  cases place with
  | outside =>
      simp only [scanChar] at h
      split at h
      · contradiction
      · split at h
        · cases h
        · obtain ⟨d, -, heq⟩ := Option.map_eq_some_iff.mp h
          cases heq
  | inside =>
      simp only [scanChar, Option.some.injEq, Prod.mk.injEq] at h
      by_contra hslash
      rw [if_neg hslash] at h
      split at h <;> cases h.1
  | escaped => cases h

/-- What stands behind one of the characters of an object's text is no JSON text. -/
theorem loads_suffix_dict {fields : List (Text × Json)}
    (hv : Proper format.isFloat (.dict fields)) {before after : Text} {c : Char}
    (hsplit : write format (.dict fields) = before ++ c :: after) (hc : c ≠ '\\')
    (hafter : after ≠ []) : loads format after = none := by
  obtain ⟨inner, htext, hinner⟩ := write_dict_scan hv
  obtain ⟨after', d, rfl⟩ := List.eq_nil_or_concat after |>.resolve_left hafter
  have hopen : '{' :: inner = (before ++ [c]) ++ after' ∧ d = '}' := by
    have hboth := htext.symm.trans hsplit
    rw [List.concat_eq_append, ← List.cons_append, ← List.append_assoc] at hboth
    obtain ⟨hfront, hlast⟩ := List.append_inj' hboth rfl
    exact ⟨by simpa using hfront, (List.cons.inj hlast).1.symm⟩
  obtain ⟨hopen, rfl⟩ := hopen
  -- the front begins with the bracket, so that the scan is deeper by one behind it
  obtain ⟨front, hfront⟩ : ∃ front, before ++ [c] = '{' :: front := by
    cases before with
    | nil => exact ⟨[], by simpa using (List.cons.inj hopen).1.symm⟩
    | cons b before => exact ⟨before ++ [c], by rw [(List.cons.inj hopen).1]; rfl⟩
  rw [hfront, List.cons_append] at hopen
  have hfrontInner := (List.cons.inj hopen).2
  have hscan := hinner 0
  rw [hfrontInner, scanText_append] at hscan
  obtain ⟨⟨place, k⟩, hbefore, hrest⟩ := Option.bind_eq_some_iff.mp hscan
  have hend : scanText (place, k + 1) (after' ++ ['}']) = some (out 0) := by
    rw [scanText_append, scanText_succ hrest]
    rfl
  by_contra hload
  obtain ⟨w, hw⟩ := Option.ne_none_iff_exists'.mp hload
  rw [List.concat_eq_append] at hw
  have hpassed := scanText_of_loads hw (k + 1)
  cases place with
  | outside =>
      rw [out, hend] at hpassed
      cases hpassed
  | inside => exact scanText_parity hend hpassed rfl
  | escaped =>
      have hlast : scanText (out 0) (before ++ [c]) = some (.escaped, k + 1) := by
        rw [hfront, scanText_cons]
        exact scanText_succ hbefore
      rw [scanText_append] at hlast
      obtain ⟨scan, -, hchar⟩ := Option.bind_eq_some_iff.mp hlast
      rw [scanText_cons] at hchar
      obtain ⟨scan', hchar, heq⟩ := Option.bind_eq_some_iff.mp hchar
      rw [Option.some.inj heq] at hchar
      exact hc (escaped_of_scanChar hchar)

end Values

end StorageService.Foundation.JsonText
