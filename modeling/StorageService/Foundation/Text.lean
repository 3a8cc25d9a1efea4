import Mathlib.Data.List.DropRight
import Mathlib.Data.List.Infix
import Mathlib.Data.Nat.Digits.Defs

/-!
# Trimmed and separated texts

Texts are lists of characters.  This file has what the development uses of
them: trimming both ends, the order "lies under" on separated names, the
position after the last separator, and hexadecimal numerals together with a
reader that inverts them.
-/

namespace StorageService.Foundation

abbrev Text := List Char

variable {α : Type}

theorem forall_mem_of_all {p : α → Prop} [DecidablePred p] {s : List α}
    (h : s.all (fun c => decide (p c)) = true) : ∀ c ∈ s, p c :=
  fun c hc => of_decide_eq_true (List.all_eq_true.mp h c hc)

/-! ## Trimming -/

def trim (p : α → Bool) (s : List α) : List α := (s.dropWhile p).rdropWhile p

theorem trim_isInfix (p : α → Bool) (s : List α) : trim p s <:+: s :=
  (List.rdropWhile_prefix p (s.dropWhile p)).isInfix.trans
    (List.dropWhile_suffix p).isInfix

theorem mem_dropWhile_iff {p : α → Bool} {c : α} (hc : p c = false) (s : List α) :
    c ∈ s.dropWhile p ↔ c ∈ s := by
  induction s with
  | nil => rfl
  | cons a s ih =>
      by_cases ha : p a = true
      · have hne : c ≠ a := by
          rintro rfl
          simp [hc] at ha
        rw [List.dropWhile_cons_of_pos ha, ih]
        simp [hne]
      · rw [List.dropWhile_cons_of_neg ha]

theorem mem_trim_iff {p : α → Bool} {c : α} (hc : p c = false) (s : List α) :
    c ∈ trim p s ↔ c ∈ s := by
  rw [trim, List.rdropWhile, List.mem_reverse, mem_dropWhile_iff hc, List.mem_reverse,
    mem_dropWhile_iff hc]

theorem trim_eq_self_iff (p : α → Bool) (s : List α) :
    trim p s = s ↔
      ∀ h : s ≠ [], p (s.head h) = false ∧ p (s.getLast h) = false := by
  constructor
  · intro hs h
    have hdrop : s.dropWhile p = s := by
      apply (List.dropWhile_suffix p).eq_of_length_le
      calc
        s.length = (trim p s).length := by rw [hs]
        _ ≤ (s.dropWhile p).length := (List.rdropWhile_prefix p _).length_le
    have hlast : s.rdropWhile p = s := by simpa [trim, hdrop] using hs
    refine ⟨?_, ?_⟩
    · cases s with
      | nil => contradiction
      | cons c s =>
          cases hc : p c with
          | false => simp [hc]
          | true =>
              have hle := (List.dropWhile_suffix (l := s) p).length_le
              rw [List.dropWhile_cons_of_pos hc] at hdrop
              rw [hdrop] at hle
              simp at hle
    · simpa using List.rdropWhile_eq_self_iff.mp hlast h
  · intro hs
    cases s with
    | nil => rfl
    | cons c s =>
        obtain ⟨hhead, hlast⟩ := hs (by simp)
        have hdrop : (c :: s).dropWhile p = c :: s := by
          apply List.dropWhile_cons_of_neg
          simpa using hhead
        rw [trim, hdrop]
        apply List.rdropWhile_eq_self_iff.mpr
        intro h
        simpa using hlast

@[simp] theorem trim_trim (p : α → Bool) (s : List α) : trim p (trim p s) = trim p s := by
  rw [trim_eq_self_iff]
  intro h
  refine ⟨?_, by simpa [trim] using List.rdropWhile_last_not p (s.dropWhile p) h⟩
  have hpre : trim p s <+: s.dropWhile p := List.rdropWhile_prefix p _
  rw [hpre.head h]
  exact List.head_dropWhile_not p _

theorem trim_trim_eq_self_iff (p q : α → Bool) (s : List α) :
    trim q (trim p s) = s ↔ trim p s = s ∧ trim q s = s := by
  constructor
  · intro h
    have hp : trim p s = s := by
      apply (trim_isInfix p s).eq_of_length_le
      calc
        s.length = (trim q (trim p s)).length := by rw [h]
        _ ≤ (trim p s).length := (trim_isInfix q _).length_le
    exact ⟨hp, by rwa [hp] at h⟩
  · rintro ⟨hp, hq⟩
    rw [hp, hq]

theorem rdropWhile_append (p : α → Bool) (s t : List α) :
    (s ++ t).rdropWhile p =
      if t.rdropWhile p = [] then s.rdropWhile p else s ++ t.rdropWhile p := by
  simp only [List.rdropWhile, List.reverse_append, List.dropWhile_append,
    List.isEmpty_iff, List.reverse_eq_nil_iff]
  split <;> simp

theorem rdropWhile_dropWhile (p q : α → Bool) (s : List α) :
    (s.dropWhile p).rdropWhile q = (s.rdropWhile q).dropWhile p := by
  induction s with
  | nil => rfl
  | cons c s ih =>
      have hcons : (c :: s).rdropWhile q = if s.rdropWhile q = [] then [c].rdropWhile q
          else c :: s.rdropWhile q := rdropWhile_append q [c] s
      cases hc : p c with
      | true =>
          rw [List.dropWhile_cons_of_pos hc, ih, hcons]
          split
          · rename_i hnil
            rw [hnil, List.rdropWhile_singleton]
            split <;> simp [hc]
          · rw [List.dropWhile_cons_of_pos hc]
      | false =>
          rw [List.dropWhile_cons_of_neg (by simp [hc]), hcons]
          split
          · rw [List.rdropWhile_singleton]
            split <;> simp [hc]
          · rw [List.dropWhile_cons_of_neg (by simp [hc])]

theorem dropWhile_dropWhile_of_imp {p q : α → Bool} (h : ∀ c, q c = true → p c = true)
    (s : List α) : (s.dropWhile q).dropWhile p = s.dropWhile p := by
  induction s with
  | nil => rfl
  | cons c s ih =>
      cases hq : q c with
      | true => rw [List.dropWhile_cons_of_pos hq, ih, List.dropWhile_cons_of_pos (h c hq)]
      | false => rw [List.dropWhile_cons_of_neg (by simp [hq])]

theorem trim_trim_of_imp {p q : α → Bool} (h : ∀ c, q c = true → p c = true) (s : List α) :
    trim p (trim q s) = trim p s := by
  have hend (t : List α) : (t.rdropWhile q).rdropWhile p = t.rdropWhile p := by
    simp only [List.rdropWhile, List.reverse_reverse, dropWhile_dropWhile_of_imp h]
  rw [trim, trim, ← rdropWhile_dropWhile, hend, dropWhile_dropWhile_of_imp h, trim]

theorem dropWhile_append_of_ne_nil {p : α → Bool} {s : List α} (h : s.dropWhile p ≠ [])
    (t : List α) : (s ++ t).dropWhile p = s.dropWhile p ++ t := by
  rw [List.dropWhile_append, if_neg]
  simpa using h

/-! ## Names below a separated prefix -/

section Under

variable (sep : α)

def Under (folder path : List α) : Prop :=
  path = folder ∨ folder ++ [sep] <+: path

instance [DecidableEq α] (folder path : List α) :
    Decidable (Under sep folder path) :=
  inferInstanceAs (Decidable (_ ∨ _))

variable {sep}

theorem Under.refl (folder : List α) : Under sep folder folder := .inl rfl

theorem Under.below (folder rest : List α) :
    Under sep folder (folder ++ sep :: rest) :=
  .inr ⟨rest, by simp⟩

theorem Under.isPrefix {folder path : List α} (h : Under sep folder path) : folder <+: path := by
  rcases h with rfl | h
  · exact List.prefix_rfl
  · exact (List.prefix_append ..).trans h

theorem Under.trans {a b c : List α} (h : Under sep a b) (h' : Under sep b c) :
    Under sep a c := by
  rcases h with rfl | h
  · exact h'
  · exact .inr (h.trans h'.isPrefix)

theorem Under.count_lt [DecidableEq α] {folder path : List α} (h : Under sep folder path)
    (hne : path ≠ folder) : folder.count sep < path.count sep := by
  have hle := (h.resolve_left hne).sublist.count_le sep
  simp only [List.count_append, List.count_singleton_self] at hle
  omega

theorem Under.of_under {k folder path : List α} (h : Under sep k path)
    (hpath : Under sep folder path) (hk : k.length ≤ folder.length) : Under sep k folder := by
  have hprefix : k <+: folder := List.prefix_of_prefix_length_le h.isPrefix hpath.isPrefix hk
  rcases hk.eq_or_lt with heq | hlt
  · exact .inl ( hprefix.eq_of_length heq).symm
  · rcases h with rfl | h
    · exact absurd hpath.isPrefix.length_le (by omega)
    · exact .inr (List.prefix_of_prefix_length_le h hpath.isPrefix (by
        rw [List.length_append]
        exact hlt))

theorem under_append_left (base folder path : List α) :
    Under sep (base ++ folder) (base ++ path) ↔ Under sep folder path := by
  simp [Under, List.append_assoc]

theorem prefix_of_sep_prefix {src folder base : List α} (hbase : sep ∉ base)
    (h : src ++ [sep] <+: folder ++ sep :: base) : src <+: folder := by
  have hle : src.length ≤ folder.length := by
    by_contra hlt
    push Not at hlt
    obtain ⟨rest, hrest⟩ := h
    have hdrop := congrArg (List.drop (folder.length + 1)) hrest
    rw [List.append_assoc, List.drop_append_of_le_length (by omega)] at hdrop
    have hright : (folder ++ sep :: base).drop (folder.length + 1) = base := by
      simp [List.drop_append]
    rw [hright] at hdrop
    exact hbase (by simp [← hdrop])
  exact List.prefix_of_prefix_length_le ((List.prefix_append src [sep]).trans h)
    (List.prefix_append folder _) hle

end Under

/-! ## The last separator -/

section Parent

variable [DecidableEq α] (sep : α)

def parent (s : List α) : List α := s.rdropWhile (fun c => !decide (c = sep))

variable {sep}

theorem parent_append_of_not_mem {base : List α} (s : List α) (hbase : sep ∉ base) :
    parent sep (s ++ base) = parent sep s := by
  have hrev : ∀ c ∈ base.reverse, (fun c => !decide (c = sep)) c = true := by
    intro c hc
    have : c ≠ sep := by
      rintro rfl
      exact hbase (by simpa using hc)
    simpa using this
  rw [parent, List.rdropWhile, List.reverse_append, List.dropWhile_append_of_pos hrev]
  rfl

theorem parent_append {base : List α} (dir : List α) (hbase : sep ∉ base) :
    parent sep (dir ++ sep :: base) = dir ++ [sep] := by
  have hsplit : dir ++ sep :: base = (dir ++ [sep]) ++ base := by simp
  rw [hsplit, parent_append_of_not_mem _ hbase]
  simp [parent, List.rdropWhile]

variable (sep) in
theorem parent_append_base (s : List α) : ∃ base, s = parent sep s ++ base ∧ sep ∉ base := by
  refine ⟨s.rtakeWhile fun c => !decide (c = sep), (List.rdropWhile_append_rtakeWhile ..).symm, ?_⟩
  intro h
  simpa using List.mem_rtakeWhile_imp h

/-- What lies above one name, strictly, lies above all names with the same parent. -/
theorem Under.of_sibling {folder a b : List α} (h : Under sep folder a) (hne : a ≠ folder)
    (hparent : parent sep a = parent sep b) : Under sep folder b := by
  obtain ⟨base, ha, hbase⟩ := parent_append_base sep a
  obtain ⟨base', hb, -⟩ := parent_append_base sep b
  have habove : folder ++ [sep] <+: parent sep a ++ base := ha ▸ h.resolve_left hne
  have hinside : folder ++ [sep] <+: parent sep a := by
    rcases List.prefix_or_prefix_of_prefix habove (List.prefix_append ..) with hle | ⟨rest, hrest⟩
    · exact hle
    · -- a separator in what is left of `folder ++ [sep]` would be one in the base
      rw [← hrest, List.prefix_append_right_inj] at habove
      rcases List.eq_nil_or_concat rest with rfl | ⟨front, c, rfl⟩
      · rw [List.append_nil] at hrest
        rw [hrest]
      · rw [List.concat_eq_append] at hrest habove
        rw [← List.append_assoc] at hrest
        obtain ⟨-, hlast⟩ := List.append_inj' hrest rfl
        obtain rfl : c = sep := by simpa using hlast
        exact absurd (habove.subset (by simp)) hbase
  right
  rw [hb, ← hparent]
  exact hinside.trans (List.prefix_append ..)

theorem Under.of_sibling_below {folder a b rest : List α} (hnot : ¬Under sep a folder)
    (hparent : parent sep a = parent sep b) (h : Under sep folder (a ++ sep :: rest)) :
    Under sep folder (b ++ sep :: rest) := by
  have hshort : folder.length < a.length := by
    by_contra hlong
    exact hnot ((Under.below a rest).of_under h (not_lt.mp hlong))
  have habove : Under sep folder a := h.of_under (Under.below a rest) hshort.le
  have hne : a ≠ folder := by
    rintro rfl
    exact hshort.false
  exact (habove.of_sibling hne hparent).trans (Under.below b rest)

theorem count_eq_of_parent {a b : List α} (h : parent sep a = parent sep b) :
    a.count sep = b.count sep := by
  obtain ⟨base, ha, hbase⟩ := parent_append_base sep a
  obtain ⟨base', hb, hbase'⟩ := parent_append_base sep b
  rw [ha, hb, h, List.count_append, List.count_append, List.count_eq_zero_of_not_mem hbase,
    List.count_eq_zero_of_not_mem hbase']

theorem last_segment_inj {dir dir' base base' : List α}
    (hbase : sep ∉ base) (hbase' : sep ∉ base')
    (h : dir ++ sep :: base = dir' ++ sep :: base') :
    dir = dir' ∧ base = base' := by
  have hdir : dir ++ [sep] = dir' ++ [sep] := by
    rw [← parent_append dir hbase, ← parent_append dir' hbase', h]
  have hdir' : dir = dir' := List.append_cancel_right hdir
  subst dir'
  simpa using h

theorem sep_not_mem_of_mem_splitOn {part s : List α} (h : part ∈ s.splitOn sep) :
    sep ∉ part := by
  induction s generalizing part with
  | nil =>
      rw [List.splitOn_nil, List.mem_singleton] at h
      simp [h]
  | cons c s ih =>
      rw [List.splitOn_cons_eq_if_modifyHead] at h
      by_cases hc : c = sep
      · rcases List.mem_cons.mp (by simpa [hc] using h) with rfl | hmem
        · simp
        · exact ih hmem
      · cases hparts : s.splitOn sep with
        | nil => exact absurd hparts (List.splitOn_ne_nil sep s)
        | cons first parts =>
            simp only [hparts, beq_iff_eq, hc, if_false, List.modifyHead_cons,
              List.mem_cons] at h
            rcases h with rfl | hmem
            · have := @ih first (by simp [hparts])
              simp [Ne.symm hc, this]
            · exact ih (by simp [hparts, hmem])

omit [DecidableEq α] in
theorem intercalate_append_ne_nil {front back : List (List α)} (hfront : front ≠ [])
    (hback : back ≠ []) :
    List.intercalate [sep] (front ++ back) =
      List.intercalate [sep] front ++ sep :: List.intercalate [sep] back := by
  induction front with
  | nil => contradiction
  | cons x front ih =>
      cases front with
      | nil =>
          obtain ⟨y, back, rfl⟩ := List.exists_cons_of_ne_nil hback
          simp [List.intercalate_cons_cons]
      | cons y front =>
          have := ih (by simp)
          simp only [List.cons_append, List.intercalate_cons_cons] at this ⊢
          simp [this]

omit [DecidableEq α] in
theorem intercalate_append_pair {front : List (List α)} (hfront : front ≠ [])
    (a b : List α) :
    List.intercalate [sep] (front ++ [a, b]) =
      List.intercalate [sep] front ++ sep :: a ++ sep :: b := by
  rw [intercalate_append_ne_nil hfront (by simp)]
  simp [List.intercalate_cons_cons]

omit [DecidableEq α] in
theorem mem_intercalate_iff {between : List α} {c : α} (hc : c ∉ between)
    (parts : List (List α)) :
    c ∈ List.intercalate between parts ↔ ∃ part ∈ parts, c ∈ part := by
  induction parts with
  | nil => simp
  | cons first parts ih =>
      cases parts with
      | nil => simp
      | cons second parts =>
          rw [List.intercalate_cons_cons, List.mem_append, List.mem_append, ih]
          simp [hc]

omit [DecidableEq α] in
theorem mem_intercalate {c : α} {parts : List (List α)} (h : c ∈ List.intercalate [sep] parts) :
    c = sep ∨ ∃ part ∈ parts, c ∈ part := by
  induction parts with
  | nil => simp [List.intercalate] at h
  | cons first parts ih =>
      cases parts with
      | nil =>
          right
          exact ⟨first, List.mem_cons_self .., by simpa [List.intercalate] using h⟩
      | cons second parts =>
          rw [List.intercalate_cons_cons, List.append_assoc, List.mem_append,
            List.mem_append, List.mem_singleton] at h
          rcases h with h | h | h
          · exact .inr ⟨first, List.mem_cons_self .., h⟩
          · exact .inl h
          · exact (ih h).imp_right fun ⟨part, hpart, hc⟩ =>
              ⟨part, List.mem_cons_of_mem _ hpart, hc⟩

omit [DecidableEq α] in
theorem mem_intercalate_of_mem {c : α} {part : List α} {parts : List (List α)}
    (hpart : part ∈ parts) (hc : c ∈ part) : c ∈ List.intercalate [sep] parts := by
  induction parts with
  | nil => contradiction
  | cons first parts ih =>
      cases parts with
      | nil =>
          obtain rfl := List.mem_singleton.mp hpart
          simpa [List.intercalate] using hc
      | cons second parts =>
          rw [List.intercalate_cons_cons, List.append_assoc, List.mem_append]
          rcases List.mem_cons.mp hpart with rfl | hmem
          · exact .inl hc
          · exact .inr (List.mem_append_right _ (ih hmem))

theorem length_splitOn (s : List α) : (s.splitOn sep).length = s.count sep + 1 := by
  induction s with
  | nil => simp
  | cons c s ih =>
      rw [List.splitOn_cons_eq_if_modifyHead, List.count_cons]
      by_cases hc : c = sep
      · simp [hc, ih]
      · simp [hc, ih]

omit [DecidableEq α] in
/-- Parts that are not empty take up at least every other place. -/
theorem two_mul_length_le_intercalate {parts : List (List α)} (h : ∀ part ∈ parts, part ≠ []) :
    2 * parts.length ≤ (List.intercalate [sep] parts).length + 1 := by
  induction parts with
  | nil => simp
  | cons first parts ih =>
      have hfirst := List.length_pos_iff.mpr (h first (List.mem_cons_self ..))
      cases parts with
      | nil =>
          simp only [List.intercalate_singleton, List.length_singleton]
          omega
      | cons second parts =>
          have hle := ih fun part hpart => h part (List.mem_cons_of_mem _ hpart)
          simp only [List.intercalate_cons_cons, List.length_append, List.length_cons,
            List.length_nil] at hle ⊢
          omega

theorem mem_of_mem_splitOn {c : α} {part s : List α} (hpart : part ∈ s.splitOn sep)
    (hc : c ∈ part) : c ∈ s := by
  have h : c ∈ List.intercalate [sep] (s.splitOn sep) := mem_intercalate_of_mem hpart hc
  rwa [List.intercalate_splitOn] at h

end Parent

/-! ## Letters -/

theorem toNat_of_isAlpha {c : Char} (h : c.isAlpha = true) : 0x41 ≤ c.toNat ∧ c.toNat ≤ 0x7A := by
  change (decide (c.val ≥ 'A'.val ∧ c.val ≤ 'Z'.val) ||
    (decide (c.val ≥ 'a'.val) && decide (c.val ≤ 'z'.val))) = true at h
  simp only [Bool.or_eq_true, Bool.and_eq_true, decide_eq_true_eq, ge_iff_le,
    UInt32.le_iff_toNat_le] at h
  change 0x41 ≤ c.val.toNat ∧ c.val.toNat ≤ 0x7A
  rcases h with ⟨hlow, hhigh⟩ | ⟨hlow, hhigh⟩
  · change 0x41 ≤ c.val.toNat at hlow
    change c.val.toNat ≤ 0x5A at hhigh
    omega
  · change 0x61 ≤ c.val.toNat at hlow
    change c.val.toNat ≤ 0x7A at hhigh
    omega

/-! ## Hexadecimal numerals -/

def hexChars : List Char :=
  ['0', '1', '2', '3', '4', '5', '6', '7', '8', '9', 'a', 'b', 'c', 'd', 'e', 'f']

def hexChar (d : Nat) : Char := hexChars.getD d '0'

def hexText (width n : Nat) : Text :=
  List.leftpad width '0' ((Nat.digits 16 n).reverse.map hexChar)

def hexDigit? (c : Char) : Option Nat :=
  hexChars.findIdx? (· == c) <|>
    (['A', 'B', 'C', 'D', 'E', 'F'].findIdx? (· == c)).map (· + 10)

def hexDigits? : Text → Option (List Nat)
  | [] => some []
  | c :: s => do
      let d ← hexDigit? c
      let ds ← hexDigits? s
      some (d :: ds)

def hexValue? (s : Text) : Option Nat :=
  (hexDigits? s).map fun ds => Nat.ofDigits 16 ds.reverse

theorem hexDigit?_hexChar (d : Nat) (hd : d < 16) :
    hexDigit? (hexChar d) = some d := by
  revert d
  decide

theorem hexChar_mem (d : Nat) (hd : d < 16) : hexChar d ∈ hexChars := by
  revert d
  decide

theorem hexDigits?_map (ds : List Nat) (hds : ∀ d ∈ ds, d < 16) :
    hexDigits? (ds.map hexChar) = some ds := by
  induction ds with
  | nil => rfl
  | cons d ds ih =>
      have hd := hexDigit?_hexChar d (hds d (by simp))
      have htail := ih fun e he => hds e (by simp [he])
      simp [hexDigits?, hd, htail]

private theorem leftpad_map (width : Nat) (ds : List Nat) :
    List.leftpad width '0' (ds.map hexChar) =
      (List.leftpad width 0 ds).map hexChar := by
  simp [List.leftpad, show hexChar 0 = '0' from rfl]

private theorem digits_reverse_lt (n d : Nat) (hd : d ∈ (Nat.digits 16 n).reverse) :
    d < 16 :=
  Nat.digits_lt_base (by omega) (by simpa using hd)

private theorem padded_digits_lt (width n d : Nat)
    (hd : d ∈ List.leftpad width 0 (Nat.digits 16 n).reverse) : d < 16 := by
  rcases List.mem_append.mp hd with hpad | hdigit
  · rw [List.eq_of_mem_replicate hpad]
    omega
  · exact digits_reverse_lt n d hdigit

@[simp] theorem hexValue?_hexText (width n : Nat) :
    hexValue? (hexText width n) = some n := by
  rw [hexValue?, hexText, leftpad_map,
    hexDigits?_map _ (padded_digits_lt width n)]
  simp [List.leftpad, Nat.ofDigits_append, Nat.ofDigits_digits]

theorem hexText_chars (width n : Nat) (c : Char) (hc : c ∈ hexText width n) :
    c ∈ hexChars := by
  rw [hexText, leftpad_map] at hc
  obtain ⟨d, hd, rfl⟩ := List.mem_map.mp hc
  exact hexChar_mem d (padded_digits_lt width n d hd)

end StorageService.Foundation
