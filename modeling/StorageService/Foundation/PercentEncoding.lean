import StorageService.Foundation.Text

/-!
# Percent-encoding

Texts are encoded as UTF-8, byte by byte, and read back with `%XX` escapes replaced
by their bytes.  Reading is total: an escape that is cut short stands for itself, and
bytes that are no UTF-8 become replacement characters, one for each longest part that
some character could start with.
-/

namespace StorageService.Foundation

/-! ## UTF-8 -/

def encodeUtf8 (n : Nat) : List Nat :=
  if n < 0x80 then [n]
  else if n < 0x800 then [0xC0 + n / 64, 0x80 + n % 64]
  else if n < 0x10000 then [0xE0 + n / 4096, 0x80 + n / 64 % 64, 0x80 + n % 64]
  else [0xF0 + n / 262144, 0x80 + n / 4096 % 64, 0x80 + n / 64 % 64, 0x80 + n % 64]

/-- A character begun: how many bytes it needs, its value so far, bounds of the next byte. -/
structure Pending where
  needed : Nat
  value : Nat
  low : Nat
  high : Nat

def replacement : Char := Char.ofNat 0xFFFD

def startByte (b : Nat) : Text × Option Pending :=
  if b < 0x80 then ([Char.ofNat b], none)
  else if 0xC2 ≤ b ∧ b ≤ 0xDF then ([], some ⟨1, b - 0xC0, 0x80, 0xBF⟩)
  else if 0xE0 ≤ b ∧ b ≤ 0xEF then
    ([], some ⟨2, b - 0xE0, if b = 0xE0 then 0xA0 else 0x80, if b = 0xED then 0x9F else 0xBF⟩)
  else if 0xF0 ≤ b ∧ b ≤ 0xF4 then
    ([], some ⟨3, b - 0xF0, if b = 0xF0 then 0x90 else 0x80, if b = 0xF4 then 0x8F else 0xBF⟩)
  else ([replacement], none)

/-- A byte to be decoded, or a character that stands between bytes. -/
abbrev CodeUnit := Nat ⊕ Char

def stepUnit : Option Pending → CodeUnit → Text × Option Pending
  | none, .inr c => ([c], none)
  | some _, .inr c => ([replacement, c], none)
  | none, .inl b => startByte b
  | some p, .inl b =>
      if p.low ≤ b ∧ b ≤ p.high then
        if p.needed = 1 then ([Char.ofNat (p.value * 64 + (b - 0x80))], none)
        else ([], some ⟨p.needed - 1, p.value * 64 + (b - 0x80), 0x80, 0xBF⟩)
      else (replacement :: (startByte b).1, (startByte b).2)

/-- `bytes.decode('utf-8', 'replace')` between the characters that are no bytes. -/
def decodeUnits : Option Pending → List CodeUnit → Text
  | none, [] => []
  | some _, [] => [replacement]
  | pending, u :: units =>
      (stepUnit pending u).1 ++ decodeUnits (stepUnit pending u).2 units

section Decoding

variable {units : List CodeUnit} {needed value low high k : Nat}

theorem decodeUnits_begin {b : Nat} {p : Pending} (h : startByte b = ([], some p)) :
    decodeUnits none (.inl b :: units) = decodeUnits (some p) units := by
  rw [decodeUnits, stepUnit, h, List.nil_append]

theorem decodeUnits_more (h : low ≤ 0x80 + k ∧ 0x80 + k ≤ high) :
    decodeUnits (some ⟨needed + 2, value, low, high⟩) (.inl (0x80 + k) :: units) =
      decodeUnits (some ⟨needed + 1, value * 64 + k, 0x80, 0xBF⟩) units := by
  rw [decodeUnits, stepUnit, if_pos h, if_neg (by simp), Nat.add_sub_cancel_left]
  rfl

theorem decodeUnits_last (h : low ≤ 0x80 + k ∧ 0x80 + k ≤ high) :
    decodeUnits (some ⟨1, value, low, high⟩) (.inl (0x80 + k) :: units) =
      Char.ofNat (value * 64 + k) :: decodeUnits none units := by
  rw [decodeUnits, stepUnit, if_pos h, if_pos rfl, Nat.add_sub_cancel_left]
  rfl

theorem decodeUnits_encodeUtf8 (c : Char) (units : List CodeUnit) :
    decodeUnits none ((encodeUtf8 c.toNat).map Sum.inl ++ units) =
      c :: decodeUnits none units := by
  have hback : Char.ofNat c.toNat = c := Char.ofNat_toNat c
  have hvalid : c.toNat < 0xD800 ∨ 0xDFFF < c.toNat ∧ c.toNat < 0x110000 := c.valid
  generalize c.toNat = n at hback hvalid
  rw [encodeUtf8]
  by_cases hone : n < 0x80
  · rw [if_pos hone, List.map_singleton, List.singleton_append, decodeUnits, stepUnit, startByte,
      if_pos hone, hback]
    rfl
  · rw [if_neg hone]
    by_cases htwo : n < 0x800
    · have hstart : startByte (0xC0 + n / 64) = ([], some ⟨1, n / 64, 0x80, 0xBF⟩) := by
        rw [startByte, if_neg (by omega), if_pos (by omega), Nat.add_sub_cancel_left]
      have hvalue : n / 64 * 64 + n % 64 = n := by omega
      rw [if_pos htwo]
      simp only [List.map_cons, List.map_nil, List.cons_append, List.nil_append]
      rw [decodeUnits_begin hstart, decodeUnits_last (by omega), hvalue, hback]
    · rw [if_neg htwo]
      by_cases hthree : n < 0x10000
      · have hstart : startByte (0xE0 + n / 4096) = ([], some ⟨2, n / 4096,
            if 0xE0 + n / 4096 = 0xE0 then 0xA0 else 0x80,
            if 0xE0 + n / 4096 = 0xED then 0x9F else 0xBF⟩) := by
          rw [startByte, if_neg (by omega), if_neg (by omega), if_pos (by omega),
            Nat.add_sub_cancel_left]
        -- no overlong form begins with E0, and no surrogate, which has no character, with ED
        have hsecond : (if 0xE0 + n / 4096 = 0xE0 then 0xA0 else 0x80) ≤ 0x80 + n / 64 % 64 ∧
            0x80 + n / 64 % 64 ≤ (if 0xE0 + n / 4096 = 0xED then 0x9F else 0xBF) := by
          constructor <;> split <;> omega
        have hvalue : (n / 4096 * 64 + n / 64 % 64) * 64 + n % 64 = n := by omega
        rw [if_pos hthree]
        simp only [List.map_cons, List.map_nil, List.cons_append, List.nil_append]
        rw [decodeUnits_begin hstart, decodeUnits_more hsecond, decodeUnits_last (by omega), hvalue,
          hback]
      · have hstart : startByte (0xF0 + n / 262144) = ([], some ⟨3, n / 262144,
            if 0xF0 + n / 262144 = 0xF0 then 0x90 else 0x80,
            if 0xF0 + n / 262144 = 0xF4 then 0x8F else 0xBF⟩) := by
          rw [startByte, if_neg (by omega), if_neg (by omega), if_neg (by omega),
            if_pos (by omega), Nat.add_sub_cancel_left]
        have hsecond : (if 0xF0 + n / 262144 = 0xF0 then 0x90 else 0x80) ≤
              0x80 + n / 4096 % 64 ∧
            0x80 + n / 4096 % 64 ≤ (if 0xF0 + n / 262144 = 0xF4 then 0x8F else 0xBF) := by
          constructor <;> split <;> omega
        have hvalue : ((n / 262144 * 64 + n / 4096 % 64) * 64 + n / 64 % 64) * 64 + n % 64 = n := by
          omega
        rw [if_neg hthree]
        simp only [List.map_cons, List.map_nil, List.cons_append, List.nil_append]
        rw [decodeUnits_begin hstart, decodeUnits_more hsecond, decodeUnits_more (by omega),
          decodeUnits_last (by omega), hvalue, hback]

/-- A byte gives at most one character, besides the replacement of what it breaks off. -/
theorem length_stepUnit_le (pending : Option Pending) (u : CodeUnit) :
    (stepUnit pending u).1.length + (stepUnit pending u).2.toList.length ≤
      pending.toList.length + 1 := by
  have hstart : ∀ b, (startByte b).1.length + (startByte b).2.toList.length ≤ 1 := by
    intro b
    unfold startByte
    repeat' split
    all_goals simp
  cases u with
  | inr c => cases pending <;> simp [stepUnit]
  | inl b =>
      have hb := hstart b
      cases pending with
      | none => simpa [stepUnit] using hb
      | some p =>
          simp only [stepUnit]
          split
          · split <;> simp
          · simp only [List.length_cons, Option.toList_some]
            omega

theorem length_decodeUnits_le (pending : Option Pending) (units : List CodeUnit) :
    (decodeUnits pending units).length ≤ pending.toList.length + units.length := by
  induction units generalizing pending with
  | nil => cases pending <;> simp [decodeUnits]
  | cons u units ih =>
      have hstep := length_stepUnit_le pending u
      have hrest := ih (stepUnit pending u).2
      rw [decodeUnits, List.length_append, List.length_cons]
      omega

end Decoding

/-! ## Escapes -/

def escaped? (c a b : Char) : Option Nat :=
  if c = '%' then
    match hexDigit? a, hexDigit? b with
    | some x, some y => some (16 * x + y)
    | _, _ => none
  else none

def unitOf (c : Char) : CodeUnit := if c.toNat < 0x80 then .inl c.toNat else .inr c

def unquoteUnits : Text → List CodeUnit
  | c :: a :: b :: s =>
      match escaped? c a b with
      | some byte => .inl byte :: unquoteUnits s
      | none => unitOf c :: unquoteUnits (a :: b :: s)
  | c :: s => unitOf c :: unquoteUnits s
  | [] => []

def unquote (s : Text) : Text := decodeUnits none (unquoteUnits s)

def alwaysSafe : Text :=
  ['A', 'B', 'C', 'D', 'E', 'F', 'G', 'H', 'I', 'J', 'K', 'L', 'M', 'N', 'O', 'P', 'Q', 'R', 'S',
    'T', 'U', 'V', 'W', 'X', 'Y', 'Z', 'a', 'b', 'c', 'd', 'e', 'f', 'g', 'h', 'i', 'j', 'k', 'l',
    'm', 'n', 'o', 'p', 'q', 'r', 's', 't', 'u', 'v', 'w', 'x', 'y', 'z', '0', '1', '2', '3', '4',
    '5', '6', '7', '8', '9', '_', '.', '-', '~']

def upperHexChar (d : Nat) : Char :=
  ['0', '1', '2', '3', '4', '5', '6', '7', '8', '9', 'A', 'B', 'C', 'D', 'E', 'F'].getD d '0'

def quoteByte (b : Nat) : Text :=
  if alwaysSafe.contains (Char.ofNat b) then [Char.ofNat b]
  else ['%', upperHexChar (b / 16), upperHexChar (b % 16)]

def quote (s : Text) : Text := s.flatMap fun c => (encodeUtf8 c.toNat).flatMap quoteByte

def Escaped (s : Text) : Prop :=
  ∃ front c a b back, s = front ++ c :: a :: b :: back ∧ (escaped? c a b).isSome

/-! ## What is quoted is read back -/

theorem unquoteUnits_cons {c : Char} (hc : c ≠ '%') (s : Text) :
    unquoteUnits (c :: s) = unitOf c :: unquoteUnits s := by
  match s with
  | [] => rfl
  | [_] => rfl
  | a :: b :: s => simp [unquoteUnits, escaped?, hc]

theorem hexDigit?_upperHexChar (d : Nat) (hd : d < 16) : hexDigit? (upperHexChar d) = some d := by
  revert d
  decide

theorem ascii_of_mem_alwaysSafe : ∀ c ∈ alwaysSafe, c.toNat < 0x80 ∧ c ≠ '%' := by
  have hall : alwaysSafe.all (fun c => decide (c.toNat < 0x80 ∧ c ≠ '%')) = true := by decide
  exact fun c hc => of_decide_eq_true (List.all_eq_true.mp hall c hc)

theorem toNat_ofNat_of_lt {b : Nat} (hb : b < 256) : (Char.ofNat b).toNat = b := by
  rw [Char.ofNat, dif_pos (Or.inl (by omega))]
  rfl

theorem unquoteUnits_quoteByte {b : Nat} (hb : b < 256) (s : Text) :
    unquoteUnits (quoteByte b ++ s) = .inl b :: unquoteUnits s := by
  unfold quoteByte
  split
  · rename_i hsafe
    obtain ⟨hascii, hne⟩ := ascii_of_mem_alwaysSafe _ (List.contains_iff_mem.mp hsafe)
    rw [List.singleton_append, unquoteUnits_cons hne, unitOf, if_pos hascii,
      toNat_ofNat_of_lt hb]
  · have hbyte : escaped? '%' (upperHexChar (b / 16)) (upperHexChar (b % 16)) = some b := by
      rw [escaped?, if_pos rfl, hexDigit?_upperHexChar _ (by omega),
        hexDigit?_upperHexChar _ (by omega)]
      simp only [Option.some.injEq]
      omega
    simp only [List.cons_append, List.nil_append, unquoteUnits, hbyte]

theorem encodeUtf8_lt (c : Char) : ∀ b ∈ encodeUtf8 c.toNat, b < 256 := by
  have hvalid : c.toNat < 0xD800 ∨ 0xDFFF < c.toNat ∧ c.toNat < 0x110000 := c.valid
  generalize c.toNat = n at hvalid
  unfold encodeUtf8
  intro b hb
  split at hb
  · simp only [List.mem_singleton] at hb
    omega
  · split at hb
    · simp only [List.mem_cons, List.not_mem_nil, or_false] at hb
      omega
    · split at hb
      · simp only [List.mem_cons, List.not_mem_nil, or_false] at hb
        omega
      · simp only [List.mem_cons, List.not_mem_nil, or_false] at hb
        omega

theorem unquoteUnits_quoteBytes {bytes : List Nat} (h : ∀ b ∈ bytes, b < 256) (s : Text) :
    unquoteUnits (bytes.flatMap quoteByte ++ s) = bytes.map Sum.inl ++ unquoteUnits s := by
  induction bytes with
  | nil => rfl
  | cons b bytes ih =>
      rw [List.forall_mem_cons] at h
      rw [List.flatMap_cons, List.append_assoc, unquoteUnits_quoteByte h.1, ih h.2]
      rfl

theorem unquote_quote_append (s rest : Text) : unquote (quote s ++ rest) = s ++ unquote rest := by
  induction s with
  | nil => rfl
  | cons c s ih =>
      have hsplit : quote (c :: s) = (encodeUtf8 c.toNat).flatMap quoteByte ++ quote s := rfl
      rw [unquote] at ih ⊢
      rw [hsplit, List.append_assoc, unquoteUnits_quoteBytes (encodeUtf8_lt c),
        decodeUnits_encodeUtf8, ih]
      rfl

theorem unquote_cons {c : Char} (hascii : c.toNat < 0x80) (hc : c ≠ '%') (s : Text) :
    unquote (c :: s) = c :: unquote s := by
  rw [unquote, unquoteUnits_cons hc, unitOf, if_pos hascii, decodeUnits, stepUnit, startByte,
    if_pos hascii, Char.ofNat_toNat]
  rfl

/-! ## What reading leaves alone -/

theorem decodeUnits_unitOf (s : Text) : decodeUnits none (s.map unitOf) = s := by
  induction s with
  | nil => rfl
  | cons c s ih =>
      by_cases hascii : c.toNat < 0x80
      · rw [List.map_cons, unitOf, if_pos hascii, decodeUnits, stepUnit, startByte,
          if_pos hascii, Char.ofNat_toNat]
        exact congrArg (List.cons c) ih
      · rw [List.map_cons, unitOf, if_neg hascii, decodeUnits]
        exact congrArg (List.cons c) ih

theorem escaped_cons {c : Char} {s : Text} : Escaped (c :: s) ↔
    (∃ a b back, s = a :: b :: back ∧ (escaped? c a b).isSome) ∨ Escaped s := by
  constructor
  · rintro ⟨front, c', a, b, back, heq, hescape⟩
    cases front with
    | nil =>
        obtain ⟨rfl, rfl⟩ : c = c' ∧ s = a :: b :: back := by simpa using heq
        exact .inl ⟨a, b, back, rfl, hescape⟩
    | cons d front =>
        obtain ⟨rfl, rfl⟩ : c = d ∧ s = front ++ c' :: a :: b :: back := by simpa using heq
        exact .inr ⟨front, c', a, b, back, rfl, hescape⟩
  · rintro (⟨a, b, back, rfl, hescape⟩ | ⟨front, c', a, b, back, rfl, hescape⟩)
    · exact ⟨[], c, a, b, back, rfl, hescape⟩
    · exact ⟨c :: front, c', a, b, back, rfl, hescape⟩

theorem unquoteUnits_cases (s : Text) :
    ¬Escaped s ∧ unquoteUnits s = s.map unitOf ∨
      Escaped s ∧ (unquoteUnits s).length < s.length := by
  induction s using unquoteUnits.induct with
  | case1 c a b s byte hbyte ih =>
      right
      refine ⟨escaped_cons.mpr (.inl ⟨a, b, s, rfl, by rw [hbyte]; rfl⟩), ?_⟩
      have hle : (unquoteUnits s).length ≤ s.length := by
        rcases ih with ⟨-, heq⟩ | ⟨-, hlt⟩
        · rw [heq, List.length_map]
        · exact hlt.le
      simp only [unquoteUnits, hbyte, List.length_cons]
      omega
  | case2 c a b s hnone ih =>
      simp only [unquoteUnits, hnone]
      rcases ih with ⟨hnot, heq⟩ | ⟨hescaped, hlt⟩
      · left
        refine ⟨fun h => ?_, by rw [heq]; rfl⟩
        rcases escaped_cons.mp h with ⟨a', b', back, hsplit, hescape⟩ | h
        · simp only [List.cons.injEq] at hsplit
          rw [← hsplit.1, ← hsplit.2.1, hnone] at hescape
          contradiction
        · exact hnot h
      · exact .inr ⟨escaped_cons.mpr (.inr hescaped), by
          simpa only [List.length_cons] using Nat.succ_lt_succ hlt⟩
  | case3 c s hshort ih =>
      have hunits : unquoteUnits (c :: s) = unitOf c :: unquoteUnits s := by
        rw [unquoteUnits]
        exact hshort
      rw [hunits]
      rcases ih with ⟨hnot, heq⟩ | ⟨hescaped, hlt⟩
      · left
        refine ⟨fun h => ?_, by rw [heq]; rfl⟩
        rcases escaped_cons.mp h with ⟨a, b, back, hsplit, -⟩ | h
        · exact hshort a b back hsplit
        · exact hnot h
      · exact .inr ⟨escaped_cons.mpr (.inr hescaped), by
          simpa only [List.length_cons] using Nat.succ_lt_succ hlt⟩
  | case4 =>
      left
      refine ⟨?_, rfl⟩
      rintro ⟨front, c, a, b, back, heq, -⟩
      simp at heq

theorem unquote_of_not_escaped {s : Text} (h : ¬Escaped s) : unquote s = s := by
  rcases unquoteUnits_cases s with ⟨-, hunits⟩ | ⟨hescaped, -⟩
  · rw [unquote, hunits, decodeUnits_unitOf]
  · exact absurd hescaped h

theorem length_unquote_lt {s : Text} (h : Escaped s) : (unquote s).length < s.length := by
  rcases unquoteUnits_cases s with ⟨hnot, -⟩ | ⟨-, hlt⟩
  · exact absurd h hnot
  · have hle := length_decodeUnits_le none (unquoteUnits s)
    rw [unquote]
    simp only [Option.toList_none, List.length_nil] at hle
    omega

theorem escaped_iff {s : Text} : Escaped s ↔ unquote s ≠ s := by
  constructor
  · intro h heq
    have hlt := length_unquote_lt h
    rw [heq] at hlt
    exact hlt.false
  · intro hne
    by_contra hnot
    exact hne (unquote_of_not_escaped hnot)

instance (s : Text) : Decidable (Escaped s) := decidable_of_iff _ escaped_iff.symm

/-! ## Texts as bytes -/

def utf8 (s : Text) : List UInt8 := s.flatMap fun c => (encodeUtf8 c.toNat).map UInt8.ofNat

def decodeUtf8 (bytes : List UInt8) : Text := decodeUnits none (bytes.map fun b => .inl b.toNat)

theorem utf8_append (s t : Text) : utf8 (s ++ t) = utf8 s ++ utf8 t := List.flatMap_append ..

theorem units_encodeUtf8 (c : Char) :
    ((encodeUtf8 c.toNat).map UInt8.ofNat).map (fun b => (.inl b.toNat : CodeUnit)) =
      (encodeUtf8 c.toNat).map Sum.inl := by
  rw [List.map_map]
  refine List.map_congr_left fun b hb => ?_
  rw [Function.comp_apply, UInt8.toNat_ofNat', Nat.mod_eq_of_lt (encodeUtf8_lt c b hb)]

theorem decodeUtf8_append (s : Text) (bytes : List UInt8) :
    decodeUtf8 (utf8 s ++ bytes) = s ++ decodeUtf8 bytes := by
  induction s with
  | nil => rfl
  | cons c s ih =>
      rw [decodeUtf8, utf8, List.flatMap_cons, List.append_assoc, List.map_append,
        units_encodeUtf8, decodeUnits_encodeUtf8, List.cons_append]
      exact congrArg (c :: ·) ih

theorem decodeUtf8_utf8 (s : Text) : decodeUtf8 (utf8 s) = s := by
  have h := decodeUtf8_append s []
  rw [List.append_nil] at h
  rw [h]
  exact List.append_nil s

/-- Bytes that begin with a whole text do so at the end of a character. -/
theorem utf8_append_eq {s t : Text} {bytes : List UInt8} (h : utf8 s ++ bytes = utf8 t) :
    ∃ rest, t = s ++ rest ∧ bytes = utf8 rest := by
  have ht : t = s ++ decodeUtf8 bytes := by
    rw [← decodeUtf8_append, h, decodeUtf8_utf8]
  refine ⟨decodeUtf8 bytes, ht, ?_⟩
  rw [ht, utf8_append] at h
  exact List.append_cancel_left h

end StorageService.Foundation
