import Mathlib.Data.List.Sort
import StorageService.Foundation.Json

/-!
# JSON as compact text

`dumps` writes a value without blanks, the keys of every object in order, and
escapes no more than it must; `loads` reads such a text back.  The order of the
keys and the numerals of floats are parameters.
-/

namespace StorageService.Foundation.JsonText

open Json

/-! ## Equal up to the order of keys -/

/-- The floats are floats, and no object has a key twice. -/
inductive Proper (isFloat : ℚ → Prop) : Json → Prop where
  | atom {v : Json} (hatom : v.isAtom = true) (hfloat : ∀ q, v = .float q → isFloat q) :
      Proper isFloat v
  | text (s : Text) : Proper isFloat (.text s)
  | list {items : List Json} (hitems : ∀ v ∈ items, Proper isFloat v) :
      Proper isFloat (.list items)
  | dict {fields : List (Text × Json)} (hkeys : (fields.map Prod.fst).Nodup)
      (hfields : ∀ field ∈ fields, Proper isFloat field.2) : Proper isFloat (.dict fields)

/-- `w` is `v` with the fields of objects in it moved about. -/
inductive Reordered : Json → Json → Prop where
  | refl (v : Json) : Reordered v v
  | trans {u v w : Json} (huv : Reordered u v) (hvw : Reordered v w) : Reordered u w
  | item {v w : Json} (front back : List Json) (h : Reordered v w) :
      Reordered (.list (front ++ v :: back)) (.list (front ++ w :: back))
  | value {v w : Json} (front back : List (Text × Json)) (key : Text) (h : Reordered v w) :
      Reordered (.dict (front ++ (key, v) :: back)) (.dict (front ++ (key, w) :: back))
  | fields {fields fields' : List (Text × Json)} (h : fields.Perm fields') :
      Reordered (.dict fields) (.dict fields')

section Order

variable (le : Text → Text → Bool)

def sortFields (fields : List (Text × Json)) : List (Text × Json) :=
  fields.insertionSort fun a b => le a.1 b.1

mutual

def sortKeys : Json → Json
  | .list items => .list (sortItems items)
  | .dict fields => .dict (sortFields le (sortValues fields))
  | v => v

def sortItems : List Json → List Json
  | [] => []
  | v :: items => sortKeys v :: sortItems items

def sortValues : List (Text × Json) → List (Text × Json)
  | [] => []
  | field :: fields => sortValue field :: sortValues fields

def sortValue : Text × Json → Text × Json
  | (key, v) => (key, sortKeys v)

end

theorem sortKeys_list (items : List Json) :
    sortKeys le (.list items) = .list (sortItems le items) := rfl

theorem sortKeys_dict (fields : List (Text × Json)) :
    sortKeys le (.dict fields) = .dict (sortFields le (sortValues le fields)) := rfl

theorem sortKeys_atom {v : Json} (hv : v.isAtom = true) : sortKeys le v = v := by
  cases v with
  | text | list | dict => contradiction
  | _ => rfl

theorem sortItems_eq_map (items : List Json) : sortItems le items = items.map (sortKeys le) := by
  induction items with
  | nil => rfl
  | cons v items ih => exact congrArg (sortKeys le v :: ·) ih

theorem sortValues_eq_map (fields : List (Text × Json)) :
    sortValues le fields = fields.map fun field => (field.1, sortKeys le field.2) := by
  induction fields with
  | nil => rfl
  | cons field fields ih =>
      obtain ⟨key, v⟩ := field
      exact congrArg ((key, sortKeys le v) :: ·) ih

theorem keys_sortValues (fields : List (Text × Json)) :
    (sortValues le fields).map Prod.fst = fields.map Prod.fst := by
  rw [sortValues_eq_map, List.map_map]
  rfl

theorem sortFields_perm (fields : List (Text × Json)) : (sortFields le fields).Perm fields :=
  List.perm_insertionSort _ _

end Order

structure KeyOrder (le : Text → Text → Bool) : Prop where
  total : ∀ a b, le a b = true ∨ le b a = true
  trans : ∀ a b c, le a b = true → le b c = true → le a c = true
  antisymm : ∀ a b, le a b = true → le b a = true → a = b

section Sorting

variable {le : Text → Text → Bool} {isFloat : ℚ → Prop} {v w : Json}
  {fields fields' : List (Text × Json)}

theorem KeyOrder.pairwise (hle : KeyOrder le) (fields : List (Text × Json)) :
    (sortFields le fields).Pairwise fun a b => le a.1 b.1 = true := by
  have : Std.Total fun a b : Text × Json => le a.1 b.1 = true := ⟨fun a b => hle.total a.1 b.1⟩
  have : IsTrans (Text × Json) fun a b => le a.1 b.1 = true :=
    ⟨fun a b c => hle.trans a.1 b.1 c.1⟩
  exact List.pairwise_insertionSort (fun a b : Text × Json => le a.1 b.1 = true) fields

theorem eq_of_mem_of_nodup (hkeys : (fields.map Prod.fst).Nodup) {a b : Text × Json}
    (ha : a ∈ fields) (hb : b ∈ fields) (hab : a.1 = b.1) : a = b :=
  List.inj_on_of_nodup_map hkeys ha hb hab

theorem KeyOrder.sortFields_eq (hle : KeyOrder le) (hkeys : (fields.map Prod.fst).Nodup)
    (h : fields.Perm fields') : sortFields le fields = sortFields le fields' := by
  have hperm : (sortFields le fields).Perm (sortFields le fields') :=
    (sortFields_perm le fields).trans (h.trans (sortFields_perm le fields').symm)
  refine List.Perm.eq_of_pairwise ?_ (hle.pairwise fields) (hle.pairwise fields') hperm
  intro a b ha hb hab hba
  have hmem : b ∈ fields := h.mem_iff.mpr ((sortFields_perm le fields').mem_iff.mp hb)
  exact eq_of_mem_of_nodup hkeys ((sortFields_perm le fields).mem_iff.mp ha) hmem
    (hle.antisymm _ _ hab hba)

theorem Proper.list_inv {items : List Json} (h : Proper isFloat (.list items)) :
    ∀ v ∈ items, Proper isFloat v := by
  cases h with
  | atom hatom => contradiction
  | list hitems => exact hitems

theorem Proper.dict_inv (h : Proper isFloat (.dict fields)) :
    (fields.map Prod.fst).Nodup ∧ ∀ field ∈ fields, Proper isFloat field.2 := by
  cases h with
  | atom hatom => contradiction
  | dict hkeys hfields => exact ⟨hkeys, hfields⟩

theorem Proper.float_inv {q : ℚ} (h : Proper isFloat (.float q)) : isFloat q := by
  cases h with
  | atom _ hfloat => exact hfloat q rfl

theorem Reordered.proper (h : Reordered v w) (hv : Proper isFloat v) : Proper isFloat w := by
  induction h with
  | refl => exact hv
  | trans _ _ ihuv ihvw => exact ihvw (ihuv hv)
  | item front back _ ih =>
      have hitems := hv.list_inv
      simp only [List.forall_mem_append, List.forall_mem_cons] at hitems
      refine .list ?_
      simp only [List.forall_mem_append, List.forall_mem_cons]
      exact ⟨hitems.1, ih hitems.2.1, hitems.2.2⟩
  | value front back key _ ih =>
      obtain ⟨hkeys, hfields⟩ := hv.dict_inv
      simp only [List.forall_mem_append, List.forall_mem_cons] at hfields
      refine .dict (by simpa using hkeys) ?_
      simp only [List.forall_mem_append, List.forall_mem_cons]
      exact ⟨hfields.1, ih hfields.2.1, hfields.2.2⟩
  | fields h =>
      obtain ⟨hkeys, hfields⟩ := hv.dict_inv
      exact .dict ((h.map Prod.fst).nodup_iff.mp hkeys) fun field hfield =>
        hfields field (h.mem_iff.mpr hfield)

/-- The order the keys had is not seen once they are sorted. -/
theorem KeyOrder.sortKeys_eq (hle : KeyOrder le) (h : Reordered v w) (hv : Proper isFloat v) :
    sortKeys le v = sortKeys le w := by
  induction h with
  | refl => rfl
  | trans huv _ ihuv ihvw => exact (ihuv hv).trans (ihvw (huv.proper hv))
  | item front back _ ih =>
      have hitem := hv.list_inv _ (List.mem_append_right front List.mem_cons_self)
      simp only [sortKeys_list, sortItems_eq_map, List.map_append, List.map_cons, ih hitem]
  | value front back key _ ih =>
      have hfield := hv.dict_inv.2 _ (List.mem_append_right front List.mem_cons_self)
      simp only [sortKeys_dict, sortValues_eq_map, List.map_append, List.map_cons, ih hfield]
  | fields h =>
      have hkeys := hv.dict_inv.1
      rw [← keys_sortValues le] at hkeys
      rw [sortKeys_dict, sortKeys_dict, hle.sortFields_eq hkeys]
      rw [sortValues_eq_map, sortValues_eq_map]
      exact h.map _

theorem Reordered.items {items : List Json} {f : Json → Json}
    (h : ∀ v ∈ items, Reordered v (f v)) (front : List Json) :
    Reordered (.list (front ++ items)) (.list (front ++ items.map f)) := by
  induction items generalizing front with
  | nil => exact .refl _
  | cons v items ih =>
      have hrest := ih (fun w hw => h w (List.mem_cons_of_mem v hw)) (front ++ [f v])
      rw [List.append_assoc, List.append_assoc] at hrest
      exact (Reordered.item front items (h v List.mem_cons_self)).trans hrest

theorem Reordered.values {f : Json → Json} (h : ∀ field ∈ fields, Reordered field.2 (f field.2))
    (front : List (Text × Json)) :
    Reordered (.dict (front ++ fields))
      (.dict (front ++ fields.map fun field => (field.1, f field.2))) := by
  induction fields generalizing front with
  | nil => exact .refl _
  | cons field fields ih =>
      have hrest := ih (fun field' hfield => h field' (List.mem_cons_of_mem field hfield))
        (front ++ [(field.1, f field.2)])
      rw [List.append_assoc, List.append_assoc] at hrest
      exact (Reordered.value front fields field.1 (h field List.mem_cons_self)).trans hrest

theorem Reordered.sortKeys (le : Text → Text → Bool) (v : Json) :
    Reordered v (sortKeys le v) := by
  induction v using Json.induction with
  | atom v hv =>
      rw [sortKeys_atom le hv]
      exact .refl v
  | text s => exact .refl _
  | list items ih =>
      rw [sortKeys_list, sortItems_eq_map]
      exact Reordered.items ih []
  | dict fields ih =>
      have hvalues := Reordered.values ih []
      rw [sortKeys_dict, sortValues_eq_map]
      exact hvalues.trans (.fields (sortFields_perm le _).symm)

theorem Reordered.symm (h : Reordered v w) : Reordered w v := by
  induction h with
  | refl v => exact .refl v
  | trans _ _ ihuv ihvw => exact ihvw.trans ihuv
  | item front back _ ih => exact .item front back ih
  | value front back key _ ih => exact .value front back key ih
  | fields h => exact .fields h.symm

end Sorting

/-! ## Writing -/

def escapes : List (Char × Char) :=
  [('"', '"'), ('\\', '\\'), ('\n', 'n'), ('\r', 'r'), ('\t', 't'), (Char.ofNat 0xC, 'f'),
    (Char.ofNat 0x8, 'b')]

def escape (c : Char) : Text :=
  match escapes.find? fun pair => decide (pair.1 = c) with
  | some pair => ['\\', pair.2]
  | none => if c.toNat < 0x20 then '\\' :: 'u' :: hexText 4 c.toNat else [c]

def writeText (s : Text) : Text := '"' :: s.flatMap escape ++ ['"']

def intText : ℤ → Text
  | .ofNat n => Nat.toDigits 10 n
  | .negSucc n => '-' :: Nat.toDigits 10 (n + 1)

def isNumberChar (c : Char) : Bool := c.isDigit || ['+', '-', '.', 'e', 'E'].contains c

def isFloatMark (c : Char) : Bool := ['.', 'e', 'E'].contains c

structure FloatFormat where
  isFloat : ℚ → Prop
  write : ℚ → Text
  read : Text → Option ℚ
  chars : ∀ q, isFloat q → ∀ c ∈ write q, isNumberChar c = true
  mark : ∀ q, isFloat q → ∃ c ∈ write q, isFloatMark c = true
  read_write : ∀ q, isFloat q → read (write q) = some q

section Writing

variable (format : FloatFormat)

def group (opening closing : Char) (parts : List Text) : Text :=
  opening :: List.intercalate [','] parts ++ [closing]

mutual

def write : Json → Text
  | .null => ['n', 'u', 'l', 'l']
  | .bool true => ['t', 'r', 'u', 'e']
  | .bool false => ['f', 'a', 'l', 's', 'e']
  | .int n => intText n
  | .float q => format.write q
  | .nan => ['N', 'a', 'N']
  | .infinity false => ['I', 'n', 'f', 'i', 'n', 'i', 't', 'y']
  | .infinity true => ['-', 'I', 'n', 'f', 'i', 'n', 'i', 't', 'y']
  | .text s => writeText s
  | .list items => group '[' ']' (writeItems items)
  | .dict fields => group '{' '}' (writeFields fields)

def writeItems : List Json → List Text
  | [] => []
  | v :: items => write v :: writeItems items

def writeFields : List (Text × Json) → List Text
  | [] => []
  | field :: fields => writeField field :: writeFields fields

def writeField : Text × Json → Text
  | (key, v) => writeText key ++ ':' :: write v

end

theorem write_list (items : List Json) :
    write format (.list items) = group '[' ']' (writeItems format items) := rfl

theorem write_dict (fields : List (Text × Json)) :
    write format (.dict fields) = group '{' '}' (writeFields format fields) := rfl

theorem writeField_eq (key : Text) (v : Json) :
    writeField format (key, v) = writeText key ++ ':' :: write format v := rfl

theorem writeItems_eq_map (items : List Json) :
    writeItems format items = items.map (write format) := by
  induction items with
  | nil => rfl
  | cons v items ih => exact congrArg (write format v :: ·) ih

theorem writeFields_eq_map (fields : List (Text × Json)) :
    writeFields format fields = fields.map (writeField format) := by
  induction fields with
  | nil => rfl
  | cons field fields ih => exact congrArg (writeField format field :: ·) ih

def dumps (le : Text → Text → Bool) (v : Json) : Text := write format (sortKeys le v)

end Writing

/-! ## Reading -/

def readEscape : Text → Option (Char × Text)
  | [] => none
  | c :: s =>
      if c = 'u' then
        (hexValue? (s.take 4)).bind fun n =>
          if n.isValidChar then some (Char.ofNat n, s.drop 4) else none
      else (escapes.find? fun pair => decide (pair.2 = c)).map fun pair => (pair.1, s)

def readChar : Text → Option (Char × Text)
  | [] => none
  | c :: s =>
      if c = '\\' then readEscape s else if c.toNat < 0x20 then none else some (c, s)

/-- A text from behind its opening quote on; every character takes one step. -/
def readText : Nat → Text → Option (Text × Text)
  | 0, _ => none
  | n + 1, s =>
      if s.head? = some '"' then some ([], s.tail)
      else do
        let (c, rest) ← readChar s
        let (chars, rest) ← readText n rest
        some (c :: chars, rest)

def readNat (digits : Text) : Option Nat :=
  if digits ≠ [] ∧ digits.all Char.isDigit = true then some (Nat.ofDigitChars 10 digits 0)
  else none

def readInt (numeral : Text) : Option ℤ :=
  if numeral.head? = some '-' then (readNat numeral.tail).map Int.negOfNat
  else (readNat numeral).map Int.ofNat

def readNumeral (format : FloatFormat) (numeral : Text) : Option Json :=
  if numeral.any isFloatMark then (format.read numeral).map Json.float
  else (readInt numeral).map Json.int

def readNumber (format : FloatFormat) (s : Text) : Option (Json × Text) :=
  (readNumeral format (s.takeWhile isNumberChar)).map fun v => (v, s.dropWhile isNumberChar)

def keywords : List (Text × Json) :=
  [(['n', 'u', 'l', 'l'], .null), (['t', 'r', 'u', 'e'], .bool true),
    (['f', 'a', 'l', 's', 'e'], .bool false), (['N', 'a', 'N'], .nan),
    (['I', 'n', 'f', 'i', 'n', 'i', 't', 'y'], .infinity false),
    (['-', 'I', 'n', 'f', 'i', 'n', 'i', 't', 'y'], .infinity true)]

def readKeyword (s : Text) : Option (Json × Text) :=
  (keywords.find? fun keyword => keyword.1.isPrefixOf s).map fun keyword =>
    (keyword.2, s.drop keyword.1.length)

section Groups

variable {α : Type}

def readParts (read : Text → Option (α × Text)) (closing : Char) :
    Nat → Text → Option (List α × Text)
  | 0, _ => none
  | n + 1, s => do
      let (a, rest) ← read s
      if rest.head? = some ',' then
        let (parts, rest) ← readParts read closing n rest.tail
        some (a :: parts, rest)
      else if rest.head? = some closing then some ([a], rest.tail)
      else none

def readGroup (read : Text → Option (α × Text)) (closing : Char) (s : Text) :
    Option (List α × Text) :=
  if s.head? = some closing then some ([], s.tail) else readParts read closing s.length s

end Groups

def readField (read : Text → Option (Json × Text)) (s : Text) :
    Option ((Text × Json) × Text) :=
  if s.head? = some '"' then do
    let (key, rest) ← readText s.length s.tail
    if rest.head? = some ':' then
      let (v, rest) ← read rest.tail
      some ((key, v), rest)
    else none
  else none

/-- A value at the start of a text, nested no deeper than the fuel allows -/
def readValue (format : FloatFormat) : Nat → Text → Option (Json × Text)
  | 0, _ => none
  | _ + 1, [] => none
  | n + 1, c :: s =>
      if c = '"' then (readText (s.length + 1) s).map fun (chars, rest) => (.text chars, rest)
      else if c = '[' then
        (readGroup (readValue format n) ']' s).map fun (items, rest) => (.list items, rest)
      else if c = '{' then
        (readGroup (readField (readValue format n)) '}' s).map fun (fields, rest) =>
          (.dict fields, rest)
      else (readNumber format (c :: s)).or (readKeyword (c :: s))

/-- `json.loads` of a text without blanks between its tokens -/
def loads (format : FloatFormat) (s : Text) : Option Json :=
  match readValue format (s.length + 1) s with
  | some (v, []) => some v
  | _ => none

/-! ## Texts -/

theorem find?_escapes {c : Char} {pair : Char × Char}
    (h : (escapes.find? fun pair => decide (pair.1 = c)) = some pair) :
    pair.1 = c ∧ pair.2 ≠ 'u' ∧
      (escapes.find? fun other => decide (other.2 = pair.2)) = some pair := by
  have hmem : pair ∈ escapes := List.mem_of_find?_eq_some h
  have hback : ∀ pair ∈ escapes, pair.2 ≠ 'u' ∧
      (escapes.find? fun other => decide (other.2 = pair.2)) = some pair := by decide
  exact ⟨by simpa using List.find?_some h, hback pair hmem⟩

theorem not_escaped {c : Char} (h : (escapes.find? fun pair => decide (pair.1 = c)) = none) :
    c ≠ '"' ∧ c ≠ '\\' := by
  rw [List.find?_eq_none] at h
  constructor
  · rintro rfl
    exact h ('"', '"') (by simp [escapes]) (by simp)
  · rintro rfl
    exact h ('\\', '\\') (by simp [escapes]) (by simp)

theorem length_hexText : ∀ n < 0x20, (hexText 4 n).length = 4 := by decide

theorem readChar_escape (c : Char) (rest : Text) :
    readChar (escape c ++ rest) = some (c, rest) := by
  rw [escape]
  split
  · rename_i pair hpair
    obtain ⟨hc, hu, hback⟩ := find?_escapes hpair
    simp [readChar, readEscape, hu, hback, hc]
  · rename_i hnone
    obtain ⟨hquote, hslash⟩ := not_escaped hnone
    split
    · rename_i hlow
      have hlength := length_hexText c.toNat hlow
      have hvalid : c.toNat.isValidChar := c.valid
      simp [readChar, readEscape, List.take_left' hlength, List.drop_left' hlength, hvalid]
    · rename_i hhigh
      simp [readChar, hslash, hhigh]

theorem head?_escape (c : Char) (rest : Text) : (escape c ++ rest).head? ≠ some '"' := by
  rw [escape]
  split
  · simp
  · rename_i hnone
    split
    · simp
    · simp [(not_escaped hnone).1]

theorem readText_escape (s rest : Text) (n : Nat) (hn : s.length < n) :
    readText n (s.flatMap escape ++ '"' :: rest) = some (s, rest) := by
  induction s generalizing n with
  | nil =>
      obtain ⟨n, rfl⟩ := Nat.exists_eq_succ_of_ne_zero (Nat.ne_of_gt hn)
      simp [readText]
  | cons c s ih =>
      obtain ⟨n, rfl⟩ := Nat.exists_eq_succ_of_ne_zero (Nat.ne_of_gt (Nat.zero_lt_of_lt hn))
      have hrest := ih n (by simpa using hn)
      rw [List.flatMap_cons, List.append_assoc, readText, if_neg (head?_escape c _),
        readChar_escape]
      simp [hrest]

/-! ## Numerals -/

def Ends (rest : Text) : Prop := ∀ c ∈ rest.head?, isNumberChar c = false

theorem isFloatMark_of_isDigit {c : Char} (h : c.isDigit = true) : isFloatMark c = false := by
  cases hmark : isFloatMark c with
  | false => rfl
  | true =>
      simp only [isFloatMark, List.contains_iff_mem, List.mem_cons, List.not_mem_nil,
        or_false] at hmark
      rcases hmark with rfl | rfl | rfl <;> revert h <;> decide

theorem isNumberChar_of_isDigit {c : Char} (h : c.isDigit = true) : isNumberChar c = true := by
  rw [isNumberChar, h, Bool.true_or]

theorem isDigit_of_mem_toDigits {n : Nat} {c : Char} (h : c ∈ Nat.toDigits 10 n) :
    c.isDigit = true :=
  Nat.isDigit_of_mem_toDigits (by decide) (by decide) h

theorem readNat_toDigits (n : Nat) : readNat (Nat.toDigits 10 n) = some n := by
  have hdigits : (Nat.toDigits 10 n).all Char.isDigit = true :=
    List.all_eq_true.mpr fun c hc => isDigit_of_mem_toDigits hc
  rw [readNat, if_pos ⟨Nat.toDigits_ne_nil, hdigits⟩, Nat.ofDigitChars_ten_toDigits]

theorem head?_toDigits (n : Nat) : (Nat.toDigits 10 n).head? ≠ some '-' := by
  intro h
  have hdigit := isDigit_of_mem_toDigits (List.mem_of_mem_head? h)
  revert hdigit
  decide

theorem readInt_intText (n : ℤ) : readInt (intText n) = some n := by
  cases n with
  | ofNat n =>
      rw [intText, readInt, if_neg (head?_toDigits n), readNat_toDigits]
      rfl
  | negSucc n =>
      rw [intText, readInt, if_pos List.head?_cons, List.tail_cons, readNat_toDigits]
      rfl

theorem mem_intText {n : ℤ} {c : Char} (h : c ∈ intText n) :
    isNumberChar c = true ∧ isFloatMark c = false := by
  have hdigit : ∀ m, c ∈ Nat.toDigits 10 m → isNumberChar c = true ∧ isFloatMark c = false :=
    fun m hm => ⟨isNumberChar_of_isDigit (isDigit_of_mem_toDigits hm),
      isFloatMark_of_isDigit (isDigit_of_mem_toDigits hm)⟩
  cases n with
  | ofNat n => exact hdigit n h
  | negSucc n =>
      rcases List.mem_cons.mp h with rfl | h
      · decide
      · exact hdigit (n + 1) h

section Numerals

variable {format : FloatFormat}

theorem readNumeral_int (n : ℤ) : readNumeral format (intText n) = some (.int n) := by
  have hmark : (intText n).any isFloatMark = false :=
    List.any_eq_false.mpr fun c hc => by simp [(mem_intText hc).2]
  rw [readNumeral, hmark, readInt_intText]
  rfl

theorem readNumeral_float {q : ℚ} (hq : format.isFloat q) :
    readNumeral format (format.write q) = some (.float q) := by
  have hmark : (format.write q).any isFloatMark = true := List.any_eq_true.mpr (format.mark q hq)
  rw [readNumeral, if_pos hmark, format.read_write q hq]
  rfl

theorem readNumber_append {numeral rest : Text} (hchars : ∀ c ∈ numeral, isNumberChar c = true)
    (hrest : Ends rest) :
    readNumber format (numeral ++ rest) =
      (readNumeral format numeral).map fun v => (v, rest) := by
  have hstop : rest.takeWhile isNumberChar = [] ∧ rest.dropWhile isNumberChar = rest := by
    cases rest with
    | nil => exact ⟨rfl, rfl⟩
    | cons c rest =>
        have hc := hrest c rfl
        simp [hc]
  rw [readNumber, List.takeWhile_append_of_pos hchars, List.dropWhile_append_of_pos hchars,
    hstop.1, hstop.2, List.append_nil]

theorem not_opening {c : Char} (h : isNumberChar c = true) : c ≠ '"' ∧ c ≠ '[' ∧ c ≠ '{' := by
  refine ⟨?_, ?_, ?_⟩ <;> rintro rfl <;> revert h <;> decide

theorem readValue_numeral {numeral rest : Text} {v : Json} {n : Nat} (hne : numeral ≠ [])
    (hchars : ∀ c ∈ numeral, isNumberChar c = true) (hread : readNumeral format numeral = some v)
    (hrest : Ends rest) : readValue format (n + 1) (numeral ++ rest) = some (v, rest) := by
  have hnumber : readNumber format _ = _ := readNumber_append hchars hrest
  obtain ⟨c, numeral, rfl⟩ := List.exists_cons_of_ne_nil hne
  obtain ⟨hquote, hlist, hdict⟩ := not_opening (hchars c List.mem_cons_self)
  rw [List.cons_append, readValue, if_neg hquote, if_neg hlist, if_neg hdict, ← List.cons_append,
    hnumber, hread]
  rfl

end Numerals

/-! ## Groups -/

section Groups

variable {α : Type} {read : Text → Option (α × Text)} {put : α → Text} {closing : Char}
  {parts : List α} {rest : Text} {n : Nat}

theorem length_le_intercalate (texts : List Text) :
    texts.length ≤ (List.intercalate [','] texts).length + 1 := by
  induction texts with
  | nil => simp
  | cons s texts ih =>
      cases texts with
      | nil => simp
      | cons t texts =>
          rw [List.intercalate_cons_cons, List.length_append, List.length_append]
          simp only [List.length_cons, List.length_nil] at ih ⊢
          omega

theorem length_part_le {part : Text} {texts : List Text} (h : part ∈ texts) :
    part.length ≤ (List.intercalate [','] texts).length := by
  induction texts with
  | nil => cases h
  | cons s texts ih =>
      cases texts with
      | nil => simp [List.mem_singleton.mp h]
      | cons t texts =>
          rw [List.intercalate_cons_cons, List.length_append, List.length_append]
          rcases List.mem_cons.mp h with rfl | h
          · omega
          · have := ih h
            omega

theorem readParts_intercalate
    (hread : ∀ a ∈ parts, ∀ rest, Ends rest → read (put a ++ rest) = some (a, rest))
    (hcomma : closing ≠ ',') (hclosing : isNumberChar closing = false) (hne : parts ≠ [])
    (hn : parts.length ≤ n) :
    readParts read closing n (List.intercalate [','] (parts.map put) ++ closing :: rest) =
      some (parts, rest) := by
  induction parts generalizing n with
  | nil => contradiction
  | cons a parts ih =>
      obtain ⟨n, rfl⟩ := Nat.exists_eq_succ_of_ne_zero (Nat.ne_of_gt (Nat.zero_lt_of_lt hn))
      have ha := hread a List.mem_cons_self
      cases parts with
      | nil =>
          have hends : Ends (closing :: rest) := by
            rintro c ⟨⟩
            exact hclosing
          rw [List.map_singleton, List.intercalate_singleton, readParts, ha _ hends]
          simp [hcomma]
      | cons b parts =>
          have hends : ∀ s, Ends (',' :: s) := by
            rintro s c ⟨⟩
            decide
          have hrest := @ih n (fun a' ha' => hread a' (List.mem_cons_of_mem a ha'))
            (List.cons_ne_nil b parts) (Nat.le_of_succ_le_succ hn)
          rw [List.map_cons, List.map_cons, List.intercalate_cons_cons, ← List.map_cons,
            List.append_assoc, List.append_assoc, readParts, List.singleton_append,
            ha _ (hends _)]
          simp only [Option.bind_eq_bind, Option.bind_some, List.head?_cons, List.tail_cons,
            if_true, hrest]

theorem readGroup_group (opening closing : Char) (rest : Text)
    (hread : ∀ a ∈ parts, ∀ rest, Ends rest → read (put a ++ rest) = some (a, rest))
    (hput : ∀ a ∈ parts, ∀ rest, (put a ++ rest).head? ≠ some closing)
    (hcomma : closing ≠ ',') (hclosing : isNumberChar closing = false) :
    ∃ s, group opening closing (parts.map put) ++ rest = opening :: s ∧
      readGroup read closing s = some (parts, rest) := by
  refine ⟨List.intercalate [','] (parts.map put) ++ closing :: rest, by simp [group], ?_⟩
  cases parts with
  | nil => simp [readGroup]
  | cons a parts =>
      have hhead : (List.intercalate [','] ((a :: parts).map put) ++ closing :: rest).head? ≠
          some closing := by
        cases parts with
        | nil =>
            rw [List.map_singleton, List.intercalate_singleton]
            exact hput a List.mem_cons_self _
        | cons b parts =>
            rw [List.map_cons, List.map_cons, List.intercalate_cons_cons, List.append_assoc,
              List.append_assoc]
            exact hput a List.mem_cons_self _
      have hlength : (a :: parts).length ≤
          (List.intercalate [','] ((a :: parts).map put) ++ closing :: rest).length := by
        have hparts := length_le_intercalate ((a :: parts).map put)
        rw [List.length_map] at hparts
        simp only [List.length_append, List.length_cons] at hparts ⊢
        omega
      rw [readGroup, if_neg hhead]
      exact readParts_intercalate hread hcomma hclosing (List.cons_ne_nil a parts) hlength

end Groups

/-! ## Round trip -/

section RoundTrip

variable {format : FloatFormat} {le : Text → Text → Bool} {v w : Json} {rest : Text} {n : Nat}

theorem intText_ne_nil (n : ℤ) : intText n ≠ [] := by
  cases n with
  | ofNat n => exact Nat.toDigits_ne_nil
  | negSucc n => exact List.cons_ne_nil _ _

theorem FloatFormat.write_ne_nil {q : ℚ} (hq : format.isFloat q) : format.write q ≠ [] := by
  obtain ⟨c, hc, -⟩ := format.mark q hq
  exact List.ne_nil_of_mem hc

theorem head?_numeral {numeral : Text} (hne : numeral ≠ [])
    (hchars : ∀ c ∈ numeral, isNumberChar c = true) {closing : Char}
    (hclosing : isNumberChar closing = false) : (numeral ++ rest).head? ≠ some closing := by
  obtain ⟨c, numeral, rfl⟩ := List.exists_cons_of_ne_nil hne
  rintro ⟨⟩
  rw [hchars closing List.mem_cons_self] at hclosing
  contradiction

theorem head?_write (hv : Proper format.isFloat v) : (write format v ++ rest).head? ≠ some ']' := by
  cases v with
  | null | nan | text | list | dict => simp [write, writeText, group]
  | bool b => cases b <;> simp [write]
  | infinity negative => cases negative <;> simp [write]
  | int n =>
      exact head?_numeral (intText_ne_nil n) (fun c hc => (mem_intText hc).1) (by decide)
  | float q =>
      have hq := hv.float_inv
      exact head?_numeral (FloatFormat.write_ne_nil hq) (format.chars q hq) (by decide)

theorem length_le_flatMap_escape (s : Text) : s.length ≤ (s.flatMap escape).length := by
  induction s with
  | nil => simp
  | cons c s ih =>
      have hc : 1 ≤ (escape c).length := by
        rw [escape]
        split
        · simp
        · split <;> simp
      rw [List.flatMap_cons, List.length_append, List.length_cons]
      omega

theorem writeText_append (s rest : Text) :
    writeText s ++ rest = '"' :: (s.flatMap escape ++ '"' :: rest) := by
  simp [writeText]

theorem readValue_keyword {keyword : Text} (hmem : (keyword, v) ∈ keywords) :
    readValue format (n + 1) (keyword ++ rest) = some (v, rest) := by
  simp only [keywords, List.mem_cons, Prod.mk.injEq, List.not_mem_nil, or_false] at hmem
  have hnot : isNumberChar 'n' = false ∧ isNumberChar 't' = false ∧ isNumberChar 'f' = false ∧
      isNumberChar 'N' = false ∧ isNumberChar 'I' = false := by decide
  rcases hmem with ⟨rfl, rfl⟩ | ⟨rfl, rfl⟩ | ⟨rfl, rfl⟩ | ⟨rfl, rfl⟩ | ⟨rfl, rfl⟩ | ⟨rfl, rfl⟩
  all_goals
    simp [readValue, readNumber, readNumeral, readInt, readNat, readKeyword, keywords, hnot,
      isFloatMark, show isNumberChar '-' = true from rfl]

theorem readValue_text (s rest : Text) (n : Nat) :
    readValue format (n + 1) (writeText s ++ rest) = some (.text s, rest) := by
  have hlength := length_le_flatMap_escape s
  have hread := readText_escape s rest ((s.flatMap escape ++ '"' :: rest).length + 1) (by
    simp only [List.length_append, List.length_cons]
    omega)
  rw [writeText_append, readValue, if_pos rfl, hread]
  rfl

theorem length_write_le (format : FloatFormat) (field : Text × Json) :
    (write format field.2).length ≤ (writeField format field).length := by
  obtain ⟨key, v⟩ := field
  simp only [writeField_eq, List.length_append, List.length_cons]
  omega

theorem head?_writeField (field : Text × Json) (rest : Text) :
    (writeField format field ++ rest).head? ≠ some '}' := by
  obtain ⟨key, v⟩ := field
  simp [writeField_eq, writeText]

theorem readField_write {read : Text → Option (Json × Text)} {field : Text × Json}
    (hread : ∀ rest, Ends rest → read (write format field.2 ++ rest) = some (field.2, rest))
    (hrest : Ends rest) :
    readField read (writeField format field ++ rest) = some (field, rest) := by
  obtain ⟨key, v⟩ := field
  have hlength := length_le_flatMap_escape key
  have hkey := readText_escape key (':' :: write format v ++ rest)
    ('"' :: (key.flatMap escape ++ '"' :: ':' :: write format v ++ rest)).length (by
      simp only [List.length_append, List.length_cons]
      omega)
  rw [writeField_eq, List.append_assoc, writeText_append, readField, if_pos List.head?_cons,
    List.tail_cons]
  simp only [List.cons_append, List.append_assoc] at hkey ⊢
  rw [hkey]
  simp only [Option.bind_eq_bind, Option.bind_some, List.head?_cons, List.tail_cons, if_true,
    hread rest hrest]

theorem readValue_write (hv : Proper format.isFloat v) (hrest : Ends rest)
    (hn : (write format v).length < n) :
    readValue format n (write format v ++ rest) = some (v, rest) := by
  induction v using Json.induction generalizing rest n with
  | atom v hatom =>
      obtain ⟨n, rfl⟩ := Nat.exists_eq_succ_of_ne_zero (Nat.ne_of_gt (Nat.zero_lt_of_lt hn))
      cases v with
      | text | list | dict => contradiction
      | null | nan => exact readValue_keyword (by simp [keywords, write])
      | bool b => cases b <;> exact readValue_keyword (by simp [keywords, write])
      | infinity negative => cases negative <;> exact readValue_keyword (by simp [keywords, write])
      | int m =>
          exact readValue_numeral (intText_ne_nil m) (fun c hc => (mem_intText hc).1)
            (readNumeral_int m) hrest
      | float q =>
          have hq := hv.float_inv
          exact readValue_numeral (FloatFormat.write_ne_nil hq) (format.chars q hq)
            (readNumeral_float hq) hrest
  | text s =>
      obtain ⟨n, rfl⟩ := Nat.exists_eq_succ_of_ne_zero (Nat.ne_of_gt (Nat.zero_lt_of_lt hn))
      exact readValue_text s rest n
  | list items ih =>
      obtain ⟨n, rfl⟩ := Nat.exists_eq_succ_of_ne_zero (Nat.ne_of_gt (Nat.zero_lt_of_lt hn))
      have hitems := hv.list_inv
      rw [write_list, writeItems_eq_map] at hn ⊢
      have hread : ∀ v ∈ items, ∀ rest, Ends rest →
          readValue format n (write format v ++ rest) = some (v, rest) := by
        intro v hmem rest hrest
        have hpart : (write format v).length ≤ _ := length_part_le (List.mem_map_of_mem hmem)
        refine ih v hmem (hitems v hmem) hrest ?_
        simp only [group, List.length_cons, List.length_append] at hn
        omega
      obtain ⟨s, hs, hgroup⟩ := readGroup_group '[' ']' rest hread
        (fun v hmem rest => head?_write (hitems v hmem)) (by decide) (by decide)
      rw [hs, readValue, if_neg (by decide), if_pos rfl, hgroup]
      rfl
  | dict fields ih =>
      obtain ⟨n, rfl⟩ := Nat.exists_eq_succ_of_ne_zero (Nat.ne_of_gt (Nat.zero_lt_of_lt hn))
      have hfields := hv.dict_inv.2
      rw [write_dict, writeFields_eq_map] at hn ⊢
      have hread : ∀ field ∈ fields, ∀ rest, Ends rest →
          readField (readValue format n) (writeField format field ++ rest) =
            some (field, rest) := by
        intro field hmem rest hrest
        have hpart : (writeField format field).length ≤ _ :=
          length_part_le (List.mem_map_of_mem hmem)
        refine readField_write (fun rest hrest => ih field hmem (hfields field hmem) hrest ?_) hrest
        have hvalue := length_write_le format field
        simp only [group, List.length_cons, List.length_append] at hn
        omega
      obtain ⟨s, hs, hgroup⟩ := readGroup_group '{' '}' rest hread
        (fun field _ rest => head?_writeField field rest) (by decide) (by decide)
      rw [hs, readValue, if_neg (by decide), if_neg (by decide), if_pos rfl, hgroup]
      rfl

theorem loads_write (hv : Proper format.isFloat v) : loads format (write format v) = some v := by
  have hends : Ends [] := fun c hc => nomatch hc
  have hread := readValue_write hv hends (Nat.lt_succ_self (write format v).length)
  rw [List.append_nil] at hread
  rw [loads, hread]

/-- What is read back is the value with its keys in order. -/
theorem loads_dumps (hv : Proper format.isFloat v) :
    loads format (dumps format le v) = some (sortKeys le v) :=
  loads_write ((Reordered.sortKeys le v).proper hv)

theorem KeyOrder.dumps_eq_iff (hle : KeyOrder le) (hv : Proper format.isFloat v)
    (hw : Proper format.isFloat w) :
    dumps format le v = dumps format le w ↔ Reordered v w := by
  constructor
  · intro h
    have hread : loads format (dumps format le v) = _ := loads_dumps hv
    rw [h, loads_dumps hw] at hread
    have hsorted := Reordered.sortKeys le v
    rw [← Option.some.inj hread] at hsorted
    exact hsorted.trans (Reordered.sortKeys le w).symm
  · intro h
    rw [dumps, dumps, hle.sortKeys_eq h hv]

end RoundTrip

end StorageService.Foundation.JsonText
