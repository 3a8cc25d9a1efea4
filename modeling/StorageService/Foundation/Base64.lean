import StorageService.Foundation.Text

/-!
# Base64

Three bytes are written as four characters of the alphabet, and what is left over
at the end is filled up with `=`.  Reading is strict: whole groups, padding at the
end only, and no other characters.  The bits that padding leaves over are not
looked at.
-/

namespace StorageService.Foundation.Base64

def alphabet : List Char :=
  ['A', 'B', 'C', 'D', 'E', 'F', 'G', 'H', 'I', 'J', 'K', 'L', 'M', 'N', 'O', 'P', 'Q', 'R', 'S',
    'T', 'U', 'V', 'W', 'X', 'Y', 'Z', 'a', 'b', 'c', 'd', 'e', 'f', 'g', 'h', 'i', 'j', 'k', 'l',
    'm', 'n', 'o', 'p', 'q', 'r', 's', 't', 'u', 'v', 'w', 'x', 'y', 'z', '0', '1', '2', '3', '4',
    '5', '6', '7', '8', '9', '+', '/']

def sextetChar (d : Nat) : Char := alphabet.getD d 'A'

def sextet? (c : Char) : Option Nat := alphabet.findIdx? (· == c)

def encode : List UInt8 → Text
  | [] => []
  | [a] => [sextetChar (a.toNat / 4), sextetChar (a.toNat % 4 * 16), '=', '=']
  | [a, b] =>
      [sextetChar (a.toNat / 4), sextetChar (a.toNat % 4 * 16 + b.toNat / 16),
        sextetChar (b.toNat % 16 * 4), '=']
  | a :: b :: c :: bytes =>
      sextetChar (a.toNat / 4) :: sextetChar (a.toNat % 4 * 16 + b.toNat / 16) ::
        sextetChar (b.toNat % 16 * 4 + c.toNat / 64) :: sextetChar (c.toNat % 64) ::
          encode bytes

def firstByte (w x : Nat) : UInt8 := UInt8.ofNat (w * 4 + x / 16)

def secondByte (x y : Nat) : UInt8 := UInt8.ofNat (x % 16 * 16 + y / 4)

def thirdByte (y z : Nat) : UInt8 := UInt8.ofNat (y % 4 * 64 + z)

def decodeEnd (w x y : Char) : Option (List UInt8) := do
  let w ← sextet? w
  let x ← sextet? x
  if y = '=' then some [firstByte w x]
  else
    let y ← sextet? y
    some [firstByte w x, secondByte x y]

def decode : Text → Option (List UInt8)
  | [] => some []
  | w :: x :: y :: z :: rest =>
      if z = '=' then if rest = [] then decodeEnd w x y else none
      else do
        let w ← sextet? w
        let x ← sextet? x
        let y ← sextet? y
        let z ← sextet? z
        let bytes ← decode rest
        some (firstByte w x :: secondByte x y :: thirdByte y z :: bytes)
  | _ => none

theorem encode_cons (a b c : UInt8) (bytes : List UInt8) :
    encode (a :: b :: c :: bytes) =
      sextetChar (a.toNat / 4) :: sextetChar (a.toNat % 4 * 16 + b.toNat / 16) ::
        sextetChar (b.toNat % 16 * 4 + c.toNat / 64) :: sextetChar (c.toNat % 64) ::
          encode bytes := rfl

theorem decode_cons (w x y z : Char) (rest : Text) :
    decode (w :: x :: y :: z :: rest) =
      if z = '=' then if rest = [] then decodeEnd w x y else none
      else (do
        let w ← sextet? w
        let x ← sextet? x
        let y ← sextet? y
        let z ← sextet? z
        let bytes ← decode rest
        some (firstByte w x :: secondByte x y :: thirdByte y z :: bytes)) := rfl

/-! ## Sextets -/

theorem sextet?_sextetChar : ∀ d < 64, sextet? (sextetChar d) = some d := by decide

theorem sextetChar_mem : ∀ d < 64, sextetChar d ∈ alphabet := by decide

theorem sextetChar_ne_pad {d : Nat} (hd : d < 64) : sextetChar d ≠ '=' := by
  intro h
  have hmem := sextetChar_mem d hd
  rw [h] at hmem
  revert hmem
  decide

section Bytes

variable (a b c : UInt8)

theorem lt_of_byte : a.toNat < 256 := a.toNat_lt

theorem firstByte_split (low : Nat) (hlow : low < 16) :
    firstByte (a.toNat / 4) (a.toNat % 4 * 16 + low) = a := by
  have hvalue : a.toNat / 4 * 4 + (a.toNat % 4 * 16 + low) / 16 = a.toNat := by omega
  rw [firstByte, hvalue, UInt8.ofNat_toNat]

theorem secondByte_split (high low : Nat) (hlow : low < 4) :
    secondByte (high * 16 + b.toNat / 16) (b.toNat % 16 * 4 + low) = b := by
  have hb := lt_of_byte b
  have hvalue : (high * 16 + b.toNat / 16) % 16 * 16 + (b.toNat % 16 * 4 + low) / 4 =
      b.toNat := by omega
  rw [secondByte, hvalue, UInt8.ofNat_toNat]

theorem thirdByte_split (high : Nat) :
    thirdByte (high * 4 + c.toNat / 64) (c.toNat % 64) = c := by
  have hc := lt_of_byte c
  have hvalue : (high * 4 + c.toNat / 64) % 4 * 64 + c.toNat % 64 = c.toNat := by omega
  rw [thirdByte, hvalue, UInt8.ofNat_toNat]

end Bytes

/-! ## Round trip -/

theorem decode_encode (bytes : List UInt8) : decode (encode bytes) = some bytes := by
  induction bytes using encode.induct with
  | case1 => rfl
  | case2 a =>
      have ha := lt_of_byte a
      have hfirst := firstByte_split a 0 (by omega)
      rw [Nat.add_zero] at hfirst
      rw [encode, decode_cons, if_pos rfl, if_pos rfl, decodeEnd,
        sextet?_sextetChar _ (by omega), sextet?_sextetChar _ (by omega)]
      simp [hfirst]
  | case3 a b =>
      have ha := lt_of_byte a
      have hb := lt_of_byte b
      have hsecond := secondByte_split b (a.toNat % 4) 0 (by omega)
      rw [Nat.add_zero] at hsecond
      rw [encode, decode_cons, if_pos rfl, if_pos rfl, decodeEnd,
        sextet?_sextetChar _ (by omega), sextet?_sextetChar _ (by omega),
        sextet?_sextetChar _ (by omega)]
      have hpad := @sextetChar_ne_pad (b.toNat % 16 * 4) (by omega)
      simp only [Option.bind_eq_bind, Option.bind_some, hpad, if_false,
        firstByte_split a (b.toNat / 16) (by omega), hsecond]
  | case4 a b c bytes ih =>
      have ha := lt_of_byte a
      have hb := lt_of_byte b
      have hc := lt_of_byte c
      have hpad := @sextetChar_ne_pad (c.toNat % 64) (by omega)
      rw [encode_cons, decode_cons, if_neg hpad, sextet?_sextetChar _ (by omega),
        sextet?_sextetChar _ (by omega), sextet?_sextetChar _ (by omega),
        sextet?_sextetChar _ (by omega), ih]
      simp only [Option.bind_eq_bind, Option.bind_some,
        firstByte_split a (b.toNat / 16) (by omega),
        secondByte_split b (a.toNat % 4) (c.toNat / 64) (by omega), thirdByte_split c]

theorem mem_encode {bytes : List UInt8} {c : Char} (h : c ∈ encode bytes) :
    c ∈ alphabet ∨ c = '=' := by
  induction bytes using encode.induct with
  | case1 => cases h
  | case2 a =>
      have ha := lt_of_byte a
      simp only [encode, List.mem_cons, List.not_mem_nil, or_false] at h
      rcases h with rfl | rfl | rfl | rfl
      · exact .inl (sextetChar_mem _ (by omega))
      · exact .inl (sextetChar_mem _ (by omega))
      · exact .inr rfl
      · exact .inr rfl
  | case3 a b =>
      have ha := lt_of_byte a
      have hb := lt_of_byte b
      simp only [encode, List.mem_cons, List.not_mem_nil, or_false] at h
      rcases h with rfl | rfl | rfl | rfl
      · exact .inl (sextetChar_mem _ (by omega))
      · exact .inl (sextetChar_mem _ (by omega))
      · exact .inl (sextetChar_mem _ (by omega))
      · exact .inr rfl
  | case4 a b c' bytes ih =>
      have ha := lt_of_byte a
      have hb := lt_of_byte b
      have hc := lt_of_byte c'
      simp only [encode_cons, List.mem_cons] at h
      rcases h with rfl | rfl | rfl | rfl | h
      · exact .inl (sextetChar_mem _ (by omega))
      · exact .inl (sextetChar_mem _ (by omega))
      · exact .inl (sextetChar_mem _ (by omega))
      · exact .inl (sextetChar_mem _ (by omega))
      · exact ih h

theorem mem_of_sextet? {c : Char} {d : Nat} (h : sextet? c = some d) : c ∈ alphabet := by
  by_contra hc
  have hnone : sextet? c = none := by
    rw [sextet?, List.findIdx?_eq_none_iff]
    intro x hx
    exact beq_eq_false_iff_ne.mpr fun heq => hc (heq ▸ hx)
  rw [hnone] at h
  cases h

theorem head_mem_of_decode {c : Char} {s : Text} {bytes : List UInt8}
    (h : decode (c :: s) = some bytes) : c ∈ alphabet := by
  match s, h with
  | x :: y :: z :: rest, h =>
      rw [decode_cons] at h
      split at h
      · split at h
        · obtain ⟨d, hd, -⟩ := Option.bind_eq_some_iff.mp h
          exact mem_of_sextet? hd
        · cases h
      · obtain ⟨d, hd, -⟩ := Option.bind_eq_some_iff.mp h
        exact mem_of_sextet? hd

end StorageService.Foundation.Base64
