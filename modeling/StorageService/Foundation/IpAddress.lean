import StorageService.Foundation.Text

/-!
# IP addresses

The addresses of `ipaddress` and the texts they are read from, and the four
ranges of IPv6 in which an address stands for one of IPv4.
-/

namespace StorageService.Foundation

inductive IpAddress where
  | v4 (n : Fin (2 ^ 32))
  | v6 (n : Fin (2 ^ 128)) (scope : Option Text)
  deriving DecidableEq, Repr

namespace IpAddress

/-! ## Reading -/

def parseOctet (s : Text) : Option Nat :=
  let n := Nat.ofDigitChars 10 s 0
  if s ≠ [] ∧ s.all Char.isDigit ∧ s.length ≤ 3 ∧ (s = ['0'] ∨ s.head? ≠ some '0') ∧ n ≤ 255 then
    some n
  else none

def parseV4 (s : Text) : Option (Fin (2 ^ 32)) :=
  match (s.splitOn '.').mapM parseOctet with
  | some [a, b, c, d] => some (Fin.ofNat _ (((a * 256 + b) * 256 + c) * 256 + d))
  | _ => none

def parseHextet (s : Text) : Option Nat := if s = [] ∨ 4 < s.length then none else hexValue? s

/-- A last part with dots is an IPv4 address and stands for two parts. -/
def hextetParts (parts : List Text) : Option (List Text) :=
  match parts.getLast? with
  | none => none
  | some last =>
      if last.contains '.' then
        (parseV4 last).map fun n =>
          parts.dropLast ++ [hexText 1 (n / 65536), hexText 1 (n % 65536)]
      else some parts

def skipped (parts : List Text) : List Nat :=
  (List.range' 1 (parts.length - 2)).filter fun i => decide (parts[i]? = some [])

def unskip (parts : List Text) : Option (List Text) :=
  match skipped parts with
  | [] => if parts.length = 8 then some parts else none
  | [i] =>
      -- an empty part at an end belongs to the `::` there
      let front := if parts.head? = some [] then (parts.take i).drop 1 else parts.take i
      let back :=
        if parts.getLast? = some [] then (parts.drop (i + 1)).dropLast else parts.drop (i + 1)
      if parts.head? = some [] ∧ front ≠ [] ∨ parts.getLast? = some [] ∧ back ≠ [] ∨
          8 ≤ front.length + back.length then none
      else some (front ++ List.replicate (8 - (front.length + back.length)) ['0'] ++ back)
  | _ => none

def parseV6 (s : Text) : Option (Fin (2 ^ 128)) :=
  let parts := s.splitOn ':'
  if parts.length < 3 then none
  else do
    let parts ← hextetParts parts
    let parts ← unskip parts
    let hextets ← parts.mapM parseHextet
    some (Fin.ofNat _ (hextets.foldl (fun n hextet => n * 65536 + hextet) 0))

/-- `ipaddress.ip_address`; nothing where it raises a `ValueError`. -/
def parse (s : Text) : Option IpAddress :=
  match parseV4 s with
  | some n => some (.v4 n)
  | none =>
      let addr := s.takeWhile fun c => decide (c ≠ '%')
      let scope := (s.dropWhile fun c => decide (c ≠ '%')).drop 1
      let hasScope := s.contains '%'
      if s.contains '/' ∨ hasScope ∧ (scope = [] ∨ scope.contains '%') then none
      else (parseV6 addr).map fun n => .v6 n (if hasScope then some scope else none)

example : parse "::ffff:10.0.0.1".toList = some (.v6 0xffff0a000001 none) := by decide +kernel

example : parse "fe80::1%eth0".toList =
    some (.v6 0xfe800000000000000000000000000001 (some "eth0".toList)) := by decide +kernel

example : parse "1:2:3:4:5:6:7::8".toList = none := by decide +kernel

/-! ## Writing -/

def dotted (n : Nat) : Text :=
  List.intercalate ['.']
    ([n / 2 ^ 24, n / 2 ^ 16 % 256, n / 2 ^ 8 % 256, n % 256].map (Nat.toDigits 10))

def zeroRun (parts : List Nat) (i : Nat) : Nat :=
  ((parts.drop i).takeWhile fun part => decide (part = 0)).length

/-- The first of the longest runs of zeros gives way to `::`, where it has more than one. -/
def compressZeros (parts : List Nat) : Text :=
  let best := (List.range parts.length).foldl (fun best i =>
    if zeroRun parts best < zeroRun parts i then i else best) 0
  let text := fun parts : List Nat => List.intercalate [':'] (parts.map (hexText 1))
  if zeroRun parts best ≤ 1 then text parts
  else text (parts.take best) ++ ':' :: ':' :: text (parts.drop (best + zeroRun parts best))

def compressed (n : Fin (2 ^ 128)) (scope : Option Text) : Text :=
  let parts := (List.range 8).map fun i => n.val / 2 ^ (16 * (7 - i)) % 65536
  (if n.val / 2 ^ 32 = 0xffff then "::ffff:".toList ++ dotted (n.val % 2 ^ 32)
    else compressZeros parts) ++ (scope.map fun scope => '%' :: scope).getD []

example : compressed 0x20010db8000000000001000000000001 (some "eth0".toList) =
    "2001:db8::1:0:0:1%eth0".toList := by decide +kernel

/-! ### What does not begin an address -/

theorem parseHextet_bracket (s : Text) : parseHextet ('[' :: s) = none := by
  rw [parseHextet]
  split
  · rfl
  · rfl

theorem mapM_eq_none {α β : Type} {f : α → Option β} {l : List α} {a : α} (ha : a ∈ l)
    (h : f a = none) : l.mapM f = none := by
  induction l with
  | nil => contradiction
  | cons b l ih =>
      rw [List.mapM_cons]
      rcases List.mem_cons.mp ha with rfl | ha
      · rw [h]
        rfl
      · rw [ih ha]
        cases f b <;> rfl

theorem hextetParts_head {first : Text} {parts parts' : List Text} (hne : parts ≠ [])
    (h : hextetParts (first :: parts) = some parts') : ∃ rest, parts' = first :: rest := by
  rw [hextetParts] at h
  split at h
  · contradiction
  · split at h
    · obtain ⟨n, -, rfl⟩ := Option.map_eq_some_iff.mp h
      rw [List.dropLast_cons_of_ne_nil hne, List.cons_append]
      exact ⟨_, rfl⟩
    · cases h
      exact ⟨parts, rfl⟩

theorem first_mem_unskip {first : Text} {parts parts' : List Text} (hne : first ≠ [])
    (h : unskip (first :: parts) = some parts') : first ∈ parts' := by
  rw [unskip] at h
  split at h
  · split at h
    · cases h
      exact List.mem_cons_self
    · contradiction
  · rename_i i hi
    have hpos : 1 ≤ i := by
      have hmem : i ∈ skipped (first :: parts) := by simp [hi]
      exact (List.mem_range'_1.mp (List.mem_filter.mp hmem).1).1
    obtain ⟨j, rfl⟩ : ∃ j, i = j + 1 := ⟨i - 1, by omega⟩
    have hhead : ¬(first :: parts).head? = some [] := by simpa using hne
    simp only [hhead, if_false, Option.ite_none_left_eq_some, Option.some.injEq] at h
    rw [← h.2, List.take_succ_cons]
    simp
  · contradiction

theorem parseV6_bracket (s : Text) : parseV6 ('[' :: s) = none := by
  rw [parseV6]
  split
  · rfl
  · rename_i hlength
    obtain ⟨first, parts, hparts⟩ : ∃ first parts, ('[' :: s).splitOn ':' =
        ('[' :: first) :: parts := by
      rw [List.splitOn_cons_eq_if_modifyHead]
      cases hs : s.splitOn ':' with
      | nil => exact absurd hs (List.splitOn_ne_nil ':' s)
      | cons first parts => exact ⟨first, parts, by simp⟩
    rw [hparts] at hlength ⊢
    have hne : parts ≠ [] := by
      rintro rfl
      exact hlength (by simp)
    cases hhextets : hextetParts (('[' :: first) :: parts) with
    | none => rfl
    | some parts₁ =>
        obtain ⟨rest, rfl⟩ := hextetParts_head hne hhextets
        cases hunskip : unskip (('[' :: first) :: rest) with
        | none => simp [hunskip]
        | some parts₂ =>
            have hmem := first_mem_unskip (List.cons_ne_nil _ _) hunskip
            simp [hunskip, mapM_eq_none hmem (parseHextet_bracket first)]

theorem parseV4_bracket (s : Text) : parseV4 ('[' :: s) = none := by
  obtain ⟨first, parts, hparts⟩ : ∃ first parts, ('[' :: s).splitOn '.' =
      ('[' :: first) :: parts := by
    rw [List.splitOn_cons_eq_if_modifyHead]
    cases hs : s.splitOn '.' with
    | nil => exact absurd hs (List.splitOn_ne_nil '.' s)
    | cons first parts => exact ⟨first, parts, by simp⟩
  have hoctet : parseOctet ('[' :: first) = none := by
    rw [parseOctet, if_neg]
    rintro ⟨-, hdigits, -⟩
    simp at hdigits
  rw [parseV4, hparts, mapM_eq_none List.mem_cons_self hoctet]

theorem parse_bracket (s : Text) : parse ('[' :: s) = none := by
  rw [parse, parseV4_bracket]
  have haddr : ('[' :: s).takeWhile (fun c => decide (c ≠ '%')) =
      '[' :: s.takeWhile fun c => decide (c ≠ '%') := by
    rw [List.takeWhile_cons_of_pos (by decide)]
  simp only [haddr, parseV6_bracket]
  split
  · rfl
  · rfl

/-! ## IPv4 in IPv6 -/

/-- The address of IPv6 stands for the address `v` of IPv4. -/
inductive Embeds (v : Fin (2 ^ 32)) (n : Fin (2 ^ 128)) : Prop where
  /-- `::ffff:0:0/96` -/
  | mapped (h : n.val = 0xffff * 2 ^ 32 + v.val)
  /-- `::/96` -/
  | compatible (h : n.val = v.val)
  /-- `64:ff9b::/96` -/
  | nat64 (h : n.val = 0x64ff9b * 2 ^ 96 + v.val)
  /-- `2002::/16`, where the rest of the address is free -/
  | sixToFour (rest : Fin (2 ^ 80))
      (h : n.val = 0x2002 * 2 ^ 112 + v.val * 2 ^ 80 + rest.val)

/-- The ranges do not overlap, and each says which address is meant. -/
theorem Embeds.unique {v v' : Fin (2 ^ 32)} {n : Fin (2 ^ 128)} (h : Embeds v n)
    (h' : Embeds v' n) : v = v' := by
  have hv := v.isLt
  have hv' := v'.isLt
  apply Fin.ext
  cases h with
  | mapped h | compatible h | nat64 h =>
      cases h' with
      | mapped h' | compatible h' | nat64 h' => omega
      | sixToFour rest h' => omega
  | sixToFour rest h =>
      cases h' with
      | mapped h' | compatible h' | nat64 h' => omega
      | sixToFour rest' h' => omega

/-- The address a connection to `a` may end at. -/
inductive Effective : IpAddress → IpAddress → Prop where
  | v4 (n : Fin (2 ^ 32)) : Effective (.v4 n) (.v4 n)
  | embedded {v : Fin (2 ^ 32)} {n : Fin (2 ^ 128)} (scope : Option Text) (h : Embeds v n) :
      Effective (.v6 n scope) (.v4 v)
  | plain {n : Fin (2 ^ 128)} (scope : Option Text) (h : ∀ v, ¬Embeds v n) :
      Effective (.v6 n scope) (.v6 n scope)

theorem Effective.unique {a b c : IpAddress} (h : Effective a b) (h' : Effective a c) : b = c := by
  cases h with
  | v4 n =>
      cases h'
      rfl
  | embedded scope h =>
      cases h' with
      | embedded _ h' => rw [h.unique h']
      | plain _ h' => exact absurd h (h' _)
  | plain scope h =>
      cases h' with
      | embedded _ h' => exact absurd h' (h _)
      | plain => rfl

end IpAddress

end StorageService.Foundation
