import Mathlib.Data.List.Infix
import StorageService.Foundation.Text

/-!
# Regular expressions

As much of `re` as the repository's patterns need.  A match may leave several
ends of the text over, and a pattern is found where a match starts anywhere.
-/

namespace StorageService.Foundation

inductive Pattern where
  | empty
  | char (p : Char → Bool)
  | many (p : Char → Bool)
  /-- `$`, which also stands before a last line feed -/
  | textEnd
  | seq (a b : Pattern)
  | alt (a b : Pattern)

namespace Pattern

def skipMany (p : Char → Bool) : Text → List Text
  | [] => [[]]
  | c :: s => (c :: s) :: if p c then skipMany p s else []

def rests : Pattern → Text → List Text
  | empty, s => [s]
  | char p, c :: s => if p c then [s] else []
  | char _, [] => []
  | many p, s => skipMany p s
  | textEnd, s => if s = [] ∨ s = ['\n'] then [s] else []
  | seq a b, s => (a.rests s).flatMap b.rests
  | alt a b, s => a.rests s ++ b.rests s

def search (pattern : Pattern) (s : Text) : Bool :=
  s.tails.any fun t => !(pattern.rests t).isEmpty

def optional (pattern : Pattern) : Pattern := alt pattern empty

def seqs : List Pattern → Pattern
  | [] => empty
  | a :: as => seq a (seqs as)

def alts (first : Pattern) (others : List Pattern) : Pattern := others.foldr alt first

end Pattern

/-! ## `re.IGNORECASE` -/

/-- The letter of ASCII that a character stands for; four others do as well. -/
def ignoreCase (c : Char) : Char :=
  if c.toNat = 0x130 ∨ c.toNat = 0x131 then 'i'
  else if c.toNat = 0x17f then 's'
  else if c.toNat = 0x212a then 'k'
  else c.toLower

def Pattern.oneOf (chars : Text) : Pattern := .char fun c => chars.contains (ignoreCase c)

def Pattern.word (text : Text) : Pattern :=
  .seqs (text.map fun c => .char fun d => ignoreCase d == c)

end StorageService.Foundation
