import StorageService.Foundation.Json
import StorageService.Storage.Names

/-!
# The principal of a verified token

`principal.py`: what the claims of a token say about the caller, with the
reading of integers it rests on.
-/

namespace StorageService.Auth

open StorageService.Foundation
open StorageService.Storage (decimalDigit? numeral)

/-! ## `int(value)` -/

/-- The integer a text denotes; single underscores may stand between digits. -/
def intOfText (s : Text) : Option ℤ :=
  let s := numeral s
  let negative := ['-'] <+: s
  let s := if negative ∨ ['+'] <+: s then s.drop 1 else s
  let groups := s.splitOn '_'
  let digits := groups.flatten
  -- longer numerals are refused with a `ValueError`
  if groups.any List.isEmpty ∨ 4300 < digits.length then none
  else
    (digits.mapM decimalDigit?).map fun ds =>
      let n := ds.foldl (fun n d => 10 * n + d) 0
      if negative then -(n : ℤ) else n

inductive IntError where
  | typeError
  | valueError
  | overflowError
  deriving DecidableEq, Repr

def intOf : Json → Except IntError ℤ
  | .null | .list _ | .dict _ => .error .typeError
  | .bool b => .ok (if b then 1 else 0)
  | .int n => .ok n
  | .float q => .ok (q.num.tdiv q.den)
  | .nan => .error .valueError
  | .infinity _ => .error .overflowError
  | .text s => (intOfText s).elim (.error .valueError) .ok

/-! ## The principal -/

structure Principal where
  userId : ℤ
  companyId : Option ℤ
  isStaff : Bool
  isCompanyOwner : Bool
  deriving DecidableEq, Repr

inductive ClaimsError where
  | valueError (message : String)
  | uncaught
  deriving DecidableEq, Repr

/-- `int(value)`, where type and value errors are turned into one with this message. -/
def claimInt (value : Json) (message : String) : Except ClaimsError ℤ :=
  match intOf value with
  | .ok n => .ok n
  | .error .overflowError => .error .uncaught
  | .error _ => .error (.valueError message)

def userMetadata (claims : List (Text × Json)) : List (Text × Json) :=
  match Json.get claims ['u', 's', 'e', 'r', '_', 'm', 'e', 't', 'a', 'd', 'a', 't', 'a'] with
  | .dict fields => fields
  | _ => []

def principalFromClaims (claims : List (Text × Json)) : Except ClaimsError Principal := do
  let metadata := userMetadata claims
  let rawUid := (Json.get? claims ['u', 's', 'e', 'r', '_', 'i', 'd']).getD
    (Json.get claims ['s', 'u', 'b'])
  let userId ← claimInt rawUid "JWT is missing a numeric user id / sub claim."
  let rawCompany := Json.get claims ['c', 'o', 'm', 'p', 'a', 'n', 'y', '_', 'i', 'd']
  let companyId ← if rawCompany.absent then pure none
    else some <$> claimInt rawCompany "JWT company_id must be an integer."
  pure
    { userId := userId
      companyId := companyId
      isStaff := (Json.get metadata ['i', 's', '_', 's', 't', 'a', 'f', 'f']).truthy
      isCompanyOwner := (Json.get metadata ['i', 's', '_', 'c', 'o', 'm', 'p', 'a', 'n', 'y',
        '_', 'o', 'w', 'n', 'e', 'r']).truthy }

end StorageService.Auth
