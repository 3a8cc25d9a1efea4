import StorageService.Auth.Principal

/-!
# User tokens and deletion assertions

`_decode_token` of `authentication.py`, the choice of a key in `jwks_client.py`
and `verify_deletion_assertion` of `company_deletion.py`.  PyJWT is a parameter,
and so is what a refresh of the keys brings; logging is left out, and with it
the part of a message that is only shown while debugging.
-/

namespace StorageService.Auth

open StorageService.Foundation

abbrev Claims := List (Text × Json)

/-! ## What PyJWT does -/

inductive TokenError where
  | expired
  | invalid
  | other
  deriving DecidableEq, Repr

def present : Json → Bool
  | .null => false
  | _ => true

def isText (text : Text) : Json → Bool
  | .text s => decide (s = text)
  | _ => false

def textOf? : Json → Option Text
  | .text s => some s
  | _ => none

def audienceValues : Json → List Text
  | .text s => [s]
  | .list items => (items.mapM textOf?).getD []
  | _ => []

def expClaim : Text := ['e', 'x', 'p']

def iatClaim : Text := ['i', 'a', 't']

def issClaim : Text := ['i', 's', 's']

def audClaim : Text := ['a', 'u', 'd']

def scopeClaim : Text := ['s', 'c', 'o', 'p', 'e']

def companyIdClaim : Text := ['c', 'o', 'm', 'p', 'a', 'n', 'y', '_', 'i', 'd']

def audiences (claims : Claims) : List Text := audienceValues (Json.get claims audClaim)

/-- What `jwt.decode` is asked to check; an issuer or audience of `none` is not checked. -/
structure DecodeOptions where
  require : List Text
  audience : Option Text
  issuer : Option Text

/-- The checks on the claims themselves, of which `timely` are those on times. -/
def DecodeOptions.accepts (opts : DecodeOptions) (timely : Claims → Bool) (claims : Claims) :
    Bool :=
  opts.require.all (fun name => present (Json.get claims name)) && timely claims &&
    opts.issuer.all (fun issuer => isText issuer (Json.get claims issClaim)) &&
    opts.audience.all fun audience => (audiences claims).contains audience

structure PyJwt (Key : Type) where
  getUnverifiedHeader : Text → Option Text
  /-- `jwt.decode` at a time. -/
  decode : Text → Key → List Text → DecodeOptions → ℤ → Except TokenError Claims
  /-- The claims written in a token. -/
  claimsOf : Text → Claims
  /-- The key bears out the signature, which was made by one of the algorithms. -/
  signed : Text → Key → List Text → Bool
  timely : ℤ → Claims → Bool

structure PyJwt.Lawful {Key : Type} (lib : PyJwt Key) : Prop where
  decode_ok : ∀ token key algorithms opts now claims,
    lib.decode token key algorithms opts now = .ok claims ↔
      claims = lib.claimsOf token ∧ lib.signed token key algorithms = true ∧
        opts.accepts (lib.timely now) claims = true
  decode_expired : ∀ token key algorithms opts now,
    lib.decode token key algorithms opts now = .error .expired →
      lib.timely now (lib.claimsOf token) = false

/-! ## Keys and settings -/

/-- The keys by their ids after `_refresh()` and after `_refresh(force=True)`, which may raise. -/
structure JWKSClient (Key : Type) where
  refreshed : Option (List (Text × Key))
  forced : Option (List (Text × Key))

structure IdentitySettings (Key : Type) where
  identityIssuer : Option Text
  identityAudience : Option Text
  jwtAlgorithms : List Text
  jwtHs256FallbackSecret : Option Key
  allowJwtHs256Fallback : Bool
  debug : Bool

variable {Key : Type}

def keyOf (keys : List (Text × Key)) (kid : Text) : Option Key :=
  (keys.find? fun entry => decide (entry.1 = kid)).map Prod.snd

def orRaise {α : Type} (e : TokenError) (o : Option α) : Except TokenError α :=
  o.elim (.error e) .ok

def JWKSClient.getSigningKey (lib : PyJwt Key) (client : JWKSClient Key) (token : Text) :
    Except TokenError (Option Key) := do
  let kid ← orRaise .invalid (lib.getUnverifiedHeader token)
  let keys ← orRaise .other client.refreshed
  if kid ≠ [] then
    match keyOf keys kid with
    | some key => pure (some key)
    | none =>
        -- a new key id during rotation; another key is never tried
        let keys ← orRaise .other client.forced
        match keyOf keys kid with
        | some key => pure (some key)
        | none => throw .invalid
  else
    match keys with
    | [] => pure none
    | [(_, key)] => pure (some key)
    | _ => throw .invalid

def fallbackSecret (settings : IdentitySettings Key) : Option Key :=
  if settings.debug || settings.allowJwtHs256Fallback then settings.jwtHs256FallbackSecret
  else none

def rs256 : Text := ['R', 'S', '2', '5', '6']

def hs256 : Text := ['H', 'S', '2', '5', '6']

def decodeByKeys (lib : PyJwt Key) (client : JWKSClient Key) (token : Text)
    (algorithms : List Text) (opts : DecodeOptions) (now : ℤ) :
    Except TokenError (Option Claims) := do
  match ← client.getSigningKey lib token with
  | none => pure none
  | some key => some <$> lib.decode token key algorithms opts now

def decodeBySecret (lib : PyJwt Key) (settings : IdentitySettings Key) (token : Text)
    (opts : DecodeOptions) (now : ℤ) : Option (Except TokenError Claims) :=
  (fallbackSecret settings).map fun secret => lib.decode token secret [hs256] opts now

/-! ## User tokens -/

inductive AuthError where
  | authenticationFailed (message : String)
  | uncaught
  deriving DecidableEq, Repr

def genericTokenDetail : String :=
  "Token is invalid or could not be verified against identity JWKS."

def userOptions (settings : IdentitySettings Key) : DecodeOptions where
  require := [expClaim]
  audience := settings.identityAudience
  issuer := settings.identityIssuer

def decodeTokenBySecret (lib : PyJwt Key) (settings : IdentitySettings Key) (now : ℤ)
    (token : Text) : Except AuthError Claims :=
  match decodeBySecret lib settings token (userOptions settings) now with
  | some (.ok claims) => .ok claims
  | some (.error .expired) => .error (.authenticationFailed "Token has expired.")
  | none | some (.error .invalid) => .error (.authenticationFailed genericTokenDetail)
  | some (.error .other) => .error .uncaught

def decodeToken (lib : PyJwt Key) (settings : IdentitySettings Key) (client : JWKSClient Key)
    (now : ℤ) (token : Text) : Except AuthError Claims :=
  match decodeByKeys lib client token settings.jwtAlgorithms (userOptions settings) now with
  | .ok (some claims) => .ok claims
  | .error .expired => .error (.authenticationFailed "Token has expired.")
  | .ok none | .error .invalid | .error .other => decodeTokenBySecret lib settings now token

def authenticateCredentials (lib : PyJwt Key) (settings : IdentitySettings Key)
    (client : JWKSClient Key) (now : ℤ) (token : Text) : Except AuthError Principal :=
  match decodeToken lib settings client now token with
  | .error e => .error e
  | .ok claims =>
      match principalFromClaims claims with
      | .ok principal => .ok principal
      | .error (.valueError message) => .error (.authenticationFailed message)
      | .error .uncaught => .error .uncaught

/-! ## Deletion assertions -/

inductive DeletionAssertionError where
  | rejected (message : String)
  | uncaught
  deriving DecidableEq, Repr

def deletionAudience : Text :=
  ['s', 'h', 'e', 'l', 'l', 'u', 'i', '-', 'c', 'o', 'm', 'p', 'a', 'n', 'y', '-', 'd', 'e', 'l',
    'e', 't', 'i', 'o', 'n']

def deletionScope : Text := ['c', 'o', 'm', 'p', 'a', 'n', 'y', '.', 'd', 'e', 'l', 'e', 't', 'e']

def maxLifetime : ℤ := 120

def deletionOptions (settings : IdentitySettings Key) : DecodeOptions where
  require := [expClaim, iatClaim, audClaim, companyIdClaim]
  audience := some deletionAudience
  issuer := settings.identityIssuer

def checkAssertion (claims : Claims) : Except DeletionAssertionError ℤ :=
  if isText deletionScope (Json.get claims scopeClaim) = false then
    .error (.rejected "Assertion scope must be company.delete.")
  else
    match intOf (Json.get claims expClaim), intOf (Json.get claims iatClaim) with
    | .ok exp, .ok iat =>
        if maxLifetime < exp - iat then .error (.rejected "Assertion lifetime is too long.")
        else
          match Json.get claims companyIdClaim with
          | .int companyId =>
              if 0 < companyId then .ok companyId
              else .error (.rejected "Assertion has no valid company_id.")
          | _ => .error (.rejected "Assertion has no valid company_id.")
    | _, _ => .error .uncaught

def verifyDeletionAssertion (lib : PyJwt Key) (settings : IdentitySettings Key)
    (client : JWKSClient Key) (now : ℤ) (raw : Text) : Except DeletionAssertionError ℤ :=
  match decodeByKeys lib client raw [rs256] (deletionOptions settings) now with
  | .ok (some claims) => checkAssertion claims
  | .ok none => .error (.rejected "Assertion was rejected.")
  | .error _ =>
      match decodeBySecret lib settings raw (deletionOptions settings) now with
      | some (.ok claims) => checkAssertion claims
      | none | some (.error .expired) | some (.error .invalid) =>
          .error (.rejected "Assertion was rejected.")
      | some (.error .other) => .error .uncaught

end StorageService.Auth
