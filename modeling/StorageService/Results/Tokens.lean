import StorageService.Auth.Tokens

/-!
# Who accepts a token

The verifiers of user tokens and of deletion assertions share the issuer and the
keys.  What keeps them apart is the audience.
-/

namespace StorageService.Results

open StorageService.Foundation
open StorageService.Auth

section Tokens

variable {Key : Type} {lib : PyJwt Key} {settings : IdentitySettings Key}
variable {client : JWKSClient Key} {now : ℤ} {token : Text}

/-! ## Signatures -/

def SignedByKey (lib : PyJwt Key) (client : JWKSClient Key) (token : Text)
    (algorithms : List Text) : Prop :=
  ∃ key, client.getSigningKey lib token = .ok (some key) ∧
    lib.signed token key algorithms = true

def SignedBySecret (lib : PyJwt Key) (settings : IdentitySettings Key) (token : Text) : Prop :=
  ∃ secret, fallbackSecret settings = some secret ∧ lib.signed token secret [hs256] = true

theorem orRaise_bind_eq_error {α β : Type} {e : TokenError} {o : Option α}
    {f : α → Except TokenError β} {e' : TokenError} (he : e ≠ e')
    (hf : ∀ a, f a ≠ .error e') : (orRaise e o >>= f) ≠ .error e' := by
  cases o with
  | none => simpa [orRaise, bind, Except.bind] using he
  | some a => exact hf a

/-- The choice of a key never finds that a token has expired. -/
theorem getSigningKey_ne_expired : client.getSigningKey lib token ≠ .error .expired := by
  refine orRaise_bind_eq_error (by decide) fun kid => ?_
  refine orRaise_bind_eq_error (by decide) fun keys => ?_
  split
  · split
    · simp [pure, Except.pure]
    · refine orRaise_bind_eq_error (by decide) fun keys => ?_
      split <;> simp [pure, Except.pure, throw, throwThe, MonadExceptOf.throw]
  · split <;> simp [pure, Except.pure, throw, throwThe, MonadExceptOf.throw]

section Keys

variable {algorithms : List Text} {opts : DecodeOptions}

theorem decodeByKeys_of_key {key : Key} (h : client.getSigningKey lib token = .ok (some key)) :
    decodeByKeys lib client token algorithms opts now =
      some <$> lib.decode token key algorithms opts now := by
  simp [decodeByKeys, h, bind, Except.bind]

theorem decodeByKeys_of_none (h : client.getSigningKey lib token = .ok none) :
    decodeByKeys lib client token algorithms opts now = .ok none := by
  simp [decodeByKeys, h, bind, Except.bind, pure, Except.pure]

theorem decodeByKeys_of_error {e : TokenError}
    (h : client.getSigningKey lib token = .error e) :
    decodeByKeys lib client token algorithms opts now = .error e := by
  simp [decodeByKeys, h, bind, Except.bind]

theorem decodeByKeys_ok_iff (hlib : lib.Lawful) {claims : Claims} :
    decodeByKeys lib client token algorithms opts now = .ok (some claims) ↔
      claims = lib.claimsOf token ∧ SignedByKey lib client token algorithms ∧
        opts.accepts (lib.timely now) claims = true := by
  unfold SignedByKey
  cases hkey : client.getSigningKey lib token with
  | error e => simp [decodeByKeys_of_error hkey]
  | ok found =>
      cases found with
      | none => simp [decodeByKeys_of_none hkey]
      | some key =>
          have hdecode := hlib.decode_ok token key algorithms opts now claims
          rw [decodeByKeys_of_key hkey]
          cases hresult : lib.decode token key algorithms opts now with
          | error e =>
              rw [hresult] at hdecode
              simpa [Functor.map, Except.map] using hdecode
          | ok claims' =>
              rw [hresult] at hdecode
              simpa [Functor.map, Except.map] using hdecode

theorem decodeByKeys_ok_none_iff :
    decodeByKeys lib client token algorithms opts now = .ok none ↔
      client.getSigningKey lib token = .ok none := by
  cases hkey : client.getSigningKey lib token with
  | error e => simp [decodeByKeys_of_error hkey]
  | ok found =>
      cases found with
      | none => simp [decodeByKeys_of_none hkey]
      | some key =>
          rw [decodeByKeys_of_key hkey]
          cases lib.decode token key algorithms opts now <;> simp [Functor.map, Except.map]

theorem timely_of_decodeByKeys_expired (hlib : lib.Lawful)
    (h : decodeByKeys lib client token algorithms opts now = .error .expired) :
    lib.timely now (lib.claimsOf token) = false := by
  cases hkey : client.getSigningKey lib token with
  | error e =>
      rw [decodeByKeys_of_error hkey] at h
      cases h
      exact absurd hkey getSigningKey_ne_expired
  | ok found =>
      cases found with
      | none =>
          rw [decodeByKeys_of_none hkey] at h
          cases h
      | some key =>
          rw [decodeByKeys_of_key hkey] at h
          refine hlib.decode_expired token key algorithms opts now ?_
          cases hresult : lib.decode token key algorithms opts now with
          | error e => simpa [hresult, Functor.map, Except.map] using h
          | ok claims => simp [hresult, Functor.map, Except.map] at h

end Keys

/-! ## Who accepts -/

theorem timely_of_accepts {opts : DecodeOptions} {timely : Claims → Bool} {claims : Claims}
    (h : opts.accepts timely claims = true) : timely claims = true := by
  simp only [DecodeOptions.accepts, Bool.and_eq_true] at h
  exact h.1.1.2

theorem decodeBySecret_ok_iff (hlib : lib.Lawful) {opts : DecodeOptions} {claims : Claims} :
    decodeBySecret lib settings token opts now = some (.ok claims) ↔
      claims = lib.claimsOf token ∧ SignedBySecret lib settings token ∧
        opts.accepts (lib.timely now) claims = true := by
  unfold decodeBySecret SignedBySecret
  cases fallbackSecret settings with
  | none => simp
  | some secret => simp [hlib.decode_ok]

theorem decodeToken_of_keys {claims : Claims} (h : decodeByKeys lib client token
      settings.jwtAlgorithms (userOptions settings) now = .ok (some claims)) :
    decodeToken lib settings client now token = .ok claims := by
  simp [decodeToken, h]

theorem decodeToken_of_expired (h : decodeByKeys lib client token
      settings.jwtAlgorithms (userOptions settings) now = .error .expired) (claims : Claims) :
    decodeToken lib settings client now token ≠ .ok claims := by
  simp [decodeToken, h]

theorem decodeTokenBySecret_ok_iff {claims : Claims} :
    decodeTokenBySecret lib settings now token = .ok claims ↔
      decodeBySecret lib settings token (userOptions settings) now = some (.ok claims) := by
  unfold decodeTokenBySecret
  cases decodeBySecret lib settings token (userOptions settings) now with
  | none => simp
  | some result =>
      cases result with
      | ok claims' => simp
      | error e => cases e <;> simp

theorem decodeToken_of_secret {claims : Claims} (hkeys : ∀ claims', decodeByKeys lib client token
      settings.jwtAlgorithms (userOptions settings) now ≠ .ok (some claims'))
    (hexpired : decodeByKeys lib client token settings.jwtAlgorithms (userOptions settings) now ≠
      .error .expired) :
    decodeToken lib settings client now token = .ok claims ↔
      decodeBySecret lib settings token (userOptions settings) now = some (.ok claims) := by
  unfold decodeToken
  split
  · rename_i hfound
    exact absurd hfound (hkeys _)
  · rename_i h
    exact absurd h hexpired
  · exact decodeTokenBySecret_ok_iff
  · exact decodeTokenBySecret_ok_iff
  · exact decodeTokenBySecret_ok_iff

theorem decodeToken_ok_iff (hlib : lib.Lawful) {claims : Claims} :
    decodeToken lib settings client now token = .ok claims ↔
      claims = lib.claimsOf token ∧
        (SignedByKey lib client token settings.jwtAlgorithms ∨
          SignedBySecret lib settings token) ∧
        (userOptions settings).accepts (lib.timely now) claims = true := by
  have hkeys {claims : Claims} :
      decodeByKeys lib client token settings.jwtAlgorithms (userOptions settings) now =
          .ok (some claims) ↔ _ := decodeByKeys_ok_iff hlib
  by_cases hfound : ∃ claims', decodeByKeys lib client token settings.jwtAlgorithms
      (userOptions settings) now = .ok (some claims')
  · obtain ⟨claims', hfound⟩ := hfound
    obtain ⟨rfl, hsigned, haccepts⟩ := hkeys.mp hfound
    rw [decodeToken_of_keys hfound, Except.ok.injEq]
    constructor
    · rintro rfl
      exact ⟨rfl, .inl hsigned, haccepts⟩
    · rintro ⟨rfl, -⟩
      rfl
  have hunsigned : ¬(claims = lib.claimsOf token ∧
      SignedByKey lib client token settings.jwtAlgorithms ∧
        (userOptions settings).accepts (lib.timely now) claims = true) :=
    fun h => hfound ⟨claims, hkeys.mpr h⟩
  by_cases hexpired : decodeByKeys lib client token settings.jwtAlgorithms
      (userOptions settings) now = .error .expired
  · refine iff_of_false (decodeToken_of_expired hexpired claims) ?_
    rintro ⟨rfl, -, haccepts⟩
    have hlate := timely_of_decodeByKeys_expired hlib hexpired
    rw [timely_of_accepts haccepts] at hlate
    cases hlate
  · rw [decodeToken_of_secret (fun claims' h => hfound ⟨claims', h⟩) hexpired,
      decodeBySecret_ok_iff hlib]
    constructor
    · rintro ⟨hclaims, hsecret, haccepts⟩
      exact ⟨hclaims, .inr hsecret, haccepts⟩
    · rintro ⟨hclaims, hkey | hsecret, haccepts⟩
      · exact absurd ⟨hclaims, hkey, haccepts⟩ hunsigned
      · exact ⟨hclaims, hsecret, haccepts⟩

theorem authenticateCredentials_ok_iff (hlib : lib.Lawful) {principal : Principal} :
    authenticateCredentials lib settings client now token = .ok principal ↔
      (SignedByKey lib client token settings.jwtAlgorithms ∨
          SignedBySecret lib settings token) ∧
        (userOptions settings).accepts (lib.timely now) (lib.claimsOf token) = true ∧
        principalFromClaims (lib.claimsOf token) = .ok principal := by
  have hdecode {claims : Claims} :
      decodeToken lib settings client now token = .ok claims ↔ _ := decodeToken_ok_iff hlib
  unfold authenticateCredentials
  cases hresult : decodeToken lib settings client now token with
  | error e =>
      refine iff_of_false (by simp) ?_
      rintro ⟨hsigned, haccepts, -⟩
      rw [hdecode.mpr ⟨rfl, hsigned, haccepts⟩] at hresult
      cases hresult
  | ok claims =>
      obtain ⟨rfl, hsigned, haccepts⟩ := hdecode.mp hresult
      cases hprincipal : principalFromClaims (lib.claimsOf token) with
      | ok p => simp [hprincipal, hsigned, haccepts]
      | error e => cases e <;> simp [hprincipal]

theorem verifyDeletionAssertion_ok_iff (hlib : lib.Lawful) {companyId : ℤ} :
    verifyDeletionAssertion lib settings client now token = .ok companyId ↔
      (SignedByKey lib client token [rs256] ∨
          client.getSigningKey lib token ≠ .ok none ∧ SignedBySecret lib settings token) ∧
        (deletionOptions settings).accepts (lib.timely now) (lib.claimsOf token) = true ∧
        checkAssertion (lib.claimsOf token) = .ok companyId := by
  have hkeys {claims : Claims} :
      decodeByKeys lib client token [rs256] (deletionOptions settings) now =
          .ok (some claims) ↔ _ := decodeByKeys_ok_iff hlib
  have hsecret {claims : Claims} :
      decodeBySecret lib settings token (deletionOptions settings) now = some (.ok claims) ↔ _ :=
    decodeBySecret_ok_iff hlib
  unfold verifyDeletionAssertion
  split
  · rename_i claims hfound
    obtain ⟨rfl, hsigned, haccepts⟩ := hkeys.mp hfound
    simp [hsigned, haccepts]
  · rename_i hnone
    have hkey := decodeByKeys_ok_none_iff.mp hnone
    refine iff_of_false (by simp) ?_
    rintro ⟨⟨key, hsome, -⟩ | ⟨hne, -⟩, -⟩
    · rw [hkey] at hsome
      cases hsome
    · exact hne hkey
  · rename_i e hraised
    have hne : client.getSigningKey lib token ≠ .ok none := by
      intro hkey
      rw [decodeByKeys_ok_none_iff.mpr hkey] at hraised
      cases hraised
    have hunsigned : ¬(SignedByKey lib client token [rs256] ∧
        (deletionOptions settings).accepts (lib.timely now) (lib.claimsOf token) = true) := by
      intro h
      rw [hkeys.mpr ⟨rfl, h⟩] at hraised
      cases hraised
    split
    · rename_i claims hfound
      obtain ⟨rfl, hsigned, haccepts⟩ := hsecret.mp hfound
      simp [hne, hsigned, haccepts]
    all_goals
      rename_i hnone
      refine iff_of_false (by simp) ?_
      rintro ⟨hkey | ⟨-, hsigned⟩, haccepts, -⟩
      · exact hunsigned ⟨hkey, haccepts⟩
      · rw [hsecret.mpr ⟨rfl, hsigned, haccepts⟩] at hnone
        cases hnone

/-! ## What the claims say -/

def NumericUser (claims : Claims) : Prop :=
  ∃ userId, intOf ((Json.get? claims ['u', 's', 'e', 'r', '_', 'i', 'd']).getD
    (Json.get claims ['s', 'u', 'b'])) = .ok userId

def ShortLived (claims : Claims) : Prop :=
  ∃ exp iat, intOf (Json.get claims expClaim) = .ok exp ∧
    intOf (Json.get claims iatClaim) = .ok iat ∧ exp - iat ≤ maxLifetime

def PositiveCompany (claims : Claims) : Prop :=
  ∃ companyId, Json.get claims companyIdClaim = .int companyId ∧ 0 < companyId

theorem claimInt_ok_iff (message : String) {value : Json} :
    (∃ n, claimInt value message = .ok n) ↔ ∃ n, intOf value = .ok n := by
  unfold claimInt
  cases h : intOf value with
  | ok n => simp
  | error e => cases e <;> simp

theorem checkAssertion_ok_iff {claims : Claims} :
    (∃ companyId, checkAssertion claims = .ok companyId) ↔
      isText deletionScope (Json.get claims scopeClaim) = true ∧ ShortLived claims ∧
        PositiveCompany claims := by
  unfold checkAssertion ShortLived PositiveCompany
  cases isText deletionScope (Json.get claims scopeClaim) with
  | false => simp
  | true =>
      cases intOf (Json.get claims expClaim) with
      | error e => simp
      | ok exp =>
          cases intOf (Json.get claims iatClaim) with
          | error e => simp
          | ok iat =>
              by_cases hlong : maxLifetime < exp - iat
              · refine iff_of_false (by simp [hlong]) ?_
                rintro ⟨-, ⟨_, _, hexp, hiat, hshort⟩, -⟩
                cases hexp
                cases hiat
                omega
              · have hshort : ∃ exp' iat', (.ok exp : Except IntError ℤ) = .ok exp' ∧
                    (.ok iat : Except IntError ℤ) = .ok iat' ∧ exp' - iat' ≤ maxLifetime :=
                  ⟨exp, iat, rfl, rfl, not_lt.mp hlong⟩
                simp only [hlong, hshort, true_and]
                cases Json.get claims companyIdClaim with
                | int companyId => by_cases hpos : 0 < companyId <;> simp [hpos]
                | _ => simp

theorem principalFromClaims_ok_iff {claims : Claims} (hcompany : PositiveCompany claims) :
    (∃ principal, principalFromClaims claims = .ok principal) ↔ NumericUser claims := by
  obtain ⟨companyId, hcompany, -⟩ := hcompany
  unfold NumericUser
  rw [← claimInt_ok_iff "JWT is missing a numeric user id / sub claim."]
  simp only [principalFromClaims]
  rw [companyIdClaim] at hcompany
  have hknown : claimInt (.int companyId) "JWT company_id must be an integer." = .ok companyId :=
    rfl
  cases claimInt ((Json.get? claims ['u', 's', 'e', 'r', '_', 'i', 'd']).getD
      (Json.get claims ['s', 'u', 'b'])) "JWT is missing a numeric user id / sub claim." with
  | error e => simp [bind, Except.bind]
  | ok userId =>
      simp [bind, Except.bind, hcompany, Json.absent, hknown, pure, Except.pure]

/-! ## Separation -/

structure Moment (Key : Type) where
  client : JWKSClient Key
  now : ℤ

variable (lib settings token)

def NamesBothAudiences (audience : Text) : Prop :=
  audience ∈ audiences (lib.claimsOf token) ∧
    deletionAudience ∈ audiences (lib.claimsOf token)

/-- But for the audience the token meets all that both verifiers demand. -/
structure OtherwiseMet (issuer : Text) (atLogin atDeletion : Moment Key) : Prop where
  userSigned : SignedByKey lib atLogin.client token settings.jwtAlgorithms ∨
    SignedBySecret lib settings token
  assertionSigned : SignedByKey lib atDeletion.client token [rs256] ∨
    atDeletion.client.getSigningKey lib token ≠ .ok none ∧ SignedBySecret lib settings token
  timely : lib.timely atLogin.now (lib.claimsOf token) = true ∧
    lib.timely atDeletion.now (lib.claimsOf token) = true
  issuer : isText issuer (Json.get (lib.claimsOf token) issClaim) = true
  scope : isText deletionScope (Json.get (lib.claimsOf token) scopeClaim) = true
  shortLived : ShortLived (lib.claimsOf token)
  company : PositiveCompany (lib.claimsOf token)
  user : NumericUser (lib.claimsOf token)

def AtMostOneAccepts (atLogin atDeletion : Moment Key) : Prop :=
  ¬((∃ principal, authenticateCredentials lib settings atLogin.client atLogin.now token =
      .ok principal) ∧
    ∃ companyId, verifyDeletionAssertion lib settings atDeletion.client atDeletion.now token =
      .ok companyId)

variable {lib settings token}

theorem userOptions_accepts_iff {issuer audience : Text} {timely : Claims → Bool}
    {claims : Claims} (hissuer : settings.identityIssuer = some issuer)
    (haudience : settings.identityAudience = some audience) :
    (userOptions settings).accepts timely claims = true ↔
      present (Json.get claims expClaim) = true ∧ timely claims = true ∧
        isText issuer (Json.get claims issClaim) = true ∧ audience ∈ audiences claims := by
  simp [DecodeOptions.accepts, userOptions, hissuer, haudience, and_assoc]

theorem deletionOptions_accepts_iff {issuer : Text} {timely : Claims → Bool} {claims : Claims}
    (hissuer : settings.identityIssuer = some issuer) :
    (deletionOptions settings).accepts timely claims = true ↔
      (∀ name ∈ [expClaim, iatClaim, audClaim, companyIdClaim],
        present (Json.get claims name) = true) ∧ timely claims = true ∧
        isText issuer (Json.get claims issClaim) = true ∧
        deletionAudience ∈ audiences claims := by
  simp [DecodeOptions.accepts, deletionOptions, hissuer, and_assoc]

theorem present_of_intOf {value : Json} {n : ℤ} (h : intOf value = .ok n) :
    present value = true := by
  cases value <;> first | rfl | cases h

theorem present_of_audiences {claims : Claims} {audience : Text}
    (h : audience ∈ audiences claims) : present (Json.get claims audClaim) = true := by
  unfold audiences at h
  cases hvalue : Json.get claims audClaim with
  | null => simp [hvalue, audienceValues] at h
  | _ => rfl

theorem present_of_read {claims : Claims} (hshort : ShortLived claims)
    (hcompany : PositiveCompany claims) (haudience : deletionAudience ∈ audiences claims) :
    ∀ name ∈ [expClaim, iatClaim, audClaim, companyIdClaim],
      present (Json.get claims name) = true := by
  obtain ⟨exp, iat, hexp, hiat, -⟩ := hshort
  obtain ⟨companyId, hcompany, -⟩ := hcompany
  simp only [List.forall_mem_cons, List.not_mem_nil, false_imp_iff, implies_true, and_true]
  exact ⟨present_of_intOf hexp, present_of_intOf hiat, present_of_audiences haudience,
    by rw [hcompany]; rfl⟩

/--
At most one of the verifiers accepts a token if and only if it does not name the
audiences of both or fails another demand of one of them.
-/
theorem atMostOneAccepts_iff (hlib : lib.Lawful) {issuer audience : Text}
    (hissuer : settings.identityIssuer = some issuer)
    (haudience : settings.identityAudience = some audience) (atLogin atDeletion : Moment Key) :
    AtMostOneAccepts lib settings token atLogin atDeletion ↔
      (NamesBothAudiences lib token audience →
        ¬OtherwiseMet lib settings token issuer atLogin atDeletion) := by
  simp only [AtMostOneAccepts, authenticateCredentials_ok_iff hlib,
    verifyDeletionAssertion_ok_iff hlib, exists_and_left, userOptions_accepts_iff hissuer haudience,
    deletionOptions_accepts_iff hissuer, checkAssertion_ok_iff]
  rw [← not_and, not_iff_not]
  constructor
  · rintro ⟨⟨huserSigned, ⟨-, htimely, hiss, haud⟩, huser⟩,
      hassertionSigned, ⟨-, htimely', -, haud'⟩, hscope, hshort, hcompany⟩
    exact ⟨⟨haud, haud'⟩, huserSigned, hassertionSigned, ⟨htimely, htimely'⟩, hiss, hscope, hshort,
      hcompany, (principalFromClaims_ok_iff hcompany).mp huser⟩
  · rintro ⟨⟨haud, haud'⟩, h⟩
    have hpresent := present_of_read h.shortLived h.company haud'
    exact ⟨⟨h.userSigned, ⟨hpresent expClaim (by simp), h.timely.1, h.issuer, haud⟩,
      (principalFromClaims_ok_iff h.company).mpr h.user⟩, h.assertionSigned,
      ⟨hpresent, h.timely.2, h.issuer, haud'⟩, h.scope, h.shortLived, h.company⟩

/-- A token with one audience is accepted by one verifier at most. -/
theorem atMostOneAccepts_of_one_audience (hlib : lib.Lawful) {issuer audience : Text}
    (hissuer : settings.identityIssuer = some issuer)
    (haudience : settings.identityAudience = some audience) (hne : audience ≠ deletionAudience)
    {named : Text} (hone : audiences (lib.claimsOf token) = [named])
    (atLogin atDeletion : Moment Key) :
    AtMostOneAccepts lib settings token atLogin atDeletion := by
  rintro ⟨⟨principal, huser⟩, companyId, hassertion⟩
  obtain ⟨-, haccepts, -⟩ := (authenticateCredentials_ok_iff hlib).mp huser
  obtain ⟨-, haccepts', -⟩ := (verifyDeletionAssertion_ok_iff hlib).mp hassertion
  have haud := ((userOptions_accepts_iff hissuer haudience).mp haccepts).2.2.2
  have haud' := ((deletionOptions_accepts_iff hissuer).mp haccepts').2.2.2
  rw [hone, List.mem_singleton] at haud haud'
  exact hne (haud.trans haud'.symm)

/-! ### A key server with one key -/

def unexpired (now : ℤ) (claims : Claims) : Bool :=
  (intOf (Json.get claims expClaim)).toOption.any fun exp => decide (now < exp)

def sampleJwt (claims : Claims) : PyJwt Nat where
  getUnverifiedHeader := fun _ => some ['k']
  decode := fun _ key algorithms opts now =>
    if (key == 1 && algorithms.contains rs256) = false then .error .invalid
    else if unexpired now claims = false then .error .expired
    else if opts.accepts (unexpired now) claims then .ok claims
    else .error .invalid
  claimsOf := fun _ => claims
  signed := fun _ key algorithms => key == 1 && algorithms.contains rs256
  timely := unexpired

theorem sampleJwt_lawful (claims : Claims) : (sampleJwt claims).Lawful where
  decode_ok token key algorithms opts now claims' := by
    simp only [sampleJwt]
    by_cases hsigned : (key == 1 && algorithms.contains rs256) = false
    · simp only [hsigned, if_true]
      simp
    have hkey : (key == 1 && algorithms.contains rs256) = true := Bool.not_eq_false _ ▸ hsigned
    by_cases hlate : unexpired now claims = false
    · simp only [if_neg hsigned, if_pos hlate]
      refine iff_of_false (by simp) ?_
      rintro ⟨rfl, -, haccepts⟩
      rw [timely_of_accepts haccepts] at hlate
      cases hlate
    · simp only [if_neg hsigned, if_neg hlate]
      by_cases haccepts : opts.accepts (unexpired now) claims = true
      · rw [if_pos haccepts, Except.ok.injEq]
        constructor
        · rintro rfl
          exact ⟨rfl, hkey, haccepts⟩
        · rintro ⟨rfl, -⟩
          rfl
      · rw [if_neg haccepts]
        refine iff_of_false (by simp) ?_
        rintro ⟨rfl, -, h⟩
        exact haccepts h
  decode_expired token key algorithms opts now h := by
    simp only [sampleJwt] at h ⊢
    by_contra hlate
    split at h
    · cases h
    · split at h <;> cases h

def sampleIdentity : IdentitySettings Nat where
  identityIssuer := some ['i', 'd']
  identityAudience := some ['s', 'h', 'e', 'l', 'l', 'u', 'i']
  jwtAlgorithms := [rs256]
  jwtHs256FallbackSecret := none
  allowJwtHs256Fallback := false
  debug := false

def sampleMoment : Moment Nat where
  client := { refreshed := some [(['k'], 1)], forced := some [(['k'], 1)] }
  now := 150

def sampleClaims (audience : Json) : Claims :=
  [(audClaim, audience), (issClaim, .text ['i', 'd']), (expClaim, .int 200),
    (iatClaim, .int 100), (scopeClaim, .text deletionScope), (companyIdClaim, .int 10),
    (['s', 'u', 'b'], .text ['1'])]

def sampleToken : Text := ['h', '.', 'c', '.', 's']

theorem atMostOneAccepts_iff_sample :
    AtMostOneAccepts (sampleJwt (sampleClaims (.text deletionAudience))) sampleIdentity
      sampleToken sampleMoment sampleMoment := by
  refine (atMostOneAccepts_iff (sampleJwt_lawful _) rfl rfl sampleMoment sampleMoment).mpr ?_
  intro hboth
  exact absurd hboth.1 (by decide)

/-- A token for both audiences is accepted by both verifiers. -/
theorem not_atMostOneAccepts :
    ¬∀ (Key : Type) (lib : PyJwt Key) (settings : IdentitySettings Key)
      (issuer audience token : Text) (atLogin atDeletion : Moment Key), lib.Lawful →
      settings.identityIssuer = some issuer → settings.identityAudience = some audience →
      audience ≠ deletionAudience →
      AtMostOneAccepts lib settings token atLogin atDeletion := by
  intro h
  exact h Nat (sampleJwt (sampleClaims (.list [.text ['s', 'h', 'e', 'l', 'l', 'u', 'i'],
    .text deletionAudience]))) sampleIdentity _ _ sampleToken sampleMoment sampleMoment
    (sampleJwt_lawful _) rfl rfl (by decide) ⟨⟨_, rfl⟩, _, rfl⟩

end Tokens

end StorageService.Results
