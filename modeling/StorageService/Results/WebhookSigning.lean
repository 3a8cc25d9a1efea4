import StorageService.Actions.RuleEdits
import StorageService.Actions.WebhookSigning
import StorageService.Foundation.JsonScan
import StorageService.Results.Pages
import StorageService.Results.Redaction

/-!
# Signed webhooks from the rule to the receiver

The body says what the envelope does, and no more than that; what was signed is
accepted by a receiver with the same secret; and what such a receiver accepts and can
read is what was signed.
-/

namespace StorageService.Results

open StorageService.Actions
open StorageService.Foundation
open StorageService.Foundation.JsonText
open StorageService.Storage (decimal isSpace strip textLe Time uuidText)

/-! ## Envelopes -/

theorem textLe_antisymm {a b : Text} (hab : textLe a b = true) (hba : textLe b a = true) :
    a = b := by
  induction a generalizing b with
  | nil =>
      cases b with
      | nil => rfl
      | cons d b => simp [textLe] at hba
  | cons c a ih =>
      cases b with
      | nil => simp [textLe] at hab
      | cons d b =>
          simp only [textLe, Bool.or_eq_true, Bool.and_eq_true, decide_eq_true_eq,
            beq_iff_eq] at hab hba
          rcases hab with hlt | ⟨rfl, hab⟩
          · rcases hba with hgt | ⟨rfl, -⟩ <;> omega
          · rcases hba with hlt | ⟨-, hba⟩
            · omega
            · rw [ih hab hba]

theorem textOrder : KeyOrder textLe :=
  ⟨textLe_total, fun _ _ _ => textLe_trans, fun _ _ => textLe_antisymm⟩

section Envelopes

variable {env : HookEnv} {isFloat : ℚ → Prop} {v w : Json} {fields : List (Text × Json)}

theorem keys_filterMap_keptField (fields : List (Text × Json)) :
    ((fields.filterMap (keptField env)).map Prod.fst).Sublist (fields.map Prod.fst) := by
  induction fields with
  | nil => exact .slnil
  | cons field fields ih =>
      rw [List.filterMap_cons]
      cases hkept : keptField env field with
      | none => exact ih.cons _
      | some kept =>
          rw [List.map_cons, List.map_cons, (keptField_eq_some hkept).2.1]
          exact ih.cons_cons _

theorem withoutSecrets_proper (hv : Proper isFloat v) (h : withoutSecrets env v = some w) :
    Proper isFloat w := by
  induction v using Json.induction generalizing w with
  | atom v hatom =>
      rw [withoutSecrets_atom hatom] at h
      rwa [← Option.some.inj h]
  | text s =>
      rw [withoutSecrets] at h
      split at h
      · contradiction
      · rw [← Option.some.inj h]
        exact .text s
  | list items ih =>
      rw [withoutSecrets_list] at h
      rw [← Option.some.inj h]
      refine .list fun kept hkept => ?_
      obtain ⟨item, hitem, hkept⟩ := List.mem_filterMap.mp hkept
      exact ih item hitem (hv.list_inv item hitem) hkept
  | dict fields ih =>
      rw [withoutSecrets_dict] at h
      rw [← Option.some.inj h]
      obtain ⟨hkeys, hfields⟩ := hv.dict_inv
      refine .dict (hkeys.sublist (keys_filterMap_keptField fields)) fun kept hkept => ?_
      obtain ⟨field, hfield, hkept⟩ := List.mem_filterMap.mp hkept
      exact ih field hfield (hfields field hfield) (keptField_eq_some hkept).2.2

theorem redactSecrets_proper (h : Proper isFloat (.dict fields)) :
    Proper isFloat (.dict (dictFields (redactSecrets env (.dict fields)))) := by
  rw [redactSecrets_dict, dictFields]
  exact withoutSecrets_proper h (withoutSecrets_dict fields)

theorem proper_int (n : ℤ) : Proper isFloat (.int n) := .atom rfl fun _ hq => nomatch hq

theorem actorFields_proper (actor : Actor) : Proper isFloat (.dict actor.fields) := by
  unfold Actor.fields
  split <;> split <;> refine .dict (by simp) ?_ <;> simp [proper_int, Proper.text]

theorem buildEnvelope_proper {data : List (Text × Json)} (hdata : Proper isFloat (.dict data))
    (id : Nat) (time : Time) (eventType : Text) (company : CompanyContext)
    (actor : Option Actor) :
    Proper isFloat (.dict (buildEnvelope env id time eventType company data actor)) := by
  have hcompany : Proper isFloat (.dict [("id".toList, .int company.id),
      ("slug".toList, .text company.slug), ("name".toList, .text company.name)]) := by
    refine .dict (by simp) ?_
    simp [proper_int, Proper.text]
  have hredacted : Proper isFloat (.dict (dictFields (redactSecrets env (.dict data)))) :=
    redactSecrets_proper hdata
  have hfixed : ∀ field ∈ [("id".toList, Json.text (uuidText id)),
      ("type".toList, .text eventType), ("time".toList, .text (env.isoformat time)),
      ("company".toList, .dict [("id".toList, .int company.id),
        ("slug".toList, .text company.slug), ("name".toList, .text company.name)]),
      ("data".toList, .dict (dictFields (redactSecrets env (.dict data))))],
      Proper isFloat field.2 := by
    simp only [List.forall_mem_cons]
    exact ⟨.text _, .text _, .text _, hcompany, hredacted, fun _ h => nomatch h⟩
  rw [buildEnvelope]
  split
  · rw [List.append_nil]
    exact .dict (by simp) hfixed
  · rw [List.append_nil]
    exact .dict (by simp) hfixed
  · rename_i fields hne hactor
    obtain ⟨actor, -, rfl⟩ := Option.map_eq_some_iff.mp hactor
    refine .dict (by simp) ?_
    rw [List.forall_mem_append]
    refine ⟨hfixed, fun field hfield => ?_⟩
    rw [List.mem_singleton] at hfield
    rw [hfield]
    exact redactSecrets_proper (actorFields_proper actor)

end Envelopes

theorem readBody_encode (env : SigningEnv) {envelope : List (Text × Json)}
    (h : Proper env.format.isFloat (.dict envelope)) :
    readBody env (encodeWebhookEnvelope env envelope) =
      some (sortKeys textLe (.dict envelope)) := by
  rw [readBody, encodeWebhookEnvelope, decodeUtf8_utf8]
  exact loads_dumps h

/-- Two envelopes have one body where they differ in the order of keys at most. -/
theorem webhookBody_canonical (env : SigningEnv) {envelope envelope' : List (Text × Json)}
    (h : Proper env.format.isFloat (.dict envelope))
    (h' : Proper env.format.isFloat (.dict envelope')) :
    (encodeWebhookEnvelope env envelope = encodeWebhookEnvelope env envelope' ↔
        Reordered (.dict envelope) (.dict envelope')) ∧
      readBody env (encodeWebhookEnvelope env envelope) =
        some (sortKeys textLe (.dict envelope)) := by
  constructor
  · rw [← textOrder.dumps_eq_iff h h']
    constructor
    · intro hbytes
      have hread := congrArg decodeUtf8 hbytes
      simpa only [encodeWebhookEnvelope, decodeUtf8_utf8] using hread
    · intro htext
      rw [encodeWebhookEnvelope, encodeWebhookEnvelope, htext]
  · exact readBody_encode env h

/-! ## Samples -/

def sampleFormat : FloatFormat where
  isFloat q := q = 1 / 2
  write _ := ['0', '.', '5']
  read s := if s = ['0', '.', '5'] then some (1 / 2) else none
  chars := by
    rintro q rfl
    exact List.all_eq_true.mp rfl
  mark := by
    rintro q rfl
    exact ⟨'.', by decide, rfl⟩
  read_write := by
    rintro q rfl
    exact if_pos rfl

def sampleDigest : List UInt8 :=
  [38, 164, 18, 117, 191, 8, 171, 148, 169, 226, 233, 187, 198, 203, 194, 75, 185, 30, 184, 240,
    31, 14, 210, 119, 188, 34, 139, 46, 211, 27, 24, 194]

def sampleContent : List UInt8 :=
  utf8 ("00000000-0000-0000-0000-000000000007.1767225600.".toList ++
    "\x7b\"company\":\x7b\"id\":3,\"name\":\"\",\"slug\":\"\"\x7d,".toList ++
    "\"data\":\x7b\"path\":\"é.pdf\"\x7d,".toList ++
    "\"id\":\"00000000-0000-0000-0000-000000000007\",\"time\":\"\",\"type\":\"t\"\x7d".toList)

def sampleSigning : SigningEnv where
  format := sampleFormat
  hmacSha256 key content :=
    if key = utf8 "secret".toList ∧ content = sampleContent then sampleDigest else []

theorem not_isSpace_generated : ∀ c ∈ whsecPrefix ++ ['='] ++ Base64.alphabet,
    isSpace c = false ∧ isJsSpace c = false := by
  have hall : ((whsecPrefix ++ ['='] ++ Base64.alphabet).all fun c =>
      !isSpace c && !isJsSpace c) = true := by decide
  intro c hc
  simpa using List.all_eq_true.mp hall c hc

def sampleNode : NodeJs where
  bufferFromBase64 text := (Base64.decode (text.dropWhile isNodeBlank)).getD []
  number text := (readNat text).map Nat.cast
  valid text bytes h := by
    cases text with
    | nil => exact Option.some.inj h
    | cons c text =>
        have hc := (not_isSpace_generated c
          (List.mem_append_right _ (Base64.head_mem_of_decode h))).2
        have hblank : ¬isNodeBlank c = true := by simp [isNodeBlank, hc]
        rw [List.dropWhile_cons, if_neg hblank, h]
        rfl
  blank text := by
    rw [List.dropWhile_idempotent]
  integer n _ := by
    rw [decimal, readNat_toDigits]
    rfl

def sampleData : List (Text × Json) := [("path".toList, .text "é.pdf".toList)]

def sampleBody : List (Text × Json) :=
  buildEnvelope sampleHooks 7 0 ['t'] ⟨3, [], []⟩ sampleData none

def sampleSecret : Text := "whsec_c2VjcmV0".toList

theorem sampleData_proper : Proper sampleFormat.isFloat (.dict sampleData) :=
  .dict (by simp [sampleData]) (by simp [sampleData, Proper.text])

theorem sampleBody_proper : Proper sampleFormat.isFloat (.dict sampleBody) :=
  buildEnvelope_proper sampleData_proper ..

theorem webhookBody_canonical_reverse :
    encodeWebhookEnvelope sampleSigning sampleBody =
      encodeWebhookEnvelope sampleSigning sampleBody.reverse := by
  have hreordered : Reordered (.dict sampleBody) (.dict sampleBody.reverse) :=
    .fields sampleBody.reverse_perm.symm
  exact (webhookBody_canonical sampleSigning sampleBody_proper
    (hreordered.proper sampleBody_proper)).1.mpr hreordered

/-! ## Keys -/

section Keys

variable {node : NodeJs} {secret : Text} {key : List UInt8}

theorem dropWhile_congr {p q : Char → Bool} {s : Text} (h : ∀ c ∈ s, p c = q c) :
    s.dropWhile p = s.dropWhile q := by
  induction s with
  | nil => rfl
  | cons c s ih =>
      rw [List.forall_mem_cons] at h
      rw [List.dropWhile_cons, List.dropWhile_cons, h.1, ih h.2]

theorem trim_congr {p q : Char → Bool} {s : Text} (h : ∀ c ∈ s, p c = q c) :
    trim p s = trim q s := by
  have hmem : ∀ c ∈ (s.dropWhile q).reverse, p c = q c := fun c hc =>
    h c ((List.dropWhile_sublist q).mem (List.mem_reverse.mp hc))
  rw [trim, trim, List.rdropWhile, List.rdropWhile, dropWhile_congr h, dropWhile_congr hmem]

theorem strip_drop {s : Text} (hs : strip s = s) (n : Nat) :
    strip (s.drop n) = (s.drop n).dropWhile isSpace := by
  have hsuffix : (s.drop n).dropWhile isSpace <:+ s :=
    (List.dropWhile_suffix isSpace).trans (List.drop_suffix n s)
  refine List.rdropWhile_eq_self_iff.mpr fun hne => ?_
  have hs' : s ≠ [] := hsuffix.ne_nil hne
  rw [hsuffix.getLast hne]
  exact Bool.eq_false_iff.mp ((trim_eq_self_iff isSpace s).mp hs hs').2

theorem mem_of_mem_strip {s : Text} {c : Char} (h : c ∈ strip s) : c ∈ s :=
  (trim_isInfix isSpace s).subset h

/-- What is white space in the secret is so to the sender, to `trim` and in base64. -/
structure ReadAlike (secret : Text) : Prop where
  space : ∀ c ∈ secret, isSpace c = isJsSpace c
  blank : whsecPrefix <+: strip secret → ∀ c ∈ secret, isSpace c = isNodeBlank c

theorem signingKey_eq (hsecret : ReadAlike secret)
    (h : normalizeWebhookSigningSecret secret = .ok key) : signingKey node secret = key := by
  have htrim : trim isJsSpace secret = strip secret := (trim_congr hsecret.space).symm
  have hblank : whsecPrefix <+: strip secret → ∀ c ∈ strip secret, isSpace c = isNodeBlank c :=
    fun hprefix c hc => hsecret.blank hprefix c (mem_of_mem_strip hc)
  rw [signingKey, htrim]
  rw [normalizeWebhookSigningSecret] at h
  generalize hs : strip secret = s at h hblank
  have hstripped : strip s = s := by rw [← hs, strip_strip]
  simp only at h ⊢
  split
  · rename_i hprefix
    rw [if_pos hprefix] at h
    split at h
    · cases h
    · cases hdecode : Base64.decode (strip (s.drop whsecPrefix.length)) with
      | none =>
          rw [hdecode] at h
          cases h
      | some bytes =>
          rw [hdecode] at h
          simp only at h
          split at h
          · cases h
          · have hkey : bytes = key := Except.ok.inj h
            have hdrop : ∀ c ∈ s.drop whsecPrefix.length, isSpace c = isNodeBlank c := fun c hc =>
              hblank hprefix c (List.mem_of_mem_drop hc)
            rw [strip_drop hstripped, dropWhile_congr hdrop] at hdecode
            rw [← node.blank, node.valid _ _ hdecode, hkey]
  · rename_i hprefix
    rw [if_neg hprefix] at h
    exact Except.ok.inj h

end Keys

/-! ## Signing and verifying -/

section Verifying

variable {env : SigningEnv} {node : NodeJs} {now : Nat} {clock : ℤ} {secret webhookId : Text}
  {envelope : List (Text × Json)} {request received : WebhookRequest}

theorem signedWebhook_eq_ok (h : signedWebhook env now secret webhookId envelope = .ok request) :
    ∃ key, normalizeWebhookSigningSecret secret = .ok key ∧
      request.body = encodeWebhookEnvelope env envelope ∧
      request.headers.webhookId = webhookId ∧ request.headers.webhookTimestamp = decimal now ∧
      request.headers.webhookSignature = signaturePrefix ++ Base64.encode
        (env.hmacSha256 key (signedContent webhookId (decimal now)
          (encodeWebhookEnvelope env envelope))) := by
  rw [signedWebhook, signWebhookBody] at h
  cases hkey : normalizeWebhookSigningSecret secret with
  | error message =>
      rw [hkey] at h
      contradiction
  | ok key =>
      rw [hkey] at h
      have hrequest := Except.ok.inj h
      rw [← hrequest]
      exact ⟨key, rfl, rfl, rfl, rfl, rfl⟩

theorem signature_digest (digest : List UInt8) :
    node.bufferFromBase64 ((signaturePrefix ++ Base64.encode digest).drop
      signaturePrefix.length) = digest := by
  rw [List.drop_left, node.valid _ _ (Base64.decode_encode digest)]

theorem verify_eq_true (h : verify env node clock secret received = true) :
    ∃ timestamp, node.number received.headers.webhookTimestamp = some timestamp ∧
      |(clock : ℚ) - timestamp| ≤ maxAgeSeconds ∧
      node.bufferFromBase64 (received.headers.webhookSignature.drop signaturePrefix.length) =
        env.hmacSha256 (signingKey node secret) (signedContent received.headers.webhookId
          received.headers.webhookTimestamp received.body) := by
  rw [verify] at h
  simp only at h
  split at h
  · contradiction
  · cases hnumber : node.number received.headers.webhookTimestamp with
    | none =>
        rw [hnumber] at h
        contradiction
    | some timestamp =>
        rw [hnumber] at h
        simp only at h
        split at h
        · contradiction
        · rename_i hage
          exact ⟨timestamp, rfl, not_lt.mp hage, of_decide_eq_true h⟩

theorem verify_signed (hnow : now < 2 ^ 53) (hsecret : ReadAlike secret)
    (h : signedWebhook env now secret webhookId envelope = .ok request) :
    verify env node clock secret request = true ↔ |clock - now| ≤ 300 := by
  obtain ⟨key, hkey, hbody, hid, htimestamp, hsignature⟩ := signedWebhook_eq_ok h
  have hage : maxAgeSeconds < |(clock : ℚ) - (now : ℚ)| ↔ 300 < |clock - now| := by
    rw [maxAgeSeconds]
    exact_mod_cast Iff.rfl
  rw [verify, hid, htimestamp, hsignature, hbody, if_neg (by simp), node.integer now hnow]
  simp only [signature_digest, signingKey_eq hsecret hkey, hage, decide_true]
  by_cases hold : 300 < |clock - now|
  · simp [hold]
  · simp [hold, not_lt.mp hold]

end Verifying

/--
A later attempt, whose envelope has its keys in another order, posts the same body
under the same id, and is accepted for five minutes from when it was signed.
-/
theorem retriedWebhook_verified (env : SigningEnv) (node : NodeJs) {now later : Nat}
    {secret webhookId : Text} {envelope envelope' : List (Text × Json)} {request : WebhookRequest}
    (henvelope : Proper env.format.isFloat (.dict envelope))
    (hreordered : Reordered (.dict envelope) (.dict envelope'))
    (hsecret : ReadAlike secret) (hlater : later < 2 ^ 53)
    (h : signedWebhook env now secret webhookId envelope = .ok request) :
    ∃ again, signedWebhook env later secret webhookId envelope' = .ok again ∧
      again.body = request.body ∧ again.headers.webhookId = request.headers.webhookId ∧
      ∀ clock : ℤ, verify env node clock secret again = true ↔ |clock - later| ≤ 300 := by
  obtain ⟨key, hkey, hbody, hid, -⟩ := signedWebhook_eq_ok h
  obtain ⟨again, hagain⟩ : ∃ again,
      signedWebhook env later secret webhookId envelope' = .ok again := by
    rw [signedWebhook, signWebhookBody, hkey]
    exact ⟨_, rfl⟩
  obtain ⟨-, -, hbody', hid', -⟩ := signedWebhook_eq_ok hagain
  refine ⟨again, hagain, ?_, by rw [hid', hid], fun clock => verify_signed hlater hsecret hagain⟩
  rw [hbody', hbody, encodeWebhookEnvelope, encodeWebhookEnvelope, dumps, dumps,
    textOrder.sortKeys_eq hreordered henvelope]

theorem readAlike_of_not_isSpace {secret : Text}
    (h : ∀ c ∈ secret, isSpace c = false ∧ isJsSpace c = false) : ReadAlike secret where
  space c hc := (h c hc).1.trans (h c hc).2.symm
  blank _ c hc := by simp [isNodeBlank, h c hc]

theorem sampleSecret_readAlike : ReadAlike sampleSecret := by
  have hall : (sampleSecret.all fun c => !isSpace c && !isJsSpace c) = true := by decide
  exact readAlike_of_not_isSpace fun c hc => by simpa using List.all_eq_true.mp hall c hc

def sampleRequest : WebhookRequest :=
  ⟨⟨uuidText 7, decimal 1767225600, signaturePrefix ++ Base64.encode sampleDigest⟩,
    encodeWebhookEnvelope sampleSigning sampleBody⟩

theorem sampleSecret_key :
    normalizeWebhookSigningSecret sampleSecret = .ok (utf8 "secret".toList) := by
  decide +kernel

theorem sampleRequest_signed :
    signedWebhook sampleSigning 1767225600 sampleSecret (uuidText 7) sampleBody =
      .ok sampleRequest := by
  have hcontent : signedContent (uuidText 7) (decimal 1767225600)
      (encodeWebhookEnvelope sampleSigning sampleBody) = sampleContent := by decide +kernel
  have hdigest : sampleSigning.hmacSha256 (utf8 "secret".toList) sampleContent =
      sampleDigest := by
    simp only [sampleSigning, and_self, if_true]
  rw [signedWebhook, signWebhookBody, sampleSecret_key, sampleRequest, ← hdigest, ← hcontent]
  rfl

theorem retriedWebhook_verified_reverse :
    ∃ again, signedWebhook sampleSigning 1767225660 sampleSecret (uuidText 7)
        sampleBody.reverse = .ok again ∧
      again.body = sampleRequest.body ∧
      again.headers.webhookId = sampleRequest.headers.webhookId ∧
      ∀ clock : ℤ, verify sampleSigning sampleNode clock sampleSecret again = true ↔
        |clock - (1767225660 : ℕ)| ≤ 300 :=
  retriedWebhook_verified sampleSigning sampleNode sampleBody_proper
    (.fields sampleBody.reverse_perm.symm) sampleSecret_readAlike (by decide) sampleRequest_signed

/-! ## What a receiver accepts -/

section Splitting

variable {front back p q : Text}

theorem split_dot (hfront : '.' ∉ front) (h : front ++ '.' :: back = p ++ '.' :: q) :
    p = front ∧ q = back ∨ ∃ middle, p = front ++ '.' :: middle ∧ back = middle ++ '.' :: q := by
  rcases List.append_eq_append_iff.mp h with ⟨rest, hp, hrest⟩ | ⟨rest, hf, hrest⟩
  · cases rest with
    | nil =>
        rw [List.append_nil] at hp
        exact .inl ⟨hp, (List.cons.inj hrest).2.symm⟩
    | cons c rest =>
        obtain ⟨rfl, hback⟩ := List.cons.inj hrest
        exact .inr ⟨rest, hp, hback⟩
  · cases rest with
    | nil =>
        rw [List.append_nil] at hf
        exact .inl ⟨hf.symm, (List.cons.inj hrest).2⟩
    | cons c rest =>
        obtain ⟨rfl, -⟩ := List.cons.inj hrest
        rw [hf] at hfront
        simp at hfront

/-- Content that was signed is divided as it was, or the body was cut behind a dot in it. -/
theorem signedContent_eq {id ts text id' ts' : Text} {body : List UInt8} (hid : '.' ∉ id)
    (hts : '.' ∉ ts) (h : signedContent id ts (utf8 text) = signedContent id' ts' body) :
    id' = id ∧ ts' = ts ∧ body = utf8 text ∨
      ∃ before rest, text = before ++ '.' :: rest ∧ body = utf8 rest := by
  rw [signedContent, signedContent, ← utf8_append] at h
  obtain ⟨rest, htext, hbody⟩ := utf8_append_eq h.symm
  simp only [List.append_assoc, List.singleton_append] at htext
  rcases split_dot hid htext with ⟨hid', hrest⟩ | ⟨middle, hid', hrest⟩
  · rcases split_dot hts hrest.symm with ⟨hts', htext'⟩ | ⟨before, -, hbefore⟩
    · exact .inl ⟨hid', hts', by rw [hbody, htext']⟩
    · exact .inr ⟨before, rest, hbefore, hbody⟩
  · rcases split_dot hts hrest with ⟨-, htext'⟩ | ⟨before, -, hbefore⟩
    · exact .inr ⟨ts', rest, htext'.symm, hbody⟩
    · refine .inr ⟨before ++ '.' :: ts', rest, ?_, hbody⟩
      rw [hbefore, List.append_assoc]
      rfl

end Splitting

theorem dot_not_mem_uuidText (id : Nat) : '.' ∉ uuidText id := by
  intro h
  have hmem : '.' ∈ (uuidText id).filter (· != '-') := by simp [h]
  rw [Storage.uuidText_filter] at hmem
  exact absurd (hexText_chars 32 id '.' hmem) (by decide)

theorem dot_not_mem_decimal (n : Nat) : '.' ∉ decimal n := by
  intro h
  have hdigit := isDigit_of_mem_toDigits h
  revert hdigit
  decide

def contentOf (request : WebhookRequest) : List UInt8 :=
  signedContent request.headers.webhookId request.headers.webhookTimestamp request.body

/--
A request that passes with the signature of another one, and whose body can be read,
is that other one, unless their two contents have one digest.
-/
theorem verified_eq_signed (env : SigningEnv) (node : NodeJs) (henv : HookEnv) {now : Nat}
    {clock : ℤ} {secret : Text} {id : Nat} {time : Time} {eventType : Text}
    {company : CompanyContext} {data : List (Text × Json)} {actor : Option Actor}
    {request received : WebhookRequest} {v : Json}
    (hdata : Proper env.format.isFloat (.dict data))
    (hsecret : ReadAlike secret)
    (h : signedWebhook env now secret (uuidText id)
      (buildEnvelope henv id time eventType company data actor) = .ok request)
    (hsignature : received.headers.webhookSignature = request.headers.webhookSignature)
    (hverify : verify env node clock secret received = true)
    (hread : readBody env received.body = some v) :
    received = request ∧
        v = sortKeys textLe
          (.dict (buildEnvelope henv id time eventType company data actor)) ∨
      ∃ key, normalizeWebhookSigningSecret secret = .ok key ∧
        contentOf received ≠ contentOf request ∧
        env.hmacSha256 key (contentOf received) =
          env.hmacSha256 key (contentOf request) := by
  set envelope := buildEnvelope henv id time eventType company data actor with henvelope
  have hproper : Proper env.format.isFloat (.dict envelope) := buildEnvelope_proper hdata ..
  obtain ⟨key, hkey, hbody, hid, htimestamp, hsigned⟩ := signedWebhook_eq_ok h
  obtain ⟨-, -, -, hdigest⟩ := verify_eq_true hverify
  rw [hsignature, hsigned, signature_digest, signingKey_eq hsecret hkey] at hdigest
  by_cases hcontent : signedContent (uuidText id) (decimal now)
      (encodeWebhookEnvelope env envelope) = signedContent received.headers.webhookId
        received.headers.webhookTimestamp received.body
  · left
    rcases signedContent_eq (dot_not_mem_uuidText id) (dot_not_mem_decimal now) hcontent with
      ⟨hid', htimestamp', hbody'⟩ | ⟨before, rest, htext, hrest⟩
    · have hsame : received = request := by
        obtain ⟨⟨_, _, _⟩, _⟩ := received
        obtain ⟨⟨_, _, _⟩, _⟩ := request
        simp only at hid hid' htimestamp htimestamp' hsignature hbody hbody'
        rw [hid, hid', htimestamp, htimestamp', hsignature, hbody, hbody', encodeWebhookEnvelope]
      refine ⟨hsame, ?_⟩
      rw [hsame, hbody, readBody_encode env hproper] at hread
      exact (Option.some.inj hread).symm
    · -- a body that was cut off cannot be read
      rw [readBody, hrest, decodeUtf8_utf8] at hread
      have hsorted := (Reordered.sortKeys textLe (.dict envelope)).proper hproper
      rw [sortKeys_dict] at hsorted
      rw [dumps, sortKeys_dict] at htext
      have hne : rest ≠ [] := by
        rintro rfl
        cases hread
      rw [loads_suffix_dict hsorted htext (by decide) hne] at hread
      cases hread
  · refine .inr ⟨key, hkey, ?_, ?_⟩
    · rw [contentOf, contentOf, hbody, hid, htimestamp]
      exact fun heq => hcontent heq.symm
    · rw [contentOf, contentOf, hbody, hid, htimestamp]
      exact hdigest.symm

def forgedBody : List (Text × Json) :=
  buildEnvelope sampleHooks 7 0 ['t'] ⟨3, [], []⟩ [("path".toList, .text "a.pdf".toList)] none

def forgedRequest : WebhookRequest :=
  { sampleRequest with body := encodeWebhookEnvelope sampleSigning forgedBody }

theorem verified_eq_signed_sample :
    (∀ v, readBody sampleSigning sampleRequest.body = some v →
        v = sortKeys textLe (.dict sampleBody)) ∧
      verify sampleSigning sampleNode 1767225700 sampleSecret forgedRequest = false := by
  constructor
  · intro v hread
    have hverify : verify sampleSigning sampleNode 1767225700 sampleSecret sampleRequest = true :=
      (verify_signed (by decide) sampleSecret_readAlike sampleRequest_signed).mpr (by decide)
    rcases verified_eq_signed sampleSigning sampleNode sampleHooks sampleData_proper
      sampleSecret_readAlike sampleRequest_signed rfl hverify hread with ⟨-, hv⟩ | ⟨-, -, hne, -⟩
    · exact hv
    · exact absurd rfl hne
  · refine Bool.eq_false_iff.mpr fun hpasses => ?_
    have hproper : Proper sampleFormat.isFloat (.dict forgedBody) :=
      buildEnvelope_proper (.dict (by simp) (by simp [Proper.text])) ..
    have hcontents : contentOf forgedRequest ≠ sampleContent ∧
        contentOf sampleRequest = sampleContent := by decide +kernel
    have hsignature : forgedRequest.headers.webhookSignature =
        sampleRequest.headers.webhookSignature := rfl
    have hread : readBody sampleSigning forgedRequest.body =
        some (sortKeys textLe (.dict forgedBody)) := readBody_encode sampleSigning hproper
    rcases verified_eq_signed sampleSigning sampleNode sampleHooks sampleData_proper
      sampleSecret_readAlike sampleRequest_signed hsignature hpasses hread with
      ⟨hsame, -⟩ | ⟨key, hkey, -, hdigest⟩
    · exact hcontents.1 (hsame ▸ hcontents.2)
    · rw [sampleSecret_key] at hkey
      cases hkey
      simp [sampleSigning, hcontents, sampleDigest] at hdigest

/-! ## Secrets that are generated -/

section Generated

variable (raw : List UInt8)

theorem mem_generated {c : Char}
    (h : c ∈ generateWebhookSigningSecret (Base64.encode raw)) :
    isSpace c = false ∧ isJsSpace c = false := by
  apply not_isSpace_generated
  rcases List.mem_append.mp h with h | h
  · exact List.mem_append_left _ (List.mem_append_left _ h)
  · rcases Base64.mem_encode h with h | rfl
    · exact List.mem_append_right _ h
    · exact List.mem_append_left _ (List.mem_append_right _ List.mem_cons_self)

theorem strip_of_not_isSpace {s : Text} (h : ∀ c ∈ s, isSpace c = false) : strip s = s :=
  (trim_eq_self_iff isSpace s).mpr fun hne =>
    ⟨h _ (List.head_mem hne), h _ (List.getLast_mem hne)⟩

theorem encode_ne_nil (hraw : raw ≠ []) : Base64.encode raw ≠ [] := by
  intro h
  have hread := Base64.decode_encode raw
  rw [h] at hread
  exact hraw (Option.some.inj hread).symm

theorem normalize_generated (hraw : raw ≠ []) :
    normalizeWebhookSigningSecret (generateWebhookSigningSecret (Base64.encode raw)) =
      .ok raw := by
  have hsecret : generateWebhookSigningSecret (Base64.encode raw) =
      whsecPrefix ++ Base64.encode raw := rfl
  have hstrip := strip_of_not_isSpace fun c hc => (mem_generated raw hc).1
  have hpayload : strip (Base64.encode raw) = Base64.encode raw :=
    strip_of_not_isSpace fun c hc =>
      (mem_generated raw (hsecret ▸ List.mem_append_right _ hc)).1
  rw [normalizeWebhookSigningSecret, hstrip, hsecret]
  simp only [List.prefix_append, if_true, List.drop_left, hpayload, Base64.decode_encode,
    encode_ne_nil raw hraw, hraw, if_false]

end Generated

theorem secret_of_created {request : ConfigRequest} {existing config : WebhookConfig}
    (hupdate : request.update = false) (hexisting : existing.secret = [])
    (hsecret : strip (request.edit.secret.getD []) = [])
    (hbuild : request.build existing = .ok config) :
    config.secret = generateWebhookSigningSecret request.random := by
  simp only [ConfigRequest.build, buildWebhookConfig, hsecret, if_true] at hbuild
  have hdraws : existing.secret = [] ∧ ¬request.update = true := ⟨hexisting, by simp [hupdate]⟩
  rw [if_pos hdraws, ite_eq_iff] at hbuild
  rcases hbuild with ⟨-, hbuild⟩ | ⟨-, hbuild⟩
  · cases hbuild
  · rw [← Except.ok.inj hbuild]

/-- A rule created without a secret signs with the bytes drawn for it, and is verified so. -/
theorem createdRule_verified (env : SigningEnv) (node : NodeJs) {request : ConfigRequest}
    {existing config : WebhookConfig} {raw : List UInt8} {now : Nat} (hraw : raw ≠ [])
    (hrandom : request.random = Base64.encode raw) (hupdate : request.update = false)
    (hexisting : existing.secret = []) (hsecret : strip (request.edit.secret.getD []) = [])
    (hbuild : request.build existing = .ok config) (hnow : now < 2 ^ 53) (webhookId : Text)
    (envelope : List (Text × Json)) :
    normalizeWebhookSigningSecret config.secret = .ok raw ∧
      ∃ posted, signedWebhook env now config.secret webhookId envelope = .ok posted ∧
        ∀ clock : ℤ, |clock - now| ≤ 300 →
          verify env node clock config.secret posted = true := by
  have hconfig := secret_of_created hupdate hexisting hsecret hbuild
  rw [hrandom] at hconfig
  have hkey := normalize_generated raw hraw
  have hsecret : ReadAlike (generateWebhookSigningSecret (Base64.encode raw)) :=
    readAlike_of_not_isSpace fun c hc => mem_generated raw hc
  rw [hconfig]
  refine ⟨hkey, ?_⟩
  obtain ⟨posted, hposted⟩ : ∃ posted,
      signedWebhook env now (generateWebhookSigningSecret (Base64.encode raw)) webhookId
        envelope = .ok posted := by
    rw [signedWebhook, signWebhookBody, hkey]
    exact ⟨_, rfl⟩
  exact ⟨posted, hposted, fun clock hclock => (verify_signed hnow hsecret hposted).mpr hclock⟩

def sampleConfigRequest : ConfigRequest :=
  ⟨⟨some ['u'], none, none, none⟩, false, false, Base64.encode (utf8 "secret".toList)⟩

def createdConfig : WebhookConfig := ⟨['u'], sampleSecret, [], false⟩

theorem createdRule_verified_drawn :
    normalizeWebhookSigningSecret sampleSecret = .ok (utf8 "secret".toList) ∧
      ∃ posted, signedWebhook sampleSigning 1767225600 sampleSecret (uuidText 7) sampleBody =
          .ok posted ∧
        ∀ clock : ℤ, |clock - (1767225600 : ℕ)| ≤ 300 →
          verify sampleSigning sampleNode clock sampleSecret posted = true := by
  have hbuild : sampleConfigRequest.build emptyConfig = .ok createdConfig := by decide +kernel
  exact createdRule_verified sampleSigning sampleNode (by decide) rfl rfl rfl rfl hbuild
    (by decide) (uuidText 7) sampleBody

end StorageService.Results
