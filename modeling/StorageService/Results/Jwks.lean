import StorageService.Auth.Jwks

/-!
# Key ids and keys

Which entry of a document a key id is looked up to, and when it is one that was
published under this id.
-/

namespace StorageService.Results

open StorageService.Foundation
open StorageService.Auth

/--
The name is one that an entry without a key id was given, and no later entry of
the document brings the name along.
-/
def MadeUp (env : JwksEnv) (entries : List JwkEntry) (name : Text) : Prop :=
  ∃ earlier entry later, entries = earlier ++ entry :: later ∧
    env.valid entry = true ∧ entryKid env entry = none ∧
    name = anonymousName (keysOf env earlier).length ∧
    ∀ other ∈ later, env.valid other = true → entryKid env other ≠ some name

def OwnKey (env : JwksEnv) (entries : List JwkEntry) (kid : Text) (entry : JwkEntry) : Prop :=
  entry ∈ entries ∧ env.valid entry = true ∧ entryKid env entry = some kid

section Documents

variable {env : JwksEnv} {entries : List JwkEntry} {entry : JwkEntry} {kid : Text}

theorem madeUp_concat :
    MadeUp env (entries ++ [entry]) kid ↔
      (env.valid entry = true ∧ entryKid env entry = none ∧
          kid = anonymousName (keysOf env entries).length) ∨
        MadeUp env entries kid ∧ (env.valid entry = true → entryKid env entry ≠ some kid) := by
  constructor
  · rintro ⟨earlier, made, later, hsplit, hvalid, hanonymous, hname, hlater⟩
    rcases List.eq_nil_or_concat later with rfl | ⟨front, last, rfl⟩
    · obtain ⟨rfl, hsame⟩ := List.append_inj' hsplit rfl
      cases hsame
      exact .inl ⟨hvalid, hanonymous, hname⟩
    · rw [List.concat_eq_append] at hsplit hlater
      rw [← List.cons_append, ← List.append_assoc] at hsplit
      obtain ⟨rfl, hsame⟩ := List.append_inj' hsplit rfl
      cases hsame
      refine .inr ⟨⟨earlier, made, front, rfl, hvalid, hanonymous, hname, ?_⟩, ?_⟩
      · intro other hother
        exact hlater other (List.mem_append_left _ hother)
      · exact hlater entry (List.mem_append_right _ List.mem_cons_self)
  · rintro (⟨hvalid, hanonymous, hname⟩ | ⟨hmade, hentry⟩)
    · refine ⟨entries, entry, [], rfl, hvalid, hanonymous, hname, ?_⟩
      intro other hother
      simp at hother
    · obtain ⟨earlier, made, later, rfl, hvalid, hanonymous, hname, hlater⟩ := hmade
      refine ⟨earlier, made, later ++ [entry], by simp, hvalid, hanonymous, hname, ?_⟩
      intro other hother
      rcases List.mem_append.mp hother with hother | hother
      · exact hlater other hother
      · rw [List.mem_singleton.mp hother]
        exact hentry

def keptName (env : JwksEnv) (entries : List JwkEntry) (entry : JwkEntry) : Text :=
  (entryKid env entry).getD (anonymousName (keysOf env entries).length)

theorem keyOf_concat {last : JwkEntry} (hvalid : env.valid last = true) :
    keyOf (keysOf env (entries ++ [last])) kid =
      if keptName env entries last = kid then some last else keyOf (keysOf env entries) kid := by
  rw [keysOf_concat, keyOf_addEntry hvalid]
  rfl

theorem madeUp_concat_of_ne (h : env.valid entry = true → keptName env entries entry ≠ kid) :
    MadeUp env (entries ++ [entry]) kid ↔ MadeUp env entries kid := by
  rw [madeUp_concat]
  constructor
  · rintro (⟨hvalid, hnone, hname⟩ | ⟨hmade, -⟩)
    · rw [keptName, hnone, Option.getD_none] at h
      exact absurd hname.symm (h hvalid)
    · exact hmade
  · intro hmade
    refine .inr ⟨hmade, fun hvalid hkid => h hvalid ?_⟩
    rw [keptName, hkid, Option.getD_some]

theorem madeUp_concat_self (hvalid : env.valid entry = true)
    (hname : keptName env entries entry = kid) :
    MadeUp env (entries ++ [entry]) kid ↔ entryKid env entry = none := by
  rw [madeUp_concat]
  unfold keptName at hname
  cases hkid : entryKid env entry with
  | none =>
      rw [hkid, Option.getD_none] at hname
      exact iff_of_true (.inl ⟨hvalid, rfl, hname.symm⟩) rfl
  | some own =>
      rw [hkid, Option.getD_some] at hname
      subst hname
      refine iff_of_false ?_ (by simp)
      rintro (⟨-, hnone, -⟩ | ⟨-, hne⟩)
      · cases hnone
      · exact hne hvalid rfl

theorem OwnKey.concat {last : JwkEntry} (h : OwnKey env entries kid entry) :
    OwnKey env (entries ++ [last]) kid entry :=
  ⟨List.mem_append_left _ h.1, h.2⟩

theorem ownKey_concat_self (hvalid : env.valid entry = true)
    (hname : keptName env entries entry = kid) (hkid : entryKid env entry ≠ none) :
    OwnKey env (entries ++ [entry]) kid entry := by
  refine ⟨List.mem_append_right _ List.mem_cons_self, hvalid, ?_⟩
  obtain ⟨own, hown⟩ := Option.ne_none_iff_exists'.mp hkid
  rw [keptName, hown, Option.getD_some] at hname
  rw [hown, hname]

theorem keyOf_keysOf (h : keyOf (keysOf env entries) kid = some entry) :
    OwnKey env entries kid entry ∧ ¬MadeUp env entries kid ∨
      entryKid env entry = none ∧ MadeUp env entries kid := by
  induction entries using List.reverseRecOn with
  | nil => simp at h
  | append_singleton entries last ih =>
      by_cases hkept : env.valid last = true ∧ keptName env entries last = kid
      · obtain ⟨hvalid, hname⟩ := hkept
        rw [keyOf_concat hvalid, if_pos hname] at h
        cases h
        rw [madeUp_concat_self hvalid hname]
        by_cases hkid : entryKid env entry = none
        · exact .inr ⟨hkid, hkid⟩
        · exact .inl ⟨ownKey_concat_self hvalid hname hkid, hkid⟩
      · have hother : env.valid last = true → keptName env entries last ≠ kid :=
          fun hvalid hname => hkept ⟨hvalid, hname⟩
        have hbefore : keyOf (keysOf env entries) kid = some entry := by
          by_cases hvalid : env.valid last = true
          · rw [keyOf_concat hvalid, if_neg (hother hvalid)] at h
            exact h
          · rw [keysOf_concat, addEntry_of_not_valid (by simpa using hvalid)] at h
            exact h
        rw [madeUp_concat_of_ne hother]
        rcases ih hbefore with ⟨hown, hmade⟩ | hmade
        · exact .inl ⟨hown.concat, hmade⟩
        · exact .inr hmade

theorem ownKey_iff_not_madeUp (h : keyOf (keysOf env entries) kid = some entry) :
    OwnKey env entries kid entry ↔ ¬MadeUp env entries kid := by
  constructor
  · rintro ⟨-, -, hkid⟩ hmade
    rcases keyOf_keysOf h with ⟨-, hnot⟩ | ⟨hnone, -⟩
    · exact hnot hmade
    · rw [hnone] at hkid
      cases hkid
  · intro hnot
    rcases keyOf_keysOf h with ⟨hown, -⟩ | ⟨-, hmade⟩
    · exact hown
    · exact absurd hmade hnot

end Documents

/-! ## Lookups in runs -/

/--
At every point of every run, a token with a key id that is given a key is given
one published under the key id in the document loaded last, unless the key id is
a name made up there for an entry that has none.
-/
theorem getSigningKey_own_iff {env : JwksEnv} {start : ℤ} {s₀ s : JwksState}
    {as : List JwksAction} (hinitial : JwksState.initial env start = some s₀)
    (hrun : (jwks env).run s₀ as = some s) {lib : PyJwt JwkEntry} {token kid : Text}
    (hheader : lib.getUnverifiedHeader token = some kid) (hkid : kid ≠ [])
    {first second : Fetch} {key : Option JwkEntry}
    (hkey : (s.client env first second).getSigningKey lib token = .ok key) :
    (∃ entry, key = some entry ∧
        OwnKey env (s.afterLookup env kid first second).loaded kid entry) ↔
      ¬MadeUp env (s.afterLookup env kid first second).loaded kid := by
  have hs : s.Sound env := Machine.invariant (fun hs hstep => hs.step hstep) hrun
    (JwksState.sound_of_initial hinitial)
  obtain ⟨entry, rfl, hfound⟩ := keyOf_of_getSigningKey hheader hkid hkey
  have hafter : (s.afterLookup env kid first second).Sound env := hs.afterLookup
  rw [hafter] at hfound
  rw [← ownKey_iff_not_madeUp hfound]
  constructor
  · rintro ⟨other, hsame, hown⟩
    cases hsame
    exact hown
  · intro hown
    exact ⟨entry, rfl, hown⟩

def sampleJwks : JwksEnv where
  valid entry := (Json.get entry "kty".toList).truthy && (Json.get entry "k".toList).truthy
  str
    | .text s => s
    | _ => []
  str_text _ := rfl
  staticDocument := none
  ttl := 900

def headerJwt : PyJwt JwkEntry where
  getUnverifiedHeader token := some token
  decode _ _ _ _ _ := .error .invalid
  claimsOf _ := []
  signed _ _ _ := false
  timely _ _ := true

def anonymousEntry : JwkEntry :=
  [("kty".toList, .text "oct".toList), ("k".toList, .text "c2VjcmV0".toList)]

def namedEntry : JwkEntry := ("kid".toList, .text ['a']) :: anonymousEntry

def fetchOf (entry : JwkEntry) : Fetch where
  now := 0
  document := some (.dict [("keys".toList, .list [.dict entry])])
  done := 0

/-- A key without a key id, and a token that names what it is kept under. -/
theorem anonymous_key_of_kid :
    JwksState.initial sampleJwks 0 = some .empty ∧
      (JwksState.empty.client sampleJwks (fetchOf anonymousEntry)
          (fetchOf anonymousEntry)).getSigningKey headerJwt "_anon_0".toList =
        .ok (some anonymousEntry) ∧
      ∀ name, ¬OwnKey sampleJwks (JwksState.empty.afterLookup sampleJwks "_anon_0".toList
        (fetchOf anonymousEntry) (fetchOf anonymousEntry)).loaded name anonymousEntry := by
  refine ⟨rfl, by rfl, ?_⟩
  rintro name ⟨-, -, hkid⟩
  cases hkid

theorem getSigningKey_own_iff_named :
    OwnKey sampleJwks (JwksState.empty.afterLookup sampleJwks ['a'] (fetchOf namedEntry)
      (fetchOf namedEntry)).loaded ['a'] namedEntry := by
  have hown := (@getSigningKey_own_iff sampleJwks 0 .empty .empty [] rfl rfl headerJwt ['a'] ['a']
    rfl (by decide) (fetchOf namedEntry) (fetchOf namedEntry) (some namedEntry) rfl).mpr ?_
  · obtain ⟨entry, hentry, hown⟩ := hown
    cases hentry
    exact hown
  · rintro ⟨earlier, entry, later, hsplit, -, hnone, -⟩
    have hentry : entry ∈ [namedEntry] := by
      rw [show [namedEntry] = earlier ++ entry :: later from hsplit]
      exact List.mem_append_right _ List.mem_cons_self
    rw [List.mem_singleton.mp hentry] at hnone
    cases hnone

end StorageService.Results
