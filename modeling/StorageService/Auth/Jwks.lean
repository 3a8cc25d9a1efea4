import StorageService.Auth.Tokens
import StorageService.Foundation.StateMachine

/-!
# The key cache

`JWKSClient`: the keys of the last document under the names they were given, the
documents that take its place, and the keys that tokens get.
-/

namespace StorageService.Auth

open StorageService.Foundation
open StorageService.Storage (decimal)

abbrev JwkEntry := List (Text × Json)

structure JwksEnv where
  valid : JwkEntry → Bool
  str : Json → Text
  str_text : ∀ s, str (.text s) = s
  staticDocument : Option Json
  ttl : ℤ

/-! ## Documents -/

/-- What the loop over `document.get('keys') or []` runs over; nothing where it raises. -/
def documentEntries (document : Json) : Option (List JwkEntry) :=
  match document with
  | .dict fields =>
      let keys := Json.get fields "keys".toList
      if keys.truthy = false then some []
      else
        match keys with
        | .list items => items.mapM fun
            | .dict entry => some entry
            | _ => none
        | _ => none
  | _ => none

def entryKid (env : JwksEnv) (entry : JwkEntry) : Option Text :=
  let kid := Json.get entry "kid".toList
  if kid.truthy then some (env.str kid) else none

def anonymousName (n : Nat) : Text := "_anon_".toList ++ decimal n

def setKey (keys : List (Text × JwkEntry)) (name : Text) (jwk : JwkEntry) :
    List (Text × JwkEntry) :=
  if keys.any fun key => decide (key.1 = name) then
    keys.map fun key => if key.1 = name then (name, jwk) else key
  else keys ++ [(name, jwk)]

def addEntry (env : JwksEnv) (keys : List (Text × JwkEntry)) (entry : JwkEntry) :
    List (Text × JwkEntry) :=
  if env.valid entry then
    setKey keys ((entryKid env entry).getD (anonymousName keys.length)) entry
  else keys

def keysOf (env : JwksEnv) (entries : List JwkEntry) : List (Text × JwkEntry) :=
  entries.foldl (addEntry env) []

section Lookups

variable {env : JwksEnv} {keys : List (Text × JwkEntry)} {name kid : Text} {jwk : JwkEntry}

@[simp] theorem keyOf_nil {Key : Type} : keyOf ([] : List (Text × Key)) kid = none := rfl

theorem keyOf_cons {Key : Type} {keys : List (Text × Key)} {key : Key} :
    keyOf ((name, key) :: keys) kid = if name = kid then some key else keyOf keys kid := by
  unfold keyOf
  by_cases h : name = kid
  · simp [h]
  · simp [h]

theorem keyOf_append {Key : Type} {keys others : List (Text × Key)} :
    keyOf (keys ++ others) kid = (keyOf keys kid).or (keyOf others kid) := by
  unfold keyOf
  rw [List.find?_append, Option.map_or]

theorem keyOf_replace_of_ne (h : name ≠ kid) :
    keyOf (keys.map fun key => if key.1 = name then (name, jwk) else key) kid =
      keyOf keys kid := by
  induction keys with
  | nil => rfl
  | cons key keys ih =>
      obtain ⟨other, value⟩ := key
      rw [List.map_cons]
      by_cases hother : other = name
      · rw [if_pos hother, keyOf_cons, keyOf_cons, ih, if_neg h, hother, if_neg h]
      · rw [if_neg hother, keyOf_cons, keyOf_cons, ih]

theorem keyOf_replace_self (h : keys.any (fun key => decide (key.1 = name)) = true) :
    keyOf (keys.map fun key => if key.1 = name then (name, jwk) else key) name = some jwk := by
  induction keys with
  | nil => simp at h
  | cons key keys ih =>
      obtain ⟨other, value⟩ := key
      rw [List.map_cons]
      by_cases hother : other = name
      · rw [if_pos hother, keyOf_cons, if_pos rfl]
      · rw [if_neg hother, keyOf_cons, if_neg hother]
        apply ih
        simpa [hother] using h

theorem keyOf_eq_none (h : ¬keys.any (fun key => decide (key.1 = name)) = true) :
    keyOf keys name = none := by
  unfold keyOf
  rw [Option.map_eq_none_iff, List.find?_eq_none]
  intro key hkey hname
  exact h (List.any_eq_true.mpr ⟨key, hkey, hname⟩)

theorem keyOf_setKey :
    keyOf (setKey keys name jwk) kid = if name = kid then some jwk else keyOf keys kid := by
  unfold setKey
  by_cases hkid : name = kid
  · subst hkid
    rw [if_pos rfl]
    split
    · rename_i hany
      exact keyOf_replace_self hany
    · rename_i hany
      rw [keyOf_append, keyOf_eq_none hany, Option.none_or, keyOf_cons, if_pos rfl]
  · rw [if_neg hkid]
    split
    · exact keyOf_replace_of_ne hkid
    · rw [keyOf_append, keyOf_cons, if_neg hkid, keyOf_nil, Option.or_none]

@[simp] theorem keysOf_nil : keysOf env [] = [] := rfl

theorem keysOf_concat {entries : List JwkEntry} {entry : JwkEntry} :
    keysOf env (entries ++ [entry]) = addEntry env (keysOf env entries) entry := by
  rw [keysOf, List.foldl_append]
  rfl

theorem keyOf_addEntry {entry : JwkEntry} (h : env.valid entry = true) :
    keyOf (addEntry env keys entry) kid =
      if (entryKid env entry).getD (anonymousName keys.length) = kid then some entry
      else keyOf keys kid := by
  rw [addEntry, if_pos h, keyOf_setKey]

theorem addEntry_of_not_valid {entry : JwkEntry} (h : env.valid entry = false) :
    addEntry env keys entry = keys := by
  rw [addEntry, if_neg (by simp [h])]

end Lookups

/-! ## The client -/

/-- `loaded` keeps the entries of the document that the keys come from. -/
structure JwksState where
  keys : List (Text × JwkEntry)
  fetchedAt : ℤ
  loaded : List JwkEntry

/-- One look at the network: when it starts, what it brings unless it fails, and when it is over. -/
structure Fetch where
  now : ℤ
  document : Option Json
  done : ℤ

namespace JwksState

def empty : JwksState := ⟨[], 0, []⟩

/-- `_apply_document`; nothing where it raises, which is before anything is replaced. -/
def applyDocument (env : JwksEnv) (document : Json) (now : ℤ) : Option JwksState :=
  (documentEntries document).map fun entries => ⟨keysOf env entries, now, entries⟩

def initial (env : JwksEnv) (now : ℤ) : Option JwksState :=
  match env.staticDocument with
  | some document => applyDocument env document now
  | none => some empty

def clear (env : JwksEnv) (now : ℤ) : Option JwksState := initial env now

/-- `_refresh`; nothing where it raises, and then the state is as before. -/
def refresh (env : JwksEnv) (s : JwksState) (force : Bool) (fetch : Fetch) : Option JwksState :=
  match env.staticDocument with
  | some document => if s.keys = [] then applyDocument env document fetch.done else some s
  | none =>
      if force = false ∧ s.keys ≠ [] ∧ fetch.now - s.fetchedAt < env.ttl then some s
      else
        match fetch.document with
        | some document => applyDocument env document fetch.done
        | none => if s.keys ≠ [] then some s else none

/-- The keys a token is looked up in: after a refresh, and after a forced one. -/
def client (env : JwksEnv) (s : JwksState) (first second : Fetch) : JWKSClient JwkEntry where
  refreshed := (s.refresh env false first).map JwksState.keys
  forced := ((s.refresh env false first).bind fun s₁ => s₁.refresh env true second).map
    JwksState.keys

def afterLookup (env : JwksEnv) (s : JwksState) (kid : Text) (first second : Fetch) : JwksState :=
  match s.refresh env false first with
  | none => s
  | some s₁ =>
      if kid = [] ∨ (keyOf s₁.keys kid).isSome then s₁ else (s₁.refresh env true second).getD s₁

end JwksState

inductive JwksAction where
  | clear (now : ℤ)
  /-- `get_signing_key`, for the key id of a header -/
  | lookup (kid : Text) (first second : Fetch)

def jwksStep (env : JwksEnv) (s : JwksState) : JwksAction → Option JwksState
  | .clear now => JwksState.clear env now
  | .lookup kid first second => some (s.afterLookup env kid first second)

def jwks (env : JwksEnv) : Machine JwksState JwksAction := ⟨jwksStep env⟩

/-! ## What a lookup finds -/

section Steps

variable {env : JwksEnv} {s s' : JwksState} {kid : Text} {first second fetch : Fetch} {force : Bool}

def JwksState.Sound (env : JwksEnv) (s : JwksState) : Prop := s.keys = keysOf env s.loaded

theorem JwksState.sound_of_applyDocument {document : Json} {now : ℤ}
    (h : JwksState.applyDocument env document now = some s) : s.Sound env := by
  obtain ⟨entries, -, rfl⟩ := Option.map_eq_some_iff.mp h
  rfl

theorem JwksState.sound_of_initial {now : ℤ} (h : JwksState.initial env now = some s) :
    s.Sound env := by
  unfold JwksState.initial at h
  split at h
  · exact JwksState.sound_of_applyDocument h
  · cases h
    rfl

theorem JwksState.Sound.refresh (hs : s.Sound env)
    (h : s.refresh env force fetch = some s') : s'.Sound env := by
  unfold JwksState.refresh at h
  split at h
  · split at h
    · exact JwksState.sound_of_applyDocument h
    · cases h
      exact hs
  · split at h
    · cases h
      exact hs
    · split at h
      · exact JwksState.sound_of_applyDocument h
      · split at h
        · cases h
          exact hs
        · contradiction

theorem JwksState.Sound.afterLookup (hs : s.Sound env) :
    (s.afterLookup env kid first second).Sound env := by
  unfold JwksState.afterLookup
  cases hfirst : s.refresh env false first with
  | none => exact hs
  | some s₁ =>
      have hs₁ := hs.refresh hfirst
      change JwksState.Sound env (if _ then _ else _)
      split
      · exact hs₁
      · cases hsecond : s₁.refresh env true second with
        | none => exact hs₁
        | some s₂ => exact hs₁.refresh hsecond

theorem JwksState.Sound.step {a : JwksAction} (hs : s.Sound env)
    (h : jwksStep env s a = some s') : s'.Sound env := by
  cases a with
  | clear now => exact JwksState.sound_of_initial h
  | lookup kid first second =>
      cases h
      exact hs.afterLookup

/-- The key that a token with a key id gets is the one under this name. -/
theorem keyOf_of_getSigningKey {lib : PyJwt JwkEntry} {token : Text} {key : Option JwkEntry}
    (hheader : lib.getUnverifiedHeader token = some kid) (hkid : kid ≠ [])
    (h : (s.client env first second).getSigningKey lib token = .ok key) :
    ∃ entry, key = some entry ∧
      keyOf (s.afterLookup env kid first second).keys kid = some entry := by
  unfold JWKSClient.getSigningKey at h
  unfold JwksState.afterLookup
  rw [hheader] at h
  cases hfirst : s.refresh env false first with
  | none =>
      simp only [JwksState.client, hfirst] at h
      contradiction
  | some s₁ =>
      simp only [JwksState.client, hfirst, Option.map_some, Option.bind_some, orRaise,
        Option.elim_some, bind, Except.bind, if_pos hkid] at h
      cases hfound : keyOf s₁.keys kid with
      | some entry =>
          rw [hfound] at h
          cases h
          exact ⟨entry, rfl, by simp [hfound]⟩
      | none =>
          rw [hfound] at h
          cases hsecond : s₁.refresh env true second with
          | none =>
              simp only [hsecond] at h
              contradiction
          | some s₂ =>
              simp only [hsecond, Option.map_some, Option.elim_some] at h
              cases hnew : keyOf s₂.keys kid with
              | none =>
                  simp only [hnew] at h
                  contradiction
              | some entry =>
                  rw [hnew] at h
                  cases h
                  exact ⟨entry, rfl, by simp [hkid, hfound, hsecond, hnew]⟩

end Steps

end StorageService.Auth
