import Mathlib.Logic.Function.Basic
import StorageService.Foundation.StateMachine
import StorageService.Storage.Grants

/-!
# Share links

`shares.py` and `ObjectShareLink`, with any number of clients that create,
redeem and revoke links side by side.  A redemption is one transaction that
locks the row of its link; a revocation reads the row and saves it later, without
a lock.  Each statement is one step.  What the access checks let a caller share
and what is recorded about the object are left out.
-/

namespace StorageService.Storage

open StorageService.Foundation

structure ObjectShareLink where
  token : Text
  objectId : UUID
  companyId : Nat
  createdById : Nat
  expiresAt : Option Time
  maxDownloads : Option Nat
  downloadCount : Nat
  revokedAt : Option Time
  notes : Text
  deriving DecidableEq, Repr

def ObjectShareLink.isActive (now : Time) (link : ObjectShareLink) : Bool :=
  if link.revokedAt ≠ none then false
  else if link.expiresAt.any (· ≤ now) then false
  else if link.maxDownloads.any (· ≤ link.downloadCount) then false
  else true

def shareNotFound : Failure := .storageError "Share link not found" 404 "share_not_found"

def shareInactive : Failure :=
  .storageError "Share link is expired, exhausted, or revoked." 410 "share_inactive"

def shareRevokeDenied : Failure :=
  .storageError "You cannot revoke this share link." 403 "share_revoke_denied"

/-! ## What a request asks for -/

structure ShareRequest where
  /-- Missing and empty alike. -/
  expiresAt : Text
  maxDownloads : Option Int
  notes : Text

structure ShareLimits where
  expiresAt : Option Time
  maxDownloads : Option Nat
  limited : expiresAt ≠ none ∨ maxDownloads ≠ none

def shareLimits (env : Env) (now : Time) (request : ShareRequest) :
    Except Failure ShareLimits := do
  let expires ← parseExpiresAt env request.expiresAt
  let maxDownloads ←
    match request.maxDownloads with
    | none => pure none
    | some n =>
        if n < 1 then
          throw (invalidRequest "max_downloads must be >= 1." "invalid_max_downloads")
        else pure (some n.toNat)
  if limited : expires ≠ none ∨ maxDownloads ≠ none then
    if expires.any (· ≤ now) then
      throw (invalidRequest "expires_at must be in the future." "invalid_expires_at")
    else pure ⟨expires, maxDownloads, limited⟩
  else
    throw (invalidRequest "Provide expires_at and/or max_downloads." "share_limit_required")

def newShareLink (principal : StoragePrincipal) (bucket : Bucket) (obj : StorageObject)
    (token : Text) (limits : ShareLimits) (notes : Text) : ObjectShareLink where
  token := token
  objectId := obj.id
  companyId := bucket.companyId
  createdById := principal.userId
  expiresAt := limits.expiresAt
  maxDownloads := limits.maxDownloads
  downloadCount := 0
  revokedAt := none
  notes := notes.take 255

def mayRevoke (principal : StoragePrincipal) (link : ObjectShareLink) : Except Failure Unit :=
  if principal.companyId ≠ some link.companyId then .error shareNotFound
  else if link.createdById = principal.userId ∨ principal.isCompanyOwner ∨ principal.isStaff then
    .ok ()
  else .error shareRevokeDenied

/-! ## Clients -/

/-- A redemption as it began; `revoked` tells whether a revocation had committed by then. -/
structure Redemption where
  token : Text
  startedAt : Time
  revoked : Bool
  deriving DecidableEq, Repr

inductive Stage where
  | read
  | active
  | counted
  deriving DecidableEq, Repr

inductive Redeem where
  | idle
  | started (r : Redemption)
  /-- `link` is the row as it was read. -/
  | holding (r : Redemption) (link : ObjectShareLink) (stage : Stage)
  | succeeded (r : Redemption)
  | failed (failure : Failure)
  deriving DecidableEq, Repr

inductive Revoke where
  | idle
  | saving (token : Text) (revokedAt : Time)
  | done
  | failed (failure : Failure)
  deriving DecidableEq, Repr

/-- `redeemed` keeps the redemptions that committed. -/
structure ShareState (ι : Type) where
  now : Time
  links : Text → Option ObjectShareLink
  locks : Text → Option ι
  redeems : ι → Redeem
  revokes : ι → Revoke
  redeemed : List Redemption

def ShareState.initial (ι : Type) (now : Time) : ShareState ι where
  now := now
  links := fun _ => none
  locks := fun _ => none
  redeems := fun _ => .idle
  revokes := fun _ => .idle
  redeemed := []

inductive ShareAction (ι : Type) where
  | create (principal : StoragePrincipal) (bucket : Bucket) (obj : StorageObject)
      (token : Text) (request : ShareRequest)
  | redeem (i : ι) (token : Text)
  | lock (i : ι)
  | check (i : ι)
  | increment (i : ι)
  | commit (i : ι)
  /-- Any error rolls the transaction back. -/
  | rollBack (i : ι) (failure : Failure)
  | revoke (i : ι) (principal : StoragePrincipal) (token : Text)
  | saveRevoked (i : ι)
  | wait (time : Time)

section Machine

variable {ι : Type} [DecidableEq ι]

namespace ShareState

def setRedeem (s : ShareState ι) (i : ι) (r : Redeem) : ShareState ι :=
  { s with redeems := Function.update s.redeems i r }

def setRevoke (s : ShareState ι) (i : ι) (r : Revoke) : ShareState ι :=
  { s with revokes := Function.update s.revokes i r }

def unlock (s : ShareState ι) (token : Text) : ShareState ι :=
  { s with locks := Function.update s.locks token none }

def setLink (s : ShareState ι) (token : Text) (link : ObjectShareLink) : ShareState ι :=
  { s with links := Function.update s.links token (some link) }

def create (env : Env) (s : ShareState ι) (principal : StoragePrincipal) (bucket : Bucket)
    (obj : StorageObject) (token : Text) (request : ShareRequest) : ShareState ι :=
  match shareLimits env s.now request with
  | .error _ => s
  | .ok limits =>
      if s.links token = none then
        s.setLink token (newShareLink principal bucket obj token limits request.notes)
      else s

def countedLink (link : ObjectShareLink) : ObjectShareLink :=
  { link with downloadCount := link.downloadCount + 1 }

def startRevoke (s : ShareState ι) (i : ι) (principal : StoragePrincipal) (token : Text) :
    ShareState ι :=
  match s.links token with
  | none => s.setRevoke i (.failed shareNotFound)
  | some link =>
      match mayRevoke principal link with
      | .error failure => s.setRevoke i (.failed failure)
      | .ok () =>
          if link.revokedAt = none then s.setRevoke i (.saving token s.now)
          else s.setRevoke i .done

end ShareState

def shareStep (env : Env) (s : ShareState ι) : ShareAction ι → Option (ShareState ι)
  | .create principal bucket obj token request =>
      some (s.create env principal bucket obj token request)
  | .redeem i token =>
      match s.redeems i with
      | .idle =>
          let revoked := (s.links token).any fun link => decide (link.revokedAt ≠ none)
          some (s.setRedeem i (.started ⟨token, s.now, revoked⟩))
      | _ => none
  | .lock i =>
      match s.redeems i with
      | .started r =>
          match s.links r.token, s.locks r.token with
          | none, _ => some (s.setRedeem i (.failed shareNotFound))
          | some link, none =>
              some { s.setRedeem i (.holding r link .read) with
                locks := Function.update s.locks r.token (some i) }
          -- the row is locked by another redemption
          | some _, some _ => none
      | _ => none
  | .check i =>
      match s.redeems i with
      | .holding r link .read =>
          if link.isActive s.now then some (s.setRedeem i (.holding r link .active))
          else some ((s.setRedeem i (.failed shareInactive)).unlock r.token)
      | _ => none
  | .increment i =>
      match s.redeems i with
      | .holding r link .active => some (s.setRedeem i (.holding r link .counted))
      | _ => none
  | .commit i =>
      match s.redeems i with
      | .holding r link .counted =>
          some { ((s.setRedeem i (.succeeded r)).unlock r.token).setLink r.token
              (ShareState.countedLink link) with
            redeemed := r :: s.redeemed }
      | _ => none
  | .rollBack i failure =>
      match s.redeems i with
      | .started _ => some (s.setRedeem i (.failed failure))
      | .holding r _ _ => some ((s.setRedeem i (.failed failure)).unlock r.token)
      | _ => none
  | .revoke i principal token =>
      match s.revokes i with
      | .idle => some (s.startRevoke i principal token)
      | _ => none
  | .saveRevoked i =>
      match s.revokes i with
      | .saving token revokedAt =>
          match s.links token, s.locks token with
          | some link, none =>
              some ((s.setRevoke i .done).setLink token
                { link with revokedAt := some revokedAt })
          -- the row is locked by a redemption
          | _, _ => none
      | _ => none
  | .wait time => some { s with now := s.now + time }

def shareLinks (env : Env) : Machine (ShareState ι) (ShareAction ι) := ⟨shareStep env⟩

end Machine

/-! ## What a step does -/

section Steps

variable {ι : Type} [DecidableEq ι]

inductive ShareChange (env : Env) (s : ShareState ι) : ShareAction ι → ShareState ι → Prop where
  | created (principal : StoragePrincipal) (bucket : Bucket) (obj : StorageObject) (token : Text)
      (request : ShareRequest) :
      ShareChange env s (.create principal bucket obj token request)
        (s.create env principal bucket obj token request)
  | started (i : ι) (token : Text) (hidle : s.redeems i = .idle) :
      ShareChange env s (.redeem i token)
        (s.setRedeem i (.started
          ⟨token, s.now, (s.links token).any fun link => decide (link.revokedAt ≠ none)⟩))
  | notFound (i : ι) (r : Redemption) (hi : s.redeems i = .started r)
      (hlink : s.links r.token = none) :
      ShareChange env s (.lock i) (s.setRedeem i (.failed shareNotFound))
  | locked (i : ι) (r : Redemption) (link : ObjectShareLink) (hi : s.redeems i = .started r)
      (hlink : s.links r.token = some link) (hlock : s.locks r.token = none) :
      ShareChange env s (.lock i)
        { s.setRedeem i (.holding r link .read) with
          locks := Function.update s.locks r.token (some i) }
  | foundActive (i : ι) (r : Redemption) (link : ObjectShareLink)
      (hi : s.redeems i = .holding r link .read) (hactive : link.isActive s.now = true) :
      ShareChange env s (.check i) (s.setRedeem i (.holding r link .active))
  | foundInactive (i : ι) (r : Redemption) (link : ObjectShareLink)
      (hi : s.redeems i = .holding r link .read) (hinactive : link.isActive s.now = false) :
      ShareChange env s (.check i) ((s.setRedeem i (.failed shareInactive)).unlock r.token)
  | counted (i : ι) (r : Redemption) (link : ObjectShareLink)
      (hi : s.redeems i = .holding r link .active) :
      ShareChange env s (.increment i) (s.setRedeem i (.holding r link .counted))
  | committed (i : ι) (r : Redemption) (link : ObjectShareLink)
      (hi : s.redeems i = .holding r link .counted) :
      ShareChange env s (.commit i)
        { ((s.setRedeem i (.succeeded r)).unlock r.token).setLink r.token
            (ShareState.countedLink link) with
          redeemed := r :: s.redeemed }
  | rolledBackUnlocked (i : ι) (failure : Failure) (r : Redemption)
      (hi : s.redeems i = .started r) :
      ShareChange env s (.rollBack i failure) (s.setRedeem i (.failed failure))
  | rolledBack (i : ι) (failure : Failure) (r : Redemption) (link : ObjectShareLink)
      (stage : Stage) (hi : s.redeems i = .holding r link stage) :
      ShareChange env s (.rollBack i failure)
        ((s.setRedeem i (.failed failure)).unlock r.token)
  | startedRevoke (i : ι) (principal : StoragePrincipal) (token : Text)
      (hidle : s.revokes i = .idle) :
      ShareChange env s (.revoke i principal token) (s.startRevoke i principal token)
  | savedRevoked (i : ι) (token : Text) (revokedAt : Time) (link : ObjectShareLink)
      (hi : s.revokes i = .saving token revokedAt) (hlink : s.links token = some link)
      (hlock : s.locks token = none) :
      ShareChange env s (.saveRevoked i)
        ((s.setRevoke i .done).setLink token { link with revokedAt := some revokedAt })
  | waited (time : Nat) : ShareChange env s (.wait time) { s with now := s.now + time }

theorem shareChange_of_step {env : Env} {s s' : ShareState ι} {a : ShareAction ι}
    (h : shareStep env s a = some s') : ShareChange env s a s' := by
  cases a with
  | create principal bucket obj token request =>
      cases h
      exact .created principal bucket obj token request
  | redeem i token =>
      simp only [shareStep] at h
      split at h
      · rename_i hidle
        cases h
        exact .started i token hidle
      · contradiction
  | lock i =>
      simp only [shareStep] at h
      split at h
      · rename_i r hi
        split at h
        · rename_i hlink
          cases h
          exact .notFound i r hi hlink
        · rename_i link hlink hlock
          cases h
          exact .locked i r link hi hlink hlock
        · contradiction
      · contradiction
  | check i =>
      simp only [shareStep] at h
      split at h
      · rename_i r link hi
        split at h
        · rename_i hactive
          cases h
          exact .foundActive i r link hi hactive
        · rename_i hinactive
          cases h
          exact .foundInactive i r link hi (Bool.eq_false_of_not_eq_true hinactive)
      · contradiction
  | increment i =>
      simp only [shareStep] at h
      split at h
      · rename_i r link hi
        cases h
        exact .counted i r link hi
      · contradiction
  | commit i =>
      simp only [shareStep] at h
      split at h
      · rename_i r link hi
        cases h
        exact .committed i r link hi
      · contradiction
  | rollBack i failure =>
      simp only [shareStep] at h
      split at h
      · rename_i r hi
        cases h
        exact .rolledBackUnlocked i failure r hi
      · rename_i r link stage hi
        cases h
        exact .rolledBack i failure r link stage hi
      · contradiction
  | revoke i principal token =>
      simp only [shareStep] at h
      split at h
      · rename_i hidle
        cases h
        exact .startedRevoke i principal token hidle
      · contradiction
  | saveRevoked i =>
      simp only [shareStep] at h
      split at h
      · rename_i token revokedAt hi
        split at h
        · rename_i link hlink hlock
          cases h
          exact .savedRevoked i token revokedAt link hi hlink hlock
        · contradiction
      · contradiction
  | wait time =>
      cases h
      exact .waited time

end Steps

/-! ## What every state obeys -/

section Sound

variable {ι : Type}

structure ObjectShareLink.Sound (link : ObjectShareLink) (redeemed : List Redemption)
    (token : Text) : Prop where
  limited : link.expiresAt ≠ none ∨ link.maxDownloads ≠ none
  counted : link.downloadCount = redeemed.countP fun r => decide (r.token = token)
  capped : ∀ n, link.maxDownloads = some n → link.downloadCount ≤ n
  expiry : ∀ r ∈ redeemed, r.token = token → ∀ t, link.expiresAt = some t → r.startedAt < t

structure ObjectShareLink.Admits (link : ObjectShareLink) (t : Time) : Prop where
  notRevoked : link.revokedAt = none
  notExpired : ∀ e, link.expiresAt = some e → t < e
  notExhausted : ∀ n, link.maxDownloads = some n → link.downloadCount < n

def Redeem.redemption? : Redeem → Option Redemption
  | .started r | .holding r _ _ => some r
  | .idle | .succeeded _ | .failed _ => none

structure ShareState.Sound (s : ShareState ι) : Prop where
  links : ∀ token link, s.links token = some link → link.Sound s.redeemed token
  unissued : ∀ token, s.links token = none → ∀ r ∈ s.redeemed, r.token ≠ token
  /-- Who holds a lock has read the row as it still is. -/
  locked : ∀ i r link stage, s.redeems i = .holding r link stage →
    s.locks r.token = some i ∧ s.links r.token = some link
  admitted : ∀ i r link stage, s.redeems i = .holding r link stage → stage ≠ .read →
    link.Admits r.startedAt
  started : ∀ i r, (s.redeems i).redemption? = some r → r.startedAt ≤ s.now ∧
    (r.revoked = true → ∃ link, s.links r.token = some link ∧ link.revokedAt ≠ none)
  redeemed : ∀ r ∈ s.redeemed, r.revoked = false

theorem ObjectShareLink.isActive_eq_true {now : Time} {link : ObjectShareLink}
    (h : link.isActive now = true) : link.Admits now := by
  unfold isActive at h
  split at h
  · contradiction
  · split at h
    · contradiction
    · split at h
      · contradiction
      · rename_i hrevoked hexpired hexhausted
        refine ⟨by simpa using hrevoked, ?_, ?_⟩
        · intro e he
          simpa [he] using hexpired
        · intro n hn
          simpa [hn] using hexhausted

theorem ObjectShareLink.Admits.mono {link : ObjectShareLink} {t t' : Time}
    (h : link.Admits t') (hle : t ≤ t') : link.Admits t where
  notRevoked := h.notRevoked
  notExpired := fun e he => Nat.lt_of_le_of_lt hle (h.notExpired e he)
  notExhausted := h.notExhausted

theorem shareState_initial_sound (now : Time) : (ShareState.initial ι now).Sound where
  links := by
    intro token link h
    cases h
  unissued := by
    intro token _ r hr
    cases hr
  locked := by
    intro i r link stage h
    cases h
  admitted := by
    intro i r link stage h
    cases h
  started := by
    intro i r h
    cases h
  redeemed := by
    intro r hr
    cases hr

namespace ShareState

variable {s : ShareState ι}

def Unheld (s : ShareState ι) (token : Text) : Prop :=
  ∀ i r link stage, s.redeems i = .holding r link stage → r.token ≠ token

theorem Sound.unheld (hs : s.Sound) {token : Text} (h : s.locks token = none) :
    s.Unheld token := by
  rintro i r link stage hi rfl
  have hlock := (hs.locked i r link stage hi).1
  rw [h] at hlock
  contradiction

theorem Sound.unlock (hs : s.Sound) {token : Text} (h : s.Unheld token) :
    (s.unlock token).Sound where
  links := hs.links
  unissued := hs.unissued
  locked := by
    intro i r link stage hi
    have hne := h i r link stage hi
    have hold := hs.locked i r link stage hi
    simpa [ShareState.unlock, hne] using hold
  admitted := hs.admitted
  started := hs.started
  redeemed := hs.redeemed

theorem Sound.setLink (hs : s.Sound) {token : Text} {link : ObjectShareLink}
    (hunheld : s.Unheld token) (hlink : link.Sound s.redeemed token)
    (hrevoked : ∀ old, s.links token = some old → old.revokedAt ≠ none →
      link.revokedAt ≠ none) : (s.setLink token link).Sound where
  links := by
    intro t l hl
    by_cases ht : t = token
    · subst ht
      simp only [ShareState.setLink, Function.update_self, Option.some.injEq] at hl
      exact hl ▸ hlink
    · exact hs.links t l (by simpa [ShareState.setLink, ht] using hl)
  unissued := by
    intro t ht
    by_cases heq : t = token
    · subst heq
      simp [ShareState.setLink] at ht
    · exact hs.unissued t (by simpa [ShareState.setLink, heq] using ht)
  locked := by
    intro i r l stage hi
    have hne := hunheld i r l stage hi
    simpa [ShareState.setLink, hne] using hs.locked i r l stage hi
  admitted := hs.admitted
  started := by
    intro i r hi
    obtain ⟨hle, hold⟩ := hs.started i r hi
    refine ⟨hle, fun hr => ?_⟩
    obtain ⟨l, hl, hlr⟩ := hold hr
    by_cases ht : r.token = token
    · exact ⟨link, by simp [ShareState.setLink, ht], hrevoked l (ht ▸ hl) hlr⟩
    · exact ⟨l, by simpa [ShareState.setLink, ht] using hl, hlr⟩
  redeemed := hs.redeemed

theorem Sound.redeem (hs : s.Sound) {r : Redemption} {link : ObjectShareLink}
    (hunheld : s.Unheld r.token) (hlink : s.links r.token = some link)
    (hadmits : link.Admits r.startedAt) (hrevoked : r.revoked = false) :
    ({ s.setLink r.token (countedLink link) with
      redeemed := r :: s.redeemed } : ShareState ι).Sound where
  links := by
    intro t l hl
    by_cases ht : t = r.token
    · subst ht
      simp only [ShareState.setLink, Function.update_self, Option.some.injEq] at hl
      subst hl
      have hold := hs.links r.token link hlink
      refine ⟨hold.limited, ?_, ?_, ?_⟩
      · simp [countedLink, hold.counted]
      · intro n hn
        exact hadmits.notExhausted n hn
      · intro r' hr' htoken e he
        rcases List.mem_cons.mp hr' with rfl | hr'
        · exact hadmits.notExpired e he
        · exact hold.expiry r' hr' htoken e he
    · have hold := hs.links t l (by simpa [ShareState.setLink, ht] using hl)
      refine ⟨hold.limited, ?_, hold.capped, ?_⟩
      · rw [List.countP_cons_of_neg (by simpa using Ne.symm ht)]
        exact hold.counted
      · intro r' hr' htoken e he
        rcases List.mem_cons.mp hr' with rfl | hr'
        · exact absurd htoken.symm ht
        · exact hold.expiry r' hr' htoken e he
  unissued := by
    intro t ht r' hr'
    have hne : t ≠ r.token := by
      rintro rfl
      simp [ShareState.setLink] at ht
    rcases List.mem_cons.mp hr' with rfl | hr'
    · exact hne.symm
    · exact hs.unissued t (by simpa [ShareState.setLink, hne] using ht) r' hr'
  locked := by
    intro i r' l stage hi
    have hne := hunheld i r' l stage hi
    simpa [ShareState.setLink, hne] using hs.locked i r' l stage hi
  admitted := hs.admitted
  started := by
    intro i r' hi
    obtain ⟨hle, hold⟩ := hs.started i r' hi
    refine ⟨hle, fun hr => ?_⟩
    obtain ⟨l, hl, hlr⟩ := hold hr
    by_cases ht : r'.token = r.token
    · rw [ht, hlink] at hl
      cases hl
      exact absurd hadmits.notRevoked hlr
    · exact ⟨l, by simpa [ShareState.setLink, ht] using hl, hlr⟩
  redeemed := by
    intro r' hr'
    rcases List.mem_cons.mp hr' with rfl | hr'
    · exact hrevoked
    · exact hs.redeemed r' hr'

theorem Sound.create (hs : s.Sound) (env : Env) (principal : StoragePrincipal)
    (bucket : Bucket) (obj : StorageObject) (token : Text) (request : ShareRequest) :
    (s.create env principal bucket obj token request).Sound := by
  unfold ShareState.create
  split
  · exact hs
  · rename_i limits _
    split
    · rename_i hnone
      refine hs.setLink ?_ ?_ ?_
      · rintro i r link stage hi rfl
        have hlink := (hs.locked i r link stage hi).2
        rw [hnone] at hlink
        contradiction
      · have hunissued := hs.unissued token hnone
        refine ⟨limits.limited, ?_, fun n _ => Nat.zero_le n, ?_⟩
        · symm
          rw [newShareLink, List.countP_eq_zero]
          intro r hr
          simpa using hunissued r hr
        · intro r hr htoken
          exact absurd htoken (hunissued r hr)
      · intro old hold
        rw [hnone] at hold
        contradiction
    · exact hs

variable [DecidableEq ι]

theorem Sound.setRedeem (hs : s.Sound) (i : ι) {phase : Redeem}
    (hlocked : ∀ r link stage, phase = .holding r link stage →
      s.locks r.token = some i ∧ s.links r.token = some link)
    (hadmitted : ∀ r link stage, phase = .holding r link stage → stage ≠ .read →
      link.Admits r.startedAt)
    (hstarted : ∀ r, phase.redemption? = some r → r.startedAt ≤ s.now ∧
      (r.revoked = true → ∃ link, s.links r.token = some link ∧ link.revokedAt ≠ none)) :
    (s.setRedeem i phase).Sound where
  links := hs.links
  unissued := hs.unissued
  locked := by
    intro j r link stage hj
    by_cases hij : j = i
    · subst hij
      exact hlocked r link stage (by simpa [ShareState.setRedeem] using hj)
    · exact hs.locked j r link stage (by simpa [ShareState.setRedeem, hij] using hj)
  admitted := by
    intro j r link stage hj
    by_cases hij : j = i
    · subst hij
      exact hadmitted r link stage (by simpa [ShareState.setRedeem] using hj)
    · exact hs.admitted j r link stage (by simpa [ShareState.setRedeem, hij] using hj)
  started := by
    intro j r hj
    by_cases hij : j = i
    · subst hij
      exact hstarted r (by simpa [ShareState.setRedeem] using hj)
    · exact hs.started j r (by simpa [ShareState.setRedeem, hij] using hj)
  redeemed := hs.redeemed

theorem Sound.setDone (hs : s.Sound) (i : ι) {phase : Redeem}
    (hdone : phase.redemption? = none) : (s.setRedeem i phase).Sound := by
  refine hs.setRedeem i ?_ ?_ ?_
  · rintro r link stage rfl
    cases hdone
  · rintro r link stage rfl
    cases hdone
  · intro r hr
    rw [hdone] at hr
    contradiction

theorem Sound.unheld_setDone (hs : s.Sound) {i : ι} {r : Redemption} {link : ObjectShareLink}
    {stage : Stage} (hi : s.redeems i = .holding r link stage) {phase : Redeem}
    (hdone : phase.redemption? = none) : (s.setRedeem i phase).Unheld r.token := by
  intro j r' link' stage' hj htoken
  by_cases hij : j = i
  · subst hij
    simp only [ShareState.setRedeem, Function.update_self] at hj
    rw [hj] at hdone
    contradiction
  · simp only [ShareState.setRedeem, Function.update_of_ne hij] at hj
    have hlock := (hs.locked j r' link' stage' hj).1
    rw [htoken, (hs.locked i r link stage hi).1] at hlock
    exact hij (Option.some.inj hlock).symm

theorem Sound.setRevoke (hs : s.Sound) (i : ι) (phase : Revoke) :
    (s.setRevoke i phase).Sound :=
  ⟨hs.links, hs.unissued, hs.locked, hs.admitted, hs.started, hs.redeemed⟩

theorem Sound.startRevoke (hs : s.Sound) (i : ι) (principal : StoragePrincipal)
    (token : Text) : (s.startRevoke i principal token).Sound := by
  unfold ShareState.startRevoke
  repeat' split
  all_goals exact hs.setRevoke i _

theorem Sound.lock (hs : s.Sound) {i : ι} {r : Redemption} {link : ObjectShareLink}
    (hi : s.redeems i = .started r) (hlink : s.links r.token = some link)
    (hlock : s.locks r.token = none) :
    ShareState.Sound { s.setRedeem i (.holding r link .read) with
      locks := Function.update s.locks r.token (some i) } := by
  have hunheld := hs.unheld hlock
  have hlocks : ({ s with locks := Function.update s.locks r.token (some i) } :
      ShareState ι).Sound := by
    refine ⟨hs.links, hs.unissued, ?_, hs.admitted, hs.started, hs.redeemed⟩
    intro j r' link' stage hj
    have hne := hunheld j r' link' stage hj
    simpa [hne] using hs.locked j r' link' stage hj
  refine hlocks.setRedeem i ?_ ?_ ?_
  · intro r' link' stage heq
    cases heq
    exact ⟨by simp, hlink⟩
  · intro r' link' stage heq hstage
    cases heq
    exact absurd rfl hstage
  · intro r' hr'
    cases hr'
    exact hs.started i r (by rw [hi]; rfl)

theorem Sound.hold (hs : s.Sound) {i : ι} {r : Redemption} {link : ObjectShareLink}
    {stage stage' : Stage} (hi : s.redeems i = .holding r link stage)
    (hadmits : link.Admits r.startedAt) : (s.setRedeem i (.holding r link stage')).Sound := by
  refine hs.setRedeem i ?_ ?_ ?_
  · intro r' link' stage'' heq
    cases heq
    exact hs.locked i r link stage hi
  · intro r' link' stage'' heq _
    cases heq
    exact hadmits
  · intro r' hr'
    cases hr'
    exact hs.started i r (by rw [hi]; rfl)

theorem Sound.commit (hs : s.Sound) {i : ι} {r : Redemption} {link : ObjectShareLink}
    (hi : s.redeems i = .holding r link .counted) :
    ShareState.Sound { ((s.setRedeem i (.succeeded r)).unlock r.token).setLink r.token
        (ShareState.countedLink link) with
      redeemed := r :: s.redeemed } := by
  have hadmits := hs.admitted i r link .counted hi (by decide)
  have hlink := (hs.locked i r link .counted hi).2
  have hstarted := hs.started i r (by rw [hi]; rfl)
  have hrevoked : r.revoked = false := by
    by_contra hne
    obtain ⟨link', hlink', hr'⟩ := hstarted.2 (by simpa using hne)
    rw [hlink] at hlink'
    cases hlink'
    exact hr' hadmits.notRevoked
  have hdone : (s.setRedeem i (.succeeded r)).Sound := hs.setDone i rfl
  have hunheld : (s.setRedeem i (.succeeded r)).Unheld r.token := hs.unheld_setDone hi rfl
  exact (hdone.unlock hunheld).redeem hunheld hlink hadmits hrevoked

theorem Sound.step (hs : s.Sound) {env : Env} {a : ShareAction ι} {s' : ShareState ι}
    (h : shareStep env s a = some s') : s'.Sound := by
  cases shareChange_of_step h with
  | created principal bucket obj token request =>
      exact hs.create env principal bucket obj token request
  | started i token hidle =>
      refine hs.setRedeem i (fun _ _ _ h => by cases h) (fun _ _ _ h => by cases h) ?_
      rintro r hr
      cases hr
      refine ⟨Nat.le_refl _, fun hrevoked => ?_⟩
      cases hlink : s.links token with
      | none => simp [hlink] at hrevoked
      | some link => exact ⟨link, rfl, by simpa [hlink] using hrevoked⟩
  | notFound i r hi hlink => exact hs.setDone i rfl
  | locked i r link hi hlink hlock => exact hs.lock hi hlink hlock
  | foundActive i r link hi hactive =>
      have hstarted := hs.started i r (by rw [hi]; rfl)
      exact hs.hold hi ((ObjectShareLink.isActive_eq_true hactive).mono hstarted.1)
  | foundInactive i r link hi hinactive =>
      exact (hs.setDone i rfl).unlock (hs.unheld_setDone hi rfl)
  | counted i r link hi => exact hs.hold hi (hs.admitted i r link .active hi (by decide))
  | committed i r link hi => exact hs.commit hi
  | rolledBackUnlocked i failure r hi => exact hs.setDone i rfl
  | rolledBack i failure r link stage hi =>
      exact (hs.setDone i rfl).unlock (hs.unheld_setDone hi rfl)
  | startedRevoke i principal token hidle => exact hs.startRevoke i principal token
  | savedRevoked i token revokedAt link hi hlink hlock =>
      have hold := hs.links token link hlink
      refine (hs.setRevoke i .done).setLink (hs.unheld hlock) ?_ (by simp)
      exact ⟨hold.limited, hold.counted, hold.capped, hold.expiry⟩
  | waited time =>
      refine ⟨hs.links, hs.unissued, hs.locked, hs.admitted, ?_, hs.redeemed⟩
      intro i r hi
      obtain ⟨hle, hold⟩ := hs.started i r hi
      exact ⟨Nat.le_trans hle (Nat.le_add_right _ _), hold⟩

end ShareState

end Sound

end StorageService.Storage
