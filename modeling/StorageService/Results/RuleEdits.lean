import StorageService.Actions.RuleEdits

/-!
# Histories of a rule

Whose leave the private addresses of a rule rest on, which secret it has, and
what becomes of a new secret while others edit the rule.
-/

namespace StorageService.Results

open StorageService.Foundation
open StorageService.Actions
open StorageService.Storage (strip)

/-! ## The opt-in and the secret -/

/-- A superuser set the flag, and the URL has not changed after that. -/
def Granted (history : List ConfigChange) : Prop :=
  ∃ earlier grant later, history = earlier ++ grant :: later ∧
    grant.request.isSuperuser = true ∧ grant.request.edit.allowPrivateUrls = some true ∧
    ∀ change ∈ later, change.after.url = change.before.url

def OptInTied (s : RuleState) : Prop :=
  ∀ config, s.config = some config → config.allowPrivateUrls = true → Granted s.history

/--
A superuser gives a rule that may use private addresses another URL and does not
say whether the new one may.
-/
def MovesOptIn (s : RuleState) (a : RuleAction) : Prop :=
  ∃ request existing, a = .edit request ∧ s.config = some existing ∧
    request.isSuperuser = true ∧ request.edit.allowPrivateUrls = none ∧
    existing.allowPrivateUrls = true ∧
    ∃ url, request.edit.url = some url ∧ strip url ≠ [] ∧ strip url ≠ strip existing.url

structure ConfigSound (s : RuleState) : Prop where
  history : s.config = none → s.history = []
  stripped : ∀ config, s.config = some config → strip config.url = config.url
  url : ∀ config, s.config = some config → config.url ≠ []
  secret : ∀ config, s.config = some config → config.secret ≠ [] ∧
    (s.history.filterMap ConfigChange.newSecret).getLast? = some config.secret

section Histories

variable {s s' : RuleState} {a : RuleAction} {request : ConfigRequest}
  {existing config : WebhookConfig}

theorem configSound_initial : ConfigSound .initial where
  history _ := rfl
  stripped _ h := by cases h
  url _ h := by cases h
  secret _ h := by cases h

theorem generateWebhookSigningSecret_ne_nil (random : Text) :
    generateWebhookSigningSecret random ≠ [] := by
  unfold generateWebhookSigningSecret
  exact List.append_ne_nil_of_left_ne_nil (by decide) random

theorem newSecret_ne_nil {change : ConfigChange} {secret : Text}
    (h : change.newSecret = some secret) : secret ≠ [] := by
  simp only [ConfigChange.newSecret] at h
  split at h
  · cases h
    assumption
  · split at h
    · cases h
      exact generateWebhookSigningSecret_ne_nil _
    · contradiction

theorem secret_of_build {history : List ConfigChange}
    (hold : existing.secret ≠ [] ∧
        (history.filterMap ConfigChange.newSecret).getLast? = some existing.secret ∨
      existing.secret = [] ∧ request.update = false)
    (h : request.build existing = .ok config) :
    config.secret ≠ [] ∧
      (List.filterMap ConfigChange.newSecret
        (history ++ [⟨request, existing, config⟩])).getLast? = some config.secret := by
  have hsecret := (build_eq_ok h).2.2.2
  rw [List.filterMap_append]
  cases hnew : (⟨request, existing, config⟩ : ConfigChange).newSecret with
  | some secret =>
      rw [hnew, Option.getD_some] at hsecret
      rw [hsecret, List.filterMap_cons_some hnew]
      exact ⟨newSecret_ne_nil hnew, List.getLast?_concat⟩
  | none =>
      rw [hnew, Option.getD_none] at hsecret
      rw [hsecret, List.filterMap_cons_none hnew, List.filterMap_nil, List.append_nil]
      rcases hold with hold | ⟨hempty, hfull⟩
      · exact hold
      · -- a full request on no secret generates one
        simp only [ConfigChange.newSecret] at hnew
        split at hnew
        · contradiction
        · rw [if_pos ⟨hempty, hfull⟩] at hnew
          contradiction

theorem ConfigSound.apply (hs : ConfigSound s)
    (hexisting : s.config = none ∧ existing = emptyConfig ∧ request.update = false ∨
      s.config = some existing) : ConfigSound (s.apply existing request) := by
  unfold RuleState.apply
  split
  · exact hs
  · rename_i config hbuild
    obtain ⟨hne, hurl, -, -⟩ := build_eq_ok hbuild
    have hstrip : strip existing.url = existing.url := by
      rcases hexisting with ⟨-, rfl, -⟩ | hsome
      · decide
      · exact hs.stripped existing hsome
    refine ⟨?_, ?_, ?_, ?_⟩
    · intro h
      cases h
    · rintro _ ⟨⟩
      rw [hurl, strip_urlOn hstrip]
    · rintro _ ⟨⟩
      exact hne
    · rintro _ ⟨⟩
      refine secret_of_build ?_ hbuild
      rcases hexisting with ⟨-, rfl, hfull⟩ | hsome
      · exact .inr ⟨rfl, hfull⟩
      · exact .inl (hs.secret existing hsome)

theorem ConfigSound.step (hs : ConfigSound s) (h : ruleStep s a = some s') : ConfigSound s' := by
  obtain ⟨existing, request, rfl, hcase⟩ := apply_of_ruleStep h
  refine hs.apply ?_
  rcases hcase with ⟨hnone, hempty, -, hfull⟩ | ⟨hsome, -⟩
  · exact .inl ⟨hnone, hempty, hfull⟩
  · exact .inr hsome

/-! ### The opt-in -/

theorem Granted.append {history : List ConfigChange} (h : Granted history)
    {change : ConfigChange} (hsame : change.after.url = change.before.url) :
    Granted (history ++ [change]) := by
  obtain ⟨earlier, grant, later, rfl, hsuper, hallow, hlater⟩ := h
  refine ⟨earlier, grant, later ++ [change], by simp, hsuper, hallow, ?_⟩
  intro other hother
  rcases List.mem_append.mp hother with hother | hother
  · exact hlater other hother
  · rw [List.mem_singleton.mp hother]
    exact hsame

/-- The last change keeps the URL, unless it is a grant itself. -/
theorem granted_append_iff {history : List ConfigChange} {change : ConfigChange} :
    Granted (history ++ [change]) ↔
      (change.request.isSuperuser = true ∧ change.request.edit.allowPrivateUrls = some true) ∨
        Granted history ∧ change.after.url = change.before.url := by
  constructor
  · rintro ⟨earlier, grant, later, hsplit, hsuper, hallow, hlater⟩
    rcases List.eq_nil_or_concat later with rfl | ⟨front, last, rfl⟩
    · obtain ⟨-, rfl⟩ := List.append_inj' hsplit rfl |>.imp id List.singleton_inj.mp
      exact .inl ⟨hsuper, hallow⟩
    · have hassoc : earlier ++ grant :: front.concat last =
          (earlier ++ grant :: front) ++ [last] := by simp
      rw [hassoc] at hsplit
      obtain ⟨rfl, hlast⟩ := List.append_inj' hsplit rfl
      obtain rfl := List.singleton_inj.mp hlast
      refine .inr ⟨⟨earlier, grant, front, rfl, hsuper, hallow, ?_⟩, ?_⟩
      · intro other hother
        exact hlater other (by simp [hother])
      · exact hlater change (by simp)
  · rintro (⟨hsuper, hallow⟩ | ⟨hgranted, hsame⟩)
    · exact ⟨history, change, [], rfl, hsuper, hallow, fun other h => by cases h⟩
    · exact hgranted.append hsame

def MovesFrom (existing : WebhookConfig) (request : ConfigRequest) : Prop :=
  request.isSuperuser = true ∧ request.edit.allowPrivateUrls = none ∧
    existing.allowPrivateUrls = true ∧
    ∃ url, request.edit.url = some url ∧ strip url ≠ [] ∧ strip url ≠ strip existing.url

theorem movesOptIn_iff
    (hcase : s.config = none ∧ existing = emptyConfig ∧ a = .create request ∧
        request.update = false ∨ s.config = some existing ∧ a = .edit request) :
    MovesOptIn s a ↔ MovesFrom existing request := by
  rcases hcase with ⟨-, rfl, rfl, -⟩ | ⟨hsome, rfl⟩
  · constructor
    · rintro ⟨_, _, h, -⟩
      cases h
    · rintro ⟨-, -, hallow, -⟩
      contradiction
  · constructor
    · rintro ⟨request', existing', hedit, hexisting, hrest⟩
      cases hedit
      rw [hsome] at hexisting
      cases hexisting
      exact hrest
    · intro hrest
      exact ⟨request, existing, rfl, hsome, hrest⟩

theorem urlOn_of_some {url : Text} (h : request.edit.url = some url) :
    request.urlOn existing = strip url := by
  rw [ConfigRequest.urlOn, h, if_pos (.inl rfl)]
  rfl

theorem not_movesFrom_of_refused {failure : Failure}
    (h : request.build existing = .error failure) : ¬MovesFrom existing request := by
  rintro ⟨-, -, -, url, hurl, hblank, -⟩
  have hon : request.urlOn existing ≠ [] := by
    rw [urlOn_of_some hurl]
    exact hblank
  obtain ⟨config, hok⟩ := exists_build hon
  rw [h] at hok
  contradiction

/-- What an accepted request allows, it grants or finds granted for the URL, but for a move. -/
theorem allowOn_granted_iff {granted : Prop} (hbefore : existing.allowPrivateUrls = true → granted)
    (hne : request.urlOn existing ≠ []) :
    (request.allowOn existing = true →
        (request.isSuperuser = true ∧ request.edit.allowPrivateUrls = some true) ∨
          granted ∧ ¬urlChanged existing request.edit) ↔ ¬MovesFrom existing request := by
  cases hsuper : request.isSuperuser with
  | false =>
      refine iff_of_true (fun hon => ?_) (fun h => ?_)
      · obtain ⟨hwas, hsame⟩ := allowOn_of_owner hsuper hon
        exact .inr ⟨hbefore hwas, hsame⟩
      · rw [MovesFrom, hsuper] at h
        exact absurd h.1 Bool.false_ne_true
  | true =>
      rw [ConfigRequest.allowOn, MovesFrom, hsuper, if_pos rfl]
      cases hset : request.edit.allowPrivateUrls with
      | some set => cases set <;> simp
      | none =>
          simp only [Option.getD_none, reduceCtorEq, and_false, false_or, true_and]
          cases hwas : existing.allowPrivateUrls with
          | false => simp
          | true =>
              -- the URL of an accepted request is not blank
              have hblank : urlChanged existing request.edit ↔
                  ∃ url, request.edit.url = some url ∧ strip url ≠ [] ∧
                    strip url ≠ strip existing.url := by
                constructor
                · rintro ⟨url, hsome, hdiffers⟩
                  rw [urlOn_of_some hsome] at hne
                  exact ⟨url, hsome, hne, hdiffers⟩
                · rintro ⟨url, hsome, -, hdiffers⟩
                  exact ⟨url, hsome, hdiffers⟩
              rw [← hblank]
              simp [hbefore hwas]

theorem optInTied_step_iff (hs : ConfigSound s) (htied : OptInTied s)
    (h : ruleStep s a = some s') : OptInTied s' ↔ ¬MovesOptIn s a := by
  obtain ⟨existing, request, rfl, hcase⟩ := apply_of_ruleStep h
  have hstrip : strip existing.url = existing.url := by
    rcases hcase with ⟨-, rfl, -, -⟩ | ⟨hsome, -⟩
    · decide
    · exact hs.stripped existing hsome
  have hbefore : existing.allowPrivateUrls = true → Granted s.history := by
    rcases hcase with ⟨-, rfl, -, -⟩ | ⟨hsome, -⟩
    · intro hallow
      contradiction
    · exact htied existing hsome
  rw [movesOptIn_iff hcase]
  unfold RuleState.apply
  split
  · rename_i failure hbuild
    exact iff_of_true htied (not_movesFrom_of_refused hbuild)
  · rename_i config hbuild
    obtain ⟨hne, hurl, hallow, -⟩ := build_eq_ok hbuild
    have htied' : OptInTied ⟨some config, s.history ++ [⟨request, existing, config⟩]⟩ ↔
        (config.allowPrivateUrls = true →
          (request.isSuperuser = true ∧ request.edit.allowPrivateUrls = some true) ∨
            Granted s.history ∧ ¬urlChanged existing request.edit) := by
      rw [← urlOn_eq_iff hstrip, ← hurl, ← @granted_append_iff s.history
        ⟨request, existing, config⟩]
      exact ⟨fun h => h config rfl, fun h _ hsome => Option.some.inj hsome ▸ h⟩
    rw [htied', hallow]
    rw [hurl] at hne
    exact allowOn_granted_iff hbefore hne

/--
In every history of creations and edits, a configuration has a URL and a secret,
the last one that was supplied or generated.  As long as no superuser gives a
rule that may use private addresses another URL without saying whether that one
may, it may use them only by the word of a superuser given for the URL it has;
the first edit of that kind ends this.
-/
theorem optIn_of_run {as : List RuleAction} (hrun : ruleEdits.run .initial as = some s) :
    (∀ config, s.config = some config → config.url ≠ [] ∧ config.secret ≠ [] ∧
      (s.history.filterMap ConfigChange.newSecret).getLast? = some config.secret) ∧
    (ruleEdits.Meets (fun s a => ¬MovesOptIn s a) .initial as →
      ∀ config, s.config = some config → config.allowPrivateUrls = true → Granted s.history) ∧
    ∀ a s', OptInTied s → ruleStep s a = some s' → (OptInTied s' ↔ ¬MovesOptIn s a) := by
  have hs : ConfigSound s :=
    Machine.invariant (fun hs hstep => hs.step hstep) hrun configSound_initial
  refine ⟨?_, ?_, ?_⟩
  · intro config hconfig
    exact ⟨hs.url config hconfig, hs.secret config hconfig⟩
  · intro hmeets
    have hinitial : ConfigSound .initial ∧ OptInTied .initial := by
      refine ⟨configSound_initial, ?_⟩
      intro config h
      cases h
    refine (Machine.invariant_of_meets (I := fun s => ConfigSound s ∧ OptInTied s) ?_ hmeets hrun
      hinitial).2
    intro s a s' hs hkept hstep
    exact ⟨hs.1.step hstep, (optInTied_step_iff hs.1 hs.2 hstep).mpr hkept⟩
  · intro a s' htied hstep
    exact optInTied_step_iff hs htied hstep

end Histories

def createPrivate : ConfigRequest where
  edit := ⟨some "http://127.0.0.1/a".toList, none, none, some true⟩
  isSuperuser := true
  update := false
  random := ['r']

def moveUrl : ConfigRequest where
  edit := ⟨some "http://10.0.0.1/b".toList, none, none, none⟩
  isSuperuser := true
  update := true
  random := []

/-- The flag outlives the URL it was set for. -/
theorem not_granted_of_moveUrl :
    ∃ s config, ruleEdits.run .initial [.create createPrivate, .edit moveUrl] = some s ∧
      s.config = some config ∧ config.allowPrivateUrls = true ∧ ¬Granted s.history := by
  refine ⟨_, _, rfl, rfl, rfl, ?_⟩
  intro h
  rcases (@granted_append_iff [_] _).mp h with ⟨-, hset⟩ | ⟨-, hsame⟩
  · cases hset
  · exact absurd hsame (by decide +kernel)

theorem optIn_of_run_created :
    ∃ s config, ruleEdits.run .initial [.create createPrivate] = some s ∧
      s.config = some config ∧ config.allowPrivateUrls = true ∧ Granted s.history := by
  obtain ⟨s, config, hrun, hconfig, hallow⟩ : ∃ s config,
      ruleEdits.run .initial [.create createPrivate] = some s ∧ s.config = some config ∧
        config.allowPrivateUrls = true := ⟨_, _, rfl, rfl, rfl⟩
  refine ⟨s, config, hrun, hconfig, hallow, (optIn_of_run hrun).2.1 ?_ config hconfig hallow⟩
  refine ⟨?_, fun _ _ => trivial⟩
  rintro ⟨request, existing, hedit, -⟩
  cases hedit

/-! ## A new secret among other edits -/

def SavesCurrent {ι : Type} (s : EditState ι) (a : EditAction ι) : Prop :=
  ∀ i saved rotations, a = .save i → s.calls i = .patchReady saved rotations →
    rotations = s.rotations

def knows (secret : Text) (rotations : Nat) : EditCall → Prop
  | .patching read seen | .patchReady read seen =>
      seen ≤ rotations ∧ (seen = rotations → read.config.secret = secret)
  | _ => True

structure SecretKept {ι : Type} (s : EditState ι) : Prop where
  last : ∀ i, s.lastRotation = some i → s.calls i = .rotated s.rule.config.secret
  calls : ∀ i, knows s.rule.config.secret s.rotations (s.calls i)

section Rotation

variable {ι : Type} [DecidableEq ι] {s s' : EditState ι} {a : EditAction ι}

omit [DecidableEq ι] in
theorem secretKept_initial (rule : ActionRule) : SecretKept (.initial ι rule) where
  last _ h := by cases h
  calls _ := trivial

theorem SecretKept.setCall (hs : SecretKept s) {i : ι} {call : EditCall}
    (hcall : ∀ secret, s.calls i ≠ .rotated secret)
    (hknows : knows s.rule.config.secret s.rotations call) : SecretKept (s.setCall i call) where
  last j hj := by
    have hj' := hs.last j hj
    have hne : j ≠ i := by
      rintro rfl
      exact hcall _ hj'
    simpa only [EditState.setCall, Function.update_of_ne hne] using hj'
  calls j := by
    by_cases hj : j = i
    · subst hj
      simpa only [EditState.setCall, Function.update_self] using hknows
    · simpa only [EditState.setCall, Function.update_of_ne hj] using hs.calls j

theorem SecretKept.step (hs : SecretKept s) (hcurrent : SavesCurrent s a)
    (h : editStep s a = some s') : SecretKept s' := by
  cases editChange_of_step h with
  | readPatch i hcall => exact hs.setCall (by simp [hcall]) ⟨le_refl _, fun _ => rfl⟩
  | refused i data isSuperuser random read rotations hcall =>
      exact hs.setCall (by simp [hcall]) trivial
  | computed i data isSuperuser random read rotations config hcall hsecret =>
      have hknows := hs.calls i
      rw [hcall] at hknows
      refine hs.setCall (by simp [hcall]) ⟨hknows.1, fun hseen => ?_⟩
      exact hsecret.trans (hknows.2 hseen)
  | readRotate i hcall => exact hs.setCall (by simp [hcall]) trivial
  | computedRotate i random read hcall => exact hs.setCall (by simp [hcall]) trivial
  | patched i saved rotations hcall =>
      have hknows := hs.calls i
      rw [hcall] at hknows
      have hsecret : saved.config.secret = s.rule.config.secret :=
        hknows.2 (hcurrent i saved rotations rfl hcall)
      have hset : SecretKept (s.setCall i .patched) := hs.setCall (by simp [hcall]) trivial
      refine ⟨fun j hj => ?_, fun j => ?_⟩
      · rw [hsecret]
        exact hset.last j hj
      · rw [hsecret]
        exact hset.calls j
  | rotated i read secret hcall =>
      refine ⟨fun j hj => ?_, fun j => ?_⟩
      · cases hj
        simp [EditState.setCall]
      · by_cases hj : j = i
        · subst hj
          simp [EditState.setCall, knows]
        · simp only [EditState.setCall, Function.update_of_ne hj]
          -- what was read before this rotation is old now
          have hknows := hs.calls j
          cases hcallj : s.calls j with
          | patching read seen | patchReady read seen =>
              rw [hcallj] at hknows
              exact ⟨Nat.le_succ_of_le hknows.1, fun hseen => by
                have := hknows.1
                omega⟩
          | idle | rotating | rotateReady | rotated | patched => trivial

/--
In every interleaving of rotations and of PATCH requests without a secret in
which no PATCH request saves what it read before a rotation, the secret there is
is at every moment the one that the last rotation returns.
-/
theorem secret_of_rotation (rule : ActionRule) {as : List (EditAction ι)}
    (hrun : (overlappingEdits ι).run (.initial ι rule) as = some s)
    (hcurrent : (overlappingEdits ι).Meets SavesCurrent (.initial ι rule) as) {i : ι}
    (hlast : s.lastRotation = some i) : s.calls i = .rotated s.rule.config.secret := by
  have hs : SecretKept s := Machine.invariant_of_meets
    (fun hs hcurrent hstep => hs.step hcurrent hstep) hcurrent hrun (secretKept_initial rule)
  exact hs.last i hlast

end Rotation

def rotatedRule : ActionRule := ⟨1, 1, [], [], [], true, ⟨['u'], ['s'], [], false⟩⟩

def enabledPatch : SecretlessData := ⟨⟨none, none, none, some false, ⟨none, none, none, none⟩⟩, rfl⟩

def rotationLost : List (EditAction Bool) :=
  [.readPatch true, .readRotate false, .computeRotate false ['r'], .save false,
    .computePatch true enabledPatch false [], .save true]

theorem not_secret_of_rotation :
    ∃ s, (overlappingEdits Bool).run (.initial Bool rotatedRule) rotationLost = some s ∧
      (∀ i, (s.calls i).finished = true) ∧ s.lastRotation = some false ∧
      s.calls false = .rotated "whsec_r".toList ∧ s.rule.config.secret = ['s'] := by
  refine ⟨_, rfl, ?_, rfl, by decide, by decide⟩
  decide

def rotationKept : List (EditAction Bool) :=
  [.readRotate false, .computeRotate false ['r'], .save false, .readPatch true,
    .computePatch true enabledPatch false [], .save true]

theorem secret_of_rotation_kept :
    ∃ s, (overlappingEdits Bool).run (.initial Bool rotatedRule) rotationKept = some s ∧
      s.calls false = .rotated s.rule.config.secret := by
  obtain ⟨s, hrun, hlast⟩ : ∃ s,
      (overlappingEdits Bool).run (.initial Bool rotatedRule) rotationKept = some s ∧
        s.lastRotation = some false := ⟨_, rfl, rfl⟩
  refine ⟨s, hrun, secret_of_rotation rotatedRule hrun ?_ hlast⟩
  refine Machine.meets_cons ?_ rfl <| Machine.meets_cons ?_ rfl <| Machine.meets_cons ?_ rfl <|
    Machine.meets_cons ?_ rfl <| Machine.meets_cons ?_ rfl <| Machine.meets_cons ?_ rfl trivial
  · rintro i saved rotations ⟨⟩
  · rintro i saved rotations ⟨⟩
  · rintro i saved rotations ⟨⟩ hcall
    cases hcall
  · rintro i saved rotations ⟨⟩
  · rintro i saved rotations ⟨⟩
  · rintro i saved rotations ⟨⟩ hcall
    cases hcall
    rfl

end StorageService.Results
