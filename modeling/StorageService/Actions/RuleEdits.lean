import Mathlib.Logic.Function.Basic
import StorageService.Actions.Admin
import StorageService.Foundation.StateMachine

/-!
# Edits of a rule

The configuration of one rule over its history of edits, and requests for the
same rule that overlap: each reads the rule, works out what is to be saved, and
saves it.
-/

namespace StorageService.Actions

open StorageService.Foundation
open StorageService.Storage (strip)

def generateWebhookSigningSecret (random : Text) : Text := "whsec_".toList ++ random

/-! ## One edit after the other -/

structure ConfigRequest where
  edit : ConfigEdit
  isSuperuser : Bool
  update : Bool
  random : Text

def ConfigRequest.build (request : ConfigRequest) (existing : WebhookConfig) :
    Except Failure WebhookConfig :=
  buildWebhookConfig (generateWebhookSigningSecret request.random) existing request.edit
    request.isSuperuser request.update

structure ConfigChange where
  request : ConfigRequest
  before : WebhookConfig
  after : WebhookConfig

/-- The edits that were accepted are kept, the last one at the end. -/
structure RuleState where
  config : Option WebhookConfig
  history : List ConfigChange

namespace RuleState

def initial : RuleState := ⟨none, []⟩

def apply (s : RuleState) (existing : WebhookConfig) (request : ConfigRequest) : RuleState :=
  match request.build existing with
  | .error _ => s
  | .ok config => ⟨some config, s.history ++ [⟨request, existing, config⟩]⟩

end RuleState

inductive RuleAction where
  | create (request : ConfigRequest)
  | edit (request : ConfigRequest)

def ruleStep (s : RuleState) : RuleAction → Option RuleState
  | .create request =>
      if s.config.isSome ∨ request.update = true then none else some (s.apply emptyConfig request)
  | .edit request => s.config.map fun existing => s.apply existing request

def ruleEdits : Machine RuleState RuleAction := ⟨ruleStep⟩

theorem apply_of_ruleStep {s s' : RuleState} {a : RuleAction} (h : ruleStep s a = some s') :
    ∃ existing request, s' = s.apply existing request ∧
      (s.config = none ∧ existing = emptyConfig ∧ a = .create request ∧ request.update = false ∨
        s.config = some existing ∧ a = .edit request) := by
  cases a with
  | create request =>
      rw [ruleStep] at h
      split at h
      · contradiction
      · rename_i hnew
        rw [not_or, Option.isSome_iff_ne_none, not_not, Bool.not_eq_true] at hnew
        cases h
        exact ⟨emptyConfig, request, rfl, .inl ⟨hnew.1, rfl, rfl, hnew.2⟩⟩
  | edit request =>
      obtain ⟨existing, hexisting, rfl⟩ := Option.map_eq_some_iff.mp h
      exact ⟨existing, request, rfl, .inr ⟨hexisting, rfl⟩⟩

/-! ## What an edit leads to -/

section Build

variable {request : ConfigRequest} {existing config : WebhookConfig}

def urlChanged (existing : WebhookConfig) (edit : ConfigEdit) : Prop :=
  ∃ url, edit.url = some url ∧ strip url ≠ strip existing.url

def ConfigChange.newSecret (change : ConfigChange) : Option Text :=
  let supplied := strip (change.request.edit.secret.getD [])
  if supplied ≠ [] then some supplied
  else if change.before.secret = [] ∧ change.request.update = false then
    some (generateWebhookSigningSecret change.request.random)
  else none

theorem strip_strip (s : Text) : strip (strip s) = strip s := trim_trim _ s

def ConfigRequest.urlOn (request : ConfigRequest) (existing : WebhookConfig) : Text :=
  if request.edit.url.isSome ∨ ¬request.update then strip (request.edit.url.getD existing.url)
  else existing.url

def ConfigRequest.allowOn (request : ConfigRequest) (existing : WebhookConfig) : Bool :=
  if request.isSuperuser then request.edit.allowPrivateUrls.getD existing.allowPrivateUrls
  else if request.edit.url.isSome ∧
      strip (request.edit.url.getD existing.url) ≠ strip existing.url then false
  else existing.allowPrivateUrls

theorem build_eq_ok (h : request.build existing = .ok config) :
    config.url ≠ [] ∧ config.url = request.urlOn existing ∧
      config.allowPrivateUrls = request.allowOn existing ∧
      config.secret = ((⟨request, existing, config⟩ : ConfigChange).newSecret).getD
        existing.secret := by
  have hbuild : request.build existing =
      if request.urlOn existing = [] then .error urlRequired
      else .ok
        { url := request.urlOn existing
          secret :=
            if strip (request.edit.secret.getD []) = [] then
              if existing.secret = [] ∧ ¬request.update = true then
                generateWebhookSigningSecret request.random
              else existing.secret
            else strip (request.edit.secret.getD [])
          authorizationHeader :=
            (request.edit.authorizationHeader.map strip).getD existing.authorizationHeader
          allowPrivateUrls := request.allowOn existing } := rfl
  rw [hbuild] at h
  split at h
  · contradiction
  · rename_i hurl
    cases h
    refine ⟨hurl, rfl, rfl, ?_⟩
    simp only [ConfigChange.newSecret]
    by_cases hsupplied : strip (request.edit.secret.getD []) = []
    · rw [if_pos hsupplied, if_neg (not_not_intro hsupplied)]
      split
      · rename_i hfull
        rw [if_pos ⟨hfull.1, Bool.eq_false_iff.mpr hfull.2⟩, Option.getD_some]
      · rename_i hfull
        rw [if_neg fun h => hfull ⟨h.1, by simp [h.2]⟩, Option.getD_none]
    · rw [if_neg hsupplied, if_pos hsupplied, Option.getD_some]

theorem exists_build (h : request.urlOn existing ≠ []) :
    ∃ config, request.build existing = .ok config := by
  unfold ConfigRequest.build buildWebhookConfig
  exact ⟨_, if_neg h⟩

/-- The URL is the one there was exactly if the request does not change it. -/
theorem urlOn_eq_iff (hstrip : strip existing.url = existing.url) :
    request.urlOn existing = existing.url ↔ ¬urlChanged existing request.edit := by
  rw [ConfigRequest.urlOn, urlChanged, hstrip]
  cases hurl : request.edit.url with
  | none => simp [hstrip]
  | some url => simp

theorem strip_urlOn (hstrip : strip existing.url = existing.url) :
    strip (request.urlOn existing) = request.urlOn existing := by
  rw [ConfigRequest.urlOn]
  split
  · exact strip_strip _
  · exact hstrip

theorem allowOn_of_owner (howner : request.isSuperuser = false)
    (h : request.allowOn existing = true) :
    existing.allowPrivateUrls = true ∧ ¬urlChanged existing request.edit := by
  rw [ConfigRequest.allowOn, howner, if_neg Bool.false_ne_true] at h
  split at h
  · contradiction
  · rename_i hsame
    refine ⟨h, ?_⟩
    rintro ⟨url, hurl, hne⟩
    rw [hurl] at hsame
    exact hsame ⟨rfl, hne⟩

end Build

/-! ## Overlapping requests -/

structure SecretlessData extends RuleData where
  noSecret : config.secret = none

/-- A request for the rule; `rotations` is how many secrets had been saved when it read. -/
inductive EditCall where
  | idle
  | patching (read : ActionRule) (rotations : Nat)
  | patchReady (saved : ActionRule) (rotations : Nat)
  | rotating (read : ActionRule)
  | rotateReady (read : ActionRule) (secret : Text)
  /-- The secret is what the request returns. -/
  | rotated (secret : Text)
  | patched
  deriving DecidableEq

def EditCall.finished : EditCall → Bool
  | .idle | .rotated _ | .patched => true
  | _ => false

/-- `lastRotation` is the request whose new secret was saved last. -/
structure EditState (ι : Type) where
  rule : ActionRule
  calls : ι → EditCall
  rotations : Nat
  lastRotation : Option ι

inductive EditAction (ι : Type) where
  | readPatch (i : ι)
  | computePatch (i : ι) (data : SecretlessData) (isSuperuser : Bool) (random : Text)
  | readRotate (i : ι)
  | computeRotate (i : ι) (random : Text)
  | save (i : ι)

section Overlapping

variable {ι : Type} [DecidableEq ι]

def EditState.initial (ι : Type) (rule : ActionRule) : EditState ι :=
  ⟨rule, fun _ => .idle, 0, none⟩

def EditState.setCall (s : EditState ι) (i : ι) (call : EditCall) : EditState ι :=
  { s with calls := Function.update s.calls i call }

/-- A PATCH request saves every column, a rotation the configuration alone. -/
def editStep (s : EditState ι) : EditAction ι → Option (EditState ι)
  | .readPatch i =>
      match s.calls i with
      | .idle => some (s.setCall i (.patching s.rule s.rotations))
      | _ => none
  | .computePatch i data isSuperuser random =>
      match s.calls i with
      | .patching read rotations =>
          let request : ConfigRequest := ⟨data.config, isSuperuser, true, random⟩
          match request.build read.config with
          | .error _ => some (s.setCall i .patched)
          | .ok config =>
              some (s.setCall i (.patchReady (editedRule read data.toRuleData config) rotations))
      | _ => none
  | .readRotate i =>
      match s.calls i with
      | .idle => some (s.setCall i (.rotating s.rule))
      | _ => none
  | .computeRotate i random =>
      match s.calls i with
      | .rotating read =>
          some (s.setCall i (.rotateReady read (generateWebhookSigningSecret random)))
      | _ => none
  | .save i =>
      match s.calls i with
      | .patchReady saved _ => some { s.setCall i .patched with rule := saved }
      | .rotateReady read secret =>
          some
            { s.setCall i (.rotated secret) with
              rule := { s.rule with config := { read.config with secret := secret } }
              rotations := s.rotations + 1
              lastRotation := some i }
      | _ => none

def overlappingEdits (ι : Type) [DecidableEq ι] : Machine (EditState ι) (EditAction ι) := ⟨editStep⟩

inductive EditChange (s : EditState ι) : EditAction ι → EditState ι → Prop where
  | readPatch (i : ι) (hcall : s.calls i = .idle) :
      EditChange s (.readPatch i) (s.setCall i (.patching s.rule s.rotations))
  | refused (i : ι) (data : SecretlessData) (isSuperuser : Bool) (random : Text)
      (read : ActionRule) (rotations : Nat) (hcall : s.calls i = .patching read rotations) :
      EditChange s (.computePatch i data isSuperuser random) (s.setCall i .patched)
  | computed (i : ι) (data : SecretlessData) (isSuperuser : Bool) (random : Text)
      (read : ActionRule) (rotations : Nat) (config : WebhookConfig)
      (hcall : s.calls i = .patching read rotations)
      (hsecret : config.secret = read.config.secret) :
      EditChange s (.computePatch i data isSuperuser random)
        (s.setCall i (.patchReady (editedRule read data.toRuleData config) rotations))
  | readRotate (i : ι) (hcall : s.calls i = .idle) :
      EditChange s (.readRotate i) (s.setCall i (.rotating s.rule))
  | computedRotate (i : ι) (random : Text) (read : ActionRule)
      (hcall : s.calls i = .rotating read) :
      EditChange s (.computeRotate i random)
        (s.setCall i (.rotateReady read (generateWebhookSigningSecret random)))
  | patched (i : ι) (saved : ActionRule) (rotations : Nat)
      (hcall : s.calls i = .patchReady saved rotations) :
      EditChange s (.save i) { s.setCall i .patched with rule := saved }
  | rotated (i : ι) (read : ActionRule) (secret : Text)
      (hcall : s.calls i = .rotateReady read secret) :
      EditChange s (.save i)
        { s.setCall i (.rotated secret) with
          rule := { s.rule with config := { read.config with secret := secret } }
          rotations := s.rotations + 1
          lastRotation := some i }

theorem build_secret_of_none {request : ConfigRequest} {existing config : WebhookConfig}
    (hsecret : request.edit.secret = none) (hupdate : request.update = true)
    (h : request.build existing = .ok config) : config.secret = existing.secret := by
  have hempty : strip ([] : Text) = [] := by decide
  rw [(build_eq_ok h).2.2.2]
  simp [ConfigChange.newSecret, hsecret, hupdate, hempty]

theorem editChange_of_step {s s' : EditState ι} {a : EditAction ι} (h : editStep s a = some s') :
    EditChange s a s' := by
  cases a with
  | readPatch i =>
      simp only [editStep] at h
      split at h
      · rename_i hcall
        cases h
        exact .readPatch i hcall
      · contradiction
  | computePatch i data isSuperuser random =>
      simp only [editStep] at h
      split at h
      · rename_i read rotations hcall
        split at h
        · cases h
          exact .refused i data isSuperuser random read rotations hcall
        · rename_i config hbuild
          cases h
          exact .computed i data isSuperuser random read rotations config hcall
            (build_secret_of_none data.noSecret rfl hbuild)
      · contradiction
  | readRotate i =>
      simp only [editStep] at h
      split at h
      · rename_i hcall
        cases h
        exact .readRotate i hcall
      · contradiction
  | computeRotate i random =>
      simp only [editStep] at h
      split at h
      · rename_i read hcall
        cases h
        exact .computedRotate i random read hcall
      · contradiction
  | save i =>
      simp only [editStep] at h
      split at h
      · rename_i saved rotations hcall
        cases h
        exact .patched i saved rotations hcall
      · rename_i read secret hcall
        cases h
        exact .rotated i read secret hcall
      · contradiction

end Overlapping

end StorageService.Actions
