import StorageService.Results.Events

/-!
# Redacted values

What `redact_secrets` leaves of a value holds no secret at any depth and is
otherwise the value in its order, and what stood under the keys it drops makes
no difference to what is written and sent.
-/

namespace StorageService.Results

open StorageService.Foundation
open StorageService.Foundation.Json
open StorageService.Actions

section Redaction

variable {env : HookEnv}

/-! ## The two loops -/

theorem itemsWithoutSecrets_eq (items : List Json) :
    itemsWithoutSecrets env items = items.filterMap (withoutSecrets env) := by
  induction items with
  | nil => rw [itemsWithoutSecrets, List.filterMap_nil]
  | cons item items ih =>
      rw [itemsWithoutSecrets, ih, List.filterMap_cons]
      cases withoutSecrets env item <;> rfl

def keptField (env : HookEnv) (field : Text × Json) : Option (Text × Json) :=
  if sensitiveKey env field.1 then none
  else (withoutSecrets env field.2).map fun kept => (field.1, kept)

theorem fieldsWithoutSecrets_eq (fields : List (Text × Json)) :
    fieldsWithoutSecrets env fields = fields.filterMap (keptField env) := by
  induction fields with
  | nil => rw [fieldsWithoutSecrets, List.filterMap_nil]
  | cons field fields ih =>
      rw [fieldsWithoutSecrets, ih, List.filterMap_cons, keptField]
      split
      · rfl
      · cases withoutSecrets env field.2 <;> rfl

theorem withoutSecrets_list (items : List Json) :
    withoutSecrets env (.list items) =
      some (.list (items.filterMap (withoutSecrets env))) := by
  rw [withoutSecrets, itemsWithoutSecrets_eq]

theorem withoutSecrets_dict (fields : List (Text × Json)) :
    withoutSecrets env (.dict fields) = some (.dict (fields.filterMap (keptField env))) := by
  rw [withoutSecrets, fieldsWithoutSecrets_eq]

theorem keptField_eq_some {field kept : Text × Json} (h : keptField env field = some kept) :
    sensitiveKey env field.1 = false ∧ kept.1 = field.1 ∧
      withoutSecrets env field.2 = some kept.2 := by
  rw [keptField] at h
  split at h
  · contradiction
  · rename_i hkey
    obtain ⟨value, hvalue, rfl⟩ := Option.map_eq_some_iff.mp h
    exact ⟨Bool.eq_false_iff.mpr hkey, rfl, hvalue⟩

@[simp] theorem redactSecrets_dict (fields : List (Text × Json)) :
    redactSecrets env (.dict fields) = .dict (fields.filterMap (keptField env)) := by
  rw [redactSecrets, withoutSecrets_dict]
  rfl

theorem withoutSecrets_atom {v : Json} (h : v.isAtom = true) :
    withoutSecrets env v = some v := by
  cases v <;> first | contradiction | rfl

theorem withoutSecrets_eq_none {v : Json} (h : withoutSecrets env v = none) :
    ∃ s, v = .text s ∧ sensitiveString s = true := by
  induction v using Json.induction with
  | atom v hv =>
      rw [withoutSecrets_atom hv] at h
      contradiction
  | text s =>
      rw [withoutSecrets] at h
      split at h
      · exact ⟨s, rfl, by assumption⟩
      · contradiction
  | list items =>
      rw [withoutSecrets_list] at h
      contradiction
  | dict fields =>
      rw [withoutSecrets_dict] at h
      contradiction

theorem redactSecrets_cases (v : Json) :
    (∃ s, v = .text s ∧ sensitiveString s = true ∧ redactSecrets env v = .text []) ∨
      withoutSecrets env v = some (redactSecrets env v) := by
  cases hv : withoutSecrets env v with
  | none =>
      obtain ⟨s, rfl, hs⟩ := withoutSecrets_eq_none hv
      refine .inl ⟨s, rfl, hs, ?_⟩
      simp only [redactSecrets, hv, Option.getD_none]
  | some kept =>
      unfold redactSecrets
      rw [hv]
      exact .inr rfl

/-! ## No secret is left -/

structure Clean (env : HookEnv) (w : Json) : Prop where
  keys : ∀ fields, w = .dict fields → ∀ field ∈ fields, sensitiveKey env field.1 = false
  text : ∀ s, w = .text s → sensitiveString s = false

theorem clean_atom {v : Json} (h : v.isAtom = true) : Clean env v where
  keys fields hv := by
    rw [hv] at h
    contradiction
  text s hv := by
    rw [hv] at h
    contradiction

theorem clean_text {s : Text} (h : sensitiveString s = false) : Clean env (.text s) where
  keys fields hv := by cases hv
  text t hv := by
    cases hv
    exact h

theorem clean_list (items : List Json) : Clean env (.list items) where
  keys fields hv := by cases hv
  text s hv := by cases hv

theorem clean_dict {fields : List (Text × Json)}
    (h : ∀ field ∈ fields, sensitiveKey env field.1 = false) : Clean env (.dict fields) where
  keys fields hv := by
    cases hv
    exact h
  text s hv := by cases hv

theorem clean_of_within_withoutSecrets {v kept w : Json} (h : withoutSecrets env v = some kept)
    (hw : Within w kept) : Clean env w := by
  induction v using Json.induction generalizing kept w with
  | atom v hv =>
      rw [withoutSecrets_atom hv] at h
      cases h
      rw [hw.eq_of_isAtom hv]
      exact clean_atom hv
  | text s =>
      rw [withoutSecrets] at h
      split at h
      · contradiction
      · rename_i hs
        cases h
        rw [hw.eq_of_text]
        exact clean_text (Bool.eq_false_iff.mpr hs)
  | list items ih =>
      rw [withoutSecrets_list] at h
      cases h
      cases hw with
      | self => exact clean_list _
      | item hv hw =>
          obtain ⟨item, hitem, hkept⟩ := List.mem_filterMap.mp hv
          exact ih item hitem hkept hw
  | dict fields ih =>
      rw [withoutSecrets_dict] at h
      cases h
      cases hw with
      | self =>
          apply clean_dict
          intro field hfield
          obtain ⟨old, hold, hkept⟩ := List.mem_filterMap.mp hfield
          obtain ⟨hkey, hsame, -⟩ := keptField_eq_some hkept
          rw [hsame]
          exact hkey
      | value hfield hw =>
          obtain ⟨old, hold, hkept⟩ := List.mem_filterMap.mp hfield
          exact ih old hold (keptField_eq_some hkept).2.2 hw

theorem sensitiveString_nil : sensitiveString [] = false := by decide

theorem clean_of_within_redactSecrets {v w : Json} (hw : Within w (redactSecrets env v)) :
    Clean env w := by
  rcases @redactSecrets_cases env v with ⟨s, -, -, hroot⟩ | hkept
  · rw [hroot] at hw
    rw [hw.eq_of_text]
    exact clean_text sensitiveString_nil
  · exact clean_of_within_withoutSecrets hkept hw

/-! ## Only secrets are dropped -/

theorem withoutSecrets_eq_self {v : Json} (h : ∀ w, Within w v → Clean env w) :
    withoutSecrets env v = some v := by
  induction v using Json.induction with
  | atom v hv => exact withoutSecrets_atom hv
  | text s =>
      rw [withoutSecrets, (h _ .self).text s rfl]
      rfl
  | list items ih =>
      have hitems : items.filterMap (withoutSecrets env) = items.filterMap some := by
        apply List.filterMap_congr
        intro item hitem
        exact ih item hitem fun w hw => h w (.item hitem hw)
      rw [withoutSecrets_list, hitems, List.filterMap_some]
  | dict fields ih =>
      have hfields : fields.filterMap (keptField env) = fields.filterMap some := by
        apply List.filterMap_congr
        intro field hfield
        have hkey := (h _ .self).keys fields rfl field hfield
        have hvalue := ih field hfield fun w hw => h w (.value hfield hw)
        rw [keptField, hkey, hvalue]
        rfl
      rw [withoutSecrets_dict, hfields, List.filterMap_some]

theorem redactSecrets_redactSecrets (v : Json) :
    redactSecrets env (redactSecrets env v) = redactSecrets env v := by
  have hkept : withoutSecrets env (redactSecrets env v) = some (redactSecrets env v) :=
    withoutSecrets_eq_self fun w hw => clean_of_within_redactSecrets hw
  rcases @redactSecrets_cases env (redactSecrets env v) with ⟨s, hs, hsensitive, -⟩ | hsame
  · rw [hs, withoutSecrets, if_pos hsensitive] at hkept
    contradiction
  · rw [hkept] at hsame
    exact (Option.some.inj hsame).symm

theorem exists_sublist_filterMap {α β : Type} (f : α → Option β) (l : List α) :
    ∃ chosen, chosen.Sublist l ∧
      List.Forall₂ (fun a b => a ∈ l ∧ f a = some b) chosen (l.filterMap f) := by
  induction l with
  | nil => exact ⟨[], List.Sublist.refl [], .nil⟩
  | cons a l ih =>
      obtain ⟨chosen, hchosen, hkept⟩ := ih
      have hkept' := hkept.imp fun x y (h : x ∈ l ∧ f x = some y) =>
        (⟨List.mem_cons_of_mem a h.1, h.2⟩ : x ∈ a :: l ∧ f x = some y)
      cases hfa : f a with
      | none =>
          rw [List.filterMap_cons_none hfa]
          exact ⟨chosen, hchosen.cons a, hkept'⟩
      | some b =>
          rw [List.filterMap_cons_some hfa]
          exact ⟨a :: chosen, hchosen.cons_cons a, .cons ⟨List.mem_cons_self, hfa⟩ hkept'⟩

inductive Thinned : Json → Json → Prop where
  | same (v : Json) : Thinned v v
  | list {items chosen kept : List Json} (hchosen : chosen.Sublist items)
      (h : List.Forall₂ Thinned chosen kept) : Thinned (.list items) (.list kept)
  | dict {fields chosen kept : List (Text × Json)} (hchosen : chosen.Sublist fields)
      (hkeys : chosen.map Prod.fst = kept.map Prod.fst)
      (h : List.Forall₂ Thinned (chosen.map Prod.snd) (kept.map Prod.snd)) :
      Thinned (.dict fields) (.dict kept)

theorem thinned_of_withoutSecrets {v kept : Json} (h : withoutSecrets env v = some kept) :
    Thinned v kept := by
  induction v using Json.induction generalizing kept with
  | atom v hv =>
      rw [withoutSecrets_atom hv] at h
      cases h
      exact .same v
  | text s =>
      rw [withoutSecrets] at h
      split at h
      · contradiction
      · cases h
        exact .same _
  | list items ih =>
      rw [withoutSecrets_list] at h
      cases h
      obtain ⟨chosen, hchosen, hkept⟩ := exists_sublist_filterMap (withoutSecrets env) items
      exact .list hchosen (hkept.imp fun v kept hv => ih v hv.1 hv.2)
  | dict fields ih =>
      rw [withoutSecrets_dict] at h
      cases h
      obtain ⟨chosen, hchosen, hkept⟩ := exists_sublist_filterMap (keptField env) fields
      refine .dict hchosen ?_ ?_
      · rw [← List.forall₂_eq_eq_eq, List.forall₂_map_left_iff, List.forall₂_map_right_iff]
        exact hkept.imp fun field kept hfield => (keptField_eq_some hfield.2).2.1.symm
      · rw [List.forall₂_map_left_iff, List.forall₂_map_right_iff]
        exact hkept.imp fun field kept hfield =>
          ih field hfield.1 (keptField_eq_some hfield.2).2.2

/-! ## What stands under dropped keys -/

mutual

/-- The values differ at most in what stands under keys that are recognised. -/
inductive Agree (env : HookEnv) : Json → Json → Prop
  | same (v : Json) : Agree env v v
  | list {items items' : List Json} (h : AgreeItems env items items') :
      Agree env (.list items) (.list items')
  | dict {fields fields' : List (Text × Json)} (h : AgreeFields env fields fields') :
      Agree env (.dict fields) (.dict fields')

inductive AgreeItems (env : HookEnv) : List Json → List Json → Prop
  | nil : AgreeItems env [] []
  | cons {v v' : Json} {items items' : List Json} (h : Agree env v v')
      (hrest : AgreeItems env items items') : AgreeItems env (v :: items) (v' :: items')

inductive AgreeFields (env : HookEnv) : List (Text × Json) → List (Text × Json) → Prop
  | nil : AgreeFields env [] []
  | secret {key : Text} (hkey : sensitiveKey env key = true) (v v' : Json)
      {fields fields' : List (Text × Json)} (hrest : AgreeFields env fields fields') :
      AgreeFields env ((key, v) :: fields) ((key, v') :: fields')
  | value (key : Text) {v v' : Json} (h : Agree env v v') {fields fields' : List (Text × Json)}
      (hrest : AgreeFields env fields fields') :
      AgreeFields env ((key, v) :: fields) ((key, v') :: fields')

end

mutual

theorem Agree.withoutSecrets_eq {v v' : Json} (h : Agree env v v') :
    withoutSecrets env v = withoutSecrets env v' := by
  cases h with
  | same => rfl
  | list h => rw [withoutSecrets, withoutSecrets, h.itemsWithoutSecrets_eq]
  | dict h => rw [withoutSecrets, withoutSecrets, h.fieldsWithoutSecrets_eq]

theorem AgreeItems.itemsWithoutSecrets_eq {items items' : List Json}
    (h : AgreeItems env items items') :
    itemsWithoutSecrets env items = itemsWithoutSecrets env items' := by
  cases h with
  | nil => rfl
  | cons h hrest =>
      rw [itemsWithoutSecrets, itemsWithoutSecrets, h.withoutSecrets_eq,
        hrest.itemsWithoutSecrets_eq]

theorem AgreeFields.fieldsWithoutSecrets_eq {fields fields' : List (Text × Json)}
    (h : AgreeFields env fields fields') :
    fieldsWithoutSecrets env fields = fieldsWithoutSecrets env fields' := by
  cases h with
  | nil => rfl
  | secret hkey v v' hrest =>
      rw [fieldsWithoutSecrets, fieldsWithoutSecrets, if_pos hkey, if_pos hkey,
        hrest.fieldsWithoutSecrets_eq]
  | value key h hrest =>
      rw [fieldsWithoutSecrets, fieldsWithoutSecrets, h.withoutSecrets_eq,
        hrest.fieldsWithoutSecrets_eq]

end

theorem Agree.redactSecrets_eq {v v' : Json} (h : Agree env v v') :
    redactSecrets env v = redactSecrets env v' := by
  have hkept := h.withoutSecrets_eq
  cases h with
  | same => rfl
  | list | dict =>
      simp only [redactSecrets]
      rw [hkept]

theorem Agree.emptyValue_eq {v v' : Json} (h : Agree env v v') :
    emptyValue v = emptyValue v' := by
  cases h with
  | same => rfl
  | list h =>
      cases h with
      | nil | cons => rfl
  | dict h =>
      cases h with
      | nil | secret | value => rfl

theorem AgreeFields.logged_eq {fields fields' : List (Text × Json)}
    (h : AgreeFields env fields fields') :
    fieldsWithoutSecrets env (fields.filter fun field =>
        !(skippedKeys.contains field.1 || emptyValue field.2)) =
      fieldsWithoutSecrets env (fields'.filter fun field =>
        !(skippedKeys.contains field.1 || emptyValue field.2)) := by
  have hsecret : ∀ {key : Text} (v : Json) (rest : List (Text × Json)) (b : Bool),
      sensitiveKey env key = true →
      fieldsWithoutSecrets env (if b = true then (key, v) :: rest else rest) =
        fieldsWithoutSecrets env rest := by
    intro key v rest b hkey
    cases b with
    | false => rfl
    | true => rw [if_pos rfl, fieldsWithoutSecrets, if_pos hkey]
  cases h with
  | nil => rfl
  | secret hkey v v' hrest =>
      rw [List.filter_cons, List.filter_cons, hsecret v _ _ hkey, hsecret v' _ _ hkey,
        hrest.logged_eq]
  | value key h hrest =>
      rw [List.filter_cons, List.filter_cons, h.emptyValue_eq]
      split
      · rw [fieldsWithoutSecrets, fieldsWithoutSecrets, h.withoutSecrets_eq, hrest.logged_eq]
      · exact hrest.logged_eq

theorem AgreeFields.compactEventData_eq {payload payload' : List (Text × Json)}
    (h : AgreeFields env payload payload') (actor : Option Actor) :
    compactEventData env payload actor = compactEventData env payload' actor := by
  simp only [compactEventData, redactSecrets, withoutSecrets, Option.getD_some, h.logged_eq]

/--
No key and no text that is recognised stands at any depth in what is left of a
value; it is the value without some entries, and an empty text if the value is a
text that is dropped; redacting it again changes nothing; and values that differ
at most under keys that are recognised are redacted alike, and so is what the
event log, the webhooks and the email service get of them.
-/
theorem redactSecrets_spec (env : HookEnv) :
    (∀ v w, Within w (redactSecrets env v) →
      (∀ fields, w = .dict fields → ∀ field ∈ fields, sensitiveKey env field.1 = false) ∧
        ∀ s, w = .text s → sensitiveString s = false) ∧
    (∀ v, (∃ s, v = .text s ∧ sensitiveString s = true ∧ redactSecrets env v = .text []) ∨
      Thinned v (redactSecrets env v)) ∧
    (∀ v, redactSecrets env (redactSecrets env v) = redactSecrets env v) ∧
    (∀ v v', Agree env v v' → redactSecrets env v = redactSecrets env v') ∧
    ∀ payload payload', Agree env (.dict payload) (.dict payload') →
      (∀ actor, compactEventData env payload actor = compactEventData env payload' actor) ∧
      (∀ id time eventType company actor,
        buildEnvelope env id time eventType company payload actor =
          buildEnvelope env id time eventType company payload' actor) ∧
      ∀ eventType companyId idempotencyKey actor company,
        buildEmailEventBody env eventType companyId payload idempotencyKey actor company =
          buildEmailEventBody env eventType companyId payload' idempotencyKey actor company := by
  refine ⟨?_, ?_, redactSecrets_redactSecrets, fun v v' h => h.redactSecrets_eq, ?_⟩
  · intro v w hw
    have hclean : Clean env w := clean_of_within_redactSecrets hw
    exact ⟨hclean.keys, hclean.text⟩
  · intro v
    rcases @redactSecrets_cases env v with hroot | hkept
    · exact .inl hroot
    · exact .inr (thinned_of_withoutSecrets hkept)
  · intro payload payload' hagree
    have hredacted := hagree.redactSecrets_eq
    refine ⟨?_, ?_, ?_⟩
    · intro actor
      cases hagree with
      | same => rfl
      | dict h => exact h.compactEventData_eq actor
    · intro id time eventType company actor
      rw [buildEnvelope, buildEnvelope, hredacted]
    · intro eventType companyId idempotencyKey actor company
      have hdata : emailEventPayload env payload = emailEventPayload env payload' := by
        rw [emailEventPayload, emailEventPayload, hredacted]
      rw [buildEmailEventBody, buildEmailEventBody, hdata]

end Redaction

def signedIn (token : Text) : List (Text × Json) :=
  [("links".toList, .list [.dict [("Id-Token".toList, .text token), ("n".toList, .int 1)]])]

theorem redactSecrets_spec_signedIn :
    compactEventData sampleHooks (signedIn ['a']) none =
      compactEventData sampleHooks (signedIn ['b']) none := by
  have hkey : sensitiveKey sampleHooks "Id-Token".toList = true := by decide +kernel
  have hagree : Agree sampleHooks (.dict (signedIn ['a'])) (.dict (signedIn ['b'])) :=
    .dict (.value _ (.list (.cons (.dict (.secret hkey _ _ (.value _ (.same _) .nil))) .nil)) .nil)
  exact ((redactSecrets_spec sampleHooks).2.2.2.2 _ _ hagree).1 none

end StorageService.Results
