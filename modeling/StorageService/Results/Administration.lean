import StorageService.Actions.Admin

/-!
# Company administration

What the gate of the admin API lets a company owner see and change.
-/

namespace StorageService.Results

open StorageService.Foundation
open StorageService.Auth StorageService.Actions

/-! ## What a view shows and changes -/

def companiesShown : Shown → List (Option ℤ)
  | .rule row _ => [some row.companyId]
  | .delivery row ruleOfRow => some row.companyId :: ruleOfRow.toList.map (some ·.companyId)
  | .event row => [row.companyId]

structure RowsKept (c : ℤ) (store store' : Store) : Prop where
  rules : store'.rules.rows.filter (fun r => decide (r.companyId = c)) =
    store.rules.rows.filter fun r => decide (r.companyId = c)
  outbox : store'.outbox.rows.filter (fun d => decide (d.companyId = c)) =
    store.outbox.rows.filter fun d => decide (d.companyId = c)
  events : store'.events.filter (fun e => decide (e.companyId = some c)) =
    store.events.filter fun e => decide (e.companyId = some c)

/-- Only rows of `company` are shown, and those of other companies are kept. -/
def StaysWithin (company : Option ℤ) (store : Store) (shown : List Shown) (store' : Store) :
    Prop :=
  (∀ entry ∈ shown, ∀ c ∈ companiesShown entry, c = company) ∧
    ∀ c, some c ≠ company → RowsKept c store store'

theorem RowsKept.refl (c : ℤ) (store : Store) : RowsKept c store store := ⟨rfl, rfl, rfl⟩

theorem filter_map_of_spared {ρ : Type} {p : ρ → Bool} {f : ρ → ρ}
    (hkeep : ∀ r, p (f r) = p r) {rows : List ρ} (hf : ∀ r ∈ rows, p r = true → f r = r) :
    (rows.map f).filter p = rows.filter p := by
  induction rows with
  | nil => rfl
  | cons r rows ih =>
      have htail := ih fun s hs => hf s (List.mem_cons_of_mem r hs)
      rw [List.map_cons, List.filter_cons, List.filter_cons, hkeep, htail]
      cases hp : p r with
      | false => rfl
      | true => rw [hf r (by simp) hp]

theorem filter_filter_of_spared {ρ : Type} {p keep : ρ → Bool} {rows : List ρ}
    (hkeep : ∀ r ∈ rows, p r = true → keep r = true) :
    (rows.filter keep).filter p = rows.filter p := by
  rw [List.filter_filter]
  apply List.filter_congr
  intro r hr
  cases hp : p r with
  | false => rfl
  | true => simp [hkeep r hr hp]

section View

variable {store store' : Store} {companyId c : ℤ}

theorem rule_eq_ok {pk : Nat} {r : ActionRule} (h : store.rule companyId pk = .ok r) :
    r ∈ store.rules.rows ∧ r.companyId = companyId := by
  unfold Store.rule at h
  split at h
  · rename_i r' hfind
    cases h
    have hfound := List.find?_some hfind
    simp only [decide_eq_true_eq] at hfound
    exact ⟨List.mem_of_find?_eq_some hfind, hfound.2⟩
  · contradiction

theorem delivery_eq_ok {pk : Nat} {d : ActionOutbox} (h : store.delivery companyId pk = .ok d) :
    d ∈ store.outbox.rows ∧ d.companyId = companyId := by
  unfold Store.delivery at h
  split at h
  · rename_i d' hfind
    cases h
    have hfound := List.find?_some hfind
    simp only [Store.isDelivery, Bool.and_eq_true, decide_eq_true_eq] at hfound
    exact ⟨List.mem_of_find?_eq_some hfind, hfound.2.1⟩
  · contradiction

theorem companiesShown_shownDelivery {d d₀ : ActionOutbox} (hd : d₀ ∈ store.outbox.rows)
    (hcompany : d.companyId = d₀.companyId) (hrule : d.actionRule = d₀.actionRule) :
    ∀ c ∈ companiesShown (store.shownDelivery d), c = some d₀.companyId := by
  intro c hc
  simp only [Store.shownDelivery, companiesShown, List.mem_cons, List.mem_map,
    Option.mem_toList] at hc
  rcases hc with rfl | ⟨r, hr, rfl⟩
  · rw [hcompany]
  · have hfound := List.find?_some hr
    simp only [decide_eq_true_eq] at hfound
    rw [store.sameCompany d₀ hd r (List.mem_of_find?_eq_some hr) (hrule ▸ hfound)]

theorem rowsKept_saveRule {rule : ActionRule} {pk : Nat}
    (h : store.rule companyId pk = .ok rule) {rule' : ActionRule} (hid : rule'.id = rule.id)
    (hc : c ≠ companyId) : RowsKept c store (store.saveRule rule') := by
  obtain ⟨hmem, hcompany⟩ := rule_eq_ok h
  refine ⟨filter_map_of_spared (fun r => ?_) fun r hr hp => ?_, rfl, rfl⟩
  · rw [(Store.saved_spec rule' r).2]
  · -- a row with the id of the saved rule is that rule, which is not of company `c`
    simp only [decide_eq_true_eq] at hp
    have hne : r.id ≠ rule'.id := by
      intro heq
      have := store.rules.eq_of_clash hr hmem (heq.trans hid)
      rw [this, hcompany] at hp
      exact hc hp.symm
    simp [Store.saved, hne]

theorem rowsKept_deleteRule {rule : ActionRule} {pk : Nat}
    (h : store.rule companyId pk = .ok rule) (hc : c ≠ companyId) :
    RowsKept c store (store.deleteRule rule) := by
  obtain ⟨hmem, hcompany⟩ := rule_eq_ok h
  refine ⟨filter_filter_of_spared fun r hr hp => ?_, filter_filter_of_spared fun d hd hp => ?_,
    rfl⟩
  · simp only [decide_eq_true_eq] at hp
    simp only [Bool.not_eq_true', decide_eq_false_iff_not]
    intro heq
    have := store.rules.eq_of_clash hr hmem heq
    rw [this, hcompany] at hp
    exact hc hp.symm
  · simp only [decide_eq_true_eq] at hp
    simp only [Bool.not_eq_true', decide_eq_false_iff_not]
    intro href
    have := store.sameCompany d hd rule hmem href
    exact hc (by rw [← hp, ← this, hcompany])

theorem rowsKept_requeue {d : ActionOutbox} {pk : Nat}
    (h : store.delivery companyId pk = .ok d) (hc : c ≠ companyId) :
    RowsKept c store (store.requeue d.id) := by
  obtain ⟨hmem, hcompany⟩ := delivery_eq_ok h
  refine ⟨rfl, filter_map_of_spared (fun e => ?_) fun e he hp => ?_, rfl⟩
  · rw [(Store.requeuedIf_spec d.id e).2.1]
  · simp only [decide_eq_true_eq] at hp
    have hne : e.id ≠ d.id := by
      intro heq
      have := store.outbox.eq_of_clash he hmem heq
      rw [this, hcompany] at hp
      exact hc hp.symm
    simp [Store.requeuedIf, hne]

theorem rowsKept_insertRule {rule : ActionRule} (h : store.insertRule rule = .ok store')
    (hcompany : rule.companyId = companyId) (hc : c ≠ companyId) : RowsKept c store store' := by
  unfold Store.insertRule at h
  split at h
  · cases h
    have : ¬rule.companyId = c := by
      rw [hcompany]
      exact hc.symm
    exact ⟨by simp [List.filter_append, this], rfl, rfl⟩
  · contradiction

end View

theorem bind_eq_ok {ε α β : Type} {x : Except ε α} {f : α → Except ε β} {b : β}
    (h : (x >>= f) = .ok b) : ∃ a, x = .ok a ∧ f a = .ok b := by
  cases x with
  | error e => contradiction
  | ok a => exact ⟨a, rfl, h⟩

section Shown

variable {companyId : ℤ} {store : Store} {shown : List Shown} {e : EventLog}

theorem staysWithin_of_shown
    (h : ∀ entry ∈ shown, ∀ c ∈ companiesShown entry, c = some companyId) :
    StaysWithin (some companyId) store shown store :=
  ⟨h, fun c _ => .refl c store⟩

theorem companiesShown_delivery {d d' : ActionOutbox} {pk : Nat}
    (h : store.delivery companyId pk = .ok d) (hcompany : d'.companyId = d.companyId)
    (hrule : d'.actionRule = d.actionRule) :
    ∀ entry ∈ [store.shownDelivery d'], ∀ c ∈ companiesShown entry, c = some companyId := by
  obtain ⟨hmem, hd⟩ := delivery_eq_ok h
  intro entry hentry c hc
  rw [List.mem_singleton.mp hentry] at hc
  rw [companiesShown_shownDelivery hmem hcompany hrule c hc, hd]

theorem companiesShown_event {platform : Bool} {narrow : EventLog → Bool}
    (hplatform : platform = false)
    (he : e ∈ store.visibleEvents companyId platform narrow) :
    ∀ c ∈ companiesShown (.event e), c = some companyId := by
  intro c hc
  have hvisible := (List.mem_filter.mp he).2
  simp only [Bool.and_eq_true, decide_eq_true_eq] at hvisible
  simp only [companiesShown, List.mem_singleton] at hc
  rw [hc, hvisible.1, hplatform]
  rfl

end Shown

theorem view_staysWithin {call : AdminCall} {actor : Principal} {companyId : ℤ}
    {store store' : Store} {shown : List Shown} (hstaff : actor.isStaff = false)
    (h : call.view actor companyId store = .ok (shown, store')) :
    StaysWithin (some companyId) store shown store' := by
  have hne : ∀ {c : ℤ}, some c ≠ some companyId → c ≠ companyId := by
    intro c hc heq
    exact hc (by rw [heq])
  cases call with
  | listRules =>
      cases h
      refine staysWithin_of_shown fun entry hentry c hc => ?_
      obtain ⟨r, hr, rfl⟩ := List.mem_map.mp hentry
      have := (List.mem_filter.mp hr).2
      simp only [decide_eq_true_eq] at this
      simpa [companiesShown, this] using hc
  | createRule pk generated data =>
      obtain ⟨config, -, h⟩ := bind_eq_ok h
      obtain ⟨store₁, hinsert, h⟩ := bind_eq_ok h
      cases h
      exact ⟨by simp [companiesShown, newRule], fun c hc =>
        rowsKept_insertRule hinsert rfl (hne hc)⟩
  | retrieveRule pk =>
      obtain ⟨rule, hrule, h⟩ := bind_eq_ok h
      cases h
      exact staysWithin_of_shown (by simp [companiesShown, (rule_eq_ok hrule).2])
  | updateRule pk generated data =>
      obtain ⟨rule, hrule, h⟩ := bind_eq_ok h
      obtain ⟨config, -, h⟩ := bind_eq_ok h
      cases h
      exact ⟨by simp [companiesShown, editedRule, (rule_eq_ok hrule).2], fun c hc =>
        rowsKept_saveRule hrule rfl (hne hc)⟩
  | deleteRule pk =>
      obtain ⟨rule, hrule, h⟩ := bind_eq_ok h
      cases h
      exact ⟨by simp, fun c hc => rowsKept_deleteRule hrule (hne hc)⟩
  | rotateSecret pk generated =>
      obtain ⟨rule, hrule, h⟩ := bind_eq_ok h
      cases h
      exact ⟨by simp [companiesShown, (rule_eq_ok hrule).2], fun c hc =>
        rowsKept_saveRule hrule rfl (hne hc)⟩
  | sendTest pk =>
      obtain ⟨rule, hrule, h⟩ := bind_eq_ok h
      split at h
      · cases h
        exact staysWithin_of_shown (by simp [companiesShown, (rule_eq_ok hrule).2])
      · contradiction
  | listDeliveries narrow start pageSize =>
      cases h
      refine staysWithin_of_shown fun entry hentry c hc => ?_
      obtain ⟨d, hd, rfl⟩ := List.mem_map.mp hentry
      obtain ⟨hd, hkind⟩ := List.mem_filter.mp (List.mem_of_mem_drop (List.mem_of_mem_take hd))
      simp only [Store.isDelivery, Bool.and_eq_true, decide_eq_true_eq] at hkind
      rw [companiesShown_shownDelivery hd rfl rfl c hc, hkind.1.1]
  | retrieveDelivery pk =>
      obtain ⟨d, hd, h⟩ := bind_eq_ok h
      cases h
      exact staysWithin_of_shown (companiesShown_delivery hd rfl rfl)
  | requeueDelivery pk =>
      obtain ⟨d, hd, h⟩ := bind_eq_ok h
      cases h
      exact ⟨companiesShown_delivery hd rfl rfl, fun c hc => rowsKept_requeue hd (hne hc)⟩
  | listEvents platform narrow start pageSize =>
      simp only [AdminCall.view, hstaff] at h
      split at h
      · contradiction
      · rename_i hplatform
        cases h
        refine staysWithin_of_shown fun entry hentry => ?_
        obtain ⟨e, he, rfl⟩ := List.mem_map.mp hentry
        exact companiesShown_event (by simpa using hplatform)
          (List.mem_of_mem_drop (List.mem_of_mem_take he))
  | retrieveEvent platform narrow pk =>
      simp only [AdminCall.view, hstaff] at h
      split at h
      · contradiction
      · rename_i hplatform
        split at h
        · rename_i e hfind
          cases h
          refine staysWithin_of_shown (List.forall_mem_singleton.mpr ?_)
          exact companiesShown_event (by simpa using hplatform) (List.mem_of_find?_eq_some hfind)
        · contradiction

/-! ## What the gate hands out -/

/--
Whoever is let through without being staff is an owner acting for the company of
the token, so that no admin request reaches the rows of another company.
-/
def ConfinedToToken (claims : List (Text × Json)) (companyIdParameter : Option Text)
    (data : Json) : Prop :=
  ∀ user, principalFromClaims claims = .ok user → user.isStaff = false →
    (∀ actor companyId,
      requireStaffOrCompanyOwner ⟨some user, companyIdParameter, data⟩ =
        .ok (actor, companyId) →
      user.isCompanyOwner = true ∧ user.companyId = some companyId) ∧
    ∀ (call : AdminCall) (store : Store) (shown : List Shown) (store' : Store),
      call.run ⟨some user, companyIdParameter, data⟩ store = .ok (shown, store') →
      StaysWithin user.companyId store shown store'

def NamesCompany (companyIdParameter : Option Text) (data : Json) : Prop :=
  ∃ raw id, requestedCompany ⟨none, companyIdParameter, data⟩ = .ok raw ∧
    raw.absent = false ∧ intOf raw = .ok id

section Gate

variable {user : Principal} {companyIdParameter : Option Text} {data : Json}

theorem requestedCompany_user (user? : Option Principal) :
    requestedCompany ⟨user?, companyIdParameter, data⟩ =
      requestedCompany ⟨none, companyIdParameter, data⟩ := by
  cases companyIdParameter with
  | some raw => rfl
  | none => cases data <;> rfl

theorem companyIdFromRequest_eq_ok {companyId : ℤ}
    (h : companyIdFromRequest ⟨some user, companyIdParameter, data⟩ = .ok (some companyId)) :
    NamesCompany companyIdParameter data ∨ user.companyId = some companyId := by
  obtain ⟨raw, hraw, h⟩ := bind_eq_ok h
  rw [requestedCompany_user] at hraw
  split at h
  · simp only [pure, Except.pure, Except.ok.injEq] at h
    exact .inr h
  · rename_i habsent
    split at h
    · rename_i id hid
      exact .inl ⟨raw, id, hraw, by simpa using habsent, hid⟩
    · contradiction
    · cases h

theorem companyIdFromRequest_of_namesCompany (user : Principal)
    (h : NamesCompany companyIdParameter data) :
    ∃ companyId, companyIdFromRequest ⟨some user, companyIdParameter, data⟩ =
      .ok (some companyId) := by
  obtain ⟨raw, id, hraw, habsent, hid⟩ := h
  refine ⟨id, ?_⟩
  rw [companyIdFromRequest, requestedCompany_user, hraw]
  simp only [bind, Except.bind, habsent, hid]
  rfl

theorem requireStaffOrCompanyOwner_eq_ok {actor : Principal} {companyId : ℤ}
    (hstaff : user.isStaff = false)
    (h : requireStaffOrCompanyOwner ⟨some user, companyIdParameter, data⟩ =
      .ok (actor, companyId)) :
    actor = user ∧ user.isCompanyOwner = true ∧
      companyIdFromRequest ⟨some user, companyIdParameter, data⟩ = .ok (some companyId) ∧
      ∀ token ∈ user.companyId, token = companyId := by
  simp only [requireStaffOrCompanyOwner] at h
  split at h
  · contradiction
  · contradiction
  · rename_i id hid
    split at h
    · contradiction
    · rename_i hmatch
      split at h
      · rename_i howner
        cases h
        refine ⟨rfl, by simpa [hstaff] using howner, hid, ?_⟩
        intro token htoken
        by_contra hne
        exact hmatch ⟨⟨token, htoken, hne⟩, by simp [hstaff]⟩
      · contradiction

/-- An owner whose token names no company is let through for any company. -/
theorem requireStaffOrCompanyOwner_of_no_company (howner : user.isCompanyOwner = true)
    (hcompany : user.companyId = none) (h : NamesCompany companyIdParameter data) :
    ∃ companyId, requireStaffOrCompanyOwner ⟨some user, companyIdParameter, data⟩ =
      .ok (user, companyId) := by
  obtain ⟨companyId, hid⟩ := companyIdFromRequest_of_namesCompany user h
  exact ⟨companyId, by simp [requireStaffOrCompanyOwner, hid, hcompany, howner]⟩

end Gate

/-- The token of anyone who is not staff but an owner carries a company id. -/
theorem confinedToToken_iff (claims : List (Text × Json)) (companyIdParameter : Option Text)
    (data : Json) :
    ConfinedToToken claims companyIdParameter data ↔
      ∀ user, principalFromClaims claims = .ok user →
        user.isStaff = true ∨ user.isCompanyOwner = false ∨ user.companyId.isSome = true ∨
          ¬NamesCompany companyIdParameter data := by
  constructor
  · intro h user huser
    cases hstaff : user.isStaff with
    | true => exact .inl rfl
    | false =>
        cases howner : user.isCompanyOwner with
        | false => exact .inr (.inl rfl)
        | true =>
            cases hcompany : user.companyId with
            | some c => exact .inr (.inr (.inl rfl))
            | none =>
                refine .inr (.inr (.inr fun hnames => ?_))
                obtain ⟨companyId, hgate⟩ :=
                  requireStaffOrCompanyOwner_of_no_company howner hcompany hnames
                have := ((h user huser hstaff).1 user companyId hgate).2
                rw [hcompany] at this
                contradiction
  · intro h user huser hstaff
    have hgate : ∀ actor companyId,
        requireStaffOrCompanyOwner ⟨some user, companyIdParameter, data⟩ =
          .ok (actor, companyId) →
        user.isCompanyOwner = true ∧ user.companyId = some companyId := by
      intro actor companyId hok
      obtain ⟨-, howner, hid, htoken⟩ := requireStaffOrCompanyOwner_eq_ok hstaff hok
      refine ⟨howner, ?_⟩
      rcases companyIdFromRequest_eq_ok hid with hnames | hcompany
      · have hsome : user.companyId.isSome = true := by
          simpa [hstaff, howner, hnames] using h user huser
        obtain ⟨token, hcompany⟩ := Option.isSome_iff_exists.mp hsome
        rw [hcompany, htoken token hcompany]
      · exact hcompany
    refine ⟨hgate, ?_⟩
    intro call store shown store' hrun
    obtain ⟨⟨actor, companyId⟩, hok, hview⟩ := bind_eq_ok hrun
    obtain ⟨rfl, -⟩ := requireStaffOrCompanyOwner_eq_ok hstaff hok
    rw [(hgate actor companyId hok).2]
    exact view_staysWithin hstaff hview

def ownerClaims : List (Text × Json) :=
  [(['s', 'u', 'b'], .text ['7']),
    (['u', 's', 'e', 'r', '_', 'm', 'e', 't', 'a', 'd', 'a', 't', 'a'],
      .dict [(['i', 's', '_', 'c', 'o', 'm', 'p', 'a', 'n', 'y', '_', 'o', 'w', 'n', 'e', 'r'],
        .bool true)])]

/-- Such an owner acts for company 10 by asking for it. -/
theorem not_confinedToToken : ¬ConfinedToToken ownerClaims (some ['1', '0']) (.dict []) := by
  intro h
  have hclaims : principalFromClaims ownerClaims =
      .ok { userId := 7, companyId := none, isStaff := false, isCompanyOwner := true } := by
    decide +kernel
  have hgate : requireStaffOrCompanyOwner
      ⟨some { userId := 7, companyId := none, isStaff := false, isCompanyOwner := true },
        some ['1', '0'], .dict []⟩ =
      .ok ({ userId := 7, companyId := none, isStaff := false, isCompanyOwner := true }, 10) := by
    decide +kernel
  have := ((h _ hclaims rfl).1 _ _ hgate).2
  contradiction

end StorageService.Results
