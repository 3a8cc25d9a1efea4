import Mathlib.Logic.Basic

/-!
# Transactions beside effects that cannot be undone

An action runs in a session with two parts: a database, which `atomic` restores
when the action raises, and the rest of the world, which keeps whatever
happened.  `Runs` and `Fails` are the two ways an action can end; their rules
below take a compound action apart without unfolding it.  `Within R` collects
what every run does, however it ends.
-/

namespace StorageService.Foundation

structure Session (δ β : Type) where
  db : δ
  out : β

/-- An action returns a value or raises, and leaves a session in both cases. -/
def Action (ε δ β α : Type) : Type := Session δ β → Except ε α × Session δ β

namespace Action

variable {ε δ β α γ : Type}

instance : Monad (Action ε δ β) where
  pure a := fun s => (.ok a, s)
  bind x f := fun s =>
    match x s with
    | (.ok a, s') => f a s'
    | (.error e, s') => (.error e, s')

def raise (e : ε) : Action ε δ β α := fun s => (.error e, s)

def ensure (c : Prop) [Decidable c] (e : ε) : Action ε δ β Unit :=
  if c then pure () else raise e

def ofExcept : Except ε α → Action ε δ β α
  | .ok a => pure a
  | .error e => raise e

def ofOption (e : ε) : Option α → Action ε δ β α
  | some a => pure a
  | none => raise e

def database : Action ε δ β δ := fun s => (.ok s.db, s)

def outside : Action ε δ β β := fun s => (.ok s.out, s)

def putDatabase (db : δ) : Action ε δ β Unit := fun s => (.ok (), { s with db := db })

def putOutside (out : β) : Action ε δ β Unit := fun s => (.ok (), { s with out := out })

def modifyDatabase (f : δ → δ) : Action ε δ β Unit := fun s =>
  (.ok (), { s with db := f s.db })

def modifyOutside (f : β → β) : Action ε δ β Unit := fun s =>
  (.ok (), { s with out := f s.out })

def atomic (x : Action ε δ β α) : Action ε δ β α := fun s =>
  match x s with
  | (.ok a, s') => (.ok a, s')
  | (.error e, s') => (.error e, { s' with db := s.db })

def forEach (f : α → Action ε δ β Unit) : List α → Action ε δ β Unit
  | [] => pure ()
  | a :: as => do
      f a
      forEach f as

def Runs (x : Action ε δ β α) (s : Session δ β) (a : α) (s' : Session δ β) : Prop :=
  x s = (.ok a, s')

def Fails (x : Action ε δ β α) (s s' : Session δ β) : Prop :=
  ∃ e, x s = (.error e, s')

/-! ## Successful runs -/

@[simp] theorem exists_unit {p : Unit → Prop} : (∃ u, p u) ↔ p () :=
  ⟨fun ⟨_, h⟩ => h, fun h => ⟨(), h⟩⟩

section Runs

variable {s s' : Session δ β}

@[simp] theorem runs_pure {a b : α} :
    (pure a : Action ε δ β α).Runs s b s' ↔ b = a ∧ s' = s := by
  simp [Runs, pure, eq_comm]

@[simp] theorem runs_raise {e : ε} {a : α} :
    (raise e : Action ε δ β α).Runs s a s' ↔ False := by
  simp [Runs, raise]

@[simp] theorem runs_bind {x : Action ε δ β α} {f : α → Action ε δ β γ} {c : γ} :
    (x >>= f).Runs s c s' ↔ ∃ a s₁, x.Runs s a s₁ ∧ (f a).Runs s₁ c s' := by
  simp only [Runs, bind]
  rcases x s with ⟨_ | a, s₁⟩
  · simp
  · constructor
    · intro h
      exact ⟨a, s₁, rfl, h⟩
    · rintro ⟨_, _, heq, h⟩
      cases heq
      exact h

theorem runs_bind_of_runs {x : Action ε δ β α} {f : α → Action ε δ β γ} {a : α} {c : γ}
    {s₁ : Session δ β} (hx : x.Runs s a s₁) :
    (x >>= f).Runs s c s' ↔ (f a).Runs s₁ c s' := by
  have hstep : x s = (.ok a, s₁) := hx
  simp [Runs, bind, hstep]

@[simp] theorem runs_ensure {c : Prop} [Decidable c] {e : ε} {u : Unit} :
    (ensure c e : Action ε δ β Unit).Runs s u s' ↔ c ∧ s' = s := by
  by_cases hc : c <;> simp [ensure, hc]

@[simp] theorem runs_ofExcept {r : Except ε α} {a : α} :
    (ofExcept r : Action ε δ β α).Runs s a s' ↔ r = .ok a ∧ s' = s := by
  cases r <;> simp [ofExcept, eq_comm]

@[simp] theorem runs_ofOption {e : ε} {o : Option α} {a : α} :
    (ofOption e o : Action ε δ β α).Runs s a s' ↔ o = some a ∧ s' = s := by
  cases o <;> simp [ofOption, eq_comm]

@[simp] theorem runs_database {db : δ} :
    (database : Action ε δ β δ).Runs s db s' ↔ db = s.db ∧ s' = s := by
  simp [Runs, database, eq_comm]

@[simp] theorem runs_outside {out : β} :
    (outside : Action ε δ β β).Runs s out s' ↔ out = s.out ∧ s' = s := by
  simp [Runs, outside, eq_comm]

@[simp] theorem runs_putDatabase {db : δ} {u : Unit} :
    (putDatabase db : Action ε δ β Unit).Runs s u s' ↔ s' = { s with db := db } := by
  simp [Runs, putDatabase, eq_comm]

@[simp] theorem runs_putOutside {out : β} {u : Unit} :
    (putOutside out : Action ε δ β Unit).Runs s u s' ↔ s' = { s with out := out } := by
  simp [Runs, putOutside, eq_comm]

@[simp] theorem runs_modifyDatabase {f : δ → δ} {u : Unit} :
    (modifyDatabase f : Action ε δ β Unit).Runs s u s' ↔ s' = { s with db := f s.db } := by
  simp [Runs, modifyDatabase, eq_comm]

@[simp] theorem runs_modifyOutside {f : β → β} {u : Unit} :
    (modifyOutside f : Action ε δ β Unit).Runs s u s' ↔ s' = { s with out := f s.out } := by
  simp [Runs, modifyOutside, eq_comm]

@[simp] theorem runs_atomic {x : Action ε δ β α} {a : α} :
    (atomic x).Runs s a s' ↔ x.Runs s a s' := by
  simp only [Runs, atomic]
  rcases x s with ⟨_ | b, s₁⟩ <;> simp

@[simp] theorem runs_ite {c : Prop} [Decidable c] {x y : Action ε δ β α} {a : α} :
    (if c then x else y).Runs s a s' ↔ (c ∧ x.Runs s a s') ∨ (¬c ∧ y.Runs s a s') := by
  by_cases hc : c <;> simp [hc]

@[simp] theorem runs_forEach_nil {f : α → Action ε δ β Unit} {u : Unit} :
    (forEach f []).Runs s u s' ↔ s' = s := by
  simp [forEach]

@[simp] theorem runs_forEach_cons {f : α → Action ε δ β Unit} {a : α} {as : List α}
    {u : Unit} :
    (forEach f (a :: as)).Runs s u s' ↔
      ∃ s₁, (f a).Runs s () s₁ ∧ (forEach f as).Runs s₁ () s' := by
  simp [forEach]

end Runs

/-! ## Runs that raise -/

section Fails

variable {s s' : Session δ β}

@[simp] theorem fails_pure {a : α} :
    (pure a : Action ε δ β α).Fails s s' ↔ False := by
  simp [Fails, pure]

@[simp] theorem fails_raise {e : ε} :
    (raise e : Action ε δ β α).Fails s s' ↔ s' = s := by
  simp [Fails, raise, eq_comm]

@[simp] theorem fails_bind {x : Action ε δ β α} {f : α → Action ε δ β γ} :
    (x >>= f).Fails s s' ↔
      x.Fails s s' ∨ ∃ a s₁, x.Runs s a s₁ ∧ (f a).Fails s₁ s' := by
  simp only [Fails, Runs, bind]
  rcases x s with ⟨_ | a, s₁⟩
  · simp
  · constructor
    · intro h
      exact .inr ⟨a, s₁, rfl, h⟩
    · rintro (⟨_, heq⟩ | ⟨_, _, heq, h⟩)
      · cases heq
      · cases heq
        exact h

@[simp] theorem fails_ensure {c : Prop} [Decidable c] {e : ε} :
    (ensure c e : Action ε δ β Unit).Fails s s' ↔ ¬c ∧ s' = s := by
  by_cases hc : c <;> simp [ensure, hc]

@[simp] theorem fails_ofExcept {r : Except ε α} :
    (ofExcept r : Action ε δ β α).Fails s s' ↔ (∃ e, r = .error e) ∧ s' = s := by
  cases r <;> simp [ofExcept]

@[simp] theorem fails_ofOption {e : ε} {o : Option α} :
    (ofOption e o : Action ε δ β α).Fails s s' ↔ o = none ∧ s' = s := by
  cases o <;> simp [ofOption]

@[simp] theorem fails_database :
    (database : Action ε δ β δ).Fails s s' ↔ False := by
  simp [Fails, database]

@[simp] theorem fails_outside :
    (outside : Action ε δ β β).Fails s s' ↔ False := by
  simp [Fails, outside]

@[simp] theorem fails_putDatabase {db : δ} :
    (putDatabase db : Action ε δ β Unit).Fails s s' ↔ False := by
  simp [Fails, putDatabase]

@[simp] theorem fails_putOutside {out : β} :
    (putOutside out : Action ε δ β Unit).Fails s s' ↔ False := by
  simp [Fails, putOutside]

@[simp] theorem fails_modifyDatabase {f : δ → δ} :
    (modifyDatabase f : Action ε δ β Unit).Fails s s' ↔ False := by
  simp [Fails, modifyDatabase]

@[simp] theorem fails_modifyOutside {f : β → β} :
    (modifyOutside f : Action ε δ β Unit).Fails s s' ↔ False := by
  simp [Fails, modifyOutside]

@[simp] theorem fails_atomic {x : Action ε δ β α} :
    (atomic x).Fails s s' ↔ ∃ s₁, x.Fails s s₁ ∧ s' = { s₁ with db := s.db } := by
  simp only [Fails, atomic]
  rcases x s with ⟨_ | b, s₁⟩ <;> simp [eq_comm]

@[simp] theorem fails_forEach_nil {f : α → Action ε δ β Unit} :
    (forEach f []).Fails s s' ↔ False := by
  simp [forEach]

@[simp] theorem fails_forEach_cons {f : α → Action ε δ β Unit} {a : α} {as : List α} :
    (forEach f (a :: as)).Fails s s' ↔
      (f a).Fails s s' ∨ ∃ s₁, (f a).Runs s () s₁ ∧ (forEach f as).Fails s₁ s' := by
  simp [forEach]

/-- A batch of checks is the check of the whole batch. -/
theorem runs_forEach_check {f : α → Action ε δ β Unit} {p : α → Session δ β → Prop}
    (hf : ∀ a s u s', (f a).Runs s u s' ↔ p a s ∧ s' = s) {as : List α}
    {s s' : Session δ β} {u : Unit} :
    (forEach f as).Runs s u s' ↔ (∀ a ∈ as, p a s) ∧ s' = s := by
  induction as generalizing s u with
  | nil => simp
  | cons a as ih =>
      simp only [runs_forEach_cons, hf, ih, List.forall_mem_cons]
      constructor
      · rintro ⟨s₁, ⟨ha, rfl⟩, has, rfl⟩
        exact ⟨⟨ha, has⟩, rfl⟩
      · rintro ⟨⟨ha, has⟩, rfl⟩
        exact ⟨s', ⟨ha, rfl⟩, has, rfl⟩

theorem fails_forEach_check {f : α → Action ε δ β Unit} {p : α → Session δ β → Prop}
    (hf : ∀ a s u s', (f a).Runs s u s' ↔ p a s ∧ s' = s)
    (hfail : ∀ a s s', (f a).Fails s s' ↔ ¬p a s ∧ s' = s) {as : List α}
    {s s' : Session δ β} :
    (forEach f as).Fails s s' ↔ (¬∀ a ∈ as, p a s) ∧ s' = s := by
  induction as generalizing s with
  | nil => simp
  | cons a as ih =>
      simp only [fails_forEach_cons, hf, hfail, ih, List.forall_mem_cons, not_and_or]
      constructor
      · rintro (⟨ha, rfl⟩ | ⟨s₁, ⟨ha, rfl⟩, has, rfl⟩)
        · exact ⟨.inl ha, rfl⟩
        · exact ⟨.inr has, rfl⟩
      · rintro ⟨ha | has, rfl⟩
        · exact .inl ⟨ha, rfl⟩
        · by_cases ha : p a s'
          · exact .inr ⟨s', ⟨ha, rfl⟩, has, rfl⟩
          · exact .inl ⟨ha, rfl⟩

theorem runs_or_fails (x : Action ε δ β α) (s : Session δ β) :
    (∃ a, x.Runs s a (x s).2) ∨ x.Fails s (x s).2 := by
  rcases h : x s with ⟨e | a, s'⟩
  · exact .inr ⟨e, by simp [h]⟩
  · exact .inl ⟨a, by simp [Runs, h]⟩

theorem runs_of_any {x : Action ε δ β α} {s : Session δ β} {p : α → Bool}
    (h : (x s).1.toOption.any p = true) : ∃ a, x.Runs s a (x s).2 ∧ p a = true := by
  rcases hx : x s with ⟨e | a, s'⟩
  · simp [hx, Except.toOption] at h
  · refine ⟨a, by simp [Runs, hx], ?_⟩
    simpa [hx, Except.toOption] using h

theorem fails_of_isNone {x : Action ε δ β α} {s : Session δ β}
    (h : (x s).1.toOption.isNone = true) : x.Fails s (x s).2 := by
  rcases hx : x s with ⟨e | a, s'⟩
  · exact ⟨e, by simp [hx]⟩
  · simp [hx, Except.toOption] at h

end Fails

/-! ## However an action ends -/

/-- `P` holds of the result of `x` and of the session it leaves. -/
def Ends (P : Except ε α → Session δ β → Prop) (x : Action ε δ β α) (s : Session δ β) : Prop :=
  P (x s).1 (x s).2

section Ends

variable {P : Except ε γ → Session δ β → Prop} {x : Action ε δ β α} {f : α → Action ε δ β γ}
variable {s s₁ : Session δ β} {a : α}

theorem ends_pure {c : γ} : Ends P (pure c : Action ε δ β γ) s ↔ P (.ok c) s := Iff.rfl

theorem ends_bind_of_runs (hx : x.Runs s a s₁) : Ends P (x >>= f) s ↔ Ends P (f a) s₁ := by
  have hstep : x s = (.ok a, s₁) := hx
  simp only [Ends, bind, hstep]

theorem ends_database {f : δ → Action ε δ β γ} :
    Ends P (database >>= f) s ↔ Ends P (f s.db) s := Iff.rfl

theorem ends_outside {f : β → Action ε δ β γ} :
    Ends P (outside >>= f) s ↔ Ends P (f s.out) s := Iff.rfl

theorem Ends.imp {Q : Except ε γ → Session δ β → Prop} {y : Action ε δ β γ} (h : Ends P y s)
    (hPQ : ∀ r s', P r s' → Q r s') : Ends Q y s := hPQ _ _ h

theorem Ends.runs {y : Action ε δ β γ} (h : Ends P y s) {c : γ} (hy : y.Runs s c s₁) :
    P (.ok c) s₁ := by
  have hstep : y s = (.ok c, s₁) := hy
  rwa [Ends, hstep] at h

theorem ends_of {y : Action ε δ β γ} (hfail : ∀ e s', y.Fails s s' → P (.error e) s')
    (hrun : ∀ c s', y.Runs s c s' → P (.ok c) s') : Ends P y s := by
  rw [Ends]
  rcases hy : y s with ⟨e | c, s'⟩
  · exact hfail e s' ⟨e, hy⟩
  · exact hrun c s' hy

theorem ends_bind (hfail : ∀ e s', x.Fails s s' → P (.error e) s')
    (hrun : ∀ a s₁, x.Runs s a s₁ → Ends P (f a) s₁) : Ends P (x >>= f) s := by
  simp only [Ends, bind]
  rcases hx : x s with ⟨e | a, s₁⟩
  · exact hfail e s₁ ⟨e, hx⟩
  · exact hrun a s₁ hx

theorem ends_ite {c : Prop} [Decidable c] {y z : Action ε δ β γ} (hy : c → Ends P y s)
    (hz : ¬c → Ends P z s) : Ends P (if c then y else z) s := by
  by_cases hc : c
  · rw [if_pos hc]
    exact hy hc
  · rw [if_neg hc]
    exact hz hc

end Ends

/-! ## Rely on every run -/

def Within (R : Session δ β → Session δ β → Prop) (x : Action ε δ β α) : Prop :=
  ∀ s, R s (x s).2

/-- Relations that compose along actions and that a rollback respects. -/
structure Composable (R : Session δ β → Session δ β → Prop) : Prop where
  refl : ∀ s, R s s
  trans : ∀ {s s₁ s₂}, R s s₁ → R s₁ s₂ → R s s₂
  rollback : ∀ {s s₁}, R s s₁ → R s { s₁ with db := s.db }

section Within

variable {R : Session δ β → Session δ β → Prop}

theorem Within.runs {x : Action ε δ β α} (hx : x.Within R) {s s' : Session δ β} {a : α}
    (h : x.Runs s a s') : R s s' := by
  have := hx s
  rwa [h] at this

theorem Within.fails {x : Action ε δ β α} (hx : x.Within R) {s s' : Session δ β}
    (h : x.Fails s s') : R s s' := by
  obtain ⟨e, he⟩ := h
  have := hx s
  rwa [he] at this

theorem within_of_same {x : Action ε δ β α} (hR : Composable R)
    (hx : ∀ s, (x s).2 = s) : x.Within R := by
  intro s
  rw [hx s]
  exact hR.refl s

theorem Within.pure (hR : Composable R) (a : α) :
    (pure a : Action ε δ β α).Within R :=
  within_of_same hR fun _ => rfl

theorem Within.raise (hR : Composable R) (e : ε) :
    (raise e : Action ε δ β α).Within R :=
  within_of_same hR fun _ => rfl

theorem Within.database (hR : Composable R) :
    (database : Action ε δ β δ).Within R :=
  within_of_same hR fun _ => rfl

theorem Within.outside (hR : Composable R) :
    (outside : Action ε δ β β).Within R :=
  within_of_same hR fun _ => rfl

theorem Within.modifyDatabase {f : δ → δ} (h : ∀ s, R s { s with db := f s.db }) :
    (modifyDatabase f : Action ε δ β Unit).Within R := h

theorem Within.modifyOutside {f : β → β} (h : ∀ s, R s { s with out := f s.out }) :
    (modifyOutside f : Action ε δ β Unit).Within R := h

theorem Within.ensure (hR : Composable R) (c : Prop) [Decidable c] (e : ε) :
    (ensure c e : Action ε δ β Unit).Within R := by
  by_cases hc : c
  · simpa [Action.ensure, hc] using Within.pure hR ()
  · simpa [Action.ensure, hc] using Within.raise hR e

theorem Within.ofExcept (hR : Composable R) (r : Except ε α) :
    (ofExcept r : Action ε δ β α).Within R := by
  cases r with
  | ok a => exact Within.pure hR a
  | error e => exact Within.raise hR e

theorem Within.ofOption (hR : Composable R) (e : ε) (o : Option α) :
    (ofOption e o : Action ε δ β α).Within R := by
  cases o with
  | some a => exact Within.pure hR a
  | none => exact Within.raise hR e

theorem Composable.bind_at (hR : Composable R) {x : Action ε δ β α}
    {f : α → Action ε δ β γ} {s : Session δ β} (hx : R s (x s).2)
    (hf : ∀ a s₁, x.Runs s a s₁ → R s₁ (f a s₁).2) : R s ((x >>= f) s).2 := by
  change R s (match x s with
    | (.ok a, s') => f a s'
    | (.error e, s') => (.error e, s')).2
  rcases hxs : x s with ⟨e | a, s₁⟩
  · simpa [hxs] using hx
  · rw [hxs] at hx
    exact hR.trans hx (hf a s₁ hxs)

section Looking

-- A first step that only looks leaves the session to the rest.
variable {s : Session δ β}

theorem Composable.ensure_at (hR : Composable R) {c : Prop} [Decidable c] {e : ε}
    {f : Unit → Action ε δ β γ} (hf : c → R s (f () s).2) : R s ((ensure c e >>= f) s).2 := by
  refine hR.bind_at (Within.ensure hR c e s) fun _ s₁ hrun => ?_
  obtain ⟨hc, rfl⟩ := runs_ensure.mp hrun
  exact hf hc

theorem Composable.ofExcept_at (hR : Composable R) {r : Except ε α} {f : α → Action ε δ β γ}
    (hf : ∀ a, r = .ok a → R s (f a s).2) : R s ((ofExcept r >>= f) s).2 := by
  refine hR.bind_at (Within.ofExcept hR r s) fun a s₁ hrun => ?_
  obtain ⟨ha, rfl⟩ := runs_ofExcept.mp hrun
  exact hf a ha

theorem Composable.ofOption_at (hR : Composable R) {e : ε} {o : Option α}
    {f : α → Action ε δ β γ} (hf : ∀ a, o = some a → R s (f a s).2) :
    R s ((ofOption e o >>= f) s).2 := by
  refine hR.bind_at (Within.ofOption hR e o s) fun a s₁ hrun => ?_
  obtain ⟨ha, rfl⟩ := runs_ofOption.mp hrun
  exact hf a ha

theorem Composable.database_at (hR : Composable R) {f : δ → Action ε δ β γ}
    (hf : R s (f s.db s).2) : R s ((database >>= f) s).2 := by
  refine hR.bind_at (Within.database hR s) fun db s₁ hrun => ?_
  obtain ⟨rfl, rfl⟩ := runs_database.mp hrun
  exact hf

theorem Composable.outside_at (hR : Composable R) {f : β → Action ε δ β γ}
    (hf : R s (f s.out s).2) : R s ((outside >>= f) s).2 := by
  refine hR.bind_at (Within.outside hR s) fun out s₁ hrun => ?_
  obtain ⟨rfl, rfl⟩ := runs_outside.mp hrun
  exact hf

end Looking

theorem Composable.atomic_at (hR : Composable R) {x : Action ε δ β α} {s : Session δ β}
    (hx : R s (x s).2) : R s (atomic x s).2 := by
  simp only [Action.atomic]
  rcases hxs : x s with ⟨e | a, s₁⟩
  · rw [hxs] at hx
    exact hR.rollback hx
  · rwa [hxs] at hx

theorem Composable.forEach_at (hR : Composable R) {f : α → Action ε δ β Unit}
    {s : Session δ β} {as : List α} (hf : ∀ a ∈ as, ∀ s₁, R s s₁ → R s₁ (f a s₁).2) :
    R s (forEach f as s).2 := by
  have hloop : ∀ (bs : List α) (s₁ : Session δ β), (∀ b ∈ bs, b ∈ as) → R s s₁ →
      R s₁ (forEach f bs s₁).2 := by
    intro bs
    induction bs with
    | nil => exact fun s₁ _ _ => hR.refl s₁
    | cons b bs ih =>
        intro s₁ hmem hs₁
        rw [List.forall_mem_cons] at hmem
        have hfirst := hf b hmem.1 s₁ hs₁
        refine hR.bind_at hfirst fun _ s₂ hrun => ih s₂ hmem.2 ?_
        rw [hrun] at hfirst
        exact hR.trans hs₁ hfirst
  exact hloop as s (fun _ => id) (hR.refl s)

theorem Within.mono {R' : Session δ β → Session δ β → Prop} {x : Action ε δ β α}
    (hx : x.Within R) (h : ∀ {s s'}, R s s' → R' s s') : x.Within R' := fun s => h (hx s)

theorem Within.bind (hR : Composable R) {x : Action ε δ β α} {f : α → Action ε δ β γ}
    (hx : x.Within R) (hf : ∀ a, (f a).Within R) : (x >>= f).Within R := fun s =>
  hR.bind_at (hx s) fun a s₁ _ => hf a s₁

theorem Within.atomic (hR : Composable R) {x : Action ε δ β α} (hx : x.Within R) :
    (atomic x).Within R := fun s => hR.atomic_at (hx s)

theorem Within.ite_of {c : Prop} [Decidable c] {x y : Action ε δ β α}
    (hx : c → x.Within R) (hy : ¬c → y.Within R) : (if c then x else y).Within R := by
  by_cases hc : c
  · simpa [hc] using hx hc
  · simpa [hc] using hy hc

theorem Within.ite {c : Prop} [Decidable c] {x y : Action ε δ β α}
    (hx : x.Within R) (hy : y.Within R) : (if c then x else y).Within R :=
  Within.ite_of (fun _ => hx) fun _ => hy

theorem Within.forEach (hR : Composable R) {f : α → Action ε δ β Unit}
    (hf : ∀ a, (f a).Within R) (as : List α) : (forEach f as).Within R := by
  induction as with
  | nil => exact Within.pure hR ()
  | cons a as ih => exact Within.bind hR (hf a) fun _ => ih

end Within

end Action

end StorageService.Foundation
