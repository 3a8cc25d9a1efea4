import StorageService.Actions.Retention

/-!
# What a purge deletes

However a purge is cut into batches and runs, it deletes expired rows, counts
them, and ends where one complete run does.
-/

namespace StorageService.Results

open StorageService.Foundation
open StorageService.Actions

/-! ## Rows and their keys -/

structure RowQuery where
  events : EventLog → Bool
  deliveries : ActionOutbox → Bool
  runs : ScheduledJobRun → Bool

def expiredRows (env : RetentionEnv) : RowQuery where
  events := expiredEvent (cutoff env)
  deliveries row := row.isFinished && decide ((row.createdAt : ℤ) < cutoff env)
  runs := oldRun (runCutoff env)

def allRows : RowQuery where
  events _ := true
  deliveries _ := true
  runs _ := true

def ofKind (kind : DeliveryKind) (row : ActionOutbox) : Bool := decide (row.deliveryKind = kind)

def RowQuery.ids (q : RowQuery) (t : RetentionTables) : PurgeLabel → List Nat
  | .events => (t.eventLog.rows.filter q.events).map EventLog.id
  | .webhookDeliveries =>
      (t.outbox.rows.filter fun row => q.deliveries row && ofKind .webhook row).map ActionOutbox.id
  | .emailEvents =>
      (t.outbox.rows.filter fun row => q.deliveries row && ofKind .email row).map ActionOutbox.id
  | .scheduledJobRuns => (t.jobRuns.rows.filter q.runs).map ScheduledJobRun.id

abbrev RowKey := PurgeLabel × Nat

def RowQuery.keys (q : RowQuery) (t : RetentionTables) : List RowKey :=
  purgeLabels.flatMap fun label => (q.ids t label).map (Prod.mk label)

def outboxKey (keys : List RowKey) (id : Nat) : Bool :=
  keys.contains (.webhookDeliveries, id) || keys.contains (.emailEvents, id)

def removeKeys (t : RetentionTables) (keys : List RowKey) : RetentionTables where
  eventLog := t.eventLog.delete fun row => keys.contains (.events, row.id)
  outbox := t.outbox.delete fun row => outboxKey keys row.id
  attempts := t.attempts.filter fun a => !outboxKey keys a.1
  jobRuns := t.jobRuns.delete fun run => keys.contains (.scheduledJobRuns, run.id)
  owned := by
    intro a ha
    obtain ⟨hmem, hkept⟩ := List.mem_filter.mp ha
    obtain ⟨row, hrow, hid⟩ := t.owned a hmem
    refine ⟨row, ?_, hid⟩
    rw [Table.rows_delete, List.mem_filter, hid]
    exact ⟨hrow, hkept⟩

section Keys

variable {q : RowQuery} {t : RetentionTables} {keys others : List RowKey} {label : PurgeLabel}
  {id : Nat} {env : RetentionEnv}

theorem mem_keys : (label, id) ∈ q.keys t ↔ id ∈ q.ids t label := by
  unfold RowQuery.keys
  rw [List.mem_flatMap]
  constructor
  · rintro ⟨other, -, hmem⟩
    obtain ⟨found, hfound, heq⟩ := List.mem_map.mp hmem
    cases heq
    exact hfound
  · intro h
    exact ⟨label, by cases label <;> simp [purgeLabels], List.mem_map_of_mem h⟩

theorem nodup_ids {ρ : Type} {key : ρ → Nat} (t : Table ρ fun a b => key a = key b)
    (p : ρ → Bool) : ((t.rows.filter p).map key).Nodup := by
  rw [List.nodup_iff_pairwise_ne, List.pairwise_map]
  exact t.unique.filter p

theorem nodup_ids_label (q : RowQuery) (t : RetentionTables) (label : PurgeLabel) :
    (q.ids t label).Nodup := by
  cases label with
  | events => exact nodup_ids t.eventLog q.events
  | webhookDeliveries | emailEvents => exact nodup_ids t.outbox _
  | scheduledJobRuns => exact nodup_ids t.jobRuns q.runs

theorem nodup_keys (q : RowQuery) (t : RetentionTables) : (q.keys t).Nodup := by
  unfold RowQuery.keys
  rw [List.nodup_flatMap]
  constructor
  · intro label _
    exact (nodup_ids_label q t label).map (Prod.mk_right_injective label)
  · have hlabels : purgeLabels.Nodup := by decide
    refine hlabels.imp ?_
    intro a b hne key ha hb
    obtain ⟨id, -, rfl⟩ := List.mem_map.mp ha
    obtain ⟨id', -, heq⟩ := List.mem_map.mp hb
    exact hne (congrArg Prod.fst heq).symm

theorem asked_of_key {ρ : Type} {key : ρ → Nat} (table : Table ρ fun a b => key a = key b)
    {p : ρ → Bool} {row : ρ} (hrow : row ∈ table.rows)
    (h : key row ∈ (table.rows.filter p).map key) : p row = true := by
  obtain ⟨other, hother, hkey⟩ := List.mem_map.mp h
  obtain ⟨hmem, hp⟩ := List.mem_filter.mp hother
  have : Std.Symm fun a b : ρ => key a = key b := ⟨fun _ _ h => h.symm⟩
  rw [← table.eq_of_clash hmem hrow hkey]
  exact hp

theorem kind_of_mem_keys (h : keys ⊆ q.keys t) {row : ActionOutbox} (hrow : row ∈ t.outbox.rows) :
    ((.webhookDeliveries, row.id) ∈ keys → q.deliveries row = true ∧ row.deliveryKind = .webhook) ∧
      ((.emailEvents, row.id) ∈ keys → q.deliveries row = true ∧ row.deliveryKind = .email) := by
  constructor
  all_goals
    intro hkey
    have hasked := asked_of_key t.outbox hrow (mem_keys.mp (h hkey))
    simpa [ofKind] using hasked

theorem filter_outboxKey (h : keys ⊆ q.keys t) (kind : DeliveryKind) (label : PurgeLabel)
    (hlabel : kind = .webhook ∧ label = .webhookDeliveries ∨
      kind = .email ∧ label = .emailEvents) :
    (t.outbox.rows.filter fun row => !outboxKey keys row.id).filter
        (fun row => q.deliveries row && ofKind kind row) =
      (t.outbox.rows.filter fun row => q.deliveries row && ofKind kind row).filter
        fun row => !keys.contains (label, row.id) := by
  rw [List.filter_filter, List.filter_filter]
  apply List.filter_congr
  intro row hrow
  obtain ⟨hwebhook, hemail⟩ := kind_of_mem_keys h hrow
  rw [Bool.and_comm]
  by_cases hasked : (q.deliveries row && ofKind kind row) = true
  · have hkind : row.deliveryKind = kind := by
      simpa [ofKind] using (Bool.and_eq_true_iff.mp hasked).2
    rw [hasked, Bool.and_true, Bool.and_true]
    rcases hlabel with ⟨rfl, rfl⟩ | ⟨rfl, rfl⟩
    · have hother : (PurgeLabel.emailEvents, row.id) ∉ keys := by
        intro hmem
        rw [hkind] at hemail
        exact absurd (hemail hmem).2 (by decide)
      simp [outboxKey, hother]
    · have hother : (PurgeLabel.webhookDeliveries, row.id) ∉ keys := by
        intro hmem
        rw [hkind] at hwebhook
        exact absurd (hwebhook hmem).2 (by decide)
      simp [outboxKey, hother]
  · rw [Bool.not_eq_true] at hasked
    rw [hasked, Bool.and_false, Bool.and_false]

theorem ids_removeKeys (h : keys ⊆ q.keys t) (label : PurgeLabel) :
    q.ids (removeKeys t keys) label =
      (q.ids t label).filter fun id => !keys.contains (label, id) := by
  cases label with
  | events | scheduledJobRuns =>
      simp only [RowQuery.ids, removeKeys, Table.rows_delete, List.filter_map,
        List.filter_filter, Function.comp_def, Bool.and_comm]
  | webhookDeliveries =>
      simp only [RowQuery.ids, removeKeys, Table.rows_delete]
      rw [filter_outboxKey h .webhook .webhookDeliveries (.inl ⟨rfl, rfl⟩), List.filter_map]
      rfl
  | emailEvents =>
      simp only [RowQuery.ids, removeKeys, Table.rows_delete]
      rw [filter_outboxKey h .email .emailEvents (.inr ⟨rfl, rfl⟩), List.filter_map]
      rfl

theorem keys_removeKeys (h : keys ⊆ q.keys t) :
    q.keys (removeKeys t keys) = (q.keys t).filter fun key => !keys.contains key := by
  simp only [RowQuery.keys, List.filter_flatMap, ids_removeKeys h, List.filter_map]
  rfl

theorem RetentionTables.eq_of_rows {t t' : RetentionTables}
    (hevents : t.eventLog.rows = t'.eventLog.rows) (houtbox : t.outbox.rows = t'.outbox.rows)
    (hattempts : t.attempts = t'.attempts) (hruns : t.jobRuns.rows = t'.jobRuns.rows) :
    t = t' := by
  obtain ⟨⟨events, _⟩, ⟨outbox, _⟩, attempts, ⟨runs, _⟩, _⟩ := t
  obtain ⟨⟨events', _⟩, ⟨outbox', _⟩, attempts', ⟨runs', _⟩, _⟩ := t'
  cases hevents
  cases houtbox
  cases hattempts
  cases hruns
  rfl

theorem removeKeys_nil (t : RetentionTables) : removeKeys t [] = t := by
  apply RetentionTables.eq_of_rows <;> simp [removeKeys, outboxKey]

theorem removeKeys_removeKeys (t : RetentionTables) (keys others : List RowKey) :
    removeKeys (removeKeys t keys) others = removeKeys t (keys ++ others) := by
  apply RetentionTables.eq_of_rows <;>
    simp only [removeKeys, outboxKey, Table.rows_delete, List.filter_filter] <;>
    apply List.filter_congr <;> intro row _ <;>
    simp only [List.contains_append, Bool.not_or] <;> ac_rfl

theorem removeKeys_congr (t : RetentionTables) (keys others : List RowKey)
    (h : ∀ key, key ∈ keys ↔ key ∈ others) : removeKeys t keys = removeKeys t others := by
  have hcontains : ∀ key, keys.contains key = others.contains key := by
    intro key
    rw [Bool.eq_iff_iff, List.contains_iff_mem, List.contains_iff_mem]
    exact h key
  apply RetentionTables.eq_of_rows <;> simp only [removeKeys, outboxKey, hcontains]

def RowQuery.removal (q : RowQuery) : Removal RetentionTables RowKey where
  found := q.keys
  remove := removeKeys
  nodup := nodup_keys q
  found_remove _ _ h := keys_removeKeys h
  remove_nil := removeKeys_nil
  remove_remove := removeKeys_removeKeys
  remove_congr := removeKeys_congr

end Keys

/-! ## One loop -/

section Loops

variable {w : BatchEnv} {env : RetentionEnv} {label : PurgeLabel} {batchSize : Nat}
  {deadline : Option ℚ} {t : RetentionTables} {readings deleted : Nat}

theorem expiredIds_eq : expiredIds env t label = (expiredRows env).ids t label := by
  cases label with
  | events | scheduledJobRuns => rfl
  | webhookDeliveries | emailEvents =>
      simp only [expiredIds, RowQuery.ids]
      congr 1
      apply List.filter_congr
      intro row _
      simp only [expiredDelivery, expiredRows, ofKind]
      ac_rfl

theorem deleteIds_eq (ids : List Nat) :
    t.deleteIds ids label = removeKeys t (ids.map (Prod.mk label)) := by
  cases label <;> apply RetentionTables.eq_of_rows <;>
    simp [RetentionTables.deleteIds, RetentionTables.deleteEvents, RetentionTables.deleteOutbox,
      RetentionTables.deleteRuns, removeKeys, outboxKey]

theorem removes_batch :
    (expiredRows env).removal.Removes t
      (t.deleteIds (batchIds w env label batchSize t readings) label)
      ((batchIds w env label batchSize t readings).map (Prod.mk label)) where
  nodup := by
    apply List.Nodup.map (Prod.mk_right_injective label)
    apply List.Nodup.sublist (List.take_sublist _ _)
    rw [(w.scan_perm _ _).nodup_iff, expiredIds_eq]
    exact nodup_ids_label _ t label
  found := by
    intro key hkey
    obtain ⟨id, hid, rfl⟩ := List.mem_map.mp hkey
    apply mem_keys.mpr
    rw [← expiredIds_eq]
    exact mem_of_mem_batchIds hid
  state := deleteIds_eq _

theorem expiredIds_eq_nil (hsize : 0 < batchSize)
    (h : batchIds w env label batchSize t readings = []) : expiredIds env t label = [] := by
  rcases List.take_eq_nil_iff.mp h with hzero | hscan
  · omega
  · exact List.Perm.eq_nil (hscan ▸ (w.scan_perm readings (expiredIds env t label)).symm)

/-- What a loop that starts with `deleted` rows has deleted when it ends. -/
theorem deleteInBatches_spec (result : BatchResult)
    (h : deleteInBatches w env label batchSize deadline t readings deleted = result) :
    ∃ ids : List Nat, (expiredRows env).removal.Removes t result.tables (ids.map (Prod.mk label)) ∧
      result.deleted = deleted + ids.length ∧
      (result.finished = true → 0 < batchSize → expiredIds env result.tables label = []) := by
  induction t, readings, deleted using deleteInBatches.induct w env label batchSize deadline with
  | case1 t readings deleted hlate =>
      rw [deleteInBatches, if_pos hlate] at h
      subst h
      exact ⟨[], Removal.removes_refl t, rfl, by simp⟩
  | case2 t readings deleted hlate hids =>
      rw [deleteInBatches, if_neg hlate, dif_pos hids] at h
      subst h
      exact ⟨[], Removal.removes_refl t, rfl, fun _ hsize => expiredIds_eq_nil hsize hids⟩
  | case3 t readings deleted hlate hids ih =>
      rw [deleteInBatches, if_neg hlate, dif_neg hids] at h
      obtain ⟨ids, hremoves, hcount, hdone⟩ := ih h
      refine ⟨batchIds w env label batchSize t readings ++ ids, ?_, ?_, hdone⟩
      · rw [List.map_append]
        exact removes_batch.trans hremoves
      · rw [hcount, List.length_append]
        omega

theorem finished_of_no_deadline :
    (deleteInBatches w env label batchSize none t readings deleted).finished = true := by
  induction t, readings, deleted using deleteInBatches.induct w env label batchSize none with
  | case1 t readings deleted hlate => simp at hlate
  | case2 t readings deleted hlate hids => rw [deleteInBatches, if_neg hlate, dif_pos hids]
  | case3 t readings deleted hlate hids ih =>
      rw [deleteInBatches, if_neg hlate, dif_neg hids]
      exact ih

/-! ## One run -/

def ofLabel (label : PurgeLabel) (key : RowKey) : Bool := decide (key.1 = label)

theorem countP_labelled (ids : List Nat) (other : PurgeLabel) :
    (ids.map (Prod.mk label)).countP (ofLabel other) =
      if other = label then ids.length else 0 := by
  rw [List.countP_map]
  split
  · rename_i hsame
    rw [List.countP_eq_length]
    intro id _
    simp [ofLabel, hsame]
  · rename_i hother
    rw [List.countP_eq_zero]
    intro id _
    simpa [ofLabel] using Ne.symm hother

theorem countP_keys (q : RowQuery) (t : RetentionTables) (label : PurgeLabel) :
    (q.keys t).countP (ofLabel label) = (q.ids t label).length := by
  simp only [RowQuery.keys, purgeLabels, List.flatMap_cons, List.flatMap_nil, List.append_nil,
    List.countP_append, countP_labelled]
  cases label <;> simp

theorem expiredIds_of_removes {t' : RetentionTables} {keys : List RowKey}
    (h : (expiredRows env).removal.Removes t t' keys) (hdone : expiredIds env t label = []) :
    expiredIds env t' label = [] := by
  rw [expiredIds_eq] at hdone ⊢
  rw [List.eq_nil_iff_forall_not_mem]
  intro id hid
  have hmem := (h.mem_found.mp (mem_keys.mpr hid)).1
  exact List.ne_nil_of_mem (mem_keys.mp hmem) hdone

theorem update_counts {counts : PurgeLabel → Nat} (hzero : counts label = 0) (ids : List Nat)
    (l : PurgeLabel) : Function.update counts label ids.length l =
      counts l + (ids.map (Prod.mk label)).countP (ofLabel l) := by
  rw [countP_labelled]
  by_cases hl : l = label
  · subst hl
    rw [Function.update_self, if_pos rfl, hzero, Nat.zero_add]
  · rw [Function.update_of_ne hl, if_neg hl, Nat.add_zero]

theorem purgeTargets_spec (hsize : 0 < batchSize) {labels : List PurgeLabel}
    (hnodup : labels.Nodup) {counts : PurgeLabel → Nat} (hzero : ∀ l ∈ labels, counts l = 0)
    (result : PurgeResult)
    (h : purgeTargets w env batchSize deadline labels counts t readings = result) :
    ∃ keys : List RowKey, (expiredRows env).removal.Removes t result.tables keys ∧
      (∀ l, result.stats.counts l = counts l + keys.countP (ofLabel l)) ∧
      (result.stats.complete = true → ∀ l ∈ labels, expiredIds env result.tables l = []) := by
  induction labels generalizing counts t readings with
  | nil =>
      subst h
      exact ⟨[], Removal.removes_refl t, fun _ => rfl, fun _ l hl => by cases hl⟩
  | cons label labels ih =>
      obtain ⟨hnew, hnodup⟩ := List.nodup_cons.mp hnodup
      rw [List.forall_mem_cons] at hzero
      obtain ⟨ids, hremoves, hcount, hdone⟩ := deleteInBatches_spec
        (deleteInBatches w env label batchSize deadline t readings 0) rfl
      have hcounts : ∀ l, Function.update counts label
          (deleteInBatches w env label batchSize deadline t readings 0).deleted l =
            counts l + (ids.map (Prod.mk label)).countP (ofLabel l) := by
        rw [hcount, Nat.zero_add]
        exact update_counts hzero.1 ids
      simp only [purgeTargets] at h
      split at h
      · rename_i hfinished
        have hzero' : ∀ l ∈ labels, Function.update counts label
            (deleteInBatches w env label batchSize deadline t readings 0).deleted l = 0 := by
          intro l hl
          rw [Function.update_of_ne (by rintro rfl; exact hnew hl)]
          exact hzero.2 l hl
        obtain ⟨keys, hrest, hlater, hnone⟩ := ih hnodup hzero' h
        refine ⟨ids.map (Prod.mk label) ++ keys, hremoves.trans hrest, ?_, ?_⟩
        · intro l
          rw [hlater l, hcounts l, List.countP_append]
          omega
        · intro hcomplete l hl
          rcases List.mem_cons.mp hl with rfl | hl
          · exact expiredIds_of_removes hrest (hdone hfinished hsize)
          · exact hnone hcomplete l hl
      · subst h
        refine ⟨ids.map (Prod.mk label), hremoves, hcounts, ?_⟩
        intro hcomplete
        cases hcomplete

def Purges (env : RetentionEnv) (t t' : RetentionTables) (counts : PurgeLabel → Nat) : Prop :=
  ∃ keys : List RowKey, (expiredRows env).removal.Removes t t' keys ∧
    ∀ l, counts l = keys.countP (ofLabel l)

structure NoneExpired (env : RetentionEnv) (t : RetentionTables) : Prop where
  events : ∀ row ∈ t.eventLog.rows, ¬(row.createdAt : ℤ) < cutoff env
  deliveries : ∀ row ∈ t.outbox.rows, row.status = .delivered ∨ row.status = .dead →
    ¬(row.createdAt : ℤ) < cutoff env
  runs : ∀ run ∈ t.jobRuns.rows, ¬(run.startedAt : ℤ) < runCutoff env

theorem purges_of_run (hsize : 0 < batchSize) (maxSeconds : Option ℚ) :
    Purges env t (purgeExpiredData w env batchSize maxSeconds false t).tables
        (purgeExpiredData w env batchSize maxSeconds false t).stats.counts ∧
      ((purgeExpiredData w env batchSize maxSeconds false t).stats.complete = true →
        (expiredRows env).keys
          (purgeExpiredData w env batchSize maxSeconds false t).tables = []) := by
  obtain ⟨keys, hremoves, hcounts, hdone⟩ := purgeTargets_spec hsize (by decide)
    (fun l _ => rfl) (purgeExpiredData w env batchSize maxSeconds false t) rfl
  refine ⟨⟨keys, hremoves, fun l => by rw [hcounts l, Nat.zero_add]⟩, ?_⟩
  intro hcomplete
  unfold RowQuery.keys
  rw [List.flatMap_eq_nil_iff]
  intro l hl
  rw [← expiredIds_eq, hdone hcomplete l hl, List.map_nil]

end Loops

/-! ## What a run means for the rows -/

/-- Rows are only taken away, and only expired ones; an attempt goes with its delivery. -/
structure OnlyExpired (env : RetentionEnv) (t t' : RetentionTables) : Prop where
  eventLog : t'.eventLog.rows.Sublist t.eventLog.rows
  outbox : t'.outbox.rows.Sublist t.outbox.rows
  jobRuns : t'.jobRuns.rows.Sublist t.jobRuns.rows
  events : ∀ row ∈ t.eventLog.rows, row ∉ t'.eventLog.rows → (row.createdAt : ℤ) < cutoff env
  deliveries : ∀ row ∈ t.outbox.rows, row ∉ t'.outbox.rows →
    (row.status = .delivered ∨ row.status = .dead) ∧ (row.createdAt : ℤ) < cutoff env
  runs : ∀ run ∈ t.jobRuns.rows, run ∉ t'.jobRuns.rows → (run.startedAt : ℤ) < runCutoff env
  attempts : t'.attempts.Sublist t.attempts
  attemptsKept : ∀ a ∈ t.attempts, a ∈ t'.attempts ↔ ∃ row ∈ t'.outbox.rows, row.id = a.1

def rowCount (t : RetentionTables) : PurgeLabel → Nat
  | .events => t.eventLog.rows.length
  | .webhookDeliveries => t.outbox.rows.countP (ofKind .webhook)
  | .emailEvents => t.outbox.rows.countP (ofKind .email)
  | .scheduledJobRuns => t.jobRuns.rows.length

section Meaning

variable {env : RetentionEnv} {t t' t₁ : RetentionTables} {keys : List RowKey}
  {counts counts₁ : PurgeLabel → Nat} {label : PurgeLabel}

theorem length_ids_allRows : (allRows.ids t label).length = rowCount t label := by
  cases label <;>
    simp [RowQuery.ids, allRows, rowCount, List.countP_eq_length_filter]

theorem ids_subset_allRows : (expiredRows env).keys t ⊆ allRows.keys t := by
  rintro ⟨label, id⟩ hkey
  rw [mem_keys] at hkey ⊢
  cases label <;>
    simp only [RowQuery.ids, List.mem_map, List.mem_filter] at hkey ⊢ <;>
    obtain ⟨row, ⟨hrow, hasked⟩, hid⟩ := hkey <;>
    refine ⟨row, ⟨hrow, ?_⟩, hid⟩ <;>
    simp_all [allRows]

theorem removes_allRows (h : (expiredRows env).removal.Removes t t' keys) :
    allRows.removal.Removes t t' keys where
  nodup := h.nodup
  found := fun _ hkey => ids_subset_allRows (h.found hkey)
  state := h.state

theorem counts_of_purges (h : Purges env t t' counts) (label : PurgeLabel) :
    counts label + rowCount t' label = rowCount t label := by
  obtain ⟨keys, hremoves, hcounts⟩ := h
  have hrows := (removes_allRows hremoves).countP_found (ofLabel label)
  simp only [RowQuery.removal, countP_keys, length_ids_allRows] at hrows
  rw [hcounts label, hrows]

theorem purges_refl : Purges env t t fun _ => 0 :=
  ⟨[], Removal.removes_refl t, fun _ => rfl⟩

theorem Purges.trans (h : Purges env t t₁ counts) (h' : Purges env t₁ t' counts₁) :
    Purges env t t' fun l => counts l + counts₁ l := by
  obtain ⟨keys, hremoves, hcounts⟩ := h
  obtain ⟨keys', hremoves', hcounts'⟩ := h'
  refine ⟨keys ++ keys', hremoves.trans hremoves', ?_⟩
  intro l
  change counts l + counts₁ l = _
  rw [List.countP_append, hcounts l, hcounts' l]

theorem counts_of_done (h : Purges env t t' counts) (hdone : (expiredRows env).keys t' = [])
    (label : PurgeLabel) : counts label = (expiredIds env t label).length := by
  obtain ⟨keys, hremoves, hcounts⟩ := h
  have hfound := hremoves.countP_found (ofLabel label)
  simp only [RowQuery.removal, hdone, List.countP_nil, Nat.add_zero, countP_keys] at hfound
  rw [hcounts label, hfound, expiredIds_eq]

theorem tables_unique {t₂ : RetentionTables} {counts₂ : PurgeLabel → Nat}
    (h₁ : Purges env t t₁ counts₁) (h₂ : Purges env t t₂ counts₂)
    (hdone₁ : (expiredRows env).keys t₁ = []) (hdone₂ : (expiredRows env).keys t₂ = []) :
    t₁ = t₂ := by
  obtain ⟨keys₁, hremoves₁, -⟩ := h₁
  obtain ⟨keys₂, hremoves₂, -⟩ := h₂
  exact hremoves₁.state_unique hremoves₂ hdone₁ hdone₂

theorem noneExpired_of_done (h : (expiredRows env).keys t = []) : NoneExpired env t := by
  have hnone : ∀ label id, id ∉ (expiredRows env).ids t label := by
    intro label id hid
    exact List.ne_nil_of_mem (mem_keys.mpr hid) h
  refine ⟨?_, ?_, ?_⟩
  · intro row hrow hold
    apply hnone .events row.id
    exact List.mem_map_of_mem (List.mem_filter.mpr ⟨hrow, by simpa [expiredRows, expiredEvent]⟩)
  · intro row hrow hfinished hold
    cases hkind : row.deliveryKind with
    | webhook =>
        apply hnone .webhookDeliveries row.id
        apply List.mem_map_of_mem
        simp [hrow, expiredRows, ActionOutbox.isFinished, hfinished, hold, ofKind, hkind]
    | email =>
        apply hnone .emailEvents row.id
        apply List.mem_map_of_mem
        simp [hrow, expiredRows, ActionOutbox.isFinished, hfinished, hold, ofKind, hkind]
  · intro run hrun hold
    apply hnone .scheduledJobRuns run.id
    exact List.mem_map_of_mem (List.mem_filter.mpr ⟨hrun, by simpa [expiredRows, oldRun]⟩)

theorem onlyExpired_of_purges (h : Purges env t t' counts) : OnlyExpired env t t' := by
  obtain ⟨keys, hremoves, -⟩ := h
  have hstate : t' = removeKeys t keys := hremoves.state
  have hfound : keys ⊆ (expiredRows env).keys t := hremoves.found
  subst hstate
  refine ⟨List.filter_sublist, List.filter_sublist, List.filter_sublist, ?_, ?_, ?_,
    List.filter_sublist, ?_⟩
  · intro row hrow hgone
    have hkey : (PurgeLabel.events, row.id) ∈ keys := by
      simpa [removeKeys, hrow] using hgone
    have hold := asked_of_key t.eventLog hrow (mem_keys.mp (hfound hkey))
    simpa [expiredRows, expiredEvent] using hold
  · intro row hrow hgone
    obtain ⟨hwebhook, hemail⟩ := kind_of_mem_keys hfound hrow
    have hkey : (PurgeLabel.webhookDeliveries, row.id) ∈ keys ∨
        (PurgeLabel.emailEvents, row.id) ∈ keys := by
      rw [or_iff_not_imp_left]
      simpa [removeKeys, outboxKey, hrow] using hgone
    have hold : (expiredRows env).deliveries row = true := by
      rcases hkey with hkey | hkey
      · exact (hwebhook hkey).1
      · exact (hemail hkey).1
    simpa [expiredRows, ActionOutbox.isFinished] using hold
  · intro run hrun hgone
    have hkey : (PurgeLabel.scheduledJobRuns, run.id) ∈ keys := by
      simpa [removeKeys, hrun] using hgone
    have hold := asked_of_key t.jobRuns hrun (mem_keys.mp (hfound hkey))
    simpa [expiredRows, oldRun] using hold
  · intro a ha
    constructor
    · exact (removeKeys t keys).owned a
    · rintro ⟨row, hrow, hid⟩
      have hkept : (!outboxKey keys row.id) = true := (List.mem_filter.mp hrow).2
      rw [hid] at hkept
      exact List.mem_filter.mpr ⟨ha, hkept⟩

end Meaning

/-! ## Runs one after the other -/

structure PurgeRun where
  world : BatchEnv
  batchSize : Nat
  maxSeconds : Option ℚ
  one_le_batchSize : 1 ≤ batchSize

def PurgeRun.result (run : PurgeRun) (env : RetentionEnv) (t : RetentionTables) : PurgeResult :=
  purgeExpiredData run.world env run.batchSize run.maxSeconds false t

structure RunsResult where
  counts : PurgeLabel → Nat
  tables : RetentionTables

def afterRuns (env : RetentionEnv) (t : RetentionTables) : List PurgeRun → RunsResult
  | [] => ⟨fun _ => 0, t⟩
  | run :: runs =>
      let result := run.result env t
      let rest := afterRuns env result.tables runs
      ⟨fun l => result.stats.counts l + rest.counts l, rest.tables⟩

section Runs

variable {env : RetentionEnv} {t : RetentionTables}

theorem purges_of_runs (runs : List PurgeRun) :
    Purges env t (afterRuns env t runs).tables (afterRuns env t runs).counts := by
  induction runs generalizing t with
  | nil => exact purges_refl
  | cons run runs ih => exact (purges_of_run run.one_le_batchSize run.maxSeconds).1.trans ih

theorem purgeTargets_complete {w : BatchEnv} {batchSize readings : Nat}
    {labels : List PurgeLabel} {counts : PurgeLabel → Nat} :
    (purgeTargets w env batchSize none labels counts t readings).stats.complete = true := by
  induction labels generalizing counts t readings with
  | nil => rfl
  | cons label labels ih =>
      simp only [purgeTargets, finished_of_no_deadline]
      exact ih

theorem complete_of_no_limit {run : PurgeRun} (h : run.maxSeconds = none) :
    (run.result env t).stats.complete = true := by
  rw [PurgeRun.result, h]
  exact purgeTargets_complete

/--
A run deletes only expired rows, counts what it deletes of each label, and if it
is complete leaves none.  Runs at one instant of which the last is complete end
where one complete run does and have deleted as much together.  A dry run counts
what a complete run would, as a run without a time limit is, and deletes nothing.
-/
theorem purge_spec (env : RetentionEnv) (t : RetentionTables) :
    (∀ run : PurgeRun, OnlyExpired env t (run.result env t).tables ∧
      (∀ l, (run.result env t).stats.counts l + rowCount (run.result env t).tables l =
        rowCount t l) ∧
      ((run.result env t).stats.complete = true → NoneExpired env (run.result env t).tables)) ∧
    (∀ (runs : List PurgeRun) (last whole : PurgeRun),
      (last.result env (afterRuns env t runs).tables).stats.complete = true →
      (whole.result env t).stats.complete = true →
      (last.result env (afterRuns env t runs).tables).tables = (whole.result env t).tables ∧
      ∀ l, (afterRuns env t runs).counts l +
          (last.result env (afterRuns env t runs).tables).stats.counts l =
        (whole.result env t).stats.counts l) ∧
    (∀ run : PurgeRun, run.maxSeconds = none → (run.result env t).stats.complete = true) ∧
    ∀ (w : BatchEnv) (batchSize : Nat) (maxSeconds : Option ℚ),
      (purgeExpiredData w env batchSize maxSeconds true t).tables = t ∧
      (purgeExpiredData w env batchSize maxSeconds true t).stats.complete = true ∧
      ∀ run : PurgeRun, (run.result env t).stats.complete = true →
        (purgeExpiredData w env batchSize maxSeconds true t).stats.counts =
          (run.result env t).stats.counts := by
  have hrun : ∀ (t : RetentionTables) (run : PurgeRun),
      Purges env t (run.result env t).tables (run.result env t).stats.counts ∧
        ((run.result env t).stats.complete = true →
          (expiredRows env).keys (run.result env t).tables = []) :=
    fun t run => purges_of_run run.one_le_batchSize run.maxSeconds
  refine ⟨?_, ?_, ?_, ?_⟩
  · intro run
    obtain ⟨hpurges, hdone⟩ := hrun t run
    exact ⟨onlyExpired_of_purges hpurges, counts_of_purges hpurges,
      fun hcomplete => noneExpired_of_done (hdone hcomplete)⟩
  · intro runs last whole hlast hwhole
    obtain ⟨hpurges, hdone⟩ := hrun (afterRuns env t runs).tables last
    obtain ⟨hpurges', hdone'⟩ := hrun t whole
    have hall := (purges_of_runs runs).trans hpurges
    refine ⟨tables_unique hall hpurges' (hdone hlast) (hdone' hwhole), ?_⟩
    intro l
    have hcount := counts_of_done hall (hdone hlast) l
    have hcount' := counts_of_done hpurges' (hdone' hwhole) l
    exact hcount.trans hcount'.symm
  · intro run hlimit
    exact complete_of_no_limit hlimit
  · intro w batchSize maxSeconds
    refine ⟨rfl, rfl, ?_⟩
    intro run hcomplete
    obtain ⟨hpurges, hdone⟩ := hrun t run
    funext l
    exact (counts_of_done hpurges (hdone hcomplete) l).symm

end Runs

/-! ## A run -/

def slowClock : BatchEnv where
  monotonic n := if n ≤ 1 then 0 else 100
  scan _ ids := ids
  scan_perm _ _ := .refl _

def sampleRetention : RetentionEnv where
  eventLogRetentionDays := 30
  now := 40 * day

def sampleEvent (id : Nat) : EventLog := ⟨id, some 1, none, [], 0⟩

def sampleTables : RetentionTables where
  eventLog := ⟨[sampleEvent 1, sampleEvent 2], by decide⟩
  outbox := ⟨[], .nil⟩
  attempts := []
  jobRuns := ⟨[⟨1, 0⟩], by simp⟩
  owned a ha := by cases ha

def limitedRun : PurgeRun := ⟨slowClock, 1, some 10, by decide⟩

def unlimitedRun : PurgeRun := ⟨slowClock, 5, none, by decide⟩

theorem purge_spec_resumed :
    (limitedRun.result sampleRetention sampleTables).stats.complete = false ∧
      (limitedRun.result sampleRetention sampleTables).stats.counts .events = 1 ∧
      (unlimitedRun.result sampleRetention
          (afterRuns sampleRetention sampleTables [limitedRun]).tables).tables =
        (unlimitedRun.result sampleRetention sampleTables).tables := by
  have hfirst : deleteInBatches slowClock sampleRetention .events 1 (some 10) sampleTables 1 0 =
      ⟨1, false, sampleTables.deleteIds [1] .events, 3⟩ := by
    rw [deleteInBatches, if_neg (by decide), dif_neg (by decide), deleteInBatches,
      if_pos (by decide)]
    rfl
  have hresult : limitedRun.result sampleRetention sampleTables =
      ⟨⟨Function.update (fun _ => 0) .events 1, false⟩, sampleTables.deleteIds [1] .events⟩ := by
    have hdeadline : ((some (10 : ℚ)).filter fun limit => decide (limit ≠ 0)).map
        (slowClock.monotonic 0 + ·) = some 10 := by simp [slowClock]
    simp only [PurgeRun.result, purgeExpiredData, limitedRun, hdeadline, purgeLabels,
      purgeTargets, hfirst]
    rfl
  refine ⟨?_, ?_, ?_⟩
  · rw [hresult]
  · rw [hresult]
    rfl
  · obtain ⟨-, hruns, hfull, -⟩ := purge_spec sampleRetention sampleTables
    exact (hruns [limitedRun] unlimitedRun unlimitedRun (complete_of_no_limit rfl) (hfull _ rfl)).1

end StorageService.Results
