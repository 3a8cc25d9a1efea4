import StorageService.Actions.Hooks

/-!
# What the hooks write

Rules for the statements of the hooks, and from them what one event writes: its
record, a row for each rule it matches and at most one for the email service.
-/

namespace StorageService.Actions

open StorageService.Foundation
open StorageService.Foundation.Action

variable {env : HookEnv} {s s' : HookSession}

abbrev HookSession.world (s : HookSession) : Storage.World :=
  partOf storageTables storageOutside s

theorem runs_onStorage {α : Type} {x : Storage.Act α} {a : α}
    (h : (onStorage x).Runs s a s') : x.Runs s.world a s'.world ∧
      s'.db = { s.db with storage := s'.db.storage } ∧
      s'.out = { s.out with storage := s'.out.storage } := by
  obtain ⟨hrun, heq⟩ := runs_onParts.mp h
  refine ⟨hrun, ?_, ?_⟩
  · rw [heq]
    rfl
  · rw [heq]
    rfl

/-! ## Statements -/

/-- The database is as before, and outside at most a counter of the hooks has moved. -/
structure Passed (s s' : HookSession) : Prop where
  db : s'.db = s.db
  storage : s'.out.storage = s.out.storage

theorem Passed.trans {s₁ : HookSession} (h : Passed s s₁) (h' : Passed s₁ s') : Passed s s' :=
  ⟨h'.db.trans h.db, h'.storage.trans h.storage⟩

theorem runs_passStatement {u : Unit} (h : passStatement.Runs s u s') : Passed s s' := by
  simp only [passStatement, runs_bind, runs_outside] at h
  obtain ⟨out, s₁, ⟨rfl, rfl⟩, h⟩ := h
  split at h
  · simp at h
  · rw [runs_putOutside] at h
    rw [h]
    exact ⟨rfl, rfl⟩
  · rw [runs_pure] at h
    rw [h.2]
    exact ⟨rfl, rfl⟩

theorem fails_passStatement (h : passStatement.Fails s s') : s' = s := by
  simp only [passStatement, fails_bind, fails_outside, runs_outside, false_or] at h
  obtain ⟨out, s₁, ⟨rfl, rfl⟩, h⟩ := h
  split at h
  · exact fails_raise.mp h
  · simp at h
  · simp at h

theorem runs_draw {n : Nat} (h : draw.Runs s n s') : Passed s s' := by
  simp only [draw, runs_bind, runs_outside, runs_putOutside, runs_pure] at h
  obtain ⟨out, s₁, ⟨rfl, rfl⟩, _, s₂, rfl, -, rfl⟩ := h
  exact ⟨rfl, rfl⟩

theorem runs_bucketOf {obj : Storage.StorageObject} {bucket : Storage.Bucket}
    (h : (bucketOf obj).Runs s bucket s') :
    Passed s s' ∧ bucket ∈ s.db.storage.buckets.rows ∧ bucket.id = obj.bucketId := by
  simp only [bucketOf, runs_bind, runs_database, runs_ofOption] at h
  obtain ⟨_, s₁, hpass, db, s₂, ⟨rfl, rfl⟩, hbucket, rfl⟩ := h
  have hsame := runs_passStatement hpass
  rw [hsame.db] at hbucket
  have hid := List.find?_some hbucket
  exact ⟨hsame, List.mem_of_find?_eq_some hbucket, of_decide_eq_true hid⟩

/-! ## What is written -/

/-- These records, rows and ids to schedule were added, and nothing else was touched. -/
structure Logged (s : HookSession) (records : List EventRecord) (rows : List OutboxRow)
    (scheduled : List Nat) (s' : HookSession) : Prop where
  world : s'.world = s.world
  rules : s'.db.rules = s.db.rules
  eventLog : s'.db.eventLog = s.db.eventLog ++ records
  outbox : s'.db.outbox = s.db.outbox ++ rows
  onCommit : s'.db.onCommit.flatten = s.db.onCommit.flatten ++ scheduled

theorem Passed.logged (h : Passed s s') : Logged s [] [] [] s' where
  world := by
    simp only [partOf, storageTables, storageOutside, h.db, h.storage]
  rules := by rw [h.db]
  eventLog := by rw [h.db, List.append_nil]
  outbox := by rw [h.db, List.append_nil]
  onCommit := by rw [h.db, List.append_nil]

theorem Logged.trans {s₁ : HookSession} {records records' : List EventRecord}
    {rows rows' : List OutboxRow} {scheduled scheduled' : List Nat}
    (h : Logged s records rows scheduled s₁) (h' : Logged s₁ records' rows' scheduled' s') :
    Logged s (records ++ records') (rows ++ rows') (scheduled ++ scheduled') s' where
  world := h'.world.trans h.world
  rules := h'.rules.trans h.rules
  eventLog := by rw [h'.eventLog, h.eventLog, List.append_assoc]
  outbox := by rw [h'.outbox, h.outbox, List.append_assoc]
  onCommit := by rw [h'.onCommit, h.onCommit, List.append_assoc]

theorem Logged.after {s₁ : HookSession} {records : List EventRecord} {rows : List OutboxRow}
    {scheduled : List Nat} (h : Passed s s₁) (h' : Logged s₁ records rows scheduled s') :
    Logged s records rows scheduled s' := h.logged.trans h'

theorem runs_recordEvent {eventType : Text} {companyId : ℤ} {payload : List (Text × Json)}
    {actor : Option Actor} {u : Unit}
    (h : (recordEvent env eventType companyId payload actor).Runs s u s') :
    ∃ record : EventRecord, Logged s [record] [] [] s' ∧ record.companyId = some companyId ∧
      record.eventType = eventType ∧ record.userId = actorUserId actor ∧
      record.data = compactEventData env payload actor := by
  simp only [recordEvent, runs_bind, runs_outside, runs_modifyDatabase] at h
  obtain ⟨_, s₁, hpass, id, s₂, hdraw, out, s₃, ⟨rfl, rfl⟩, rfl⟩ := h
  have hpassed := (runs_passStatement hpass).trans (runs_draw hdraw)
  exact ⟨_, .after hpassed
    ⟨rfl, rfl, rfl, (List.append_nil _).symm, (List.append_nil _).symm⟩, rfl, rfl, rfl, rfl⟩

theorem runs_createOutboxRow {new : NewRow} {row : OutboxRow}
    (h : (createOutboxRow new).Runs s row s') :
    Logged s [] [row] [] s' ∧ ∃ now, row = newOutboxRow now new := by
  simp only [createOutboxRow, runs_bind, runs_outside, runs_modifyDatabase, runs_pure] at h
  obtain ⟨_, s₁, hpass, out, s₂, ⟨rfl, rfl⟩, _, s₃, rfl, rfl, rfl⟩ := h
  refine ⟨.after (runs_passStatement hpass) ?_, _, rfl⟩
  exact ⟨rfl, rfl, (List.append_nil _).symm, rfl, (List.append_nil _).symm⟩

structure RowOf (kind : DeliveryKind) (eventType : Text) (companyId : ℤ)
    (envelope : List (Text × Json)) (row : OutboxRow) : Prop where
  kind : row.deliveryKind = kind
  eventType : row.eventType = eventType
  company : row.companyId = companyId
  envelope : row.envelope = envelope
  status : row.status = .pending

theorem rowOf_newOutboxRow (now id : Nat) (companyId : ℤ) (rule : Option Nat)
    (kind : DeliveryKind) (eventType : Text) (envelope : List (Text × Json)) :
    RowOf kind eventType companyId envelope
      (newOutboxRow now ⟨id, companyId, rule, kind, eventType, envelope⟩) :=
  ⟨rfl, rfl, rfl, rfl, rfl⟩

theorem runs_createWebhookRows {eventType : Text} {companyId : ℤ}
    {envelope : List (Text × Json)} {rules : List ActionRule} {rows : List OutboxRow}
    (h : (createWebhookRows env eventType companyId envelope rules).Runs s rows s') :
    Logged s [] rows [] s' ∧
      rows.map (fun row => row.actionRule) = rules.map (fun rule => some rule.id) ∧
      ∀ row ∈ rows, RowOf .webhook eventType companyId envelope row := by
  induction rules generalizing s rows with
  | nil =>
      simp only [createWebhookRows, runs_pure] at h
      obtain ⟨rfl, rfl⟩ := h
      exact ⟨Passed.logged ⟨rfl, rfl⟩, rfl, by simp⟩
  | cons rule rules ih =>
      simp only [createWebhookRows, runs_bind, runs_pure] at h
      obtain ⟨n, s₁, hdraw, row, s₂, hrow, rest, s₃, hrest, rfl, rfl⟩ := h
      obtain ⟨hfirst, now, rfl⟩ := runs_createOutboxRow hrow
      obtain ⟨hlogged, hrules, hrows⟩ := ih hrest
      refine ⟨.after (runs_draw hdraw) (hfirst.trans hlogged), ?_, ?_⟩
      · rw [List.map_cons, List.map_cons, hrules]
        rfl
      · rw [List.forall_mem_cons]
        exact ⟨rowOf_newOutboxRow .., hrows⟩

theorem runs_enqueueEmailEvent {eventType : Text} {companyId : ℤ}
    {payload : List (Text × Json)} {actor : Option Actor} {emailRow : Option OutboxRow}
    (h : (enqueueEmailEvent env eventType companyId payload actor).Runs s emailRow s') :
    Logged s [] emailRow.toList [] s' ∧
      emailRow.isSome = emailServiceConfigured env.delivery ∧
      ∀ row ∈ emailRow, row.actionRule = none ∧
        ∃ body, RowOf .email eventType companyId body row := by
  simp only [enqueueEmailEvent, runs_ite, runs_pure, runs_bind] at h
  rcases h with ⟨hoff, rfl, rfl⟩ | ⟨hon, n, s₁, hdraw, row, s₂, hrow, rfl, rfl⟩
  · exact ⟨Passed.logged ⟨rfl, rfl⟩, by simpa using hoff, by simp⟩
  · obtain ⟨hlogged, now, rfl⟩ := runs_createOutboxRow hrow
    refine ⟨.after (runs_draw hdraw) hlogged, by simpa using hon, ?_⟩
    rintro row ⟨⟩
    exact ⟨rfl, _, rowOf_newOutboxRow ..⟩

theorem runs_scheduleOutboxDelivery {ids : List Nat} {u : Unit}
    (h : (scheduleOutboxDelivery ids).Runs s u s') : Logged s [] [] ids s' := by
  simp only [scheduleOutboxDelivery, runs_ite, runs_pure, runs_modifyDatabase] at h
  rcases h with ⟨rfl, -, rfl⟩ | ⟨-, rfl⟩
  · exact Passed.logged ⟨rfl, rfl⟩
  · exact ⟨rfl, rfl, (List.append_nil _).symm, (List.append_nil _).symm, by simp⟩

/-! ## One event -/

structure Notice where
  record : EventRecord
  webhooks : List OutboxRow
  emails : List OutboxRow

def Notice.rows (n : Notice) : List OutboxRow := n.webhooks ++ n.emails

def rulesFor (rules : List ActionRule) (eventType : Text) (companyId : ℤ) : List ActionRule :=
  rules.filter fun rule =>
    decide (rule.companyId = companyId ∧ rule.eventType = eventType ∧ rule.enabled)

/-- One record, one webhook row for each matching rule, all with the same envelope, and one
email row when the email service is configured. -/
structure Notified (env : HookEnv) (rules : List ActionRule) (eventType : Text)
    (companyId : ℤ) (payload : List (Text × Json)) (actor : Option Actor) (n : Notice) :
    Prop where
  company : n.record.companyId = some companyId
  type : n.record.eventType = eventType
  user : n.record.userId = actorUserId actor
  data : n.record.data = compactEventData env payload actor
  rules : (n.webhooks.map fun row => row.actionRule).Perm
    ((rulesFor rules eventType companyId).map fun rule => some rule.id)
  webhooks : ∃ envelope, ∀ row ∈ n.webhooks, RowOf .webhook eventType companyId envelope row
  email : n.emails.length = if emailServiceConfigured env.delivery then 1 else 0
  emails : ∀ row ∈ n.emails, row.actionRule = none ∧
    ∃ body, RowOf .email eventType companyId body row

theorem runs_createRowsFor {eventType : Text} {companyId : ℤ} {payload : List (Text × Json)}
    {actor : Option Actor} {rules : List ActionRule} {rows : List OutboxRow}
    (h : (createRowsFor env eventType companyId payload actor rules).Runs s rows s') :
    Logged s [] rows [] s' ∧
      rows.map (fun row => row.actionRule) = rules.map (fun rule => some rule.id) ∧
      ∃ envelope, ∀ row ∈ rows, RowOf .webhook eventType companyId envelope row := by
  simp only [createRowsFor, runs_ite, runs_pure, runs_bind, runs_outside] at h
  rcases h with ⟨rfl, rfl, rfl⟩ | ⟨-, n, s₁, hdraw, out, s₂, ⟨rfl, rfl⟩, hrows⟩
  · exact ⟨Passed.logged ⟨rfl, rfl⟩, rfl, [], by simp⟩
  · obtain ⟨hlogged, hrules, hnew⟩ := runs_createWebhookRows hrows
    exact ⟨.after (runs_draw hdraw) hlogged, hrules, _, hnew⟩

theorem matchingRules_perm (rules : Table ActionRule ActionRule.Clash) (eventType : Text)
    (companyId : ℤ) :
    (matchingRules rules eventType companyId).Perm (rulesFor rules.rows eventType companyId) :=
  List.perm_insertionSort _ _

theorem runs_emitKnown {eventType : Text} {companyId : ℤ} {payload : List (Text × Json)}
    {actor : Option Actor} {rows : List OutboxRow}
    (h : (emitKnown env ⟨eventType, true, true, false⟩ eventType companyId payload actor).Runs
      s rows s') :
    ∃ n : Notice, Notified env s.db.rules.rows eventType companyId payload actor n ∧
      Logged s [n.record] n.rows (n.rows.map fun row => row.id) s' := by
  simp only [emitKnown, not_true_eq_false, Bool.false_eq_true, if_false, runs_bind,
    runs_database, runs_pure] at h
  obtain ⟨_, s₁, hrecord, _, s₂, hpass, db, s₃, ⟨rfl, rfl⟩, webhooks, s₄, hrows, emailRow, s₅,
    hemail, _, s₆, hschedule, rfl, rfl⟩ := h
  obtain ⟨record, hlogged, hcompany, htype, huser, hdata⟩ := runs_recordEvent hrecord
  obtain ⟨hwebhooks, hids, henvelope⟩ := runs_createRowsFor hrows
  obtain ⟨hemails, hconfigured, hemailRow⟩ := runs_enqueueEmailEvent hemail
  have hlogged₂ := hlogged.trans (runs_passStatement hpass).logged
  have hall := ((hlogged₂.trans hwebhooks).trans hemails).trans
    (runs_scheduleOutboxDelivery hschedule)
  refine ⟨⟨record, rows, emailRow.toList⟩, ⟨hcompany, htype, huser, hdata, ?_, henvelope, ?_, ?_⟩,
    ?_⟩
  · rw [hids, ← hlogged₂.rules]
    exact (matchingRules_perm _ _ _).map _
  · rw [← hconfigured]
    cases emailRow <;> rfl
  · intro row hrow
    exact hemailRow row (by simpa using hrow)
  · simpa [Notice.rows] using hall

/-! ## Nothing is swallowed -/

def Loud (e : Storage.Failure) : Prop := swallowed e = none

theorem raising_passStatement : passStatement.Raising Loud := by
  refine Raising.bind (Raising.of_no_fails (by simp)) fun out => ?_
  split
  · exact Raising.raise rfl
  · exact Raising.of_no_fails (by simp)
  · exact Raising.of_no_fails (by simp)

theorem raising_draw : draw.Raising Loud := Raising.of_no_fails (by simp [draw])

theorem raising_recordEvent (eventType : Text) (companyId : ℤ) (payload : List (Text × Json))
    (actor : Option Actor) : (recordEvent env eventType companyId payload actor).Raising Loud :=
  raising_passStatement.bind fun _ => raising_draw.bind fun _ => Raising.of_no_fails (by simp)

theorem raising_createOutboxRow (new : NewRow) : (createOutboxRow new).Raising Loud :=
  raising_passStatement.bind fun _ => Raising.of_no_fails (by simp)

theorem raising_createWebhookRows (eventType : Text) (companyId : ℤ)
    (envelope : List (Text × Json)) (rules : List ActionRule) :
    (createWebhookRows env eventType companyId envelope rules).Raising Loud := by
  induction rules with
  | nil => exact Raising.of_no_fails (by simp [createWebhookRows])
  | cons rule rules ih =>
      refine raising_draw.bind fun n => (raising_createOutboxRow _).bind fun row => ?_
      exact ih.bind fun rows => Raising.of_no_fails (by simp)

theorem raising_createRowsFor (eventType : Text) (companyId : ℤ) (payload : List (Text × Json))
    (actor : Option Actor) (rules : List ActionRule) :
    (createRowsFor env eventType companyId payload actor rules).Raising Loud := by
  rw [createRowsFor]
  split
  · exact Raising.of_no_fails (by simp)
  · refine raising_draw.bind fun n => ?_
    refine (Raising.of_no_fails (by simp)).bind fun out => ?_
    exact raising_createWebhookRows _ _ _ _

theorem raising_enqueueEmailEvent (eventType : Text) (companyId : ℤ)
    (payload : List (Text × Json)) (actor : Option Actor) :
    (enqueueEmailEvent env eventType companyId payload actor).Raising Loud := by
  rw [enqueueEmailEvent]
  split
  · exact Raising.of_no_fails (by simp)
  · refine raising_draw.bind fun n => ?_
    exact (raising_createOutboxRow _).bind fun row => Raising.of_no_fails (by simp)

theorem raising_scheduleOutboxDelivery (ids : List Nat) :
    (scheduleOutboxDelivery ids).Raising Loud := by
  rw [scheduleOutboxDelivery]
  split <;> exact Raising.of_no_fails (by simp)

theorem raising_emitKnown (event : DomainEventType) (eventType : Text) (companyId : ℤ)
    (payload : List (Text × Json)) (actor : Option Actor) :
    (emitKnown env event eventType companyId payload actor).Raising Loud := by
  rw [emitKnown]
  split
  · exact Raising.of_no_fails (by simp)
  · refine (raising_recordEvent _ _ _ _).bind fun _ => raising_passStatement.bind fun _ => ?_
    refine (Raising.of_no_fails (by simp)).bind fun db => ?_
    refine (raising_createRowsFor _ _ _ _ _).bind fun rows => ?_
    have hrest : ∀ emailRow : Option OutboxRow,
        (do scheduleOutboxDelivery ((rows ++ emailRow.toList).map fun row => row.id)
            pure rows : HookAct (List OutboxRow)).Raising Loud := fun emailRow =>
      (raising_scheduleOutboxDelivery _).bind fun _ => Raising.of_no_fails (by simp)
    split
    · exact (Raising.of_no_fails (by simp)).bind hrest
    · exact (raising_enqueueEmailEvent _ _ _ _).bind hrest

/-- An error of a known event is not swallowed, so its transaction is rolled back. -/
theorem emitEventIfRules_eq {eventType : Text}
    (h : eventType = objectUploaded ∨ eventType = objectDeleted) (companyId : ℤ)
    (payload : List (Text × Json)) (actor : Option Actor) :
    emitEventIfRules env eventType companyId payload actor =
      emitKnown env ⟨eventType, true, true, false⟩ eventType companyId payload actor := by
  have hknown : emitEvent env eventType companyId payload actor =
      emitKnown env ⟨eventType, true, true, false⟩ eventType companyId payload actor := by
    rw [emitEvent, getEventType_object env h]
    rfl
  rw [emitEventIfRules, hknown]
  exact (raising_emitKnown _ _ _ _ _).recover fun e he => he

/-! ## Nothing is scheduled inside a transaction -/

def Unscheduled (s s' : HookSession) : Prop := s'.out.submitted = s.out.submitted

theorem unscheduled_composable : Composable Unscheduled where
  refl _ := rfl
  trans h h' := Eq.trans h' h
  rollback h := h

theorem passStatement_unscheduled : passStatement.Within Unscheduled := by
  have hR := unscheduled_composable
  intro s
  refine hR.bind_at (hR.refl s) fun out s₁ hrun => ?_
  obtain ⟨rfl, rfl⟩ := runs_outside.mp hrun
  rcases s₁.out.statements with _ | _ | n <;> rfl

theorem draw_unscheduled : draw.Within Unscheduled := fun _ => rfl

theorem write_unscheduled (f : HookTables → HookTables) :
    (modifyDatabase f : HookAct Unit).Within Unscheduled := fun _ => rfl

theorem onStorage_unscheduled {α : Type} (x : Storage.Act α) : (onStorage x).Within Unscheduled :=
  Within.onParts fun _ _ => rfl

theorem recordEvent_unscheduled (eventType : Text) (companyId : ℤ)
    (payload : List (Text × Json)) (actor : Option Actor) :
    (recordEvent env eventType companyId payload actor).Within Unscheduled := by
  have hR := unscheduled_composable
  refine Within.bind hR passStatement_unscheduled fun _ => ?_
  refine Within.bind hR draw_unscheduled fun _ => ?_
  exact Within.bind hR (Within.outside hR) fun _ => write_unscheduled _

theorem createOutboxRow_unscheduled (new : NewRow) :
    (createOutboxRow new).Within Unscheduled := by
  have hR := unscheduled_composable
  refine Within.bind hR passStatement_unscheduled fun _ => ?_
  refine Within.bind hR (Within.outside hR) fun _ => ?_
  exact Within.bind hR (write_unscheduled _) fun _ => Within.pure hR _

theorem createWebhookRows_unscheduled (eventType : Text) (companyId : ℤ)
    (envelope : List (Text × Json)) (rules : List ActionRule) :
    (createWebhookRows env eventType companyId envelope rules).Within Unscheduled := by
  have hR := unscheduled_composable
  induction rules with
  | nil => exact Within.pure hR _
  | cons rule rules ih =>
      refine Within.bind hR draw_unscheduled fun n => ?_
      refine Within.bind hR (createOutboxRow_unscheduled _) fun row => ?_
      exact Within.bind hR ih fun rows => Within.pure hR _

theorem createRowsFor_unscheduled (eventType : Text) (companyId : ℤ)
    (payload : List (Text × Json)) (actor : Option Actor) (rules : List ActionRule) :
    (createRowsFor env eventType companyId payload actor rules).Within Unscheduled := by
  have hR := unscheduled_composable
  refine Within.ite (Within.pure hR _) (Within.bind hR draw_unscheduled fun n => ?_)
  exact Within.bind hR (Within.outside hR) fun out => createWebhookRows_unscheduled _ _ _ _

theorem enqueueEmailEvent_unscheduled (eventType : Text) (companyId : ℤ)
    (payload : List (Text × Json)) (actor : Option Actor) :
    (enqueueEmailEvent env eventType companyId payload actor).Within Unscheduled := by
  have hR := unscheduled_composable
  refine Within.ite (Within.pure hR _) (Within.bind hR draw_unscheduled fun n => ?_)
  exact Within.bind hR (createOutboxRow_unscheduled _) fun row => Within.pure hR _

theorem scheduleOutboxDelivery_unscheduled (ids : List Nat) :
    (scheduleOutboxDelivery ids).Within Unscheduled :=
  Within.ite (Within.pure unscheduled_composable _) (write_unscheduled _)

theorem emitKnown_unscheduled (event : DomainEventType) (eventType : Text) (companyId : ℤ)
    (payload : List (Text × Json)) (actor : Option Actor) :
    (emitKnown env event eventType companyId payload actor).Within Unscheduled := by
  have hR := unscheduled_composable
  refine Within.ite (Within.pure hR _) ?_
  refine Within.bind hR (recordEvent_unscheduled _ _ _ _) fun _ => ?_
  refine Within.bind hR passStatement_unscheduled fun _ => ?_
  refine Within.bind hR (Within.database hR) fun db => ?_
  refine Within.bind hR (createRowsFor_unscheduled _ _ _ _ _) fun rows => ?_
  have hrest : ∀ emailRow : Option OutboxRow,
      (do scheduleOutboxDelivery ((rows ++ emailRow.toList).map fun row => row.id)
          pure rows : HookAct (List OutboxRow)).Within Unscheduled := fun emailRow =>
    Within.bind hR (scheduleOutboxDelivery_unscheduled _) fun _ => Within.pure hR _
  split
  · exact Within.bind hR (Within.pure hR _) hrest
  · exact Within.bind hR (enqueueEmailEvent_unscheduled _ _ _ _) hrest

theorem bucketOf_unscheduled (obj : Storage.StorageObject) :
    (bucketOf obj).Within Unscheduled := by
  have hR := unscheduled_composable
  refine Within.bind hR passStatement_unscheduled fun _ => ?_
  exact Within.bind hR (Within.database hR) fun db => Within.ofOption hR _ _

/-! ## The receivers -/

theorem actionsOnObjectUploaded_unscheduled (actor : Option Actor) (obj : Storage.StorageObject)
    (created : Bool) : (actionsOnObjectUploaded env actor obj created).Within Unscheduled := by
  have hR := unscheduled_composable
  refine Within.ite (Within.pure hR _) (Within.bind hR (bucketOf_unscheduled obj) fun bucket => ?_)
  rw [emitEventIfRules_eq (.inl rfl)]
  exact Within.bind hR (emitKnown_unscheduled _ _ _ _ _) fun _ => Within.pure hR _

theorem actionsOnObjectDeleted_unscheduled (actor : Option Actor) (bucket : Storage.Bucket)
    (obj : Storage.StorageObject) :
    (actionsOnObjectDeleted env actor bucket obj).Within Unscheduled := by
  have hR := unscheduled_composable
  refine Within.ite (Within.pure hR _) ?_
  rw [emitEventIfRules_eq (.inr rfl)]
  exact Within.bind hR (emitKnown_unscheduled _ _ _ _ _) fun _ => Within.pure hR _

/-! ## The operations -/

namespace Hooks

theorem uploadObject_unscheduled (actor : Option Actor) (u : Storage.Upload) :
    (uploadObject env actor u).Within Unscheduled := by
  have hR := unscheduled_composable
  refine Within.atomic hR (Within.bind hR (Within.database hR) fun db => ?_)
  refine Within.bind hR (onStorage_unscheduled _) fun obj => ?_
  exact Within.bind hR (actionsOnObjectUploaded_unscheduled _ _ _) fun _ => Within.pure hR _

theorem copyObject_unscheduled (actor : Option Actor) (bucket : Storage.Bucket) (source : Text)
    (destBucket : Storage.Bucket) (dest : Text) (ownerId : Option Nat) :
    (copyObject env actor bucket source destBucket dest ownerId).Within Unscheduled := by
  have hR := unscheduled_composable
  refine Within.atomic hR (Within.bind hR (onStorage_unscheduled _) fun obj => ?_)
  exact Within.bind hR (actionsOnObjectUploaded_unscheduled _ _ _) fun _ => Within.pure hR _

theorem deleteObject_unscheduled (actor : Option Actor) (obj : Storage.StorageObject) :
    (deleteObject env actor obj).Within Unscheduled := by
  have hR := unscheduled_composable
  refine Within.atomic hR (Within.bind hR (bucketOf_unscheduled obj) fun bucket => ?_)
  refine Within.bind hR (onStorage_unscheduled _) fun _ => ?_
  exact actionsOnObjectDeleted_unscheduled _ _ _

theorem deleteChecked_unscheduled (actor : Option Actor) (bucket : Storage.Bucket)
    (principal : Storage.StoragePrincipal) (objs : List Storage.StorageObject) :
    (deleteChecked env actor bucket principal objs).Within Unscheduled := by
  have hR := unscheduled_composable
  refine Within.bind hR (onStorage_unscheduled _) fun _ => ?_
  exact Within.forEach hR (deleteObject_unscheduled actor) objs

end Hooks

theorem transaction_unscheduled (actor : Option Actor) (r : HookRequest) :
    (transaction env actor r).Within Unscheduled := by
  have hR := unscheduled_composable
  refine Within.atomic hR (Within.bind hR ?_ fun stored =>
    Within.bind hR passStatement_unscheduled fun _ => Within.pure hR _)
  cases r with
  | upload u =>
      exact Within.bind hR (Hooks.uploadObject_unscheduled actor u) fun _ => Within.pure hR _
  | copy bucket source destBucket dest ownerId =>
      exact Within.bind hR (Hooks.copyObject_unscheduled _ _ _ _ _ _) fun _ => Within.pure hR _
  | delete obj =>
      exact Within.bind hR (Hooks.deleteObject_unscheduled actor obj) fun _ => Within.pure hR _
  | deleteUnderPrefix bucket folderPath principal =>
      refine Within.bind hR (Within.atomic hR ?_) fun _ => Within.pure hR _
      refine Within.bind hR (Within.database hR) fun db => ?_
      exact Within.bind hR (Hooks.deleteChecked_unscheduled _ _ _ _) fun _ => Within.pure hR _
  | emptyBucket bucket principal =>
      refine Within.bind hR (Within.atomic hR ?_) fun _ => Within.pure hR _
      refine Within.bind hR (Within.database hR) fun db => ?_
      exact Hooks.deleteChecked_unscheduled _ _ _ _

end StorageService.Actions
