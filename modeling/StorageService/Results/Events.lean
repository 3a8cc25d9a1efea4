import StorageService.Actions.Emission
import StorageService.Results.Outbox
import StorageService.Storage.Outcomes

/-!
# Transactional events

Every upload, copy and deletion that commits leaves one record and its outbox
rows behind, a request that is rolled back leaves nothing, and only the rows of
a committed transaction are handed to the executor.  A deletion does not ask
whether its object is still there and sends its signal in any case, so this holds
while no object is deleted twice.
-/

namespace StorageService.Results

open StorageService.Foundation
open StorageService.Foundation.Action
open StorageService.Storage (StorageObject Bucket Upload Database Created Overwrote Removed
  AllRemoved)
open StorageService.Actions

/-! ## What happened to objects -/

inductive Occurrence where
  | uploaded (obj : StorageObject) (created : Bool)
  | deleted (obj : StorageObject)

namespace Occurrence

def obj : Occurrence → StorageObject
  | uploaded obj _ | deleted obj => obj

def eventType : Occurrence → Text
  | uploaded _ _ => objectUploaded
  | deleted _ => objectDeleted

def payload (bucket : Bucket) : Occurrence → List (Text × Json)
  | uploaded obj created => uploadedPayload bucket obj created
  | deleted obj => deletedPayload bucket obj

def isNotified (o : Occurrence) : Bool := !isFolderPlaceholder o.obj.name

end Occurrence

def occurrences (before after : Database) (stored : Option StorageObject) : List Occurrence :=
  stored.toList.map (fun obj => .uploaded obj (before.objectById obj.id).isNone) ++
    (before.objects.rows.filter fun o => (after.objectById o.id).isNone).map .deleted

def asLoaded : HookRequest → Occurrence → Occurrence
  | .delete obj, .deleted o => .deleted (if o.id = obj.id then obj else o)
  | _, o => o

/-- The request sends a signal of the deletion of a file exactly if it deletes one. -/
def Fresh (db : Database) : HookRequest → Prop
  | .delete obj => isFolderPlaceholder obj.name = false ↔
      ∃ o ∈ db.objects.rows, o.id = obj.id ∧ isFolderPlaceholder o.name = false
  | .upload _ | .copy _ _ _ _ _ | .deleteUnderPrefix _ _ _ | .emptyBucket _ _ => True

def Announces (env : HookEnv) (actor : Option Actor) (tables : HookTables) (o : Occurrence)
    (n : Notice) : Prop :=
  ∃ bucket ∈ tables.storage.buckets.rows, bucket.id = o.obj.bucketId ∧
    Notified env tables.rules.rows o.eventType o.obj.companyId (o.payload bucket) actor n

section Events

variable {env : HookEnv} {actor : Option Actor} {s s' : HookSession}

/-- There are notices of all these occurrences but those about folder markers, and the
deliveries of their rows are to be started after the commit. -/
structure Announced (env : HookEnv) (actor : Option Actor) (s : HookSession)
    (os : List Occurrence) (s' : HookSession) : Prop where
  rules : s'.db.rules = s.db.rules
  buckets : s'.db.storage.buckets = s.db.storage.buckets
  notices : ∃ notices : List Notice,
    List.Forall₂ (Announces env actor s.db) (os.filter Occurrence.isNotified) notices ∧
      s'.db.eventLog = s.db.eventLog ++ notices.map Notice.record ∧
      s'.db.outbox = s.db.outbox ++ notices.flatMap Notice.rows ∧
      s'.db.onCommit.flatten = s.db.onCommit.flatten ++
        (notices.flatMap Notice.rows).map fun row => row.id

theorem Announces.congr {tables tables' : HookTables} {o : Occurrence} {n : Notice}
    (hrules : tables'.rules = tables.rules)
    (hbuckets : tables'.storage.buckets = tables.storage.buckets)
    (h : Announces env actor tables' o n) : Announces env actor tables o n := by
  rw [Announces, hrules, hbuckets] at h
  exact h

theorem Announced.trans {s₁ : HookSession} {os os' : List Occurrence}
    (h : Announced env actor s os s₁) (h' : Announced env actor s₁ os' s') :
    Announced env actor s (os ++ os') s' where
  rules := h'.rules.trans h.rules
  buckets := h'.buckets.trans h.buckets
  notices := by
    obtain ⟨notices, hall, hlog, houtbox, hcommit⟩ := h.notices
    obtain ⟨notices', hall', hlog', houtbox', hcommit'⟩ := h'.notices
    refine ⟨notices ++ notices', ?_, ?_, ?_, ?_⟩
    · rw [List.filter_append]
      exact List.rel_append hall (hall'.imp fun _ _ => Announces.congr h.rules h.buckets)
    · rw [hlog', hlog, List.append_assoc, List.map_append]
    · rw [houtbox', houtbox, List.append_assoc, List.flatMap_append]
    · rw [hcommit', hcommit, List.append_assoc, List.flatMap_append, List.map_append]

theorem announced_of_quiet (hrules : s'.db.rules = s.db.rules)
    (hbuckets : s'.db.storage.buckets = s.db.storage.buckets)
    (hlog : s'.db.eventLog = s.db.eventLog) (houtbox : s'.db.outbox = s.db.outbox)
    (hcommit : s'.db.onCommit = s.db.onCommit) : Announced env actor s [] s' :=
  ⟨hrules, hbuckets, [], .nil, by simpa using hlog, by simpa using houtbox, by simp [hcommit]⟩

theorem announced_of_logged {o : Occurrence} {n : Notice} (hloud : o.isNotified = true)
    (hn : Announces env actor s.db o n)
    (h : Logged s [n.record] n.rows (n.rows.map fun row => row.id) s') :
    Announced env actor s [o] s' where
  rules := h.rules
  buckets := congrArg (fun w => w.db.buckets) h.world
  notices := by
    refine ⟨[n], ?_, h.eventLog, by simpa using h.outbox, by simpa using h.onCommit⟩
    rw [List.filter_cons_of_pos hloud]
    exact .cons hn .nil

theorem announced_of_silent {o : Occurrence} (hsilent : o.isNotified = false) :
    Announced env actor s [o] s := by
  refine ⟨rfl, rfl, [], ?_, by simp, by simp, by simp⟩
  rw [List.filter_cons_of_neg (by simp [hsilent])]
  exact .nil

/-! ## The operations -/

theorem runs_actionsOnObjectUploaded {obj : StorageObject} {created : Bool} {u : Unit}
    (h : (actionsOnObjectUploaded env actor obj created).Runs s u s') :
    s'.world = s.world ∧ Announced env actor s [.uploaded obj created] s' := by
  simp only [actionsOnObjectUploaded, runs_ite, runs_pure, runs_bind] at h
  rcases h with ⟨hmarker, -, rfl⟩ | ⟨hloud, bucket, s₁, hbucket, rows, s₂, hemit, -, rfl⟩
  · refine ⟨rfl, announced_of_silent ?_⟩
    simpa [Occurrence.isNotified, Occurrence.obj] using hmarker
  · obtain ⟨hpassed, hmem, hid⟩ := runs_bucketOf hbucket
    rw [emitEventIfRules_eq (.inl rfl)] at hemit
    obtain ⟨n, hnotified, hlogged⟩ := runs_emitKnown hemit
    have hall := hlogged.after hpassed
    rw [hpassed.db] at hnotified
    refine ⟨hall.world, announced_of_logged (n := n) ?_ ?_ hall⟩
    · simpa [Occurrence.isNotified, Occurrence.obj] using hloud
    · exact ⟨bucket, hmem, hid, hnotified⟩

theorem runs_actionsOnObjectDeleted {bucket : Bucket} {obj : StorageObject} {u : Unit}
    (hbucket : bucket ∈ s.db.storage.buckets.rows) (hid : bucket.id = obj.bucketId)
    (h : (actionsOnObjectDeleted env actor bucket obj).Runs s u s') :
    s'.world = s.world ∧ Announced env actor s [.deleted obj] s' := by
  simp only [actionsOnObjectDeleted, runs_ite, runs_pure, runs_bind] at h
  rcases h with ⟨hmarker, -, rfl⟩ | ⟨hloud, rows, s₂, hemit, -, rfl⟩
  · refine ⟨rfl, announced_of_silent ?_⟩
    simpa [Occurrence.isNotified, Occurrence.obj] using hmarker
  · rw [emitEventIfRules_eq (.inr rfl)] at hemit
    obtain ⟨n, hnotified, hlogged⟩ := runs_emitKnown hemit
    refine ⟨hlogged.world, announced_of_logged (n := n) ?_ ⟨bucket, hbucket, hid, hnotified⟩
      hlogged⟩
    simpa [Occurrence.isNotified, Occurrence.obj] using hloud

theorem announced_of_onStorage {α : Type} {x : Storage.Act α} {a : α}
    (h : (onStorage x).Runs s a s')
    (hbuckets : s'.db.storage.buckets = s.db.storage.buckets) :
    Announced env actor s [] s' := by
  obtain ⟨-, hdb, -⟩ := runs_onStorage h
  refine announced_of_quiet ?_ hbuckets ?_ ?_ ?_ <;> rw [hdb]

theorem runs_hookedUpload {u : Upload} {obj : StorageObject}
    (h : (Hooks.uploadObject env actor u).Runs s obj s') :
    (u.run env.storage).Runs s.world obj s'.world ∧
      Announced env actor s [.uploaded obj (u.existing s.db.storage).isNone] s' := by
  simp only [Hooks.uploadObject, runs_atomic, runs_bind, runs_database, runs_pure] at h
  obtain ⟨db, s₀, ⟨rfl, rfl⟩, o, s₁, hstorage, _, s₂, hemit, rfl, rfl⟩ := h
  obtain ⟨hrun, -, -⟩ := runs_onStorage hstorage
  obtain ⟨hworld, hannounced⟩ := runs_actionsOnObjectUploaded hemit
  rw [hworld]
  refine ⟨hrun, (announced_of_onStorage hstorage ?_).trans hannounced⟩
  obtain ⟨name, -, ⟨existing, -, hwrote⟩ | ⟨-, hcreated, -⟩⟩ := Storage.uploadObject_cases hrun
  · exact hwrote.buckets
  · exact hcreated.buckets

theorem runs_hookedCopy {bucket destBucket : Bucket} {source dest : Text}
    {ownerId : Option Nat} {obj : StorageObject}
    (h : (Hooks.copyObject env actor bucket source destBucket dest ownerId).Runs s obj s') :
    (∃ data, Created env.storage s.world obj data s'.world) ∧
      Announced env actor s [.uploaded obj true] s' := by
  simp only [Hooks.copyObject, runs_atomic, runs_bind, runs_pure] at h
  obtain ⟨o, s₁, hstorage, _, s₂, hemit, rfl, rfl⟩ := h
  obtain ⟨hrun, -, -⟩ := runs_onStorage hstorage
  obtain ⟨hworld, hannounced⟩ := runs_actionsOnObjectUploaded hemit
  obtain ⟨-, -, -, data, -, -, -, -, -, hcreated, -⟩ := Storage.copyObject_created hrun
  rw [hworld]
  exact ⟨⟨data, hcreated⟩, (announced_of_onStorage hstorage hcreated.buckets).trans hannounced⟩

theorem runs_hookedDelete {obj : StorageObject} {u : Unit}
    (h : (Hooks.deleteObject env actor obj).Runs s u s') :
    Removed s.world obj s'.world ∧ Announced env actor s [.deleted obj] s' := by
  simp only [Hooks.deleteObject, runs_atomic, runs_bind] at h
  obtain ⟨bucket, s₁, hbucket, _, s₂, hstorage, hemit⟩ := h
  obtain ⟨hpassed, hmem, hid⟩ := runs_bucketOf hbucket
  obtain ⟨hrun, -, -⟩ := runs_onStorage hstorage
  have hremoved := Storage.deleteObject_removed hrun
  have hbuckets : s₂.db.storage.buckets = s₁.db.storage.buckets := hremoved.buckets
  obtain ⟨hworld, hannounced⟩ := runs_actionsOnObjectDeleted
    (by rwa [hbuckets, hpassed.db]) hid hemit
  rw [hpassed.logged.world] at hremoved
  rw [hworld]
  refine ⟨hremoved, ?_⟩
  have hquiet : Announced env actor s [] s₁ := by
    refine announced_of_quiet ?_ ?_ ?_ ?_ ?_ <;> rw [hpassed.db]
  exact hquiet.trans ((announced_of_onStorage hstorage hbuckets).trans hannounced)

theorem runs_hookedDeletions {objs : List StorageObject} {u : Unit}
    (h : (forEach (Hooks.deleteObject env actor) objs).Runs s u s') :
    AllRemoved s.world objs s'.world ∧ Announced env actor s (objs.map .deleted) s' := by
  induction objs generalizing s with
  | nil =>
      rw [runs_forEach_nil] at h
      subst h
      exact ⟨.nil _, announced_of_quiet rfl rfl rfl rfl rfl⟩
  | cons obj objs ih =>
      rw [runs_forEach_cons] at h
      obtain ⟨s₁, hfirst, hrest⟩ := h
      obtain ⟨hremoved, hannounced⟩ := runs_hookedDelete hfirst
      obtain ⟨hall, hrest⟩ := ih hrest
      exact ⟨.cons hremoved hall, hannounced.trans hrest⟩

theorem runs_hookedDeleteChecked {bucket : Bucket} {principal : Storage.StoragePrincipal}
    {objs : List StorageObject} {u : Unit}
    (h : (Hooks.deleteChecked env actor bucket principal objs).Runs s u s') :
    AllRemoved s.world objs s'.world ∧ Announced env actor s (objs.map .deleted) s' := by
  simp only [Hooks.deleteChecked, runs_bind] at h
  obtain ⟨_, s₁, hcheck, hdelete⟩ := h
  obtain ⟨hrun, hdb, hout⟩ := runs_onStorage hcheck
  rw [runs_forEach_check fun _ _ _ _ => Storage.runs_assertCanAccessPath] at hrun
  obtain ⟨hall, hannounced⟩ := runs_hookedDeletions hdelete
  have hbuckets := congrArg (fun w => w.db.buckets) hrun.2
  rw [hrun.2] at hall
  exact ⟨hall, (announced_of_onStorage hcheck hbuckets).trans hannounced⟩

/-! ## Requests -/

theorem objectById_isNone {db : Database} {id : Storage.UUID} :
    (db.objectById id).isNone = true ↔ ∀ o ∈ db.objects.rows, o.id ≠ id := by
  simp [Database.objectById]

theorem occurrences_stored {before after : Database} {obj : StorageObject}
    (hkept : ∀ o ∈ before.objects.rows, ∃ o' ∈ after.objects.rows, o'.id = o.id) :
    occurrences before after (some obj) = [.uploaded obj (before.objectById obj.id).isNone] := by
  have hgone : before.objects.rows.filter (fun o => (after.objectById o.id).isNone) = [] := by
    rw [List.filter_eq_nil_iff]
    intro o ho hnone
    obtain ⟨o', ho', hid⟩ := hkept o ho
    exact objectById_isNone.mp hnone o' ho' hid
  rw [occurrences, hgone]
  rfl

theorem occurrences_of_created {w w' : Storage.World} {obj : StorageObject}
    {data : Storage.Bytes} (h : Created env.storage w obj data w') :
    occurrences w.db w'.db (some obj) = [.uploaded obj true] := by
  have hnew : (w.db.objectById obj.id).isNone = true :=
    objectById_isNone.mpr fun o ho hid => h.free o ho (.inl hid)
  rw [occurrences_stored, hnew]
  intro o ho
  exact ⟨o, by rw [h.objects]; exact List.mem_append_left _ ho, rfl⟩

theorem occurrences_of_overwrote {w w' : Storage.World} {bucket : Bucket}
    {existing obj : StorageObject} {data : Storage.Bytes}
    (hexisting : existing ∈ w.db.objects.rows)
    (h : Overwrote env.storage w bucket existing obj data w') :
    occurrences w.db w'.db (some obj) = [.uploaded obj false] := by
  have hid : existing.id = obj.id := by
    obtain ⟨mimeType, ownerId, hrow⟩ := h.row
    rw [hrow]
    rfl
  have hold : (w.db.objectById obj.id).isNone = false := by
    rw [Bool.eq_false_iff, Ne, objectById_isNone]
    exact fun hnone => hnone existing hexisting hid
  rw [occurrences_stored, hold]
  intro o ho
  refine ⟨_, ?_, Database.changed_id existing.id (fun _ => obj) o⟩
  rw [h.objects]
  exact List.mem_map_of_mem ho

theorem filter_eq_of_mem (db : Database) {obj : StorageObject} (h : obj ∈ db.objects.rows) :
    db.objects.rows.filter (fun o => decide (o.id = obj.id)) = [obj] := by
  have hnodup : db.objects.rows.Nodup := (Database.objectIds_nodup db).of_map
  have hsame : ∀ o ∈ db.objects.rows, decide (o.id = obj.id) = (o == obj) := by
    intro o ho
    rw [Bool.eq_iff_iff, decide_eq_true_iff, beq_iff_eq]
    exact ⟨fun hid => Database.object_eq_of_id ho h hid, congrArg StorageObject.id⟩
  rw [List.filter_congr hsame, List.filter_beq, List.count_eq_one_of_mem hnodup h]
  rfl

theorem occurrences_of_allRemoved {w w' : Storage.World} {p : StorageObject → Bool}
    (h : AllRemoved w (w.db.objects.rows.filter p) w') :
    occurrences w.db w'.db none = (w.db.objects.rows.filter p).map .deleted := by
  have hgone : w.db.objects.rows.filter (fun o => (w'.db.objectById o.id).isNone) =
      w.db.objects.rows.filter p := by
    refine List.filter_congr fun o ho => ?_
    rw [Bool.eq_iff_iff, objectById_isNone]
    constructor
    · intro hnone
      by_contra hkept
      refine hnone o ((h.objects o).mpr ⟨ho, fun obj hobj hid => ?_⟩) rfl
      obtain ⟨hmem, hp⟩ := List.mem_filter.mp hobj
      rw [Database.object_eq_of_id ho hmem hid] at hkept
      exact hkept hp
    · intro hp o' ho' hid
      exact ((h.objects o').mp ho').2 o (List.mem_filter.mpr ⟨ho, hp⟩) hid
  rw [occurrences, hgone]
  rfl

def notified (r : HookRequest) (before after : Database) (stored : Option StorageObject) :
    List Occurrence :=
  ((occurrences before after stored).filter Occurrence.isNotified).map (asLoaded r)

theorem announced_filter {os : List Occurrence} (h : Announced env actor s os s') :
    Announced env actor s (os.filter Occurrence.isNotified) s' := by
  obtain ⟨hrules, hbuckets, hnotices⟩ := h
  refine ⟨hrules, hbuckets, ?_⟩
  rwa [List.filter_filter, List.filter_congr fun o _ => Bool.and_self o.isNotified]

theorem notified_of_removed {w w' : Storage.World} {obj : StorageObject}
    (hfresh : Fresh w.db (.delete obj)) (h : Removed w obj w') :
    notified (.delete obj) w.db w'.db none =
      [Occurrence.deleted obj].filter Occurrence.isNotified := by
  have hgone : ∀ o ∈ w.db.objects.rows, (w'.db.objectById o.id).isNone = true ↔ o.id = obj.id := by
    intro o ho
    rw [objectById_isNone, h.objects]
    constructor
    · intro hnone
      by_contra hne
      exact hnone o (List.mem_filter.mpr ⟨ho, by simpa using hne⟩) rfl
    · intro hid o' ho' hid'
      exact absurd (hid'.trans hid) (by simpa using (List.mem_filter.mp ho').2)
  have hocc : occurrences w.db w'.db none =
      (w.db.objects.rows.filter fun o => decide (o.id = obj.id)).map .deleted := by
    rw [occurrences]
    refine congrArg (List.map Occurrence.deleted) (List.filter_congr fun o ho => ?_)
    rw [Bool.eq_iff_iff, hgone o ho, decide_eq_true_iff]
  rw [notified, hocc]
  by_cases hstored : ∃ o ∈ w.db.objects.rows, o.id = obj.id
  · obtain ⟨o, ho, hid⟩ := hstored
    have honly : w.db.objects.rows.filter (fun o => decide (o.id = obj.id)) = [o] := by
      rw [← hid]
      exact filter_eq_of_mem w.db ho
    rw [honly]
    by_cases hmarker : isFolderPlaceholder o.name = true
    · have hobj : isFolderPlaceholder obj.name = true := by
        by_contra hloud
        obtain ⟨o', ho', hid', hloud'⟩ := hfresh.mp (Bool.eq_false_iff.mpr hloud)
        rw [Database.object_eq_of_id ho' ho (hid'.trans hid.symm), hmarker] at hloud'
        cases hloud'
      simp [Occurrence.isNotified, Occurrence.obj, hmarker, hobj]
    · have hobj := hfresh.mpr ⟨o, ho, hid, Bool.eq_false_iff.mpr hmarker⟩
      simp [Occurrence.isNotified, Occurrence.obj, hmarker, hobj, asLoaded, hid]
  · have hnone : w.db.objects.rows.filter (fun o => decide (o.id = obj.id)) = [] :=
      List.filter_eq_nil_iff.mpr fun o ho hid => hstored ⟨o, ho, of_decide_eq_true hid⟩
    have hobj : isFolderPlaceholder obj.name = true := by
      by_contra hloud
      obtain ⟨o, ho, hid, -⟩ := hfresh.mp (Bool.eq_false_iff.mpr hloud)
      exact hstored ⟨o, ho, hid⟩
    rw [hnone]
    simp [Occurrence.isNotified, Occurrence.obj, hobj]

theorem notified_eq (r : HookRequest) (hr : ∀ obj, r ≠ .delete obj) (before after : Database)
    (stored : Option StorageObject) :
    notified r before after stored =
      (occurrences before after stored).filter Occurrence.isNotified := by
  have hsame : asLoaded r = id := by
    funext o
    cases r with
    | delete obj => exact absurd rfl (hr obj)
    | _ => rfl
  rw [notified, hsame, List.map_id]

theorem notified_filter {r : HookRequest} {before after : Database}
    {stored : Option StorageObject} (hfresh : Fresh before r) :
    (notified r before after stored).filter Occurrence.isNotified =
      notified r before after stored := by
  rw [List.filter_eq_self]
  intro o ho
  obtain ⟨o', ho', rfl⟩ := List.mem_map.mp ho
  obtain ⟨hmem, hloud⟩ := List.mem_filter.mp ho'
  cases r with
  | delete obj =>
      cases o' with
      | uploaded p created => exact hloud
      | deleted p =>
          have hp : p ∈ before.objects.rows := by
            simp only [occurrences, List.mem_append, List.mem_map, List.mem_filter] at hmem
            obtain ⟨_, -, habsurd⟩ | ⟨q, ⟨hq, -⟩, hqp⟩ := hmem
            · cases habsurd
            · cases hqp
              exact hq
          rw [asLoaded]
          split
          · next hid =>
              have hname : isFolderPlaceholder p.name = false := by
                simpa [Occurrence.isNotified, Occurrence.obj] using hloud
              simpa [Occurrence.isNotified, Occurrence.obj] using hfresh.mpr ⟨p, hp, hid, hname⟩
          · exact hloud
  | upload _ | copy _ _ _ _ _ | deleteUnderPrefix _ _ _ | emptyBucket _ _ => exact hloud

theorem runs_request {r : HookRequest} {stored : Option StorageObject}
    (hfresh : Fresh s.db.storage r) (h : (r.run env actor).Runs s stored s') :
    Announced env actor s (notified r s.db.storage s'.db.storage stored) s' := by
  cases r with
  | upload u =>
      simp only [HookRequest.run, runs_bind, runs_pure] at h
      obtain ⟨obj, s₁, hrun, rfl, rfl⟩ := h
      obtain ⟨hupload, hannounced⟩ := runs_hookedUpload hrun
      obtain ⟨name, hname, ⟨existing, hfound, hwrote⟩ | ⟨hfree, hcreated, -⟩⟩ :=
        Storage.uploadObject_cases hupload
      · have hexisting : u.existing s.db.storage = some existing := by
          rw [Upload.existing_eq hname]
          exact hfound
        rw [hexisting] at hannounced
        have hocc := occurrences_of_overwrote (Database.objectNamed_eq_some hfound).1 hwrote
        rw [notified_eq _ (by simp)]
        exact announced_filter (hocc ▸ hannounced)
      · have hexisting : u.existing s.db.storage = none := by
          rw [Upload.existing_eq hname]
          exact hfree
        rw [hexisting] at hannounced
        have hocc := occurrences_of_created hcreated
        rw [notified_eq _ (by simp)]
        exact announced_filter (hocc ▸ hannounced)
  | copy bucket source destBucket dest ownerId =>
      simp only [HookRequest.run, runs_bind, runs_pure] at h
      obtain ⟨obj, s₁, hrun, rfl, rfl⟩ := h
      obtain ⟨⟨data, hcreated⟩, hannounced⟩ := runs_hookedCopy hrun
      rw [notified_eq _ (by simp)]
      exact announced_filter (occurrences_of_created hcreated ▸ hannounced)
  | delete obj =>
      simp only [HookRequest.run, runs_bind, runs_pure] at h
      obtain ⟨_, s₁, hrun, rfl, rfl⟩ := h
      obtain ⟨hremoved, hannounced⟩ := runs_hookedDelete hrun
      have hnotified := notified_of_removed hfresh hremoved
      exact hnotified ▸ announced_filter hannounced
  | deleteUnderPrefix bucket folderPath principal =>
      simp only [HookRequest.run, Hooks.deleteUnderPrefix, runs_bind, runs_atomic,
        runs_database, runs_pure] at h
      obtain ⟨_, s₁, ⟨db, s₀, ⟨rfl, rfl⟩, _, s₂, hrun, rfl, rfl⟩, rfl, rfl⟩ := h
      obtain ⟨hall, hannounced⟩ := runs_hookedDeleteChecked hrun
      rw [notified_eq _ (by simp)]
      exact announced_filter (occurrences_of_allRemoved hall ▸ hannounced)
  | emptyBucket bucket principal =>
      simp only [HookRequest.run, Hooks.emptyBucket, runs_bind, runs_atomic, runs_database,
        runs_pure] at h
      obtain ⟨_, s₁, ⟨db, s₀, ⟨rfl, rfl⟩, hrun⟩, rfl, rfl⟩ := h
      obtain ⟨hall, hannounced⟩ := runs_hookedDeleteChecked hrun
      rw [notified_eq _ (by simp)]
      exact announced_filter (occurrences_of_allRemoved hall ▸ hannounced)

theorem runs_transaction {r : HookRequest} {stored : Option StorageObject}
    (hfresh : Fresh s.db.storage r) (h : (transaction env actor r).Runs s stored s') :
    Announced env actor s (notified r s.db.storage s'.db.storage stored) s' ∧
      s'.out.submitted = s.out.submitted := by
  refine ⟨?_, (transaction_unscheduled actor r).runs h⟩
  simp only [transaction, runs_atomic, runs_bind, runs_pure] at h
  obtain ⟨_, s₁, hrun, _, s₂, hpass, rfl, rfl⟩ := h
  have hpassed := runs_passStatement hpass
  obtain ⟨hrules, hbuckets, hnotices⟩ := runs_request hfresh hrun
  refine ⟨by rw [hpassed.db, hrules], by rw [hpassed.db, hbuckets], ?_⟩
  rw [hpassed.db]
  exact hnotices

theorem fails_transaction {r : HookRequest} (h : (transaction env actor r).Fails s s') :
    s'.db = s.db ∧ s'.out.submitted = s.out.submitted := by
  refine ⟨?_, (transaction_unscheduled actor r).fails h⟩
  simp only [transaction, fails_atomic] at h
  obtain ⟨s₁, -, rfl⟩ := h
  rfl

/-! ## Callbacks -/

theorem runs_submit {id : Nat} {u : Unit} (h : (submit id).Runs s u s') :
    s'.db = s.db ∧ s'.out.submitted = s.out.submitted ++ [id] := by
  simp only [submit, runs_bind, runs_modifyOutside] at h
  obtain ⟨_, s₁, hpass, rfl⟩ := h
  have hkept : s₁.out.submitted = s.out.submitted := passStatement_unscheduled.runs hpass
  exact ⟨(runs_passStatement hpass).db, by rw [hkept]⟩

theorem fails_submit {id : Nat} (h : (submit id).Fails s s') : s' = s := by
  simp only [submit, fails_bind, fails_modifyOutside, and_false, exists_false, or_false] at h
  exact fails_passStatement h

theorem forEach_submit {ids : List Nat}
    (h : (forEach submit ids).Runs s () s' ∨ (forEach submit ids).Fails s s') :
    s'.db = s.db ∧
      ∃ started, started <+: ids ∧ s'.out.submitted = s.out.submitted ++ started := by
  induction ids generalizing s with
  | nil =>
      simp only [runs_forEach_nil, fails_forEach_nil, or_false] at h
      subst h
      exact ⟨rfl, [], List.prefix_refl _, (List.append_nil _).symm⟩
  | cons id ids ih =>
      have hstopped : (submit id).Fails s s' → s'.db = s.db ∧
          ∃ started, started <+: id :: ids ∧
            s'.out.submitted = s.out.submitted ++ started := by
        intro hfail
        rw [fails_submit hfail]
        exact ⟨rfl, [], List.nil_prefix, (List.append_nil _).symm⟩
      have hgoes : ∀ s₁, (submit id).Runs s () s₁ →
          ((forEach submit ids).Runs s₁ () s' ∨ (forEach submit ids).Fails s₁ s') →
          s'.db = s.db ∧ ∃ started, started <+: id :: ids ∧
            s'.out.submitted = s.out.submitted ++ started := by
        intro s₁ hrun hrest
        obtain ⟨hdb, hsubmitted⟩ := runs_submit hrun
        obtain ⟨hdb', started, hprefix, hstarted⟩ := ih hrest
        refine ⟨hdb'.trans hdb, id :: started, (List.prefix_cons_inj id).mpr hprefix, ?_⟩
        rw [hstarted, hsubmitted, List.append_assoc, List.singleton_append]
      rw [runs_forEach_cons, fails_forEach_cons] at h
      rcases h with ⟨s₁, hrun, hrest⟩ | hfail | ⟨s₁, hrun, hrest⟩
      · exact hgoes s₁ hrun (.inl hrest)
      · exact hstopped hfail
      · exact hgoes s₁ hrun (.inr hrest)

theorem runCallbacks_cases (h : runCallbacks.Runs s () s' ∨ runCallbacks.Fails s s') :
    s'.db = { s.db with onCommit := [] } ∧
      ∃ started, started <+: s.db.onCommit.flatten ∧
        s'.out.submitted = s.out.submitted ++ started := by
  simp only [runCallbacks, runs_bind, runs_database, runs_putDatabase, fails_bind,
    fails_database, fails_putDatabase, false_or] at h
  rcases h with ⟨db, s₁, ⟨rfl, rfl⟩, _, s₂, rfl, h⟩ | ⟨db, s₁, ⟨rfl, rfl⟩, _, s₂, rfl, h⟩
  · exact forEach_submit (.inl h)
  · exact forEach_submit (.inr h)

/-! ## Runs -/

structure Committed where
  request : HookRequest
  actor : Option Actor
  before : HookTables
  after : Database
  stored : Option StorageObject

def Committed.occurrences (c : Committed) : List Occurrence :=
  notified c.request c.before.storage c.after c.stored

def committed (env : HookEnv) (s : HookSession) : HookAction → Option Committed
  | .request r actor fault statements =>
      match transaction env actor r (withFaults s fault statements) with
      | (.ok stored, s') => some ⟨r, actor, s.db, s'.db.storage, stored⟩
      | (.error _, _) => none
  | .editRules _ | .wait _ => none

def history (env : HookEnv) : HookSession → List HookAction → List Committed
  | _, [] => []
  | s, a :: as =>
      (committed env s a).toList ++ ((hookStep env s a).map fun s₁ => history env s₁ as).getD []

def Committed.happenings (c : Committed) : List (Committed × Occurrence) :=
  c.occurrences.map fun o => (c, o)

/-- The event log and the outbox hold the notices of these requests and no others, and every
delivery that was started is of one of their rows. -/
structure Documented (env : HookEnv) (s : HookSession) (requests : List Committed)
    (s' : HookSession) : Prop where
  idle : s'.db.onCommit = []
  notices : ∃ notices : List Notice,
    List.Forall₂ (fun h n => Announces env h.1.actor h.1.before h.2 n)
        (requests.flatMap Committed.happenings) notices ∧
      s'.db.eventLog = s.db.eventLog ++ notices.map Notice.record ∧
      s'.db.outbox = s.db.outbox ++ notices.flatMap Notice.rows ∧
      ∃ started, s'.out.submitted = s.out.submitted ++ started ∧
        started.Sublist ((notices.flatMap Notice.rows).map fun row => row.id)

theorem Documented.trans {s₁ : HookSession} {requests requests' : List Committed}
    (h : Documented env s requests s₁) (h' : Documented env s₁ requests' s') :
    Documented env s (requests ++ requests') s' where
  idle := h'.idle
  notices := by
    obtain ⟨notices, hall, hlog, houtbox, started, hstarted, hsub⟩ := h.notices
    obtain ⟨notices', hall', hlog', houtbox', started', hstarted', hsub'⟩ := h'.notices
    refine ⟨notices ++ notices', ?_, ?_, ?_, started ++ started', ?_, ?_⟩
    · rw [List.flatMap_append]
      exact List.rel_append hall hall'
    · rw [hlog', hlog, List.append_assoc, List.map_append]
    · rw [houtbox', houtbox, List.append_assoc, List.flatMap_append]
    · rw [hstarted', hstarted, List.append_assoc]
    · rw [List.flatMap_append, List.map_append]
      exact hsub.append hsub'

theorem documented_of_same (hidle : s'.db.onCommit = [])
    (hlog : s'.db.eventLog = s.db.eventLog) (houtbox : s'.db.outbox = s.db.outbox)
    (hsubmitted : s'.out.submitted = s.out.submitted) : Documented env s [] s' :=
  ⟨hidle, [], .nil, by simpa using hlog, by simpa using houtbox, [], by simpa using hsubmitted,
    List.nil_sublist _⟩

/-- The transaction of a request is rolled back, or the callbacks follow it. -/
theorem handle_cases (env : HookEnv) (actor : Option Actor) (r : HookRequest)
    (s : HookSession) :
    (∃ e, transaction env actor r s = (.error e, (handle env actor r s).2)) ∨
      ∃ stored s₁, transaction env actor r s = (.ok stored, s₁) ∧
        (runCallbacks.Runs s₁ () (handle env actor r s).2 ∨
          runCallbacks.Fails s₁ (handle env actor r s).2) := by
  rcases runs_or_fails (handle env actor r) s with ⟨stored, h⟩ | h
  · rw [handle, runs_bind] at h
    obtain ⟨_, s₁, htransaction, h⟩ := h
    rw [runs_bind] at h
    obtain ⟨_, s₂, hcallbacks, h⟩ := h
    refine .inr ⟨_, s₁, htransaction, .inl ?_⟩
    rw [runs_pure] at h
    exact h.2 ▸ hcallbacks
  · rw [handle, fails_bind] at h
    rcases h with hfail | ⟨stored, s₁, htransaction, h⟩
    · exact .inl hfail
    · rw [fails_bind] at h
      rcases h with hfail | ⟨_, s₂, -, hpure⟩
      · exact .inr ⟨stored, s₁, htransaction, .inr hfail⟩
      · simp at hpure

theorem documented_of_commit {r : HookRequest} {stored : Option StorageObject}
    {s₁ : HookSession} (hfresh : Fresh s.db.storage r) (hidle : s.db.onCommit = [])
    (h : (transaction env actor r).Runs s stored s₁)
    (hcallbacks : runCallbacks.Runs s₁ () s' ∨ runCallbacks.Fails s₁ s') :
    Documented env s [⟨r, actor, s.db, s₁.db.storage, stored⟩] s' := by
  obtain ⟨⟨-, -, notices, hall, hlog, houtbox, hcommit⟩, hsubmitted⟩ :=
    runs_transaction hfresh h
  obtain ⟨hdb, started, hprefix, hstarted⟩ := runCallbacks_cases hcallbacks
  rw [hidle, List.flatten_nil, List.nil_append] at hcommit
  refine ⟨by rw [hdb], notices, ?_, by rw [hdb]; exact hlog, by rw [hdb]; exact houtbox, started,
    by rw [hstarted, hsubmitted], ?_⟩
  · rw [List.flatMap_singleton, Committed.happenings, List.forall₂_map_left_iff]
    rwa [notified_filter hfresh] at hall
  · rw [← hcommit]
    exact hprefix.sublist

def FreshStep (s : HookSession) : HookAction → Prop
  | .request r _ _ _ => Fresh s.db.storage r
  | .editRules _ | .wait _ => True

theorem hookStep_documented {a : HookAction} (hidle : s.db.onCommit = []) (hfresh : FreshStep s a)
    (hstep : (hooks env).step s a = some s') :
    Documented env s (committed env s a).toList s' := by
  cases a with
  | request r actor fault statements =>
      simp only [hooks, hookStep] at hstep
      split at hstep
      · cases hstep
        rcases handle_cases env actor r (withFaults s fault statements) with
          ⟨e, he⟩ | ⟨stored, s₁, hrun, hcallbacks⟩
        · obtain ⟨hdb, hsubmitted⟩ := fails_transaction ⟨e, he⟩
          simp only [committed, he]
          refine documented_of_same ?_ ?_ ?_ hsubmitted <;> rw [hdb]
          · exact hidle
          · rfl
          · rfl
        · have hdocumented := documented_of_commit (s := withFaults s fault statements) hfresh
            hidle hrun hcallbacks
          simp only [committed, hrun]
          exact ⟨hdocumented.idle, hdocumented.notices⟩
      · contradiction
  | editRules rules =>
      cases hstep
      exact documented_of_same hidle rfl rfl rfl
  | wait time =>
      cases hstep
      exact documented_of_same hidle rfl rfl rfl

/-- In every run of uploads, copies and deletions of objects that are still there, whatever
raises in them, the event log and the outbox hold what the committed requests did, and
nothing else is delivered. -/
theorem events_of_run {as : List HookAction} (hidle : s.db.onCommit = [])
    (hfresh : (hooks env).Meets FreshStep s as) (hrun : (hooks env).run s as = some s') :
    Documented env s (history env s as) s' := by
  induction as generalizing s with
  | nil =>
      cases hrun
      exact documented_of_same hidle rfl rfl rfl
  | cons a as ih =>
      obtain ⟨s₁, hstep, hrest⟩ := Machine.run_cons.mp hrun
      have hfirst := hookStep_documented hidle hfresh.1 hstep
      have hall := hfirst.trans (ih hfirst.idle (hfresh.2 s₁ hstep) hrest)
      have hhistory : history env s (a :: as) =
          (committed env s a).toList ++ history env s₁ as := by
        have hafter : hookStep env s a = some s₁ := hstep
        rw [history, hafter]
        rfl
      rw [hhistory]
      exact hall

theorem committed_of_returned {r : HookRequest} {fault : Option (Storage.Point × Nat)}
    {statements : Option Nat} {stored : Option StorageObject}
    (h : (handle env actor r (withFaults s fault statements)).1 = .ok stored) :
    ∃ c ∈ committed env s (.request r actor fault statements), c.stored = stored := by
  set s₀ := withFaults s fault statements
  have hrun : (handle env actor r).Runs s₀ stored (handle env actor r s₀).2 := by
    rw [Runs, ← h]
  simp only [handle, runs_bind, runs_pure] at hrun
  obtain ⟨_, s₁, htransaction, _, s₂, -, rfl, -⟩ := hrun
  rw [Runs] at htransaction
  refine ⟨⟨r, actor, s.db, s₁.db.storage, stored⟩, ?_, rfl⟩
  simp only [committed, Option.mem_def]
  rw [htransaction]

end Events

/-! ## A run -/

def sampleHooks : HookEnv where
  storage := Storage.sampleEnv false
  delivery := sampleDelivery
  uuid4 := id
  isoformat := fun _ => []

def uploadRule (id : Nat) (enabled : Bool) : ActionRule :=
  ⟨id, 1, [], [], objectUploaded, enabled, sampleConfig⟩

def sampleHookStart : HookSession where
  db :=
    { storage := (Storage.Operation.after sampleHooks.storage (.companyBucket 1) .initial).db
      rules := (Table.empty.insert (uploadRule 1 true) (by decide)).insert (uploadRule 2 false)
        (by decide)
      eventLog := []
      outbox := []
      onCommit := [] }
  out :=
    { storage := (Storage.Operation.after sampleHooks.storage (.companyBucket 1) .initial).out
      drawn := 0
      statements := none
      submitted := [] }

def deletedAgain : List HookAction :=
  [.request (.upload (Storage.sampleUpload ['x'] [97] 2)) none none none,
    .request (.emptyBucket Storage.sampleBucket (Storage.member 2)) none none (some 1),
    .request (.emptyBucket Storage.sampleBucket (Storage.member 2)) none none none]

theorem events_of_run_deletedAgain :
    (history sampleHooks sampleHookStart deletedAgain).length = 2 ∧
      ∃ s', (hooks sampleHooks).run sampleHookStart deletedAgain = some s' ∧
        Documented sampleHooks sampleHookStart
          (history sampleHooks sampleHookStart deletedAgain) s' := by
  refine ⟨by decide +kernel, ?_⟩
  have hsome : ((hooks sampleHooks).run sampleHookStart deletedAgain).isSome = true := by
    decide +kernel
  obtain ⟨s', hrun⟩ := Option.isSome_iff_exists.mp hsome
  refine ⟨s', hrun, events_of_run rfl (Machine.meets_of_forall fun a ha s => ?_) hrun⟩
  simp only [deletedAgain, List.mem_cons, List.not_mem_nil, or_false] at ha
  obtain rfl | rfl | rfl := ha <;> trivial

def deletedTwice : List HookAction :=
  let upload : HookAction := .request (.upload (Storage.sampleUpload ['x'] [97] 2)) none none none
  let loaded := ((hooks sampleHooks).run sampleHookStart [upload]).toList.flatMap fun s =>
    s.db.storage.objects.rows
  upload :: loaded.flatMap fun obj =>
    [.request (.delete obj) none none none, .request (.delete obj) none none none]

/-- The second deletion removes nothing, and there is an event of it. -/
theorem not_events_of_run : ¬∀ s', (hooks sampleHooks).run sampleHookStart deletedTwice = some s' →
    Documented sampleHooks sampleHookStart
      (history sampleHooks sampleHookStart deletedTwice) s' := by
  intro h
  have hsome : ((hooks sampleHooks).run sampleHookStart deletedTwice).isSome = true := by
    decide +kernel
  obtain ⟨s', hrun⟩ := Option.isSome_iff_exists.mp hsome
  obtain ⟨notices, hall, hlog, -⟩ := (h s' hrun).notices
  have hcount : ((hooks sampleHooks).run sampleHookStart deletedTwice).map
      (fun s => s.db.eventLog.length) = some 3 := by
    decide +kernel
  have hhappened : ((history sampleHooks sampleHookStart deletedTwice).flatMap
      Committed.happenings).length = 2 := by
    decide +kernel
  have hlength : s'.db.eventLog.length = notices.length := by
    rw [hlog, List.length_append, List.length_map]
    exact Nat.zero_add _
  rw [hrun, Option.map_some, Option.some_inj, hlength, ← hall.length_eq, hhappened] at hcount
  omega

end StorageService.Results
