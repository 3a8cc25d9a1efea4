import StorageService.Storage.GrantMigration
import StorageService.Storage.System

/-!
# What the migration of grants preserves

The loop touches one grant at a time, so what becomes of a grant is decided by
the tables it is reached with: the old ones and the markers created for the
grants before it.  Texts are stripped of blanks and then of slashes, once; only
where this leaves neither is a path freed of both.
-/

namespace StorageService.Results

open StorageService.Foundation
open StorageService.Storage
open StorageService.Storage.GrantMigration
open StorageService.Storage.GrantMigration.GrantTables

section GrantMigration

variable {env : Env} {clock : Nat → Time} {t t' u : GrantTables} {g g' row : LegacyGrant}
  {gs : List LegacyGrant} {b : Bucket}

/-! ## Freed paths -/

def freed (s : Text) : Text := trim (fun c => isSpace c || isSlash c) s

theorem freed_eq_normalizePath {s : Text}
    (h : normalizePath (normalizePath s) = normalizePath s) : freed s = normalizePath s := by
  have hends := (normalizePath_eq_self_iff _).mp h
  calc freed s = freed (normalizePath s) := by
        rw [freed, freed, normalizePath, stripSlash, strip, trim_trim_of_imp (by simp +contextual),
          trim_trim_of_imp (by simp +contextual)]
    _ = normalizePath s := by
        refine (trim_eq_self_iff _ _).mpr fun hne => ?_
        obtain ⟨⟨hspace, hslash⟩, hspace', hslash'⟩ := hends hne
        simp [hspace, hslash, hspace', hslash']

theorem folderPath_placeholderName {s : Text} (h : normalizePath s = s) :
    folderPathFromPlaceholder (placeholderName s) = s := by
  have hself : stripSlash (strip s) = s := h
  rw [placeholderName, hself]
  by_cases hs : s = []
  · subst hs
    decide
  · rw [if_neg hs]
    exact folderPathFromPlaceholder_append ⟨h, hs⟩

theorem placeholderName_eq_of_folderPath {s : Text}
    (h : normalizePath (placeholderName s) = placeholderName s) :
    placeholderName s =
      if folderPathFromPlaceholder (placeholderName s) = [] then folderPlaceholderName
      else folderPathFromPlaceholder (placeholderName s) ++ placeholderSuffix := by
  by_cases hs : stripSlash (strip s) = []
  · have hname : placeholderName s = folderPlaceholderName := if_pos hs
    rw [hname]
    decide
  · have hname : placeholderName s = stripSlash (strip s) ++ placeholderSuffix := if_neg hs
    rw [hname] at h ⊢
    rw [folderPathFromPlaceholder_of_normalized h, if_neg hs]

theorem placeholderName_inj_of_folderPath {s s' : Text}
    (h : normalizePath (placeholderName s) = placeholderName s)
    (h' : normalizePath (placeholderName s') = placeholderName s')
    (hpath : folderPathFromPlaceholder (placeholderName s) =
      folderPathFromPlaceholder (placeholderName s')) : placeholderName s = placeholderName s' := by
  rw [placeholderName_eq_of_folderPath h, placeholderName_eq_of_folderPath h', hpath]

/-! ## One grant -/

theorem mem_saveGrant_of_ne {id bucketId : UUID} {ref : Option UUID} (hne : row.id ≠ id) :
    row ∈ (t.saveGrant id bucketId ref).grants.rows ↔ row ∈ t.grants.rows := by
  simp only [saveGrant, Table.rows_rewrite, List.mem_map]
  constructor
  · rintro ⟨g, hg, rfl⟩
    rw [linked_id] at hne
    rwa [linked, if_neg hne]
  · intro h
    exact ⟨row, h, if_neg hne⟩

theorem mem_saveGrant_of_mem {bucketId : UUID} {ref : Option UUID} (hg : g ∈ t.grants.rows)
    (hid : row.id = g.id) : row ∈ (t.saveGrant g.id bucketId ref).grants.rows ↔
      row = { g with bucketId := some bucketId, objectId := ref } := by
  have hself : linked g.id bucketId ref g =
      { g with bucketId := some bucketId, objectId := ref } := if_pos rfl
  simp only [saveGrant, Table.rows_rewrite, List.mem_map]
  constructor
  · rintro ⟨h, hh, rfl⟩
    rw [linked_id] at hid
    rw [t.grants.eq_of_clash hh hg hid, hself]
  · rintro rfl
    exact ⟨g, hg, hself⟩

theorem completes_facts (h : t.Completes env clock g b u) :
    u.buckets = t.buckets ∧ u.grants = t.grants ∧ t.drawn ≤ u.drawn ∧
      t.objects.rows <+: u.objects.rows := by
  rcases h with rfl | ⟨-, hmarker⟩
  · exact ⟨rfl, rfl, le_rfl, List.prefix_rfl⟩
  · obtain ⟨hobjects, hbuckets, hgrants, hdrawn⟩ := createMarker_eq_some env clock hmarker
    exact ⟨hbuckets, hgrants, by omega, hobjects ▸ List.prefix_append ..⟩

theorem mem_grants_of_ne (h : t.migrateGrant env clock g = some t') (hne : row.id ≠ g.id) :
    row ∈ t'.grants.rows ↔ row ∈ t.grants.rows := by
  rcases migrateGrant_cases env clock h with ⟨-, rfl⟩ | ⟨b, ref, u, -, -, hu, -, rfl⟩
  · simp [GrantTables.deleteGrant, hne]
  · rw [mem_saveGrant_of_ne hne, (completes_facts hu).2.1]

theorem mem_grants_self (h : t.migrateGrant env clock g = some t') (hg : g ∈ t.grants.rows) :
    t.Dangling g ∧ (∀ row ∈ t'.grants.rows, row.id ≠ g.id) ∨
      ¬t.Dangling g ∧ ∃ b ref, t.HasBucket g b ∧ t.Refers t' g b ref ∧
        ∀ row, row.id = g.id → (row ∈ t'.grants.rows ↔
          row = { g with bucketId := some b.id, objectId := ref }) := by
  rcases migrateGrant_cases env clock h with ⟨hnone, rfl⟩ | ⟨b, ref, u, hb, hnot, hu, href, rfl⟩
  · refine .inl ⟨hnone, fun row hrow => ?_⟩
    simp only [GrantTables.deleteGrant, Table.rows_delete, List.mem_filter] at hrow
    simpa using hrow.2
  · refine .inr ⟨hnot, b, ref, hb, href, fun row hid => ?_⟩
    rw [← (completes_facts hu).2.1] at hg
    exact mem_saveGrant_of_mem hg hid

theorem objects_of_migrateGrant (h : t.migrateGrant env clock g = some t') :
    t'.buckets = t.buckets ∧ (t'.objects.rows = t.objects.rows ∧ t'.drawn = t.drawn ∨
      g.resourceType = folderType ∧ t'.drawn = t.drawn + 1 ∧ ∃ b, t.HasBucket g b ∧
        t'.objects.rows =
          t.objects.rows ++ [newMarker env clock t.drawn b (placeholderName g.path)]) := by
  rcases migrateGrant_cases env clock h with ⟨-, rfl⟩ | ⟨b, ref, u, hb, -, hu, -, rfl⟩
  · exact ⟨rfl, .inl ⟨rfl, rfl⟩⟩
  · rcases hu with rfl | ⟨htype, hmarker⟩
    · exact ⟨rfl, .inl ⟨rfl, rfl⟩⟩
    · obtain ⟨hobjects, hbuckets, -, hdrawn⟩ := createMarker_eq_some env clock hmarker
      exact ⟨hbuckets, .inr ⟨htype, hdrawn, b, hb, hobjects⟩⟩

/-! ## The whole loop -/

def FreshIds (env : Env) (t : GrantTables) : Prop :=
  ∀ o ∈ t.objects.rows, ∀ n, t.drawn ≤ n → o.id ≠ env.uuid4 n

theorem FreshIds.step (hfresh : FreshIds env t) (henv : env.Lawful)
    (h : t.migrateGrant env clock g = some t') : FreshIds env t' := by
  obtain ⟨-, ⟨hobjects, hdrawn⟩ | ⟨-, hdrawn, b, -, hobjects⟩⟩ := objects_of_migrateGrant h
  · rwa [FreshIds, hobjects, hdrawn]
  · intro o ho n hn
    rw [hobjects, List.mem_append, List.mem_singleton] at ho
    rw [hdrawn] at hn
    rcases ho with ho | rfl
    · exact hfresh o ho n (by omega)
    · rw [newMarker_id]
      intro hid
      have := henv.uuid4_injective hid
      omega

theorem FreshIds.exists_step (hfresh : FreshIds env t) (clock : Nat → Time) (g : LegacyGrant) :
    ∃ t', t.migrateGrant env clock g = some t' := by
  rw [migrateGrant]
  split
  · exact ⟨_, rfl⟩
  · rename_i bucket _
    split
    · exact ⟨_, rfl⟩
    split
    · split <;> exact ⟨_, rfl⟩
    split
    · cases hobj : t.objectNamed bucket.id (placeholderName g.path) with
      | some o =>
          simp only [hobj]
          exact ⟨_, rfl⟩
      | none =>
          have hfree : t.objects.Free
              (newMarker env clock t.drawn bucket (placeholderName g.path)) := by
            rintro o ho (hid | ⟨hbucket, hname⟩)
            · rw [newMarker_id] at hid
              exact hfresh o ho t.drawn le_rfl hid
            · rw [newMarker_bucketId] at hbucket
              rw [newMarker_name] at hname
              have hfound : t.objectNamed bucket.id (placeholderName g.path) = some o :=
                objectNamed_eq_some.mpr ⟨ho, hbucket, hname⟩
              rw [hobj] at hfound
              cases hfound
          simp only [hobj, createMarker, dif_pos hfree]
          exact ⟨_, rfl⟩
    · exact ⟨_, rfl⟩

theorem FreshIds.exists_run (hfresh : FreshIds env t) (henv : env.Lawful) (clock : Nat → Time)
    (gs : List LegacyGrant) : ∃ t', (migration env clock).run t gs = some t' := by
  induction gs generalizing t with
  | nil => exact ⟨t, rfl⟩
  | cons g gs ih =>
      obtain ⟨t₁, h⟩ := hfresh.exists_step clock g
      obtain ⟨t', hrun⟩ := ih (hfresh.step henv h)
      exact ⟨t', Machine.run_cons.mpr ⟨t₁, h, hrun⟩⟩

theorem mem_grants_of_run (hrun : (migration env clock).run t gs = some t')
    (hne : ∀ g ∈ gs, row.id ≠ g.id) : row ∈ t'.grants.rows ↔ row ∈ t.grants.rows := by
  induction gs generalizing t with
  | nil =>
      cases hrun
      rfl
  | cons g gs ih =>
      obtain ⟨t₁, h, hrun⟩ := Machine.run_cons.mp hrun
      rw [ih hrun fun g' hg' => hne g' (List.mem_cons_of_mem _ hg'),
        mem_grants_of_ne h (hne g List.mem_cons_self)]

structure MarkersAdded (env : Env) (clock : Nat → Time) (gs : List LegacyGrant)
    (t t' : GrantTables) : Prop where
  buckets : t'.buckets = t.buckets
  objects : ∃ created, t'.objects.rows = t.objects.rows ++ created ∧
    ∀ o ∈ created, ∃ g ∈ gs, g.resourceType = folderType ∧ ∃ b n, t.HasBucket g b ∧
      o = newMarker env clock n b (placeholderName g.path)

theorem markersAdded_of_run (hrun : (migration env clock).run t gs = some t') :
    MarkersAdded env clock gs t t' := by
  induction gs generalizing t with
  | nil =>
      cases hrun
      exact ⟨rfl, [], by simp, by simp⟩
  | cons g gs ih =>
      obtain ⟨t₁, h, hrun⟩ := Machine.run_cons.mp hrun
      obtain ⟨hbuckets, created, hobjects, hcreated⟩ := ih hrun
      obtain ⟨hbuckets₁, hobjects₁⟩ := objects_of_migrateGrant h
      have hlater : ∀ o ∈ created, ∃ g' ∈ g :: gs, g'.resourceType = folderType ∧
          ∃ b n, t.HasBucket g' b ∧ o = newMarker env clock n b (placeholderName g'.path) := by
        intro o ho
        obtain ⟨g', hg', htype, b, n, hb, rfl⟩ := hcreated o ho
        rw [HasBucket, hbuckets₁] at hb
        exact ⟨g', List.mem_cons_of_mem _ hg', htype, b, n, hb, rfl⟩
      refine ⟨hbuckets.trans hbuckets₁, ?_⟩
      rcases hobjects₁ with ⟨hobjects₁, -⟩ | ⟨htype, -, b, hb, hobjects₁⟩
      · exact ⟨created, by rw [hobjects, hobjects₁], hlater⟩
      · refine ⟨newMarker env clock t.drawn b (placeholderName g.path) :: created,
          by simp [hobjects, hobjects₁], fun o ho => ?_⟩
        rcases List.mem_cons.mp ho with rfl | ho
        · exact ⟨g, List.mem_cons_self, htype, b, t.drawn, hb, rfl⟩
        · exact hlater o ho

/-! ## What is preserved -/

/-- The same bucket and the same name or, between normalized names, the same folder. -/
def SharesFolder (o p : StorageObject) : Prop :=
  o.bucketId = p.bucketId ∧ (o.name = p.name ∨
    normalizePath o.name = o.name ∧ normalizePath p.name = p.name ∧
      folderPathFromPlaceholder o.name = folderPathFromPlaceholder p.name)

/-- `g'` is what is left of the grant `g`, which the loop reached with the tables `u`. -/
structure Preserves (u t' : GrantTables) (g g' : LegacyGrant) : Prop where
  kept : g' = { g with bucketId := g'.bucketId, objectId := g'.objectId }
  bucket : ∃ b ∈ t'.buckets.rows, b.companyId = g.companyId ∧ b.name = g.namedBucket ∧
    g'.bucketId = some b.id
  matchesType : g'.ObjectMatchesType
  folder : g.resourceType = folderType →
    (∃ o ∈ t'.objects.rows, g'.bucketId = some o.bucketId ∧ g'.objectId = some o.id ∧
      o.name = placeholderName g.path) ∧
    t'.resourcePath g' = folderPathFromPlaceholder (placeholderName g.path) ∧
    (normalizePath g.path = g.path → t'.resourcePath g' = freed g.resourceId)
  object : g.resourceType = objectType →
    ∃ o ∈ u.objects.rows, g'.bucketId = some o.bucketId ∧ g'.objectId = some o.id ∧
      t'.resourcePath g' = normalizePath o.name ∧
      (uuidOfText g.path = some o.id ∨
        (∀ p ∈ u.objects.rows, p.bucketId = o.bucketId → uuidOfText g.path ≠ some p.id) ∧
          o.name = g.path ∧
          (strip o.name = o.name → t'.resourcePath g' = freed g.resourceId))

theorem find?_objectId {o : StorageObject} (ho : o ∈ t.objects.rows) :
    t.objects.rows.find? (fun p => decide (p.id = o.id)) = some o :=
  t.objects.find?_eq_some (fun p hp => .inl (of_decide_eq_true hp).symm) ho (by simp)

theorem resourcePath_folder {o : StorageObject} (ho : o ∈ t.objects.rows)
    (htype : g.resourceType = folderType) (hid : g.objectId = some o.id) :
    t.resourcePath g = folderPathFromPlaceholder o.name := by
  have hne : folderType ≠ bucketType := by decide
  simp [GrantTables.resourcePath, htype, hid, hne, find?_objectId ho]

theorem resourcePath_object {o : StorageObject} (ho : o ∈ t.objects.rows)
    (htype : g.resourceType = objectType) (hid : g.objectId = some o.id) :
    t.resourcePath g = normalizePath o.name := by
  have hne : objectType ≠ bucketType := by decide
  have hne' : objectType ≠ folderType := by decide
  simp [GrantTables.resourcePath, htype, hid, hne, hne', find?_objectId ho]

theorem normalizePath_eq_freed_of_name {o : StorageObject} (hname : o.name = g.path)
    (hstrip : strip o.name = o.name) : normalizePath o.name = freed g.resourceId := by
  have hslash : stripSlash o.name = o.name := by
    rw [hname]
    exact trim_trim isSlash _
  have hself : normalizePath o.name = o.name := by rw [normalizePath, hstrip, hslash]
  have hpath : normalizePath (normalizePath g.resourceId) = normalizePath g.resourceId := by
    rw [hname] at hself
    exact hself
  rw [hself, hname, freed_eq_normalizePath hpath]
  rfl

theorem preserves_of_refers {ref : Option UUID} {v : GrantTables} (hb : u.HasBucket g b)
    (href : u.Refers v g b ref) (hbuckets : t'.buckets = u.buckets)
    (hu : u.objects.rows ⊆ t'.objects.rows) (hv : v.objects.rows ⊆ t'.objects.rows) :
    Preserves u t' g { g with bucketId := some b.id, objectId := ref } := by
  have hbucket : ∃ b' ∈ t'.buckets.rows, b'.companyId = g.companyId ∧
      b'.name = g.namedBucket ∧ some b.id = some b'.id :=
    ⟨b, hbuckets ▸ hb.1, hb.2.1, hb.2.2, rfl⟩
  rcases href with ⟨htype, rfl⟩ | ⟨htype, o, ho, hobucket, hname, rfl⟩ |
    ⟨htype, o, ho, hobucket, rfl, hnames⟩
  · exact {
      kept := rfl
      bucket := hbucket
      matchesType := .inl ⟨htype, rfl⟩
      folder := fun h => absurd (htype.symm.trans h) (by decide)
      object := fun h => absurd (htype.symm.trans h) (by decide) }
  · have hpath : t'.resourcePath { g with bucketId := some b.id, objectId := some o.id } =
        folderPathFromPlaceholder (placeholderName g.path) := by
      rw [← hname]
      exact resourcePath_folder (hv ho) htype rfl
    refine ⟨rfl, hbucket, .inr ⟨.inl htype, by simp⟩, fun _ => ⟨?_, hpath, fun hself => ?_⟩,
      fun h => absurd (htype.symm.trans h) (by decide)⟩
    · exact ⟨o, hv ho, congrArg some hobucket.symm, rfl, hname⟩
    · rw [hpath, folderPath_placeholderName hself]
      exact (freed_eq_normalizePath hself).symm
  · have hpath : t'.resourcePath { g with bucketId := some b.id, objectId := some o.id } =
        normalizePath o.name := resourcePath_object (hu ho) htype rfl
    refine ⟨rfl, hbucket, .inr ⟨.inr htype, by simp⟩,
      fun h => absurd (htype.symm.trans h) (by decide), fun _ => ?_⟩
    refine ⟨o, ho, congrArg some hobucket.symm, rfl, hpath, hnames.imp_right ?_⟩
    rintro ⟨hother, -, hname⟩
    refine ⟨fun p hp hpbucket => hother p hp (hpbucket.trans hobucket), hname, fun hstrip => ?_⟩
    rw [hpath]
    exact normalizePath_eq_freed_of_name hname hstrip

theorem eq_of_sharesFolder (hadded : MarkersAdded env clock gs t t') {created : List StorageObject}
    (hcreated : t'.objects.rows = t.objects.rows ++ created) {o p : StorageObject}
    (ho : o ∈ created) (hp : p ∈ created) (hsame : SharesFolder o p) : o = p := by
  obtain ⟨-, created', hcreated', hmarkers⟩ := hadded
  obtain rfl := List.append_cancel_left (hcreated.symm.trans hcreated')
  have hrow {o : StorageObject} (ho : o ∈ created) : o ∈ t'.objects.rows := by
    rw [hcreated]
    exact List.mem_append_right _ ho
  have hmarked {o : StorageObject} (ho : o ∈ created) : ∃ path, o.name = placeholderName path := by
    obtain ⟨g, -, -, b, n, -, rfl⟩ := hmarkers o ho
    exact ⟨g.path, newMarker_name ..⟩
  have hname : o.name = p.name := by
    obtain ⟨path, hpath⟩ := hmarked ho
    obtain ⟨path', hpath'⟩ := hmarked hp
    rcases hsame.2 with hname | ⟨hself, hself', hfolder⟩
    · exact hname
    · rw [hpath, hpath'] at hfolder
      rw [hpath] at hself ⊢
      rw [hpath'] at hself' ⊢
      exact placeholderName_inj_of_folderPath hself hself' hfolder
  exact t'.objects.eq_of_clash (hrow ho) (hrow hp) (.inr ⟨hsame.1, hname⟩)

theorem MarkersAdded.subset (h : MarkersAdded env clock gs t t') :
    t.objects.rows ⊆ t'.objects.rows := by
  obtain ⟨created, hobjects, -⟩ := h.objects
  rw [hobjects]
  exact List.subset_append_left ..

/-- A grant is decided by the pass that reaches it: the passes before and after leave its row. -/
theorem preserves_of_run {before after : List LegacyGrant}
    (hrows : t.grants.rows = before ++ g :: after)
    (hrun : (migration env clock).run t (before ++ g :: after) = some t') :
    ∃ u, (migration env clock).run t before = some u ∧ MarkersAdded env clock before t u ∧
      ((∃ g' ∈ t'.grants.rows, g'.id = g.id) ↔ ¬u.Dangling g) ∧
      ∀ g' ∈ t'.grants.rows, g'.id = g.id → Preserves u t' g g' := by
  obtain ⟨u, hbefore, hrest⟩ := Machine.run_append.mp hrun
  obtain ⟨v, hstep, hafter⟩ := Machine.run_cons.mp hrest
  have hids : (before ++ g :: after).Pairwise fun g h => g.id ≠ h.id := hrows ▸ t.grants.unique
  obtain ⟨-, hlater, hearlier⟩ := List.pairwise_append.mp hids
  have hg : g ∈ u.grants.rows := by
    rw [mem_grants_of_run hbefore fun h hh heq => hearlier h hh g List.mem_cons_self heq.symm,
      hrows]
    simp
  have hleft {row : LegacyGrant} (hid : row.id = g.id) :
      row ∈ t'.grants.rows ↔ row ∈ v.grants.rows :=
    mem_grants_of_run hafter fun h hh => hid ▸ List.rel_of_pairwise_cons hlater hh
  have hu := markersAdded_of_run hrest
  refine ⟨u, hbefore, markersAdded_of_run hbefore, ?_⟩
  rcases mem_grants_self hstep hg with ⟨hdangling, hgone⟩ | ⟨hnot, b, ref, hb, href, hself⟩
  · have hgone' : ∀ g' ∈ t'.grants.rows, g'.id ≠ g.id :=
      fun g' hg' hid => hgone g' ((hleft hid).mp hg') hid
    refine ⟨⟨?_, fun hnot => absurd hdangling hnot⟩, fun g' hg' hid => ?_⟩
    · rintro ⟨g', hg', hid⟩
      exact absurd hid (hgone' g' hg')
    · exact absurd hid (hgone' g' hg')
  · obtain ⟨kept, hkept⟩ : ∃ kept : LegacyGrant,
        kept = { g with bucketId := some b.id, objectId := ref } := ⟨_, rfl⟩
    have hid : kept.id = g.id := by rw [hkept]
    have hmem : kept ∈ t'.grants.rows := (hleft hid).mpr ((hself kept hid).mpr hkept)
    refine ⟨⟨fun _ => hnot, fun _ => ⟨kept, hmem, hid⟩⟩, fun g' hg' hid => ?_⟩
    rw [(hself g' hid).mp ((hleft hid).mp hg')]
    exact preserves_of_refers hb href hu.buckets hu.subset (markersAdded_of_run hafter).subset

/--
After the migration every grant that is left is linked as its texts say: to the
bucket named in its own company and to the object or folder marker named in it.
A grant goes exactly when there is nothing to link it to in the tables the loop
reaches it with, the old ones and the markers of the grants before it.  Old
objects stay as they are, and each folder gets one marker at most.
-/
theorem forwardsGrantFks_preserves (env : Env) (clock : Nat → Time) (t : GrantTables)
    (henv : env.Lawful) (hfresh : FreshIds env t) :
    ∃ t', forwardsGrantFks env clock t = some t' ∧
      MarkersAdded env clock t.grants.rows t t' ∧
      (∀ created, t'.objects.rows = t.objects.rows ++ created →
        ∀ o ∈ created, ∀ p ∈ created, SharesFolder o p → o = p) ∧
      (∀ g' ∈ t'.grants.rows, ∃ g ∈ t.grants.rows, g.id = g'.id) ∧
      ∀ before g after, t.grants.rows = before ++ g :: after →
        ∃ u, (migration env clock).run t before = some u ∧
          MarkersAdded env clock before t u ∧
          ((∃ g' ∈ t'.grants.rows, g'.id = g.id) ↔ ¬u.Dangling g) ∧
          ∀ g' ∈ t'.grants.rows, g'.id = g.id → Preserves u t' g g' := by
  obtain ⟨t', hrun⟩ := hfresh.exists_run henv clock t.grants.rows
  have hadded := markersAdded_of_run hrun
  refine ⟨t', hrun, hadded, fun created hcreated o ho p hp hsame =>
    eq_of_sharesFolder hadded hcreated ho hp hsame, fun g' hg' => ?_,
    fun before g after hrows => ?_⟩
  · by_contra hnone
    have hold : g' ∈ t.grants.rows :=
      (mem_grants_of_run hrun fun g hg heq => hnone ⟨g, hg, heq.symm⟩).mp hg'
    exact hnone ⟨g', hold, rfl⟩
  · exact preserves_of_run hrows (hrows ▸ hrun)

/-! ## Texts with blanks between slashes -/

def plainObject (id : UUID) (name : Text) : StorageObject where
  id := id
  bucketId := sampleBucket.id
  name := name
  companyId := 1
  ownerId := none
  size := 0
  etag := []
  mimeType := octetStream
  storageKey := []
  version := 1
  createdAt := 0
  updatedAt := 0

def sampleGrant (id : UUID) (resourceType resourceId : Text) : LegacyGrant where
  id := id
  companyId := 1
  subjectType := ['u', 's', 'e', 'r']
  subjectId := ['2']
  resourceType := resourceType
  resourceId := resourceId
  bucketName := []
  permission := ['r', 'e', 'a', 'd']
  effect := ['a', 'l', 'l', 'o', 'w']
  createdById := none
  createdAt := 0
  expiresAt := none
  notes := []
  bucketId := none
  objectId := none

def blankTables : GrantTables where
  buckets := ⟨[sampleBucket], by decide⟩
  objects := ⟨[plainObject 10 ['a'], plainObject 11 ['b', '/']], by decide⟩
  grants := ⟨[
    sampleGrant 1 folderType ['/', ' ', '/', ' ', '/', ' ', '/', ' ', 'a'],
    sampleGrant 2 objectType ['/', ' ', 'a'],
    sampleGrant 3 folderType ['a'],
    sampleGrant 4 folderType ['/', ' ', '/', ' ', 'a'],
    sampleGrant 5 objectType (uuidText 11)], by decide⟩
  drawn := 1

theorem freshIds_blankTables : FreshIds (sampleEnv false) blankTables := by
  have hsmall : ∀ o ∈ blankTables.objects.rows, o.id < 100 := by decide
  intro o ho n _ hid
  have hlarge : 100 ≤ (sampleEnv false).uuid4 n := Nat.le_add_right_of_le (by decide)
  exact absurd (hid ▸ hsmall o ho) (Nat.not_lt.mpr hlarge)

theorem forwardsGrantFks_preserves_blankTables :
    ∃ t', forwardsGrantFks (sampleEnv false) (fun _ => 0) blankTables = some t' ∧
      ∀ g' ∈ t'.grants.rows, ∃ g ∈ blankTables.grants.rows, g.id = g'.id := by
  obtain ⟨t', hrun, -, -, hids, -⟩ := forwardsGrantFks_preserves (sampleEnv false) (fun _ => 0)
    blankTables (sampleEnv_lawful false) freshIds_blankTables
  exact ⟨t', hrun, hids⟩

/--
A folder grant ends up at ` / a` and not at `a`, the grant on the object `a`
goes, the folder `a` gets two markers, and the path of the grant on `b/` is `b`.
-/
theorem blankTables_not_preserved :
    ∃ t' ∈ forwardsGrantFks (sampleEnv false) (fun _ => 0) blankTables,
      (∃ g' ∈ t'.grants.rows, g'.resourceType = folderType ∧
        t'.resourcePath g' ≠ freed g'.resourceId) ∧
      (∃ g ∈ blankTables.grants.rows, g.resourceType = objectType ∧
        (∃ o ∈ blankTables.objects.rows, o.name = freed g.resourceId) ∧
        ∀ g' ∈ t'.grants.rows, g'.id ≠ g.id) ∧
      (∃ o ∈ t'.objects.rows, ∃ p ∈ t'.objects.rows, o ≠ p ∧ o ∉ blankTables.objects.rows ∧
        p ∉ blankTables.objects.rows ∧ o.bucketId = p.bucketId ∧
        folderPathFromPlaceholder o.name = folderPathFromPlaceholder p.name) ∧
      ∃ g' ∈ t'.grants.rows, ∃ o ∈ t'.objects.rows, g'.resourceType = objectType ∧
        uuidOfText g'.resourceId = some o.id ∧ g'.objectId = some o.id ∧
        t'.resourcePath g' ≠ o.name := by
  decide +kernel

end GrantMigration

end StorageService.Results
