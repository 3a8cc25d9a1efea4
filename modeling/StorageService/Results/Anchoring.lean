import StorageService.Storage.Placement

/-!
# Folder grants and their markers

A folder grant hangs on a marker, an object like any other whose name says which
folder it is.  As long as operations keep to markers, every folder grant has
one, and what it covers changes with the folder alone.
-/

namespace StorageService.Results

open StorageService.Foundation
open StorageService.Foundation.Action
open StorageService.Storage

variable {env : Env} {w s s' : World}

/-! ## Markers -/

def FolderMarker (name : Text) : Prop := ∃ folder : Text, folder ≠ [] ∧
  name = folder ++ placeholderSuffix

def SameFolder (a b : Text) : Prop :=
  normalizePath (folderPathFromPlaceholder a) = normalizePath (folderPathFromPlaceholder b)

/--
The operation leaves folder grants on markers: a new object that gets them has
the literal name of a marker, a grant is not asked for on the root folder, and
an object with a folder grant is only moved to another name of that folder.
-/
structure KeepsMarkers (env : Env) (db : Database) (op : Operation) : Prop where
  created : ∀ bucket name userId, CreatesAt db op bucket name (some userId) →
    db.objectNamed bucket.id name = none → placeholderSuffix <:+ normalizePath name →
      placeholderSuffix <:+ name
  granted : ∀ principal data fields, op = .createGrant principal data →
    readGrantRequest env data = .ok fields → fields.resourceType = .folder →
      normalizePath fields.resourceId ≠ []
  moved : ∀ bucket source destBucket dest sourceName name obj,
    op = .move bucket source destBucket dest → safeObjectPath source = .ok sourceName →
    safeObjectPath dest = .ok name → db.objectNamed bucket.id sourceName = some obj →
    db.objectNamed destBucket.id name = none →
    (∃ g ∈ db.grants.rows, g.resource = .folder obj.id) →
      destBucket.id = bucket.id ∧ placeholderSuffix <:+ name ∧ SameFolder name obj.name

theorem folderMarker_of_canonical {name : Text} (hname : Canonical name)
    (h : placeholderSuffix <:+ name) : FolderMarker name := by
  obtain ⟨folder, rfl⟩ := h
  exact ⟨folder, (Canonical.append_iff.mp hname).1.ne_nil, rfl⟩

theorem FolderMarker.renamedPath {src dst name : Text} (h : FolderMarker name)
    ( hprefix : src ++ ['/'] <+: name) (hdst : dst ≠ []) :
    FolderMarker (renamedPath src dst name) := by
  obtain ⟨folder, -, rfl⟩ := h
  have hbase : '/' ∉ folderPlaceholderName := by decide
  have hfolder : src <+: folder := prefix_of_sep_prefix hbase hprefix
  obtain ⟨rest, rfl⟩ := hfolder
  refine ⟨dst ++ rest, by simp [hdst], ?_⟩
  rw [Storage.renamedPath, List.append_assoc, List.drop_left, List.append_assoc]

/-! ## Every folder grant has a marker -/

/-- The grant hangs on the marker `o` in its own bucket and company. -/
structure AnchoredTo (db : Database) (g : GrantRow) (o : StorageObject) : Prop where
  mem : o ∈ db.objects.rows
  bucketId : o.bucketId = g.bucketId
  name : FolderMarker o.name
  bucket : ∃ b ∈ db.buckets.rows, b.id = g.bucketId ∧ b.companyId = g.companyId

def Anchored (db : Database) : Prop :=
  ∀ g ∈ db.grants.rows, ∀ id, g.resource = .folder id → ∃ o, o.id = id ∧ AnchoredTo db g o

theorem AnchoredTo.of_mem {db db' : Database} {g : GrantRow} {o : StorageObject}
    (h : AnchoredTo db g o) (hmem : o ∈ db'.objects.rows)
    (hbuckets : ∀ b ∈ db.buckets.rows, ∃ b' ∈ db'.buckets.rows,
      b'.id = b.id ∧ b'.companyId = b.companyId) : AnchoredTo db' g o := by
  obtain ⟨b, hb, hid, hcompany⟩ := h.bucket
  obtain ⟨b', hb', hid', hcompany'⟩ := hbuckets b hb
  exact ⟨hmem, h.bucketId, h.name, b', hb', hid'.trans hid, hcompany'.trans hcompany⟩

theorem Anchored.of_kept {db db' : Database} (h : Anchored db)
    (hgrants : ∀ g ∈ db'.grants.rows, g ∈ db.grants.rows)
    (hobjects : ∀ o ∈ db.objects.rows, o ∈ db'.objects.rows)
    (hbuckets : ∀ b ∈ db.buckets.rows, ∃ b' ∈ db'.buckets.rows,
      b'.id = b.id ∧ b'.companyId = b.companyId) : Anchored db' := by
  intro g hg id hfolder
  obtain ⟨o, hid, ho⟩ := h g (hgrants g hg) id hfolder
  exact ⟨o, hid, ho.of_mem (hobjects o ho.mem) hbuckets⟩

theorem Anchored.of_rewritten {db db' : Database} (h : Anchored db)
    {f : StorageObject → StorageObject} (hid : ∀ o, (f o).id = o.id)
    (hbuckets : db'.buckets = db.buckets)
    (hgrants : ∀ g ∈ db'.grants.rows, ∀ id, g.resource = .folder id → g ∈ db.grants.rows)
    (hobjects : db'.objects.rows = db.objects.rows.map f)
    (hmarker : ∀ g ∈ db.grants.rows, ∀ o, g.resource = .folder o.id → AnchoredTo db g o →
      (f o).bucketId = o.bucketId ∧ FolderMarker (f o).name) : Anchored db' := by
  intro g hg id hfolder
  have hg' := hgrants g hg id hfolder
  obtain ⟨o, rfl, ho⟩ := h g hg' id hfolder
  obtain ⟨hbucketId, hname⟩ := hmarker g hg' o hfolder ho
  refine ⟨f o, hid o, ?_, hbucketId.trans ho.bucketId, hname, ?_⟩
  · rw [hobjects]
    exact List.mem_map_of_mem ho.mem
  · rw [hbuckets]
    exact ho.bucket

theorem Anchored.of_added {db db' : Database} (h : Anchored db) {new : List GrantRow}
    (hgrants : db'.grants.rows = db.grants.rows ++ new)
    (hobjects : ∀ o ∈ db.objects.rows, o ∈ db'.objects.rows)
    (hbuckets : db'.buckets = db.buckets)
    (hnew : ∀ g ∈ new, ∀ id, g.resource = .folder id → ∃ o, o.id = id ∧ AnchoredTo db' g o) :
    Anchored db' := by
  intro g hg id hfolder
  rw [hgrants, List.mem_append] at hg
  rcases hg with hg | hg
  · obtain ⟨o, hid, ho⟩ := h g hg id hfolder
    exact ⟨o, hid, ho.of_mem (hobjects o ho.mem) (buckets_of_eq hbuckets)⟩
  · exact hnew g hg id hfolder

theorem rebucket_eq_self {objectId bucketId : UUID} {g : GrantRow}
    (h : g.resource.object? = some objectId → g.bucketId = bucketId) :
    Database.rebucket objectId bucketId g = g := by
  by_cases hattached : g.resource.object? = some objectId
  · simp [Database.rebucket, ← h hattached]
  · simp [Database.rebucket, hattached]

theorem Anchored.bucketId_of_folder {db : Database} (h : Anchored db) {g : GrantRow}
    (hg : g ∈ db.grants.rows) {obj : StorageObject} (hobj : obj ∈ db.objects.rows)
    (hresource : g.resource = .folder obj.id) : obj.bucketId = g.bucketId := by
  obtain ⟨o, hid, ho⟩ := h g hg obj.id hresource
  rw [← Database.object_eq_of_id ho.mem hobj hid]
  exact ho.bucketId

theorem Anchored.created {op : Operation} {bucket : Bucket} {ownerId : Option Nat}
    {obj : StorageObject} {new : List GrantRow} (hs : Anchored w.db) (loaded : op.Loaded w.db)
    (ok : KeepsMarkers env w.db op) (asked : CreatesAt w.db op bucket obj.name ownerId)
    (free : w.db.objectNamed bucket.id obj.name = none)
    (place : obj.bucketId = bucket.id ∧ obj.companyId = bucket.companyId)
    (buckets : s'.db.buckets = w.db.buckets)
    (objects : s'.db.objects.rows = w.db.objects.rows ++ [obj])
    (grants : s'.db.grants.rows = w.db.grants.rows ++ new)
    (granted : ∀ g ∈ new, ownerId ≠ none ∧ GrantedOn obj (ownResource obj) g) :
    Anchored s'.db := by
  refine hs.of_added grants ?_ buckets fun g hg id hfolder => ?_
  · rw [objects]
    exact fun o ho => List.mem_append_left _ ho
  · obtain ⟨howner, hon⟩ := granted g hg
    rw [hon.resource] at hfolder
    obtain ⟨userId, rfl⟩ := Option.ne_none_iff_exists'.mp howner
    have hsuffix : placeholderSuffix <:+ normalizePath obj.name := by
      by_contra hnot
      simp [ownResource, hnot] at hfolder
    rw [ownResource, if_pos hsuffix, Resource.folder.injEq] at hfolder
    refine ⟨obj, hfolder, ?_, hon.bucketId.symm, ?_, ?_⟩
    · rw [objects]
      exact List.mem_append_right _ (List.mem_singleton.mpr rfl)
    · exact folderMarker_of_canonical asked.canonical
        (ok.created bucket obj.name userId asked free hsuffix)
    · rw [buckets, hon.bucketId, hon.companyId, place.1, place.2]
      exact ⟨bucket, asked.loaded loaded, rfl, rfl⟩

theorem Anchored.moved {bucket destBucket : Bucket} {source dest sourceName name : Text}
    {obj : StorageObject} (hs : Anchored w.db)
    (ok : KeepsMarkers env w.db (.move bucket source destBucket dest))
    (sourceNamed : safeObjectPath source = .ok sourceName)
    (named : safeObjectPath dest = .ok name)
    (found : w.db.objectNamed bucket.id sourceName = some obj)
    (free : w.db.objectNamed destBucket.id name = none)
    (h : Rewrote (Database.changed obj.id (relocated destBucket.id name w.out.now)) w s')
    (grants : s'.db.grants = w.db.grants ∧ bucket.id = destBucket.id ∨
      s'.db.grants.rows = w.db.grants.rows.map (Database.rebucket obj.id destBucket.id) ∧
        bucket.companyId = destBucket.companyId) : Anchored s'.db := by
  obtain ⟨hobj, hobjBucket, -⟩ := Database.objectNamed_eq_some found
  have hcondition := ok.moved bucket source destBucket dest sourceName name obj rfl
    sourceNamed named found free
  refine hs.of_rewritten (fun o => Database.changed_id ..) h.buckets ?_ h.objects ?_
  · -- a folder grant stays as it is even where the grants of the object move along
    intro g hg id hfolder
    rcases grants with ⟨hgrants, -⟩ | ⟨hgrants, -⟩
    · rwa [← hgrants]
    · rw [hgrants] at hg
      obtain ⟨g', hg', rfl⟩ := List.mem_map.mp hg
      rw [Database.rebucket_resource] at hfolder
      rwa [rebucket_eq_self]
      intro hattached
      have hresource : g'.resource = .folder obj.id := by
        rw [hfolder] at hattached ⊢
        rw [Option.some.inj hattached]
      obtain ⟨hdest, -⟩ := hcondition ⟨g', hg', hresource⟩
      rw [← hs.bucketId_of_folder hg' hobj hresource, hobjBucket, hdest]
  · intro g hg o hfolder ho
    by_cases hid : o.id = obj.id
    · obtain rfl := Database.object_eq_of_id ho.mem hobj hid
      obtain ⟨hdest, hsuffix, -⟩ := hcondition ⟨g, hg, hfolder⟩
      simp only [Database.changed, if_true, relocated]
      exact ⟨hdest.trans hobjBucket.symm,
        folderMarker_of_canonical (canonical_of_safeObjectPath named) hsuffix⟩
    · rw [Database.changed_of_ne hid]
      exact ⟨rfl, ho.name⟩

theorem Anchored.granted {principal : StoragePrincipal} {data : GrantRequest}
    {fields : GrantFields} {bucket : Bucket} {resource : Resource UUID} {id : UUID} {now : Time}
    {s₁ : World} (hs : Anchored s.db) (ok : KeepsMarkers env w.db (.createGrant principal data))
    (read : readGrantRequest env data = .ok fields)
    (resolved : Resolved principal fields.bucketName .read bucket w s₁)
    (same : s.db.buckets = s₁.db.buckets) (names : fields.Names s.db bucket resource)
    (h : GrantAdded (requestedGrant principal bucket.companyId bucket fields resource id now)
      s s') : Anchored s'.db := by
  have hobjects : ∀ o ∈ s.db.objects.rows, o ∈ s'.db.objects.rows := by
    rw [h.objects]
    exact fun o ho => ho
  refine hs.of_added h.grants hobjects h.buckets ?_
  intro g hg i hfolder
  obtain rfl := List.mem_singleton.mp hg
  have hresource : resource = .folder i := hfolder
  unfold GrantFields.Names at names
  cases htype : fields.resourceType with
  | bucket => simp [htype, hresource] at names
  | object =>
      simp only [htype, hresource] at names
      obtain ⟨o, -, -, hfalse⟩ := names
      contradiction
  | folder =>
      simp only [htype, hresource, Resource.folder.injEq] at names
      obtain ⟨o, ho, hbucketId, hname, hid⟩ := names
      refine ⟨o, hid.symm, hobjects o ho, hbucketId, ?_, ?_⟩
      · have hne := ok.granted principal data fields rfl read htype
        refine ⟨normalizePath fields.resourceId, hne, hname.trans ?_⟩
        change (if normalizePath fields.resourceId = [] then _ else _) = _
        rw [if_neg hne]
        rfl
      · rw [h.buckets, same]
        exact ⟨bucket, List.mem_of_find?_eq_some resolved.found, rfl, rfl⟩

theorem Anchored.change {op : Operation} (hs : Anchored s.db) (loaded : op.Loaded w.db)
    (ok : KeepsMarkers env w.db op) (h : Change env w op s s') : Anchored s'.db := by
  cases h with
  | kept h =>
      refine hs.of_kept ?_ ?_ (buckets_of_eq h.buckets)
      · rw [h.grants]
        exact fun g hg => hg
      · rw [h.objects]
        exact fun o ho => ho
  | provisioned h =>
      refine hs.of_kept ?_ ?_ fun b hb => ?_
      · rw [h.grants]
        exact fun g hg => hg
      · rw [h.objects]
        exact fun o ho => ho
      · obtain ⟨b', hb', hid, hcompany, -⟩ := h.kept b hb
        exact ⟨b', hb', hid, hcompany⟩
  | bucketAdded _ buckets objects grants =>
      refine hs.of_kept ?_ ?_ fun b hb => ⟨b, ?_, rfl, rfl⟩
      · rw [grants]
        exact fun g hg => hg
      · rw [objects]
        exact fun o ho => ho
      · rw [buckets]
        exact List.mem_append_left _ hb
  | created asked free place buckets objects grants granted =>
      exact hs.created loaded ok asked free place buckets objects grants granted
  | marked _ _ _ buckets objects grants =>
      refine hs.of_kept ?_ ?_ (buckets_of_eq buckets)
      · rw [grants]
        exact fun g hg => hg
      · rw [objects]
        exact fun o ho => List.mem_append_left _ ho
  | @overwrote u existing obj _ found same buckets objects grants =>
      refine hs.of_rewritten (fun o => Database.changed_id ..) buckets ?_ objects ?_
      · rw [grants]
        exact fun g hg _ _ => hg
      · intro g _ o _ ho
        by_cases hid : o.id = existing.id
        · obtain rfl := Database.object_eq_of_id ho.mem found hid
          simp only [Database.changed, if_true, same, true_and]
          exact ho.name
        · rw [Database.changed_of_ne hid]
          exact ⟨rfl, ho.name⟩
  | removed h =>
      intro g hg id hfolder
      obtain ⟨hg, hkept⟩ := (h.grants g).mp hg
      obtain ⟨o, rfl, ho⟩ := hs g hg id hfolder
      refine ⟨o, rfl, ho.of_mem ((h.objects o).mpr ⟨ho.mem, fun obj hobj hid => ?_⟩)
        (buckets_of_eq h.buckets)⟩
      exact hkept obj hobj (by rw [hfolder, Resource.object?, hid])
  | @renamed bucket source dest src dst _ _ _ nonempty h grants =>
      refine hs.of_rewritten (fun o => ?_) h.buckets ?_ h.objects ?_
      · unfold renamedRow
        split <;> rfl
      · rw [grants]
        exact fun g hg _ _ => hg
      · intro g _ o _ ho
        unfold renamedRow
        split
        · rename_i hinside
          exact ⟨rfl, ho.name.renamedPath hinside.2 nonempty.2⟩
        · exact ⟨rfl, ho.name⟩
  | moved sourceNamed named found free h grants =>
      exact hs.moved ok sourceNamed named found free h grants
  | granted read resolved _ same names h => exact hs.granted ok read resolved same names h
  | ungranted buckets objects grants =>
      refine hs.of_kept ?_ ?_ (buckets_of_eq buckets)
      · rw [grants]
        exact fun g hg => (List.mem_filter.mp hg).1
      · rw [objects]
        exact fun o ho => ho

theorem anchored_of_guardedRun (henv : env.Lawful) {w' : World} (hw : Anchored w.db)
    (h : GuardedRun env (KeepsMarkers env) w w') : Anchored w'.db := by
  refine h.invariant (P := fun w => Anchored w.db) henv ?_ ?_ hw
  · intro w w' hdb _ h
    rwa [hdb]
  · intro w s s' op loaded ok _ hs hchange _
    exact hs.change loaded ok hchange

/-! ## What a folder grant covers -/

def Affects (db : Database) (g : GrantRow) (marker : StorageObject) : Operation → Prop
  | .deleteGrant _ grantId => grantId = g.id
  | .delete d => ∃ obj ∈ d.objects db, obj.id = marker.id
  | .rename bucket source _ => bucket.id = marker.bucketId ∧
      ∃ src, safeObjectPath source = .ok src ∧ src ++ ['/'] <+: marker.name
  | .upload _ | .move _ _ _ _ | .copy _ _ _ _ _ | .folderMarker _ _ _ | .createGrant _ _
  | .companyBucket _ | .addBucket _ | .companyLimit _ _ _ | .userLimit _ _ _ => False

def Covers (db : Database) (g : GrantRow) (path : Text) : Prop :=
  ∃ marker ∈ db.objects.rows, g.resource = .folder marker.id ∧
    folderMatches (folderPathOf marker) path = true

def Fixed (g : GrantRow) (id : UUID) (folder : Text) (db : Database) : Prop :=
  g ∈ db.grants.rows ∧ g.resource = .folder id ∧ ∃ marker ∈ db.objects.rows, marker.id = id ∧
    marker.bucketId = g.bucketId ∧ normalizePath (folderPathOf marker) = folder

theorem Fixed.covers_iff {g : GrantRow} {id : UUID} {folder : Text} {db : Database}
    (h : Fixed g id folder db) (path : Text) :
    Covers db g path ↔ folder = [] ∨ Under '/' folder (normalizePath path) := by
  obtain ⟨-, hresource, marker, hmem, rfl, -, rfl⟩ := h
  constructor
  · rintro ⟨marker', hmem', hresource', hmatches⟩
    have hid : marker.id = marker'.id := by
      rw [hresource] at hresource'
      exact Resource.folder.inj hresource'
    obtain rfl := Database.object_eq_of_id hmem hmem' hid
    simpa [folderMatches] using hmatches
  · intro hmatches
    exact ⟨marker, hmem, hresource, by simpa [folderMatches] using hmatches⟩

theorem Fixed.of_kept {g : GrantRow} {id : UUID} {folder : Text} {db db' : Database}
    (h : Fixed g id folder db) (hgrants : g ∈ db.grants.rows → g ∈ db'.grants.rows)
    (hobjects : ∀ o ∈ db.objects.rows, o.id = id → o ∈ db'.objects.rows) :
    Fixed g id folder db' := by
  obtain ⟨hmem, hresource, marker, hmarker, hid, hrest⟩ := h
  exact ⟨hgrants hmem, hresource, marker, hobjects marker hmarker hid, hid, hrest⟩

theorem Fixed.of_rewritten {g : GrantRow} {id : UUID} {folder : Text} {db db' : Database}
    (h : Fixed g id folder db) {f : StorageObject → StorageObject} (hid : ∀ o, (f o).id = o.id)
    (hgrants : g ∈ db.grants.rows → g ∈ db'.grants.rows)
    (hobjects : db'.objects.rows = db.objects.rows.map f)
    (hmarker : ∀ o ∈ db.objects.rows, o.id = id → o.bucketId = g.bucketId →
      (f o).bucketId = o.bucketId ∧ SameFolder (f o).name o.name) : Fixed g id folder db' := by
  obtain ⟨hmem, hresource, marker, hmem', hmid, hbucketId, hfolder⟩ := h
  obtain ⟨hbucketId', hsame⟩ := hmarker marker hmem' hmid hbucketId
  refine ⟨hgrants hmem, hresource, f marker, ?_, (hid marker).trans hmid,
    hbucketId'.trans hbucketId, hsame.trans hfolder⟩
  rw [hobjects]
  exact List.mem_map_of_mem hmem'

theorem Fixed.change {op : Operation} {g : GrantRow} {marker : StorageObject} {folder : Text}
    (hmarker : marker ∈ w.db.objects.rows) (hw : Fixed g marker.id folder w.db)
    (hs : Fixed g marker.id folder s.db) (ok : KeepsMarkers env w.db op)
    (hnot : ¬Affects w.db g marker op) (h : Change env w op s s') :
    Fixed g marker.id folder s'.db := by
  cases h with
  | kept h =>
      rw [Fixed, h.grants, h.objects]
      exact hs
  | provisioned h =>
      rw [Fixed, h.grants, h.objects]
      exact hs
  | bucketAdded _ _ objects grants =>
      rw [Fixed, grants, objects]
      exact hs
  | created _ _ _ _ objects grants _ =>
      refine hs.of_kept ?_ ?_
      · rw [grants]
        exact List.mem_append_left _
      · rw [objects]
        exact fun o ho _ => List.mem_append_left _ ho
  | marked _ _ _ _ objects grants =>
      refine hs.of_kept ?_ ?_
      · rw [grants]
        exact id
      · rw [objects]
        exact fun o ho _ => List.mem_append_left _ ho
  | @overwrote u existing obj _ found same _ objects grants =>
      refine hs.of_rewritten (fun o => Database.changed_id ..) ?_ objects ?_
      · rw [grants]
        exact id
      · intro o ho _ _
        by_cases hid : o.id = existing.id
        · obtain rfl := Database.object_eq_of_id ho found hid
          simp [Database.changed, same, SameFolder]
        · rw [Database.changed_of_ne hid]
          exact ⟨rfl, rfl⟩
  | removed h =>
      have hkept : ∀ obj, obj ∈ Deletion.objects w.db _ → marker.id ≠ obj.id :=
        fun obj hobj hid => hnot ⟨obj, hobj, hid.symm⟩
      refine hs.of_kept (fun hg => (h.grants g).mpr ⟨hg, fun obj hobj hresource => ?_⟩)
        fun o ho hid => (h.objects o).mpr ⟨ho, fun obj hobj hid' => ?_⟩
      · rw [hs.2.1, Resource.object?, Option.some.injEq] at hresource
        exact hkept obj hobj hresource
      · exact hkept obj hobj (hid.symm.trans hid')
  | @renamed bucket source dest src dst _ sourceNamed _ _ h grants =>
      refine hs.of_rewritten (fun o => ?_) ?_ h.objects ?_
      · unfold renamedRow
        split <;> rfl
      · rw [grants]
        exact id
      · intro o ho hid _
        obtain rfl := Database.object_eq_of_id ho hmarker hid
        have houtside : ¬(o.bucketId = bucket.id ∧ stripSlash src ++ ['/'] <+: o.name) := by
          rintro ⟨hbucketId, hprefix⟩
          rw [(canonical_of_safeObjectPath sourceNamed).stripSlash_eq] at hprefix
          exact hnot ⟨hbucketId.symm, src, sourceNamed, hprefix⟩
        rw [renamedRow, if_neg houtside]
        exact ⟨rfl, rfl⟩
  | @moved bucket destBucket source dest sourceName name obj _ sourceNamed named found free h
      grants =>
      obtain ⟨hobj, hobjBucket, -⟩ := Database.objectNamed_eq_some found
      have hcondition := ok.moved bucket source destBucket dest sourceName name obj rfl
        sourceNamed named found free
      refine hs.of_rewritten (fun o => Database.changed_id ..) (fun hg => ?_) h.objects ?_
      · rcases grants with ⟨hgrants, -⟩ | ⟨hgrants, -⟩
        · rwa [hgrants]
        · rw [hgrants]
          refine List.mem_map.mpr ⟨g, hg, ?_⟩
          refine rebucket_eq_self fun hattached => ?_
          rw [hs.2.1, Resource.object?, Option.some.injEq] at hattached
          obtain rfl := Database.object_eq_of_id hmarker hobj hattached
          obtain ⟨hdest, -⟩ := hcondition ⟨g, hg, hs.2.1⟩
          obtain ⟨-, -, o, ho, hid, hbucketId, -⟩ := hs
          obtain rfl := Database.object_eq_of_id ho hobj hid
          rw [← hbucketId, hobjBucket, hdest]
      · intro o ho hid _
        obtain rfl := Database.object_eq_of_id ho hmarker hid
        by_cases hmoved : o.id = obj.id
        · obtain rfl := Database.object_eq_of_id ho hobj hmoved
          obtain ⟨hdest, -, hsame⟩ := hcondition ⟨g, hs.1, hs.2.1⟩
          simp only [Database.changed, if_true, relocated]
          exact ⟨hdest.trans hobjBucket.symm, hsame⟩
        · rw [Database.changed_of_ne hmoved]
          exact ⟨rfl, rfl⟩
  | granted _ _ _ _ _ h =>
      refine hs.of_kept ?_ ?_
      · rw [h.grants]
        exact List.mem_append_left _
      · rw [h.objects]
        exact fun o ho _ => ho
  | @ungranted principal grantId _ _ _ objects grants =>
      refine hs.of_kept (fun hg => ?_) ?_
      · rw [grants]
        exact List.mem_filter.mpr ⟨hg, by simpa using fun hid : g.id = grantId => hnot hid.symm⟩
      · rw [objects]
        exact fun o ho _ => ho

/--
Every folder grant hangs on the marker of a folder of its own bucket and
company, and only deleting the grant or the marker and renaming the folder or
one above it changes what it covers.
-/
theorem folderGrants_anchored (henv : env.Lawful)
    (h : GuardedRun env (KeepsMarkers env) (.initial env.engine) w) (g : GrantRow)
    (hg : g ∈ w.db.grants.rows) (id : UUID) (hfolder : g.resource = .folder id) :
    ∃ marker ∈ w.db.objects.rows, marker.id = id ∧ marker.bucketId = g.bucketId ∧
      marker.companyId = g.companyId ∧ FolderMarker marker.name ∧
      ∀ w', GuardedStep env (fun db op => KeepsMarkers env db op ∧ ¬Affects db g marker op) w w' →
        g ∈ w'.db.grants.rows ∧ ∀ path, Covers w'.db g path ↔ Covers w.db g path := by
  have hanchored : Anchored w.db := anchored_of_guardedRun henv (by
    intro g hg
    simp [World.initial, Database.empty] at hg) h
  obtain ⟨marker, rfl, hmarker⟩ := hanchored g hg id hfolder
  obtain ⟨b, hb, hbid, hbcompany⟩ := hmarker.bucket
  have hcompany : marker.companyId = g.companyId := by
    rw [← hbcompany]
    exact (((GuardedRun.reachable .refl h).sound henv).company marker hmarker.mem b hb
      (hbid.trans hmarker.bucketId.symm)).symm
  refine ⟨marker, hmarker.mem, rfl, hmarker.bucketId, hcompany, hmarker.name, fun w' hstep => ?_⟩
  have hfixed : Fixed g marker.id (normalizePath (folderPathOf marker)) w.db :=
    ⟨hg, hfolder, marker, hmarker.mem, rfl, hmarker.bucketId, rfl⟩
  have hfixed' : Fixed g marker.id (normalizePath (folderPathOf marker)) w'.db := by
    refine hstep.invariant (P := fun w => Fixed g marker.id _ w.db) henv ?_ ?_ hfixed
    · intro w w' hdb _ h
      rwa [hdb]
    · intro w₀ s s' op hdb _ ok hw hs hchange _
      refine hw.change ?_ hs ok.1 ok.2 hchange
      rw [hdb]
      exact hmarker.mem
  refine ⟨hfixed'.1, fun path => ?_⟩
  rw [hfixed'.covers_iff, hfixed.covers_iff]

def uploadMarker : Operation := .upload (sampleUpload (folderPlaceholderPath ['a']) [] 1)

def markedFolder : World :=
  uploadMarker.after (sampleEnv false)
    (Operation.after (sampleEnv false) (.companyBucket 1) .initial)

theorem keepsMarkers_companyBucket (db : Database) (companyId : Nat) :
    KeepsMarkers env db (.companyBucket companyId) where
  created _ _ _ h := by cases h
  granted _ _ _ h := by cases h
  moved _ _ _ _ _ _ _ h := by cases h

theorem keepsMarkers_upload (db : Database) {u : Upload} (hpath : Canonical u.path)
    (hname : placeholderSuffix <:+ normalizePath u.path → placeholderSuffix <:+ u.path) :
    KeepsMarkers env db (.upload u) where
  created _ _ _ h _ hsuffix := by
    obtain rfl := Except.ok.inj (hpath.symm.trans h.upload_named)
    exact hname hsuffix
  granted _ _ _ h := by cases h
  moved _ _ _ _ _ _ _ h := by cases h

theorem markedFolder_run :
    GuardedRun (sampleEnv false) (KeepsMarkers (sampleEnv false)) .initial markedFolder := by
  refine GuardedRun.after (GuardedRun.after .refl (keepsMarkers_companyBucket _ 1) trivial)
    (keepsMarkers_upload _ ?_ fun _ => ?_) ?_
  · rw [canonical_iff]
    decide +kernel
  · decide +kernel
  · decide +kernel

theorem folderGrants_anchored_markedFolder :
    ∃ g ∈ markedFolder.db.grants.rows,
      Covers ((Operation.upload (sampleUpload ['x'] [97] 1)).after (sampleEnv false)
        markedFolder).db g ['a', '/', 'y'] := by
  have hgrant : ∃ g ∈ markedFolder.db.grants.rows, ∃ o ∈ markedFolder.db.objects.rows,
      g.resource = .folder o.id ∧ folderMatches (folderPathOf o) ['a', '/', 'y'] = true := by
    decide +kernel
  obtain ⟨g, hg, o, ho, hfolder, hmatches⟩ := hgrant
  obtain ⟨marker, -, -, -, -, -, hkept⟩ := folderGrants_anchored (sampleEnv_lawful false)
    markedFolder_run g hg o.id hfolder
  have hstep := hkept _ (.operation (.upload (sampleUpload ['x'] [97] 1)) none
    (by decide +kernel) ⟨keepsMarkers_upload _ (by
      rw [canonical_iff]
      decide) (by decide +kernel), id⟩)
  exact ⟨g, hg, (hstep.2 _).mpr ⟨o, ho, hfolder, hmatches⟩⟩

def movedMarker : World :=
  Operation.after (sampleEnv false)
    (.move sampleBucket (folderPlaceholderPath ['a']) sampleBucket ['b']) markedFolder

theorem not_folderGrants_anchored :
    ¬∀ w : World, Reachable (sampleEnv false) w → ∀ g ∈ w.db.grants.rows, ∀ id,
      g.resource = .folder id → ∃ marker ∈ w.db.objects.rows, marker.id = id ∧
        marker.bucketId = g.bucketId ∧ marker.companyId = g.companyId ∧
        FolderMarker marker.name ∧
        ∀ w', GuardedStep (sampleEnv false) (fun db op => ¬Affects db g marker op) w w' →
          g ∈ w'.db.grants.rows ∧ ∀ path, Covers w'.db g path ↔ Covers w.db g path := by
  intro h
  have hreachable : Reachable (sampleEnv false) movedMarker :=
    (GuardedRun.reachable .refl markedFolder_run).tail (.operation markedFolder _ none
      (by decide +kernel))
  have hgrant : ∃ g ∈ movedMarker.db.grants.rows, ∃ o ∈ movedMarker.db.objects.rows,
      g.resource = .folder o.id ∧ o.name = ['b'] := by
    decide +kernel
  obtain ⟨g, hg, o, ho, hfolder, hname⟩ := hgrant
  obtain ⟨marker, hmarker, hid, -, -, ⟨folder, -, hmarkerName⟩, -⟩ :=
    h movedMarker hreachable g hg o.id hfolder
  obtain rfl := Database.object_eq_of_id hmarker ho hid
  have hsuffix : placeholderSuffix <:+ ['b'] := by
    rw [← hname, hmarkerName]
    exact List.suffix_append ..
  exact absurd hsuffix (by decide)

end StorageService.Results
