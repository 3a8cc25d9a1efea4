import StorageService.Results.Decisions

/-!
# Relocating objects

Moving an object and renaming a folder rewrite names and keep the grants.  A
deny that goes along with an object, or still covers its new name, is heard
there too.
-/

namespace StorageService.Results

open StorageService.Foundation
open StorageService.Foundation.Action
open StorageService.Storage

variable {env : Env}

/-! ## Folders that are renamed as a whole -/

theorem renamedPath_append (src dst rest : Text) :
    renamedPath src dst (src ++ rest) = dst ++ rest := by
  simp [renamedPath]

theorem trimmed_of_append {src dst rest : Text} (hdst : Trimmed dst)
    (h : Trimmed (src ++ rest)) : Trimmed (dst ++ rest) := by
  cases hrest : rest with
  | nil => simpa using hdst
  | cons c tail =>
      have hne : rest ≠ [] := by simp [hrest]
      rw [← hrest]
      refine trimmed_append hdst.2 hne hdst.head ?_
      have hlast := h.last
      rwa [List.getLast_append_of_ne_nil _ hne] at hlast

theorem folderMatches_renamed {src dst folder name : Text} (hdst : Trimmed dst)
    (hfolder : Trimmed folder) (hname : Trimmed name)
    (hmarker : src ++ ['/'] <+: folder ++ placeholderSuffix) (hbelow : src ++ ['/'] <+: name)
    (h : folderMatches folder (normalizePath name) = true) :
    folderMatches (folderPathFromPlaceholder
        (renamedPath src dst (folder ++ placeholderSuffix)))
      (normalizePath (renamedPath src dst name)) = true := by
  obtain ⟨inner, rfl⟩ := prefix_of_sep_prefix (by decide) hmarker
  obtain ⟨rest, rfl⟩ := (List.prefix_append src ['/']).trans hbelow
  have hfolder' : Trimmed (dst ++ inner) := trimmed_of_append hdst hfolder
  have hname' : Trimmed (dst ++ rest) := trimmed_of_append hdst hname
  rw [List.append_assoc, renamedPath_append, renamedPath_append, ← List.append_assoc,
    folderPathFromPlaceholder_append hfolder', hname'.1]
  rw [hname.1] at h
  simp only [folderMatches, hname'.1, hfolder'.1, decide_eq_true_eq]
  simp only [folderMatches, hname.1, hfolder.1, decide_eq_true_eq] at h
  right
  rcases h with hnil | hunder
  · exact absurd hnil hfolder.2
  · exact (under_append_left dst inner rest).mpr ((under_append_left src inner rest).mp hunder)

/-! ## What relocation does to rows and grants -/

def Renames (op : Operation) (f : StorageObject → StorageObject) : Prop :=
  ∀ bucket source dest src dst, op = .rename bucket source dest →
    safeObjectPath source = .ok src → safeObjectPath dest = .ok dst →
    ∀ o, o.bucketId = bucket.id → stripSlash src ++ ['/'] <+: o.name →
      (f o).bucketId = o.bucketId ∧
        (f o).name = renamedPath (stripSlash src) (stripSlash dst) o.name

/--
Objects were rewritten by `f` and grants by `ρ`.  A grant goes to another bucket
only together with the object it hangs on.
-/
structure Relocation (op : Operation) (f : StorageObject → StorageObject)
    (ρ : GrantRow → GrantRow) (w w' : World) : Prop where
  rewrote : Rewrote f w w'
  grants : w'.db.grants.rows = w.db.grants.rows.map ρ
  ids : ∀ o, (f o).id = o.id
  rebucketed : ∀ g, ρ g = { g with bucketId := (ρ g).bucketId }
  onBucket : ∀ g, g.resource.object? = none → (ρ g).bucketId = g.bucketId
  onObject : ∀ o ∈ w.db.objects.rows, ∀ g, g.resource.object? = some o.id →
    g.bucketId = o.bucketId → (ρ g).bucketId = (f o).bucketId
  onOther : ∀ o ∈ w.db.objects.rows, ∀ g, g.resource.object? = some o.id →
    (f o).bucketId = o.bucketId → (ρ g).bucketId = g.bucketId
  renames : Renames op f

/-- Where no object changes its bucket, no grant does. -/
theorem Relocation.of_grants {op : Operation} {f : StorageObject → StorageObject}
    {w w' : World} (hrewrote : Rewrote f w w') (hgrants : w'.db.grants = w.db.grants)
    (hids : ∀ o, (f o).id = o.id)
    (hbuckets : ∀ o ∈ w.db.objects.rows, (f o).bucketId = o.bucketId)
    (hrenames : Renames op f) : Relocation op f id w w' where
  rewrote := hrewrote
  grants := by simp [hgrants]
  ids := hids
  rebucketed _ := rfl
  onBucket _ _ := rfl
  onObject o ho g _ hbucket := by rw [hbuckets o ho, id_eq, hbucket]
  onOther _ _ _ _ _ := rfl
  renames := hrenames

theorem rename_relocation {w w' : World} {bucket : Bucket} {source dest : Text}
    (h : Succeeds env (.rename bucket source dest) w w') :
    ∃ f, Relocation (.rename bucket source dest) f id w w' := by
  obtain ⟨-, fault, hrun⟩ := h
  simp only [Operation.run, runs_bind, runs_pure] at hrun
  obtain ⟨result, s₁, hrename, -, rfl⟩ := hrun
  obtain ⟨src, dst, hsrc, hdst, hgrants, ⟨hsame, hs⟩ | ⟨-, -, hrewrote⟩⟩ :=
    renameFolder_rewrote hrename
  · have hrewrote : Rewrote id (w.withFault fault) w' := hs ▸ Rewrote.refl _
    refine ⟨id, .of_grants hrewrote.of_withFault hgrants (fun _ => rfl) (fun _ _ => rfl) ?_⟩
    rintro _ _ _ src' dst' ⟨rfl, rfl, rfl⟩ hsrc' hdst' o - hbelow
    cases hsrc.symm.trans hsrc'
    cases hdst.symm.trans hdst'
    obtain ⟨rest, hrest⟩ := (List.prefix_append _ ['/']).trans hbelow
    refine ⟨rfl, ?_⟩
    rw [id_eq, ← hrest, renamedPath_append, hsame]
  · refine ⟨_, .of_grants hrewrote.of_withFault hgrants ?_ ?_ ?_⟩
    · intro o
      unfold renamedRow
      split <;> rfl
    · intro o _
      unfold renamedRow
      split <;> rfl
    · rintro _ _ _ src' dst' ⟨rfl, rfl, rfl⟩ hsrc' hdst' o hbucket hbelow
      cases hsrc.symm.trans hsrc'
      cases hdst.symm.trans hdst'
      simp [renamedRow, hbucket, hbelow]

theorem move_relocation {w w' : World} {bucket destBucket : Bucket} {source dest : Text}
    (h : Succeeds env (.move bucket source destBucket dest) w w') :
    ∃ f ρ, Relocation (.move bucket source destBucket dest) f ρ w w' := by
  obtain ⟨-, fault, hrun⟩ := h
  simp only [Operation.run, runs_bind, runs_pure] at hrun
  obtain ⟨moved, s₁, hmove, -, rfl⟩ := hrun
  obtain ⟨sourceName, destName, obj, -, -, hobj, -, -, hrewrote, hgrants⟩ :=
    moveObject_rewrote hmove
  obtain ⟨hmem, hbucketId, -⟩ := Database.objectNamed_eq_some hobj
  have hrenames : ∀ f, Renames (.move bucket source destBucket dest) f := by
    intro f _ _ _ _ _ hop
    contradiction
  rcases hgrants with ⟨hsame, hgrants⟩ | ⟨hother, -, hgrants⟩
  · refine ⟨_, id, .of_grants hrewrote.of_withFault hgrants (fun o => by simp)
      (fun o ho => ?_) (hrenames _)⟩
    by_cases hid : o.id = obj.id
    · obtain rfl : o = obj := Database.object_eq_of_id ho hmem hid
      simp [Database.changed, relocated, hbucketId, hsame]
    · rw [Database.changed_of_ne hid]
  · refine ⟨_, Database.rebucket obj.id destBucket.id,
      ⟨hrewrote.of_withFault, hgrants, fun o => by simp, ?_, ?_, ?_, ?_, hrenames _⟩⟩
    · intro g
      unfold Database.rebucket
      split <;> rfl
    · intro g hnone
      simp [Database.rebucket, hnone]
    · intro o ho g href hbucket
      by_cases hid : o.id = obj.id
      · simp [Database.rebucket, Database.changed, relocated, href, hid]
      · simp [Database.rebucket, Database.changed, href, hid, hbucket]
    · intro o ho g href hstays
      by_cases hid : o.id = obj.id
      · obtain rfl : o = obj := Database.object_eq_of_id ho hmem hid
        simp only [Database.changed, relocated, if_true] at hstays
        exact absurd (hbucketId.symm.trans hstays.symm) hother
      · simp [Database.rebucket, href, hid]

/-! ## Denies that go along -/

/-- `d`, heard about `o`, covers the same object at its new place `o'` too. -/
inductive Carried (op : Operation) (w' : World) (o o' : StorageObject) (d : Grant) : Prop where
  /-- It hangs on the object itself. -/
  | own (h : d.resource = .object o)
  | wholeBucket (h : d.resource = .bucket) (same : o'.bucketId = o.bucketId)
  /-- Its folder, as it is called after the operation, contains the new name. -/
  | folder (marker marker' : StorageObject) (h : d.resource = .folder marker)
      (after : marker' ∈ w'.db.objects.rows) (hid : marker'.id = marker.id)
      (same : marker = o ∨ marker'.bucketId = marker.bucketId ∧ o'.bucketId = o.bucketId)
      (covers : folderMatches (folderPathOf marker') (normalizePath o'.name) = true)
  /-- Its folder lies in the folder that is renamed, as the object does. -/
  | renamed (bucket : Bucket) (source dest src dst folder : Text) (marker : StorageObject)
      (hop : op = .rename bucket source dest) (hsrc : safeObjectPath source = .ok src)
      (hdst : safeObjectPath dest = .ok dst) (trimmed : Trimmed (stripSlash dst))
      (h : d.resource = .folder marker) (hname : marker.name = folder ++ placeholderSuffix)
      (trimmedFolder : Trimmed folder) (trimmedName : Trimmed o.name)
      (marked : marker.bucketId = bucket.id ∧ stripSlash src ++ ['/'] <+: marker.name)
      (inside : o.bucketId = bucket.id ∧ stripSlash src ++ ['/'] <+: o.name)

def carriedGrant (f : StorageObject → StorageObject) (ρ : GrantRow → GrantRow)
    (d : Grant) : Grant :=
  { d with bucketId := (ρ d.row).bucketId, resource := d.resource.map f }

theorem Relocation.mem_activeGrants {op : Operation} {f : StorageObject → StorageObject}
    {ρ : GrantRow → GrantRow} {w w' : World} (h : Relocation op f ρ w w') {now : Time}
    {companyId : Nat} {d : Grant} (hd : d ∈ activeGrants w.db now companyId) :
    carriedGrant f ρ d ∈ activeGrants w'.db now companyId := by
  obtain ⟨hactive, hrow, hrows⟩ := Storage.mem_activeGrants.mp hd
  refine Storage.mem_activeGrants.mpr ⟨hactive, ?_, ?_⟩
  · have hmap : (d.resource.map f).map StorageObject.id = d.resource.map StorageObject.id := by
      cases d.resource <;> simp [Resource.map, h.ids]
    have hcarried : (carriedGrant f ρ d).row = ρ d.row := by
      rw [h.rebucketed]
      simp only [StorageAccessGrant.row, carriedGrant, hmap]
    rw [hcarried, h.grants]
    exact List.mem_map_of_mem hrow
  · intro o ho
    rw [carriedGrant, Resource.object?_map, Option.map_eq_some_iff] at ho
    obtain ⟨p, hp, rfl⟩ := ho
    rw [h.rewrote.objects]
    exact List.mem_map_of_mem (hrows p hp)

theorem resourceMatchesGrant_folder {g : Grant} {marker : StorageObject} {bucket : Bucket}
    {path : Text} {objectId : Option UUID} (h : g.resource = .folder marker)
    (hbucket : g.bucketId = bucket.id) :
    resourceMatchesGrant g bucket (some path) objectId =
      folderMatches (folderPathOf marker) (normalizePath path) := by
  simp [resourceMatchesGrant, h, hbucket]

theorem Relocation.covers {op : Operation} {f : StorageObject → StorageObject}
    {ρ : GrantRow → GrantRow} {w w' : World} (h : Relocation op f ρ w w')
    {o : StorageObject} (ho : o ∈ w.db.objects.rows) {d : Grant}
    (hrows : ∀ p, d.resource.object? = some p → p ∈ w.db.objects.rows)
    {bucket bucket' : Bucket} (hbucket : bucket.id = o.bucketId)
    (hbucket' : bucket'.id = (f o).bucketId)
    (hcovered : resourceMatchesGrant d bucket (some o.name) (some o.id) = true)
    (hcarried : Carried op w' o (f o) d) :
    resourceMatchesGrant (carriedGrant f ρ d) bucket' (some (f o).name) (some (f o).id) =
      true := by
  have hdbucket : d.bucketId = bucket.id := by
    by_contra hne
    simp [resourceMatchesGrant, hne] at hcovered
  cases hcarried with
  | own hown =>
      have hmoved := h.onObject o ho d.row
        (by simp [StorageAccessGrant.row, hown, Resource.map, Resource.object?])
        (hdbucket.trans hbucket)
      simp [resourceMatchesGrant, carriedGrant, hown, Resource.map, hmoved, hbucket']
  | wholeBucket hwhole hsame =>
      have hstays : (ρ d.row).bucketId = d.bucketId := h.onBucket d.row
        (by simp [StorageAccessGrant.row, hwhole, Resource.map, Resource.object?])
      simp [resourceMatchesGrant, carriedGrant, hwhole, Resource.map, hstays, hbucket', hsame,
        hdbucket, hbucket]
  | folder marker marker' hfolder hafter hid hsame hcovers =>
      have hmarker : marker ∈ w.db.objects.rows := hrows marker (by
        simp [hfolder, Resource.object?])
      have href : d.row.resource.object? = some marker.id := by
        simp [StorageAccessGrant.row, hfolder, Resource.map, Resource.object?]
      have hmapped : f marker ∈ w'.db.objects.rows := by
        rw [h.rewrote.objects]
        exact List.mem_map_of_mem hmarker
      obtain rfl : marker' = f marker :=
        Database.object_eq_of_id hafter hmapped (hid.trans (h.ids marker).symm)
      rw [resourceMatchesGrant_folder (by rw [carriedGrant, hfolder]; rfl), hcovers]
      rw [carriedGrant, hbucket']
      rcases hsame with rfl | ⟨hstays, hstays'⟩
      · exact h.onObject marker ho d.row href (hdbucket.trans hbucket)
      · rw [h.onOther marker hmarker d.row href hstays, hstays', ← hbucket]
        exact hdbucket
  | renamed b source dest src dst folder marker hop hsrc hdst htrimmed hfolder hname
      htrimmedFolder htrimmedName hmarked hinside =>
      have hmarker : marker ∈ w.db.objects.rows := hrows marker (by
        simp [hfolder, Resource.object?])
      have href : d.row.resource.object? = some marker.id := by
        simp [StorageAccessGrant.row, hfolder, Resource.map, Resource.object?]
      obtain ⟨hstays, hmarkerName⟩ :=
        h.renames b source dest src dst hop hsrc hdst marker hmarked.1 hmarked.2
      obtain ⟨hstays', hobjectName⟩ :=
        h.renames b source dest src dst hop hsrc hdst o hinside.1 hinside.2
      rw [resourceMatchesGrant_folder hfolder hdbucket, folderPathOf, hname,
        folderPathFromPlaceholder_append htrimmedFolder] at hcovered
      have hbelow := hmarked.2
      rw [hname] at hbelow
      rw [resourceMatchesGrant_folder (by rw [carriedGrant, hfolder]; rfl), folderPathOf,
        hmarkerName, hobjectName, hname]
      · exact folderMatches_renamed htrimmed htrimmedFolder htrimmedName hbelow hinside.2
          hcovered
      · rw [carriedGrant, hbucket', hstays', ← hbucket, ← hdbucket]
        exact h.onOther marker hmarker d.row href hstays

/-! ## Relocation never opens what such a deny closes -/

def Relocates : Operation → Prop
  | .rename _ _ _ | .move _ _ _ _ => True
  | _ => False

theorem relocation_of_succeeds {w w' : World} {op : Operation} (hop : Relocates op)
    (h : Succeeds env op w w') : ∃ f ρ, Relocation op f ρ w w' := by
  cases op with
  | rename bucket source dest =>
      obtain ⟨f, hf⟩ := rename_relocation h
      exact ⟨f, id, hf⟩
  | move bucket source destBucket dest => exact move_relocation h
  | _ => exact absurd hop id

/--
What could not be read before a relocation because of a deny that goes along
with it can be read afterwards only by a more specific grant that matches there.
-/
theorem read_after_relocation {w w' : World} {op : Operation} (hop : Relocates op)
    (h : Succeeds env op w w') (o o' : StorageObject) (ho : o ∈ w.db.objects.rows)
    (ho' : o' ∈ w'.db.objects.rows) (hid : o'.id = o.id) (principal : StoragePrincipal)
    (bucket bucket' : Bucket) (hbucket : bucket.id = o.bucketId)
    (hbucket' : bucket'.id = o'.bucketId)
    (hcompany : principal.companyId = some bucket.companyId)
    (hrefused : evaluateAccess w.db w.out.now principal bucket (some o.name) (some o.id)
      .read = false) (d : Grant)
    (hd : d ∈ refusalGrounds w.db w.out.now principal bucket (some o.name) (some o.id) .read)
    (hcarried : Carried op w' o o' d)
    (hopen : evaluateAccess w'.db w'.out.now principal bucket' (some o'.name) (some o'.id)
      .read = true) :
    ∃ d' ∈ matchingGrants w'.db w'.out.now principal bucket' (some o'.name) (some o'.id),
      d'.id = d.id ∧
      ∃ e ∈ topGrants w'.db w'.out.now principal bucket' (some o'.name) (some o'.id),
        grantSpecificity d' < grantSpecificity e ∧
          (e.effect = .allow ∨ denyBlocks e.permission .read = false) := by
  obtain ⟨f, ρ, hrelocation⟩ := relocation_of_succeeds hop h
  have hmapped : f o ∈ w'.db.objects.rows := by
    rw [hrelocation.rewrote.objects]
    exact List.mem_map_of_mem ho
  obtain rfl : o' = f o :=
    Database.object_eq_of_id ho' hmapped (hid.trans (hrelocation.ids o).symm)
  have hverdict := refuse_of_mem_refusalGrounds hcompany hrefused hd
  obtain ⟨hactive, hsubject, hresource⟩ :=
    (mem_matchingGrants hcompany).mp (mem_top.mp (mem_top_of_mem_grounds hd)).1
  have hcompany' := companyId_of_evaluateAccess hopen
  have hsame : bucket'.companyId = bucket.companyId :=
    Option.some.inj (hcompany'.symm.trans hcompany)
  have hd' : carriedGrant f ρ d ∈ matchingGrants w'.db w'.out.now principal bucket'
      (some (f o).name) (some (f o).id) := by
    rw [mem_matchingGrants hcompany', hsame, hrelocation.rewrote.now]
    refine ⟨hrelocation.mem_activeGrants hactive, hsubject, ?_⟩
    exact hrelocation.covers ho (Storage.mem_activeGrants.mp hactive).2.2 hbucket hbucket'
      hresource hcarried
  refine ⟨_, hd', rfl, ?_⟩
  rw [evaluateAccess_eq_ruling _ _ _ _ _ hcompany'] at hopen
  obtain ⟨e, he, hrank, hnot⟩ := outranked_of_permitted hd' hverdict hopen
  refine ⟨e, he, hrank, ?_⟩
  cases heffect : e.effect with
  | allow => exact .inl rfl
  | deny =>
      right
      by_contra hblocks
      exact hnot (by simp [grantVerdict, heffect, hblocks])

def sharedSubfolder : World :=
  play (sampleEnv false)
    [.upload (sampleUpload (folderPlaceholderPath ['a', '/', 'b']) [] 1),
      .createGrant (member 1)
        (allowRequest ['f', 'o', 'l', 'd', 'e', 'r'] ['a', '/', 'b'] ['r', 'e', 'a', 'd'])]
    privateFolder

def moveDown : Operation :=
  .move sampleBucket ['a', '/', 'x'] sampleBucket ['a', '/', 'b', '/', 'x']

def movedDown : World := moveDown.after (sampleEnv false) sharedSubfolder

theorem moveDown_succeeds :
    Succeeds (sampleEnv false) moveDown sharedSubfolder movedDown :=
  .after (by decide +kernel) (by decide +kernel)

theorem read_after_relocation_sharedSubfolder :
    ∃ o' ∈ movedDown.db.objects.rows,
      ∃ d' ∈ matchingGrants movedDown.db movedDown.out.now (member 2) sampleBucket
        (some o'.name) (some o'.id),
      ∃ e ∈ topGrants movedDown.db movedDown.out.now (member 2) sampleBucket (some o'.name)
        (some o'.id), grantSpecificity d' < grantSpecificity e ∧
          (e.effect = .allow ∨ denyBlocks e.permission .read = false) := by
  have hmoved : ∃ o ∈ sharedSubfolder.db.objects.rows, ∃ o' ∈ movedDown.db.objects.rows,
      ∃ marker ∈ movedDown.db.objects.rows,
      ∃ d ∈ refusalGrounds sharedSubfolder.db sharedSubfolder.out.now (member 2) sampleBucket
        (some o.name) (some o.id) .read,
      (o'.id = o.id ∧ sampleBucket.id = o.bucketId ∧ sampleBucket.id = o'.bucketId) ∧
      (evaluateAccess sharedSubfolder.db sharedSubfolder.out.now (member 2) sampleBucket
        (some o.name) (some o.id) .read = false ∧
      evaluateAccess movedDown.db movedDown.out.now (member 2) sampleBucket (some o'.name)
        (some o'.id) .read = true) ∧
      d.resource = .folder marker ∧ o'.bucketId = o.bucketId ∧
      folderMatches (folderPathOf marker) (normalizePath o'.name) = true := by
    decide +kernel
  obtain ⟨o, ho, o', ho', marker, hmarker, d, hd, ⟨hid, hbucket, hbucket'⟩,
    ⟨hrefused, hopen⟩, hfolder, hsame, hcovers⟩ := hmoved
  obtain ⟨d', hd', -, hheard⟩ := read_after_relocation
    (show Relocates moveDown from trivial) moveDown_succeeds o o' ho ho' hid (member 2)
    sampleBucket sampleBucket hbucket hbucket' rfl hrefused d hd
    (.folder marker marker hfolder hmarker rfl (.inr ⟨rfl, hsame⟩) hcovers) hopen
  exact ⟨o', ho', d', hd', hheard⟩

def moveOut : Operation := .move sampleBucket ['a', '/', 'x'] sampleBucket ['x']

theorem moveOut_succeeds : Succeeds (sampleEnv false) moveOut privateFolder
    (moveOut.after (sampleEnv false) privateFolder) :=
  .after (by decide +kernel) (by decide +kernel)

/-- Moving a file out of its private folder opens it to member 2. -/
theorem not_read_after_relocation :
    ¬∀ (w w' : World) (op : Operation), Reachable (sampleEnv false) w → Relocates op →
      Succeeds (sampleEnv false) op w w' →
      ∀ o ∈ w.db.objects.rows, ∀ o' ∈ w'.db.objects.rows, o'.id = o.id →
      ∀ bucket ∈ w.db.buckets.rows, bucket.id = o.bucketId →
      ∀ bucket' ∈ w'.db.buckets.rows, bucket'.id = o'.bucketId →
      ∀ principal : StoragePrincipal, principal.companyId = some bucket.companyId →
        o'.name ≠ o.name ∨ o'.bucketId ≠ o.bucketId →
        evaluateAccess w.db w.out.now principal bucket (some o.name) (some o.id) .read =
          false →
        evaluateAccess w'.db w'.out.now principal bucket' (some o'.name) (some o'.id) .read =
          true →
        ∃ e ∈ topGrants w'.db w'.out.now principal bucket' (some o'.name) (some o'.id),
          e.effect = .allow := by
  intro h
  have hmoved := h privateFolder (moveOut.after (sampleEnv false) privateFolder) moveOut
    privateFolder_reachable trivial moveOut_succeeds
  have hopened : ∃ o ∈ privateFolder.db.objects.rows,
      ∃ o' ∈ (moveOut.after (sampleEnv false) privateFolder).db.objects.rows, o'.id = o.id ∧
        sampleBucket.id = o.bucketId ∧ sampleBucket.id = o'.bucketId ∧ o'.name ≠ o.name ∧
        evaluateAccess privateFolder.db privateFolder.out.now (member 2) sampleBucket
          (some o.name) (some o.id) .read = false ∧
        evaluateAccess (moveOut.after (sampleEnv false) privateFolder).db
          (moveOut.after (sampleEnv false) privateFolder).out.now (member 2) sampleBucket
          (some o'.name) (some o'.id) .read = true ∧
        topGrants (moveOut.after (sampleEnv false) privateFolder).db
          (moveOut.after (sampleEnv false) privateFolder).out.now (member 2) sampleBucket
          (some o'.name) (some o'.id) = [] := by
    decide +kernel
  obtain ⟨o, ho, o', ho', hid, hbucket, hbucket', hname, hbefore, hafter, hnone⟩ := hopened
  obtain ⟨e, he, -⟩ := hmoved o ho o' ho' hid sampleBucket (by decide +kernel) hbucket
    sampleBucket (by decide +kernel) hbucket' (member 2) rfl (.inl hname) hbefore hafter
  simp [hnone] at he

end StorageService.Results
