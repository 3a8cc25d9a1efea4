import StorageService.Results.PrivateByDefault
import StorageService.Results.Relocation
import StorageService.Results.Renaming

/-!
# Renaming a folder in place

A folder that stays in its parent folder takes all decisions about what it holds
along: the grants around it cover the new names as they covered the old ones, and
the grants inside are renamed with it, at the same depth.
-/

namespace StorageService.Results

open StorageService.Foundation
open StorageService.Foundation.Action
open StorageService.Storage

section InPlace

variable {env : Env} {s s' : World} {bucket : Bucket} {src dst rest : Text} {now : Time}
variable {f : StorageObject → StorageObject}

/-! ## The grants of the renamed state -/

theorem RenamedExactly.row (h : RenamedExactly s bucket src dst f s') {o : StorageObject}
    (ho : o ∈ s.db.objects.rows) : (f o).id = o.id ∧ (f o).bucketId = o.bucketId := by
  by_cases hbelow : o.bucketId = bucket.id ∧ ∃ rest, o.name = src ++ '/' :: rest
  · obtain ⟨hbucket, rest, hname⟩ := hbelow
    rw [h.below o ho hbucket rest hname]
    exact ⟨rfl, rfl⟩
  · rw [h.others o ho hbelow]
    exact ⟨rfl, rfl⟩

theorem RenamedExactly.mem_activeGrants (h : RenamedExactly s bucket src dst f s')
    {companyId : Nat} {g' : Grant} : g' ∈ activeGrants s'.db now companyId ↔
      ∃ g ∈ activeGrants s.db now companyId, carriedGrant f id g = g' := by
  have hrow : ∀ g : Grant, (∀ o, g.resource.object? = some o → o ∈ s.db.objects.rows) →
      (carriedGrant f id g).row = g.row := by
    intro g hg
    cases hresource : g.resource with
    | bucket => simp [StorageAccessGrant.row, carriedGrant, Resource.map, hresource]
    | folder marker =>
        have hmarker := hg marker (by rw [hresource]; rfl)
        simp [StorageAccessGrant.row, carriedGrant, Resource.map, hresource, (h.row hmarker).1]
    | object target =>
        have htarget := hg target (by rw [hresource]; rfl)
        simp [StorageAccessGrant.row, carriedGrant, Resource.map, hresource, (h.row htarget).1]
  constructor
  · intro hg'
    obtain ⟨hactive, hmem, hrows⟩ := Storage.mem_activeGrants.mp hg'
    rw [h.objects] at hrows
    have hresource : ∃ r : Resource StorageObject, r.map f = g'.resource ∧
        ∀ o, r.object? = some o → o ∈ s.db.objects.rows := by
      cases hg : g'.resource with
      | bucket => exact ⟨.bucket, rfl, fun o ho => by cases ho⟩
      | folder marker' =>
          obtain ⟨marker, hmarker, rfl⟩ := List.mem_map.mp (hrows marker' (by rw [hg]; rfl))
          exact ⟨.folder marker, rfl, fun o ho => Option.some.inj ho ▸ hmarker⟩
      | object target' =>
          obtain ⟨target, htarget, rfl⟩ := List.mem_map.mp (hrows target' (by rw [hg]; rfl))
          exact ⟨.object target, rfl, fun o ho => Option.some.inj ho ▸ htarget⟩
    obtain ⟨r, hr, hstored⟩ := hresource
    have hcarried : carriedGrant f id { g' with resource := r } = g' := by
      simp only [carriedGrant, hr]
      rfl
    refine ⟨{ g' with resource := r }, Storage.mem_activeGrants.mpr ⟨hactive, ?_, hstored⟩,
      hcarried⟩
    rw [← hrow { g' with resource := r } hstored, hcarried, ← h.grants]
    exact hmem
  · rintro ⟨g, hg, rfl⟩
    obtain ⟨hactive, hmem, hrows⟩ := Storage.mem_activeGrants.mp hg
    refine Storage.mem_activeGrants.mpr ⟨hactive, ?_, fun o ho => ?_⟩
    · rw [hrow g hrows, h.grants]
      exact hmem
    · rw [carriedGrant, Resource.object?_map, Option.map_eq_some_iff] at ho
      obtain ⟨p, hp, rfl⟩ := ho
      rw [h.objects]
      exact List.mem_map_of_mem (hrows p hp)

@[simp] theorem carriedGrant_id (g : Grant) : carriedGrant id id g = g := by
  obtain ⟨_, _, _, _, _, resource, _, _, _, _, _, _⟩ := g
  cases resource <;> rfl

/-! ## Names in the renamed state -/

theorem trimmed_of_tidy {db : Database} (hplaced : WellPlaced db)
    (htidy : Tidy db now bucket.companyId) {o : StorageObject} (ho : o ∈ db.objects.rows) :
    Trimmed o.name :=
  (htidy.names o ho).trimmed (hplaced.framed o ho).ends

theorem RenamedExactly.trimmed (h : RenamedExactly s bucket src dst f s')
    (hplaced : WellPlaced s.db) (htidy : Tidy s.db now bucket.companyId) (hdst : Trimmed dst)
    {o : StorageObject} (ho : o ∈ s.db.objects.rows) : Trimmed (f o).name := by
  have htrimmed := trimmed_of_tidy hplaced htidy ho
  by_cases hbelow : o.bucketId = bucket.id ∧ ∃ rest, o.name = src ++ '/' :: rest
  · obtain ⟨hbucket, rest, hname⟩ := hbelow
    rw [hname] at htrimmed
    rw [h.below o ho hbucket rest hname]
    exact trimmed_of_append hdst htrimmed
  · rw [h.others o ho hbelow]
    exact htrimmed

theorem folderPathOf_of_tidy {db : Database} (hplaced : WellPlaced db)
    (htidy : Tidy db now bucket.companyId) {marker : StorageObject}
    (hmarker : marker ∈ db.objects.rows) {folder : Text}
    (hname : folder ++ placeholderSuffix = marker.name) :
    Trimmed folder ∧ folderPathOf marker = folder := by
  have hunpadded := htidy.names marker hmarker
  rw [← hname] at hunpadded
  have htrimmed : Trimmed folder := (unpadded_append_iff.mp hunpadded).1.trimmed
    ((hplaced.framed marker hmarker).folder folder hname.symm)
  refine ⟨htrimmed, ?_⟩
  rw [folderPathOf, ← hname, folderPathFromPlaceholder_append htrimmed]

theorem RenamedExactly.folderPathOf (h : RenamedExactly s bucket src dst f s')
    (hplaced : WellPlaced s.db) (htidy : Tidy s.db now bucket.companyId) (hdst : Trimmed dst)
    {g : Grant} (hg : g ∈ activeGrants s.db now bucket.companyId) {marker : StorageObject}
    (hresource : g.resource = .folder marker) :
    f marker = marker ∧ ¬(marker.bucketId = bucket.id ∧ src ++ ['/'] <+: marker.name) ∨
      ∃ inner, Storage.folderPathOf marker = src ++ inner ∧ Trimmed (src ++ inner) ∧
        Storage.folderPathOf (f marker) = dst ++ inner ∧ Trimmed (dst ++ inner) := by
  have hmarker : marker ∈ s.db.objects.rows :=
    (Storage.mem_activeGrants.mp hg).2.2 marker (by rw [hresource]; rfl)
  have hbase : '/' ∉ folderPlaceholderName := by decide
  by_cases hbelow : marker.bucketId = bucket.id ∧ src ++ ['/'] <+: marker.name
  · right
    obtain ⟨hbucket, hinside⟩ := hbelow
    obtain ⟨tail, htail⟩ := below_iff.mp hinside
    rcases htidy.markers g hg marker hresource with hroot | ⟨folder, hfolder⟩
    · -- the marker of the root has no folder above it
      rw [hroot] at htail
      exact absurd (by simp [htail]) hbase
    · rw [← hfolder] at hinside
      obtain ⟨inner, rfl⟩ := prefix_of_sep_prefix hbase hinside
      obtain ⟨htrimmed, hpath⟩ := folderPathOf_of_tidy hplaced htidy hmarker hfolder
      have htrimmed' : Trimmed (dst ++ inner) := trimmed_of_append hdst htrimmed
      have hrenamed : (f marker).name = dst ++ inner ++ placeholderSuffix := by
        rw [h.below marker hmarker hbucket tail htail]
        rw [← hfolder, List.append_assoc, List.append_cancel_left_eq] at htail
        rw [List.append_assoc, htail]
      refine ⟨inner, hpath, htrimmed, ?_, htrimmed'⟩
      rw [Storage.folderPathOf, hrenamed, folderPathFromPlaceholder_append htrimmed']
  · left
    exact ⟨h.others marker hmarker fun hnamed => hbelow ⟨hnamed.1, below_iff.mpr hnamed.2⟩, hbelow⟩

theorem RenamedExactly.resourceScore (h : RenamedExactly s bucket src dst f s')
    (hplaced : WellPlaced s.db) (htidy : Tidy s.db now bucket.companyId) (hdst : Trimmed dst)
    (hparent : parent '/' src = parent '/' dst) {g : Grant}
    (hg : g ∈ activeGrants s.db now bucket.companyId) :
    Storage.resourceScore (carriedGrant f id g).resource = Storage.resourceScore g.resource := by
  cases hresource : g.resource with
  | bucket => simp [carriedGrant, hresource, Resource.map]
  | object target => simp [carriedGrant, hresource, Resource.map, Storage.resourceScore]
  | folder marker =>
      have hdepth : folderDepth (Storage.folderPathOf (f marker)) =
          folderDepth (Storage.folderPathOf marker) := by
        rcases h.folderPathOf hplaced htidy hdst hg hresource with
          ⟨hsame, -⟩ | ⟨inner, hpath, htrimmed, hpath', htrimmed'⟩
        · rw [hsame]
        · rw [hpath, hpath', folderDepth_eq htrimmed', folderDepth_eq htrimmed,
            List.count_append, List.count_append, count_eq_of_parent hparent]
      simp [carriedGrant, hresource, Resource.map, Storage.resourceScore, hdepth]

/-! ## The grants that match a renamed object -/

/-- A grant on a folder that stays is above both names of the object or above neither. -/
theorem MayRename.under_iff (hmay : MayRename s.db bucket src dst) (hcanonical : Canonical dst)
    (hparent : parent '/' src = parent '/' dst) {marker : StorageObject} {folder : Text}
    (hmarker : marker ∈ s.db.objects.rows) (hbucket : marker.bucketId = bucket.id)
    (hname : marker.name = folder ++ placeholderSuffix)
    (hstays : ¬src ++ ['/'] <+: marker.name) :
    Under '/' folder (dst ++ '/' :: rest) ↔ Under '/' folder (src ++ '/' :: rest) := by
  have hinside : ∀ {top : Text}, Under '/' top folder → top ++ ['/'] <+: marker.name := by
    rintro top (rfl | hbelow)
    · rw [hname]
      exact ⟨folderPlaceholderName, by simp [placeholderSuffix]⟩
    · rw [hname]
      exact hbelow.trans (List.prefix_append ..)
  have hvacant : ¬dst ++ ['/'] <+: marker.name := by
    intro hbelow
    have hthere : marker ∈ objectsUnderPrefix s.db bucket dst :=
      mem_objectsUnderPrefix_of_below hcanonical hmarker hbucket hbelow
    rw [hmay.vacant] at hthere
    contradiction
  constructor
  · exact Under.of_sibling_below (fun hunder => hvacant (hinside hunder)) hparent.symm
  · exact Under.of_sibling_below (fun hunder => hstays (hinside hunder)) hparent

theorem bucketId_of_active {db : Database} (hplaced : WellPlaced db) {companyId : Nat} {g : Grant}
    (hg : g ∈ activeGrants db now companyId) {o : StorageObject}
    (hresource : g.resource.object? = some o) : o.bucketId = g.bucketId := by
  obtain ⟨-, hrow, hrows⟩ := Storage.mem_activeGrants.mp hg
  refine (hplaced.grants g.row hrow).object o (hrows o hresource) ?_
  rw [StorageAccessGrant.row, Resource.object?_map, hresource]
  rfl

theorem matches_object_iff {db : Database} (hplaced : WellPlaced db)
    (htidy : Tidy db now bucket.companyId) {g : Grant}
    (hg : g ∈ activeGrants db now bucket.companyId) (hbucketId : g.bucketId = bucket.id)
    {target o : StorageObject} (hresource : g.resource = .object target)
    (ho : o ∈ db.objects.rows) (hbucket : o.bucketId = bucket.id) :
    resourceMatchesGrant g bucket (some o.name) (some o.id) = true ↔ target = o := by
  have htarget : target ∈ db.objects.rows :=
    (Storage.mem_activeGrants.mp hg).2.2 target (by rw [hresource]; rfl)
  constructor
  · intro hmatch
    obtain ⟨-, hsame, hid | hnamed⟩ := object_of_match hplaced htidy hg hresource hmatch
    · exact Database.object_eq_of_id htarget ho (Option.some.inj hid).symm
    · rw [Option.getD_some, (trimmed_of_tidy hplaced htidy ho).1] at hnamed
      exact db.objects.eq_of_clash htarget ho (.inr ⟨hsame.trans hbucket.symm, hnamed⟩)
  · rintro rfl
    simp [resourceMatchesGrant, hbucketId, hresource]

theorem RenamedExactly.matches_object_iff (h : RenamedExactly s bucket src dst f s')
    (hplaced : WellPlaced s.db) (htidy : Tidy s.db now bucket.companyId) (hdst : Trimmed dst)
    {g : Grant} (hg : g ∈ activeGrants s.db now bucket.companyId)
    (hbucketId : g.bucketId = bucket.id) {target o : StorageObject}
    (hresource : g.resource = .object target) (ho : o ∈ s.db.objects.rows)
    (hbucket : o.bucketId = bucket.id) (hrenamed : (f o).name = dst ++ '/' :: rest) :
    resourceMatchesGrant (carriedGrant f id g) bucket (some (dst ++ '/' :: rest)) (some o.id) =
        true ↔ target = o := by
  have htarget : target ∈ s.db.objects.rows :=
    (Storage.mem_activeGrants.mp hg).2.2 target (by rw [hresource]; rfl)
  constructor
  · intro hmatch
    have hthere := h.trimmed hplaced htidy hdst ho
    rw [hrenamed] at hthere
    simp only [resourceMatchesGrant, carriedGrant, hresource, Resource.map, id,
      StorageAccessGrant.row, hbucketId, ne_eq, not_true, if_false, Option.getD_some,
      (h.row htarget).1, (h.trimmed hplaced htidy hdst htarget).1, hthere.1] at hmatch
    split at hmatch
    · rename_i hid
      exact Database.object_eq_of_id htarget ho (Option.some.inj hid).symm
    · -- no other row has the new name
      have hmapped : ∀ p ∈ s.db.objects.rows, f p ∈ s'.db.objects.rows := by
        rw [h.objects]
        exact fun p hp => List.mem_map_of_mem hp
      have hlies := bucketId_of_active hplaced hg (o := target) (by rw [hresource]; rfl)
      have hsame : (f target).bucketId = (f o).bucketId := by
        rw [(h.row htarget).2, (h.row ho).2, hbucket]
        exact hlies.trans hbucketId
      have heq : f target = f o := h.unique _ (hmapped target htarget) _ (hmapped o ho) hsame
        ((of_decide_eq_true hmatch).2.trans hrenamed.symm)
      apply Database.object_eq_of_id htarget ho
      rw [← (h.row htarget).1, ← (h.row ho).1, heq]
  · rintro rfl
    simp [resourceMatchesGrant, carriedGrant, hbucketId, hresource, Resource.map,
      StorageAccessGrant.row, (h.row ho).1]

theorem RenamedExactly.object_matches (h : RenamedExactly s bucket src dst f s')
    (hplaced : WellPlaced s.db) (htidy : Tidy s.db now bucket.companyId) (hdst : Trimmed dst)
    {g : Grant} (hg : g ∈ activeGrants s.db now bucket.companyId)
    (hbucketId : g.bucketId = bucket.id) {target o : StorageObject}
    (hresource : g.resource = .object target) (ho : o ∈ s.db.objects.rows)
    (hbucket : o.bucketId = bucket.id) (hname : o.name = src ++ '/' :: rest) :
    resourceMatchesGrant (carriedGrant f id g) bucket (some (dst ++ '/' :: rest)) (some o.id) =
        true ↔
      resourceMatchesGrant g bucket (some o.name) (some o.id) = true := by
  have hrenamed : (f o).name = dst ++ '/' :: rest := by
    rw [h.below o ho hbucket rest hname]
  rw [h.matches_object_iff hplaced htidy hdst hg hbucketId hresource ho hbucket hrenamed,
    Results.matches_object_iff hplaced htidy hg hbucketId hresource ho hbucket]

theorem RenamedExactly.folder_matches (h : RenamedExactly s bucket src dst f s')
    (hplaced : WellPlaced s.db) (htidy : Tidy s.db now bucket.companyId) (hdst : Trimmed dst)
    (hcanonical : Canonical dst) (hmay : MayRename s.db bucket src dst)
    (hparent : parent '/' src = parent '/' dst) {g : Grant}
    (hg : g ∈ activeGrants s.db now bucket.companyId) (hbucketId : g.bucketId = bucket.id)
    {marker o : StorageObject} (hresource : g.resource = .folder marker)
    (ho : o ∈ s.db.objects.rows) (hname : o.name = src ++ '/' :: rest) :
    resourceMatchesGrant (carriedGrant f id g) bucket (some (dst ++ '/' :: rest)) (some o.id) =
        true ↔
      resourceMatchesGrant g bucket (some o.name) (some o.id) = true := by
  have hmarker : marker ∈ s.db.objects.rows :=
    (Storage.mem_activeGrants.mp hg).2.2 marker (by rw [hresource]; rfl)
  have htrimmed := trimmed_of_tidy hplaced htidy ho
  have htrimmed' : Trimmed (dst ++ '/' :: rest) := trimmed_of_append hdst (hname ▸ htrimmed)
  have hbucketId' : (carriedGrant f id g).bucketId = bucket.id := hbucketId
  have hcarried : (carriedGrant f id g).resource = .folder (f marker) := by
    rw [carriedGrant, hresource]
    rfl
  have hbefore : normalizePath (normalizePath ((some o.name).getD [])) = src ++ '/' :: rest := by
    rw [Option.getD_some, htrimmed.1, htrimmed.1, hname]
  have hafter : normalizePath (normalizePath ((some (dst ++ '/' :: rest)).getD [])) =
      dst ++ '/' :: rest := by
    rw [Option.getD_some, htrimmed'.1, htrimmed'.1]
  rcases h.folderPathOf hplaced htidy hdst hg hresource with
    ⟨hsame, hstays⟩ | ⟨inner, hpath, hfolder, hpath', hfolder'⟩
  · rcases htidy.markers g hg marker hresource with hroot | ⟨folder, hmarkerName⟩
    · -- the marker of the root covers everything
      have hcovers : ∀ path, folderMatches (Storage.folderPathOf marker) path = true := by
        intro path
        rw [Storage.folderPathOf, hroot]
        exact decide_eq_true (.inl (by decide))
      rw [resourceMatchesGrant_folder hcarried hbucketId',
        resourceMatchesGrant_folder hresource hbucketId, hsame, hcovers, hcovers]
    · obtain ⟨hfolder, hpath⟩ := folderPathOf_of_tidy hplaced htidy hmarker hmarkerName
      have hlies : marker.bucketId = bucket.id :=
        (bucketId_of_active hplaced hg (by rw [hresource]; rfl)).trans hbucketId
      rw [hsame] at hcarried
      rw [matches_folder_iff hbucketId' hcarried (hpath ▸ hfolder),
        matches_folder_iff hbucketId hresource (hpath ▸ hfolder), hpath, hbefore, hafter]
      exact hmay.under_iff hcanonical hparent hmarker hlies hmarkerName.symm
        fun hbelow => hstays ⟨hlies, hbelow⟩
  · rw [matches_folder_iff hbucketId' hcarried (hpath' ▸ hfolder'),
      matches_folder_iff hbucketId hresource (hpath ▸ hfolder), hpath, hpath', hbefore, hafter,
      under_append_left, under_append_left]

theorem RenamedExactly.matches_carried (h : RenamedExactly s bucket src dst f s')
    (hplaced : WellPlaced s.db) (htidy : Tidy s.db now bucket.companyId) (hdst : Trimmed dst)
    (hcanonical : Canonical dst) (hmay : MayRename s.db bucket src dst)
    (hparent : parent '/' src = parent '/' dst) {g : Grant}
    (hg : g ∈ activeGrants s.db now bucket.companyId) {o : StorageObject}
    (ho : o ∈ s.db.objects.rows) (hbucket : o.bucketId = bucket.id)
    (hname : o.name = src ++ '/' :: rest) :
    resourceMatchesGrant (carriedGrant f id g) bucket (some (dst ++ '/' :: rest)) (some o.id) =
        true ↔
      resourceMatchesGrant g bucket (some o.name) (some o.id) = true := by
  by_cases hbucketId : g.bucketId = bucket.id
  · cases hresource : g.resource with
    | bucket =>
        simp [resourceMatchesGrant, carriedGrant, hresource, Resource.map,
          StorageAccessGrant.row, hbucketId]
    | folder marker =>
        exact h.folder_matches hplaced htidy hdst hcanonical hmay hparent hg hbucketId hresource
          ho hname
    | object target =>
        exact h.object_matches hplaced htidy hdst hg hbucketId hresource ho hbucket hname
  · simp [resourceMatchesGrant, carriedGrant, StorageAccessGrant.row, hbucketId]

/-! ## The decisions -/

/--
A folder renamed within its parent folder takes its decisions along: on each object
in it every request is answered as before.
-/
theorem evaluateAccess_after_renameInPlace {w w' : World} {sourcePath destPath : Text}
    {result : RenameResult} {fault : Option (Point × Nat)} (henv : env.Lawful)
    (hreach : Reachable env w) (htidy : Tidy w.db w.out.now bucket.companyId)
    (hsource : safeObjectPath sourcePath = .ok src) (hdest : safeObjectPath destPath = .ok dst)
    (hunpadded : Unpadded dst) (hparent : parent '/' src = parent '/' dst)
    (h : (renameFolder bucket sourcePath destPath).Runs (w.withFault fault) result w')
    (o : StorageObject) (ho : o ∈ w.db.objects.rows) (hbucket : o.bucketId = bucket.id)
    (rest : Text) (hname : o.name = src ++ '/' :: rest) (principal : StoragePrincipal)
    (required : Permission) :
    evaluateAccess w'.db w.out.now principal bucket (some (dst ++ '/' :: rest)) (some o.id)
        required =
      evaluateAccess w.db w.out.now principal bucket (some o.name) (some o.id) required := by
  have hplaced : WellPlaced w.db := hreach.wellPlaced henv
  have hcanonical := canonical_of_safeObjectPath hdest
  have hdst : Trimmed dst := hunpadded.trimmed hcanonical.slashFree
  by_cases hcompany : principal.companyId = some bucket.companyId
  · obtain ⟨f, hexact, ⟨rfl, rfl⟩ | ⟨hmay, -⟩⟩ := runs_renameFolder_exactly hsource hdest h
    · -- nothing was renamed
      rw [hname]
      apply evaluateAccess_of_matchingGrants
      intro g
      rw [mem_matchingGrants hcompany, mem_matchingGrants hcompany, hexact.mem_activeGrants]
      simp only [carriedGrant_id, exists_eq_right]
      rfl
    · rw [evaluateAccess_eq_ruling _ _ _ _ _ hcompany, evaluateAccess_eq_ruling _ _ _ _ _ hcompany]
      apply ruling_of_rewritten
      · intro g'
        rw [mem_matchingGrants hcompany, hexact.mem_activeGrants]
        constructor
        · rintro ⟨⟨g, hg, rfl⟩, hsubject, hmatch⟩
          refine ⟨g, (mem_matchingGrants hcompany).mpr ⟨hg, hsubject, ?_⟩, rfl⟩
          exact (hexact.matches_carried hplaced htidy hdst hcanonical hmay hparent hg ho hbucket
            hname).mp hmatch
        · rintro ⟨g, hg, rfl⟩
          obtain ⟨hg, hsubject, hmatch⟩ := (mem_matchingGrants hcompany).mp hg
          refine ⟨⟨g, hg, rfl⟩, hsubject, ?_⟩
          exact (hexact.matches_carried hplaced htidy hdst hcanonical hmay hparent hg ho hbucket
            hname).mpr hmatch
      · intro g hg
        have hactive := ((mem_matchingGrants hcompany).mp hg).1
        have hscore := hexact.resourceScore hplaced htidy hdst hparent hactive
        simp only [grantSpecificity, hscore]
        rfl
      · exact fun g _ => rfl
  · simp [evaluateAccess, hcompany]

theorem evaluateAccess_after_renameInPlace_privateFolder :
    ∃ result w', (renameFolder sampleBucket ['a'] ['c']).Runs (privateFolder.withFault none)
        result w' ∧
      ∃ o ∈ privateFolder.db.objects.rows, o.name = ['a', '/', 'x'] ∧
        evaluateAccess w'.db privateFolder.out.now (member 1) sampleBucket
          (some ['c', '/', 'x']) (some o.id) .admin = true ∧
        evaluateAccess w'.db privateFolder.out.now (member 2) sampleBucket
          (some ['c', '/', 'x']) (some o.id) .read = false := by
  have hsource : safeObjectPath ['a'] = .ok ['a'] := by decide +kernel
  have hdest : safeObjectPath ['c'] = .ok ['c'] := by decide +kernel
  have hruns : ∃ result, (renameFolder sampleBucket ['a'] ['c']).Runs
      (privateFolder.withFault none) result
      ((renameFolder sampleBucket ['a'] ['c']) (privateFolder.withFault none)).2 ∧
        (fun _ => true) result = true :=
    runs_of_any (by decide +kernel)
  have hbefore : ∃ o ∈ privateFolder.db.objects.rows,
      (o.name = ['a', '/', 'x'] ∧ o.bucketId = sampleBucket.id) ∧
        evaluateAccess privateFolder.db privateFolder.out.now (member 1) sampleBucket
          (some o.name) (some o.id) .admin = true ∧
        evaluateAccess privateFolder.db privateFolder.out.now (member 2) sampleBucket
          (some o.name) (some o.id) .read = false := by
    decide +kernel
  obtain ⟨result, hrun, -⟩ := hruns
  obtain ⟨o, ho, ⟨hname, hbucket⟩, hcreator, hother⟩ := hbefore
  have hkept := evaluateAccess_after_renameInPlace (sampleEnv_lawful false)
    privateFolder_reachable privateFolder_tidy hsource hdest (by decide) (by decide) hrun o ho
    hbucket ['x'] hname
  exact ⟨result, _, hrun, o, ho, hname, (hkept _ _).trans hcreator, (hkept _ _).trans hother⟩

end InPlace

end StorageService.Results
