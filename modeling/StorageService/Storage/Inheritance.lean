import StorageService.Storage.Placement

/-!
# The grants a new object is given

Which ancestor folder `_nearest_ancestor_folder_grants` finds, and the rows that
the creation of an object adds to the grants.
-/

namespace StorageService.Storage

open StorageService.Foundation
open StorageService.Foundation.Action

variable {env : Env} {s s' : World}

/-! ## Ancestor folders -/

theorem mem_ancestorFolderPrefixes_iff {path folder : Text} (h : normalizePath path = path) :
    folder ∈ ancestorFolderPrefixes path ↔ ∃ rest, path = folder ++ '/' :: rest := by
  have hjoin : List.intercalate ['/'] (path.splitOn '/') = path := List.intercalate_splitOn '/'
  simp only [ancestorFolderPrefixes, h]
  constructor
  · intro hmem
    split at hmem
    · contradiction
    · obtain ⟨i, hi, rfl⟩ := List.mem_map.mp hmem
      rw [List.mem_range] at hi
      refine ⟨List.intercalate ['/'] ((path.splitOn '/').drop (i + 1)), ?_⟩
      have hfront : (path.splitOn '/').take (i + 1) ≠ [] := by
        rw [ne_eq, List.take_eq_nil_iff, not_or]
        exact ⟨by omega, List.splitOn_ne_nil '/' path⟩
      have hback : (path.splitOn '/').drop (i + 1) ≠ [] := by
        rw [ne_eq, List.drop_eq_nil_iff]
        omega
      rw [← intercalate_append_ne_nil hfront hback, List.take_append_drop, hjoin]
  · rintro ⟨rest, rfl⟩
    rw [if_neg (by simp), List.splitOn_append_cons_self]
    refine List.mem_map.mpr ⟨(folder.splitOn '/').length - 1, ?_, ?_⟩
    · have hfolder := List.length_pos_iff.mpr (List.splitOn_ne_nil '/' folder)
      have hrest := List.length_pos_iff.mpr (List.splitOn_ne_nil '/' rest)
      rw [List.mem_range, List.length_append]
      omega
    · have hfolder := List.length_pos_iff.mpr (List.splitOn_ne_nil '/' folder)
      rw [Nat.sub_add_cancel hfolder, List.take_left]
      exact List.intercalate_splitOn '/'

theorem pairwise_ancestorFolderPrefixes (path : Text) :
    (ancestorFolderPrefixes path).Pairwise fun outer inner => outer.length < inner.length := by
  simp only [ancestorFolderPrefixes]
  split
  · exact .nil
  · rw [List.pairwise_map]
    refine List.pairwise_lt_range.imp_of_mem fun {i j} hi hj hlt => ?_
    set parts := (normalizePath path).splitOn '/' with hparts
    rw [List.mem_range] at hi hj
    have hfront : parts.take (i + 1) ≠ [] := by
      rw [ne_eq, List.take_eq_nil_iff, not_or]
      exact ⟨by omega, List.splitOn_ne_nil '/' _⟩
    have hback : (parts.take (j + 1)).drop (i + 1) ≠ [] := by
      rw [ne_eq, List.drop_eq_nil_iff, List.length_take]
      omega
    have hsplit : parts.take (j + 1) = parts.take (i + 1) ++ (parts.take (j + 1)).drop (i + 1) := by
      conv_lhs => rw [← List.take_append_drop (i + 1) (parts.take (j + 1))]
      rw [List.take_take, Nat.min_eq_left (by omega)]
    rw [hsplit, intercalate_append_ne_nil hfront hback, List.length_append, List.length_cons]
    omega

theorem length_le_of_find?_reverse {path nearest folder : Text} {p : Text → Bool}
    (hfind : (ancestorFolderPrefixes path).reverse.find? p = some nearest)
    (hfolder : folder ∈ ancestorFolderPrefixes path) (hp : p folder = true) :
    folder.length ≤ nearest.length := by
  obtain ⟨-, before, after, hsplit, hbefore⟩ := List.find?_eq_some_iff_append.mp hfind
  have hpairwise := pairwise_ancestorFolderPrefixes path
  rw [← List.reverse_reverse (ancestorFolderPrefixes path), List.pairwise_reverse, hsplit,
    List.pairwise_append, List.pairwise_cons] at hpairwise
  rw [← List.mem_reverse, hsplit, List.mem_append, List.mem_cons] at hfolder
  rcases hfolder with hmem | rfl | hmem
  · have hnot := hbefore folder hmem
    rw [hp] at hnot
    contradiction
  · exact le_rfl
  · exact (hpairwise.2.1.1 folder hmem).le

/-! ## Grants on ancestor folders -/

structure NamedFolderGrant (db : Database) (now : Time) (companyId : Nat) (bucketName folder : Text)
    (g : Grant) : Prop where
  active : g ∈ activeGrants db now companyId
  bucketName : (db.bucketById g.bucketId).map Bucket.name = some bucketName
  marker : ∃ marker, g.resource = .folder marker ∧ marker.name = folder ++ placeholderSuffix

structure FolderGrant (db : Database) (now : Time) (bucket : Bucket) (folder : Text)
    (g : Grant) : Prop where
  active : g ∈ activeGrants db now bucket.companyId
  bucketId : g.bucketId = bucket.id
  marker : ∃ marker, g.resource = .folder marker ∧ marker.name = folder ++ placeholderSuffix

theorem folderPlaceholderPath_of_trimmed {folder : Text} (h : Trimmed folder) :
    folderPlaceholderPath folder = folder ++ placeholderSuffix := by
  have hself : stripSlash (strip folder) = folder := h.1
  rw [folderPlaceholderPath, hself, if_neg h.2]

section Ancestors

variable {db : Database} {now : Time} {bucket : Bucket}

theorem mem_grantsOnFolder_iff {companyId : Nat} {bucketName path folder : Text}
    (hpath : Plain path) (hfolder : folder ∈ ancestorFolderPrefixes path) {g : Grant} :
    g ∈ grantsOnFolder (folderGrantsForPrefixes db now companyId bucketName
        (ancestorFolderPrefixes path)) folder ↔
      NamedFolderGrant db now companyId bucketName folder g := by
  have htrimmed : ∀ {ancestor : Text}, ancestor ∈ ancestorFolderPrefixes path →
      Trimmed ancestor := by
    intro ancestor hmem
    obtain ⟨rest, rfl⟩ := (mem_ancestorFolderPrefixes_iff hpath.normalizePath_eq).mp hmem
    exact (Plain.append_iff.mp hpath).1.trimmed
  simp only [grantsOnFolder, folderGrantsForPrefixes, List.mem_filter, Bool.and_eq_true,
    decide_eq_true_eq]
  constructor
  · rintro ⟨⟨hactive, hnamed, hname⟩, hon⟩
    refine ⟨hactive, hname, ?_⟩
    cases hresource : g.resource with
    | bucket | object => simp [hresource, Resource.marker?] at hon
    | folder marker =>
        simp only [hresource, Resource.marker?, Option.any_some, decide_eq_true_eq,
          List.contains_iff_mem, List.mem_map] at hnamed hon
        obtain ⟨ancestor, hancestor, hspelled⟩ := hnamed
        rw [folderPlaceholderPath_of_trimmed (htrimmed hancestor)] at hspelled
        rw [folderPathOf, ← hspelled,
          folderPathFromPlaceholder_append (htrimmed hancestor)] at hon
        exact ⟨marker, rfl, by rw [← hspelled, hon]⟩
  · rintro ⟨hactive, hbucket, marker, hresource, hname⟩
    have hspelled := folderPlaceholderPath_of_trimmed (htrimmed hfolder)
    simp only [hresource, Resource.marker?, Option.any_some, decide_eq_true_eq,
      List.contains_iff_mem, List.mem_map]
    refine ⟨⟨hactive, ⟨folder, hfolder, hspelled.trans hname.symm⟩, hbucket⟩, ?_⟩
    rw [folderPathOf, hname, folderPathFromPlaceholder_append (htrimmed hfolder)]

theorem bucketId_of_name (hplaced : WellPlaced db) (hbucket : bucket ∈ db.buckets.rows)
    {g : Grant} (hactive : g ∈ activeGrants db now bucket.companyId) :
    (db.bucketById g.bucketId).map Bucket.name = some bucket.name ↔ g.bucketId = bucket.id := by
  obtain ⟨⟨hcompany, -⟩, hrow, -⟩ := mem_activeGrants.mp hactive
  constructor
  · intro hname
    obtain ⟨b, hb, hid, hbcompany⟩ := (hplaced.grants g.row hrow).bucket
    have hfound : db.bucketById g.bucketId = some b := by
      rw [← Database.bucketById_of_mem hb, hid]
      rfl
    rw [hfound, Option.map_some, Option.some.injEq] at hname
    rw [← db.buckets.eq_of_clash hb hbucket (.inr ⟨hbcompany.trans hcompany, hname⟩)]
    exact hid.symm
  · intro hid
    rw [hid, Database.bucketById_of_mem hbucket]
    rfl

theorem mem_grantsOnFolder (hplaced : WellPlaced db) (hbucket : bucket ∈ db.buckets.rows)
    {path folder rest : Text} (hpath : Plain path) (hfolder : path = folder ++ '/' :: rest)
    {g : Grant} :
    g ∈ grantsOnFolder (folderGrantsForPrefixes db now bucket.companyId bucket.name
      (ancestorFolderPrefixes path)) folder ↔ FolderGrant db now bucket folder g := by
  have hmem : folder ∈ ancestorFolderPrefixes path :=
    (mem_ancestorFolderPrefixes_iff hpath.normalizePath_eq).mpr ⟨rest, hfolder⟩
  rw [mem_grantsOnFolder_iff hpath hmem]
  constructor
  · rintro ⟨hactive, hname, hmarker⟩
    exact ⟨hactive, (bucketId_of_name hplaced hbucket hactive).mp hname, hmarker⟩
  · rintro ⟨hactive, hid, hmarker⟩
    exact ⟨hactive, (bucketId_of_name hplaced hbucket hactive).mpr hid, hmarker⟩

/-- The grants a new object at `path` finds above it are those of the nearest ancestor. -/
theorem parentGrants_cases (now : Time) (hplaced : WellPlaced db)
    (hbucket : bucket ∈ db.buckets.rows) {target : StorageObject}
    (hbucketId : target.bucketId = bucket.id) (hcompany : target.companyId = bucket.companyId)
    {path : Text} (hpath : Plain path) :
    (parentGrants db now target path = none ∧ ∀ folder rest, path = folder ++ '/' :: rest →
        ∀ g, ¬FolderGrant db now bucket folder g) ∨
      ∃ nearest rest grants, path = nearest ++ '/' :: rest ∧
        parentGrants db now target path = some grants ∧ grants ≠ [] ∧
        (∀ g, g ∈ grants ↔ FolderGrant db now bucket nearest g) ∧
        ∀ folder rest g, path = folder ++ '/' :: rest → FolderGrant db now bucket folder g →
          folder.length ≤ nearest.length := by
  have hname : ((db.bucketById target.bucketId).map Bucket.name).getD [] = bucket.name := by
    rw [hbucketId, Database.bucketById_of_mem hbucket]
    rfl
  have hancestor (folder : Text) : folder ∈ ancestorFolderPrefixes path ↔ _ :=
    mem_ancestorFolderPrefixes_iff hpath.normalizePath_eq
  simp only [parentGrants, hname, hcompany, nearestAncestorFolderGrants]
  cases hfind : (ancestorFolderPrefixes path).reverse.find? fun folder =>
      decide (grantsOnFolder (folderGrantsForPrefixes db now bucket.companyId bucket.name
        (ancestorFolderPrefixes path)) folder ≠ []) with
  | none =>
      refine .inl ⟨rfl, fun folder rest hfolder g hg => ?_⟩
      have hno := List.find?_eq_none.mp hfind folder
        (List.mem_reverse.mpr ((hancestor folder).mpr ⟨rest, hfolder⟩))
      simp only [ne_eq, decide_not, Bool.not_eq_true', decide_eq_false_iff_not, not_not] at hno
      have hmem := (mem_grantsOnFolder hplaced hbucket hpath hfolder).mpr hg
      rw [hno] at hmem
      contradiction
  | some nearest =>
      right
      have hmem := List.mem_reverse.mp (List.mem_of_find?_eq_some hfind)
      obtain ⟨rest, hrest⟩ := (hancestor nearest).mp hmem
      have hne := List.find?_some hfind
      simp only [decide_eq_true_eq] at hne
      refine ⟨nearest, rest, _, hrest, ?_, hne,
        fun g => mem_grantsOnFolder hplaced hbucket hpath hrest,
        fun folder rest' g hfolder hg => ?_⟩
      · simp only [Option.map_some, ne_nil_of_mem_ancestorFolderPrefixes hmem, hne, ne_eq,
          not_false_eq_true, and_self, if_true]
      · refine length_le_of_find?_reverse hfind ((hancestor folder).mpr ⟨rest', hfolder⟩) ?_
        simp only [decide_eq_true_eq]
        exact List.ne_nil_of_mem ((mem_grantsOnFolder hplaced hbucket hpath hfolder).mpr hg)

end Ancestors

/-! ## The rows that are added -/

theorem runs_createPrivateGrants {userId : Nat} {target : StorageObject}
    {resource : Resource UUID} {u : Unit}
    (h : (createPrivateGrants env userId target resource).Runs s u s') :
    ∃ i j, s'.db.grants.rows = s.db.grants.rows ++
      [automaticGrant userId target resource .company (decimal target.companyId) .read .deny i
          s.out.now,
        automaticGrant userId target resource .user (decimal userId) .admin .allow j
          s.out.now] := by
  simp only [createPrivateGrants, runs_bind, runs_pure] at h
  obtain ⟨d, s₁, hdeny, a, s₂, hallow, -, rfl⟩ := h
  obtain ⟨rfl, hd⟩ := createGrantRow_added hdeny
  obtain ⟨rfl, ha⟩ := createGrantRow_added hallow
  refine ⟨env.uuid4 s.out.drawn, env.uuid4 s₁.out.drawn, ?_⟩
  rw [ha.grants, hd.grants, hd.now, List.append_assoc]
  rfl

structure CopiesOf (userId : Nat) (target : StorageObject) (sources : List Grant)
    (rows : List GrantRow) : Prop where
  copies : ∀ row ∈ rows, ∃ src ∈ sources, ∃ i t, row = copiedGrant userId target src i t
  copied : ∀ src ∈ sources, ∃ row ∈ rows, ∃ i t, row = copiedGrant userId target src i t

theorem runs_copyFolderGrants {userId : Nat} {target : StorageObject} {sources : List Grant}
    {u : Unit} (h : (copyFolderGrants env sources userId target).Runs s u s') :
    ∃ rows, s'.db.grants.rows = s.db.grants.rows ++ rows ∧
      CopiesOf userId target sources rows := by
  rw [copyFolderGrants] at h
  induction sources generalizing s with
  | nil =>
      rw [runs_forEach_nil] at h
      rw [h]
      exact ⟨[], by simp, by simp, by simp⟩
  | cons src sources ih =>
      simp only [runs_forEach_cons, runs_bind, runs_pure] at h
      obtain ⟨_, ⟨row, s₁, hrow, -, rfl⟩, hrest⟩ := h
      obtain ⟨hcopy, hadded⟩ := createGrantRow_added hrow
      obtain ⟨rows, hgrants, hcopies, hcopied⟩ := ih hrest
      refine ⟨row :: rows, ?_, ?_, ?_⟩
      · rw [hgrants, hadded.grants, List.append_assoc]
        rfl
      · rw [List.forall_mem_cons]
        refine ⟨⟨src, List.mem_cons_self .., _, _, hcopy⟩, fun row hrow => ?_⟩
        obtain ⟨src', hsrc', hcopy'⟩ := hcopies row hrow
        exact ⟨src', List.mem_cons_of_mem _ hsrc', hcopy'⟩
      · rw [List.forall_mem_cons]
        refine ⟨⟨row, List.mem_cons_self .., _, _, hcopy⟩, fun src' hsrc' => ?_⟩
        obtain ⟨row', hrow', hcopy'⟩ := hcopied src' hsrc'
        exact ⟨row', List.mem_cons_of_mem _ hrow', hcopy'⟩

def ownPath (target : StorageObject) : Text :=
  if placeholderSuffix <:+ normalizePath target.name then folderPathOf target
  else normalizePath target.name

/-- A plain name is its own path, or that of the marker of its path. -/
theorem ownPath_cases {target : StorageObject} (hplain : Plain target.name) :
    placeholderSuffix <:+ target.name ∧ target.name = ownPath target ++ placeholderSuffix ∧
        Plain (ownPath target) ∧ folderPathOf target = ownPath target ∨
      ¬placeholderSuffix <:+ target.name ∧ target.name = ownPath target := by
  have hself := hplain.normalizePath_eq
  by_cases hmarker : placeholderSuffix <:+ target.name
  · left
    obtain ⟨folder, hfolder⟩ := hmarker
    have hplain' : Plain folder := by
      rw [← hfolder] at hplain
      exact (Plain.append_iff.mp hplain).1
    have hpath : folderPathOf target = folder := by
      rw [folderPathOf, ← hfolder]
      exact folderPathFromPlaceholder_append hplain'.trimmed
    have hown : ownPath target = folder := by
      rw [ownPath, hself, if_pos ⟨folder, hfolder⟩, hpath]
    rw [hown, hpath]
    exact ⟨⟨folder, hfolder⟩, hfolder.symm, hplain', rfl⟩
  · right
    exact ⟨hmarker, by rw [ownPath, hself, if_neg hmarker]⟩

theorem runs_applyDefaultPrivateOnCreate {userId : Nat} {target : StorageObject}
    (hplain : Plain target.name) (hroot : target.name ≠ folderPlaceholderName)
    (hfresh : ∀ g ∈ s.db.grants.rows, g.resource.object? ≠ some target.id) {u : Unit}
    (h : (applyDefaultPrivateOnCreate env target (some userId)).Runs s u s') :
    parentGrants s.db s.out.now target (ownPath target) = none ∧
        (createPrivateGrants env userId target (ownResource target)).Runs s u s' ∨
      ∃ grants, parentGrants s.db s.out.now target (ownPath target) = some grants ∧
        (placeholderSuffix <:+ target.name ∧
            (copyFolderGrants env grants userId target).Runs s u s' ∨
          ¬placeholderSuffix <:+ target.name ∧ s' = s) := by
  have hself := hplain.normalizePath_eq
  have hne := hplain.trimmed.2
  have hnone : ∀ resource : Resource UUID, resource.object? = some target.id →
      resourceGrantsExist s.db s.out.now target resource = false := by
    intro resource hresource
    rw [resourceGrantsExist, List.any_eq_false]
    intro g hg hmatch
    simp only [Bool.and_eq_true, decide_eq_true_eq] at hmatch
    exact hfresh g hg (by rw [hmatch.1.2, hresource])
  rcases ownPath_cases hplain with ⟨hmarker, -, hown, hpath⟩ | ⟨hmarker, hpath⟩
  · have hfolder : folderPathFromPlaceholder target.name = ownPath target := hpath
    have hresource : ownResource target = .folder target.id := by
      rw [ownResource, hself, if_pos hmarker]
    simp only [applyDefaultPrivateOnCreate, hself, hne, hroot, hmarker, hfolder,
      hown.trimmed.2, ensureDefaultPrivateAccess, hpath, hnone (.folder target.id) rfl,
      or_self, if_false, if_true, Bool.false_eq_true, runs_bind, runs_database, runs_outside,
      and_assoc, exists_and_left, exists_eq_left] at h
    cases hparent : parentGrants s.db s.out.now target (ownPath target) with
    | none =>
        simp only [hparent] at h
        exact .inl ⟨rfl, hresource ▸ h⟩
    | some grants =>
        simp only [hparent] at h
        exact .inr ⟨grants, rfl, .inl ⟨hmarker, h⟩⟩
  · have hresource : ownResource target = .object target.id := by
      rw [ownResource, hself, if_neg hmarker]
    simp only [applyDefaultPrivateOnCreate, hself, hne, hroot, hmarker,
      ensureDefaultPrivateAccess, hnone (.object target.id) rfl, or_self, if_false,
      Bool.false_eq_true, runs_bind, runs_database, runs_outside, and_assoc,
      exists_and_left, exists_eq_left] at h
    rw [hpath] at h
    cases hparent : parentGrants s.db s.out.now target (ownPath target) with
    | none =>
        simp only [hparent] at h
        exact .inl ⟨rfl, hresource ▸ h⟩
    | some grants =>
        simp only [hparent, runs_pure] at h
        exact .inr ⟨grants, rfl, .inr ⟨hmarker, h.2⟩⟩

/-! ## Uploads of new objects -/

/-- Given grants `on` folders, what a new object gets: grants that make it private, copies, none. -/
inductive Given (on : Text → Grant → Prop) (now : Time) (userId : Nat)
    (obj : StorageObject) : List GrantRow → Prop where
  | alone (i j : UUID)
      (hnone : ∀ folder rest, ownPath obj = folder ++ '/' :: rest →
        ∀ g, ¬on folder g) :
      Given on now userId obj
        [automaticGrant userId obj (ownResource obj) .company (decimal obj.companyId) .read
            .deny i now,
          automaticGrant userId obj (ownResource obj) .user (decimal userId) .admin .allow j
            now]
  | copied {nearest rest : Text} {sources : List Grant} {rows : List GrantRow}
      (hmarker : placeholderSuffix <:+ obj.name)
      (habove : ownPath obj = nearest ++ '/' :: rest) (hne : sources ≠ [])
      (hsources : ∀ g, g ∈ sources ↔ on nearest g)
      (hnearest : ∀ folder rest g, ownPath obj = folder ++ '/' :: rest →
        on folder g → folder.length ≤ nearest.length)
      (hrows : CopiesOf userId obj sources rows) :
      Given on now userId obj rows
  | inherited {nearest rest : Text} {g : Grant} (hfile : ¬placeholderSuffix <:+ obj.name)
      (habove : ownPath obj = nearest ++ '/' :: rest) (hgrant : on nearest g) :
      Given on now userId obj []

structure AddedNew (bucket : Bucket) (name : Text) (ownerId : Option Nat) (s : World)
    (obj : StorageObject) (s' : World) : Prop where
  bucketId : obj.bucketId = bucket.id
  name : obj.name = name
  companyId : obj.companyId = bucket.companyId
  fresh : ∀ p ∈ s.db.objects.rows, p.id ≠ obj.id
  now : s'.out.now = s.out.now
  objects : s'.db.objects.rows = s.db.objects.rows ++ [obj]
  grants : ∃ new, s'.db.grants.rows = s.db.grants.rows ++ new ∧
    (∀ g ∈ new, GrantedOn obj (ownResource obj) g) ∧ (ownerId = none → new = []) ∧
    ∀ userId, ownerId = some userId →
      Given (FolderGrant s.db s.out.now bucket) s.out.now userId obj new

theorem Plain.ownPath {target : StorageObject} (h : Plain target.name) :
    Plain (ownPath target) := by
  rcases ownPath_cases h with ⟨-, -, hplain, -⟩ | ⟨-, hsame⟩
  · exact hplain
  · rwa [← hsame]

theorem applyDefaultPrivateOnCreate_given {bucket : Bucket} (hplaced : WellPlaced s.db)
    (hbucket : bucket ∈ s.db.buckets.rows) {obj : StorageObject}
    (hbucketId : obj.bucketId = bucket.id) (hcompany : obj.companyId = bucket.companyId)
    (hplain : Plain obj.name) (hroot : obj.name ≠ folderPlaceholderName)
    (hfresh : ∀ g ∈ s.db.grants.rows, g.resource.object? ≠ some obj.id) {userId : Nat} {u : Unit}
    (h : (applyDefaultPrivateOnCreate env obj (some userId)).Runs s u s') :
    ∃ new, s'.db.grants.rows = s.db.grants.rows ++ new ∧
      Given (FolderGrant s.db s.out.now bucket) s.out.now userId obj new := by
  have hparents := parentGrants_cases s.out.now hplaced hbucket hbucketId hcompany
    hplain.ownPath
  rcases runs_applyDefaultPrivateOnCreate hplain hroot hfresh h with
    ⟨hnone, hprivate⟩ | ⟨grants, hsome, hrest⟩
  · rcases hparents with ⟨-, hall⟩ | ⟨nearest, rest, grants, -, hsome, -⟩
    · obtain ⟨i, j, hrows⟩ := runs_createPrivateGrants hprivate
      exact ⟨_, hrows, .alone i j hall⟩
    · rw [hnone] at hsome
      cases hsome
  · rcases hparents with ⟨hnone, -⟩ | ⟨nearest, rest, sources, habove, hsome', hne, hiff, hmax⟩
    · rw [hnone] at hsome
      cases hsome
    · obtain rfl : grants = sources := Option.some.inj (hsome.symm.trans hsome')
      rcases hrest with ⟨hmarker, hcopy⟩ | ⟨hfile, rfl⟩
      · obtain ⟨rows, hrows, hcopies⟩ := runs_copyFolderGrants hcopy
        exact ⟨rows, hrows, .copied hmarker habove hne hiff hmax hcopies⟩
      · obtain ⟨g, hg⟩ := List.exists_mem_of_ne_nil grants hne
        exact ⟨[], by simp, .inherited hfile habove ((hiff g).mp hg)⟩

structure RowAdded (s : World) (obj : StorageObject) (s' : World) : Prop where
  buckets : s'.db.buckets = s.db.buckets
  objects : s'.db.objects.rows = s.db.objects.rows ++ [obj]
  grants : s'.db.grants.rows = s.db.grants.rows
  now : s'.out.now = s.out.now

namespace RowAdded

variable {obj : StorageObject}

theorem folderGrant (h : RowAdded s obj s') (bucket : Bucket) :
    FolderGrant s'.db s'.out.now bucket = FolderGrant s.db s.out.now bucket := by
  have hgrants : s'.db.grants.rows = s.db.grants.rows ++ [] := by
    rw [h.grants, List.append_nil]
  funext folder g
  have hactive : g ∈ activeGrants s'.db s.out.now bucket.companyId ↔
      g ∈ activeGrants s.db s.out.now bucket.companyId := by
    simp [mem_activeGrants_of_granted (fresh_of_append h.objects) h.objects hgrants]
  rw [h.now]
  exact propext ⟨fun h => ⟨hactive.mp h.active, h.bucketId, h.marker⟩,
    fun h => ⟨hactive.mpr h.active, h.bucketId, h.marker⟩⟩

theorem wellPlaced (h : RowAdded s obj s') (hplaced : WellPlaced s.db) (hplain : Plain obj.name) :
    WellPlaced s'.db := by
  have hgrants : s'.db.grants.rows = s.db.grants.rows ++ [] := by
    rw [h.grants, List.append_nil]
  exact hplaced.of_created h.buckets h.objects hgrants hplain.canonical.framed (by simp)

theorem unreferenced (h : RowAdded s obj s') :
    ∀ g ∈ s'.db.grants.rows, g.resource.object? ≠ some obj.id := by
  intro g hg href
  rw [h.grants] at hg
  have hreferences := s.db.grantObject g hg
  rw [href] at hreferences
  obtain ⟨p, hp, hid⟩ := hreferences
  exact fresh_of_append h.objects p hp hid

end RowAdded

/-- An upload under a free plain name adds the object and what it is given. -/
theorem uploadObject_new {bucket : Bucket} {path name : Text} {data : Bytes}
    {ownerId : Option Nat} {contentType : Option Text} {upsert : Bool} {obj : StorageObject}
    (hplaced : WellPlaced s.db) (hbucket : bucket ∈ s.db.buckets.rows)
    (hsafe : safeObjectPath path = .ok name) (hplain : Plain name)
    (hroot : name ≠ folderPlaceholderName) (hnew : s.db.objectNamed bucket.id name = none)
    (h : (uploadObject env bucket path data ownerId contentType upsert).Runs s obj s') :
    AddedNew bucket name ownerId s obj s' := by
  obtain ⟨n, mimeType, s₀, hn, hquota, hcases⟩ := runs_uploadObject h
  obtain rfl : n = name := Except.ok.inj (hn.symm.trans hsafe)
  have hq := (assertCanStore_quotasOnly env _ _ _ _).runs hquota
  rcases hcases with ⟨existing, hexisting, -⟩ | ⟨-, hcreate⟩
  · rw [hnew] at hexisting
    contradiction
  · obtain ⟨hcreated, hbucketId, hname, hcompany, -⟩ := createFile_created hcreate
    obtain ⟨s₁, s₂, ⟨hbuckets, hobjects, hgrants, hnow⟩, hprivate, hdb⟩ :=
      createFile_private hcreate
    have hadded : RowAdded s obj s₁ :=
      ⟨hbuckets.trans hq.buckets, by rw [hobjects, hq.objects], by rw [hgrants, hq.grants],
        hnow.trans hq.now⟩
    have hadds := (applyDefaultPrivateOnCreate_addsGrants env obj ownerId).runs hprivate
    obtain ⟨new, hrows, hgranted⟩ := hadds.grants
    refine ⟨hbucketId, hname, hcompany, fresh_of_append hadded.objects,
      hcreated.now.trans hq.now, by rw [hcreated.objects, hq.objects], new,
      by rw [hdb, hrows, hadded.grants], fun g hg => (hgranted g hg).2, ?_, ?_⟩
    · rintro rfl
      exact List.eq_nil_iff_forall_not_mem.mpr fun g hg => (hgranted g hg).1 rfl
    · rintro userId rfl
      have hplain' : Plain obj.name := hname ▸ hplain
      obtain ⟨rows, hrows', hgiven⟩ := applyDefaultPrivateOnCreate_given
        (hadded.wellPlaced hplaced hplain') (hadded.buckets ▸ hbucket) hbucketId hcompany hplain'
        (hname ▸ hroot) hadded.unreferenced hprivate
      obtain rfl : new = rows := List.append_cancel_left (hrows.symm.trans hrows')
      rwa [hadded.folderGrant, hadded.now] at hgiven

def uploadAlone (env : Env) (bucket : Bucket) (name : Text) (data : Bytes) (userId : Nat)
    (mimeType : Text) : Act StorageObject := do
  assertCanStore env bucket.companyId (some userId) data.length 0
  let obj ← createStored env bucket name data (some userId) data.length (contentEtag env data)
    mimeType
  applyUsageDelta env bucket.companyId obj.ownerId data.length
  createPrivateGrants env userId obj (.object obj.id)
  reach .signal
  pure obj

theorem runs_applyDefaultPrivateOnCreate_alone {target : StorageObject} (hplain : Plain target.name)
    (hroot : target.name ≠ folderPlaceholderName) (hfile : ¬placeholderSuffix <:+ target.name)
    (hfresh : ∀ g ∈ s.db.grants.rows, g.resource.object? ≠ some target.id)
    (hparent : parentGrants s.db s.out.now target target.name = none) {userId : Nat} {u : Unit}
    (h : (createPrivateGrants env userId target (.object target.id)).Runs s u s') :
    (applyDefaultPrivateOnCreate env target (some userId)).Runs s u s' := by
  have hnone : resourceGrantsExist s.db s.out.now target (.object target.id) = false := by
    rw [resourceGrantsExist, List.any_eq_false]
    intro g hg hmatch
    simp only [Bool.and_eq_true, decide_eq_true_eq] at hmatch
    exact hfresh g hg (by rw [hmatch.1.2]; rfl)
  simp only [applyDefaultPrivateOnCreate, ensureDefaultPrivateAccess, hplain.normalizePath_eq,
    hplain.trimmed.2, hroot, hfile, hnone, hparent, or_self, if_false, Bool.false_eq_true,
    runs_bind, runs_database, runs_outside, and_assoc, exists_and_left, exists_eq_left]
  exact h

theorem runs_uploadObject_alone {bucket : Bucket} (hplaced : WellPlaced s.db)
    (hbucket : bucket ∈ s.db.buckets.rows) {path name : Text}
    (hsafe : safeObjectPath path = .ok name) (hplain : Plain name)
    (hroot : name ≠ folderPlaceholderName) (hfile : ¬placeholderSuffix <:+ name)
    (hnew : s.db.objectNamed bucket.id name = none)
    (hfree : ∀ folder rest, name = folder ++ '/' :: rest →
      ∀ g, ¬FolderGrant s.db s.out.now bucket folder g)
    {data : Bytes} {userId : Nat} {contentType : Option Text} {upsert : Bool}
    (hmime : mimeAllowed env (normalizeMimeType env contentType name) bucket.allowedMimeTypes =
      true)
    (hlimit : data.length ≤ uploadLimit env bucket) {obj : StorageObject}
    (h : (uploadAlone env bucket name data userId
      (normalizeMimeType env contentType name)).Runs s obj s') :
    (uploadObject env bucket path data (some userId) contentType upsert).Runs s obj s' := by
  simp only [uploadAlone, runs_bind, runs_pure] at h
  obtain ⟨_, s₁, hquota, o, s₂, hstored, _, s₃, husage, _, s₄, hprivate, _, _, hsignal, rfl,
    rfl⟩ := h
  obtain ⟨-, -, ⟨hbucketId, rfl, hcompany, howner, -⟩, hcreate, -, -, hnow⟩ :=
    runs_createStored hstored
  obtain ⟨hbuckets, hobjects, hgrants, -⟩ := Database.createObject_eq_some hcreate
  have hq := (assertCanStore_quotasOnly env _ _ _ _).runs hquota
  have hq' := (applyUsageDelta_quotasOnly env _ _ _).runs husage
  have hadded : RowAdded s obj s₃ :=
    ⟨(hq'.buckets.trans hbuckets).trans hq.buckets, by rw [hq'.objects, hobjects, hq.objects],
      by rw [hq'.grants, hgrants, hq.grants], (hq'.now.trans hnow).trans hq.now⟩
  have hparent : parentGrants s₃.db s₃.out.now obj obj.name = none := by
    rcases parentGrants_cases s₃.out.now (hadded.wellPlaced hplaced hplain)
      (hadded.buckets ▸ hbucket) hbucketId hcompany hplain with
      ⟨hnone, -⟩ | ⟨nearest, rest, grants, habove, -, hne, hgiven, -⟩
    · exact hnone
    · obtain ⟨g, hg⟩ := List.exists_mem_of_ne_nil grants hne
      have hgrant := (hgiven g).mp hg
      rw [hadded.folderGrant] at hgrant
      exact absurd hgrant (hfree nearest rest habove g)
  have hgranted := runs_applyDefaultPrivateOnCreate_alone hplain hroot hfile hadded.unreferenced
    hparent hprivate
  have hfileRuns : (createFile env bucket obj.name data (some userId) data.length
      (contentEtag env data) (normalizeMimeType env contentType obj.name)).Runs s₁ obj s' := by
    simp only [createFile, runs_bind, runs_pure]
    rw [← howner] at hgranted
    exact ⟨obj, s₂, hstored, _, s₃, husage, _, s₄, hgranted, _, s', hsignal, rfl, rfl⟩
  simp only [uploadObject, runs_atomic, runs_bind, runs_ofExcept, runs_ensure, runs_database]
  refine ⟨obj.name, s, ⟨hsafe, rfl⟩, (), s, ⟨hmime, rfl⟩, s.db, s, ⟨rfl, rfl⟩, (), s,
    ⟨.inl hnew, rfl⟩, (), s, ⟨hlimit, rfl⟩, (), s₁, ?_, ?_⟩
  · rw [hnew]
    exact hquota
  · rw [hnew]
    exact hfileRuns

end StorageService.Storage
