import StorageService.Results.Decisions
import StorageService.Storage.Inheritance

/-!
# Ancestor lookups find the deepest folder

The lookups go from a path to the names of markers, through one query, and back
to folders.  For paths whose parts have no blanks at their ends this way there
and back loses nothing, so what is found is the deepest ancestor that has grants.
-/

namespace StorageService.Results

open StorageService.Foundation
open StorageService.Storage

/-! ## The deepest ancestor -/

def ProperAncestor (path folder : Text) : Prop := ∃ rest, path = folder ++ '/' :: rest

/-- The folder meets a condition, and whatever ancestor meets it is this one or above it. -/
structure Deepest (path : Text) (p : Text → Prop) (folder : Text) : Prop where
  ancestor : ProperAncestor path folder
  holds : p folder
  above : ∀ other, ProperAncestor path other → p other → other = folder ∨
    ProperAncestor folder other

theorem properAncestor_of_length_le {path folder other : Text}
    (hfolder : ProperAncestor path folder) (hother : ProperAncestor path other)
    (hle : other.length ≤ folder.length) :
    other = folder ∨ ProperAncestor folder other := by
  obtain ⟨rest, rfl⟩ := hfolder
  obtain ⟨rest', heq⟩ := hother
  rcases List.append_eq_append_iff.mp heq with ⟨more, hother, -⟩ | ⟨more, hfolder, hrest⟩
  · left
    have hlength := congrArg List.length hother
    rw [List.length_append] at hlength
    have hmore : more = [] := List.eq_nil_of_length_eq_zero (by omega)
    rw [hother, hmore, List.append_nil]
  · cases more with
    | nil =>
        left
        rw [hfolder, List.append_nil]
    | cons c more =>
        right
        rw [List.cons_append, List.cons.injEq] at hrest
        exact ⟨more, by rw [hfolder, hrest.1]⟩

/-- A search through the ancestors, innermost first, finds the deepest one. -/
theorem find?_ancestors {path : Text} (hpath : Plain path) {p : Text → Prop} {q : Text → Bool}
    (hq : ∀ folder ∈ ancestorFolderPrefixes path, q folder = true ↔ p folder) :
    ((ancestorFolderPrefixes path).reverse.find? q = none ↔
        ¬∃ folder, ProperAncestor path folder ∧ p folder) ∧
      ∀ nearest, (ancestorFolderPrefixes path).reverse.find? q = some nearest →
        Deepest path p nearest := by
  have hancestor (folder : Text) :
      folder ∈ ancestorFolderPrefixes path ↔ ProperAncestor path folder :=
    mem_ancestorFolderPrefixes_iff hpath.normalizePath_eq
  constructor
  · rw [List.find?_eq_none, not_exists]
    constructor
    · intro hnone folder hfolder
      have hmem := (hancestor folder).mpr hfolder.1
      exact hnone folder (List.mem_reverse.mpr hmem) ((hq folder hmem).mpr hfolder.2)
    · intro hnone folder hfolder htrue
      have hmem := List.mem_reverse.mp hfolder
      exact hnone folder ⟨(hancestor folder).mp hmem, (hq folder hmem).mp htrue⟩
  · intro nearest hfind
    have hmem := List.mem_reverse.mp (List.mem_of_find?_eq_some hfind)
    have hnearest := (hancestor nearest).mp hmem
    refine ⟨hnearest, (hq nearest hmem).mp (List.find?_some hfind), ?_⟩
    intro other hother hp
    have hmem' := (hancestor other).mpr hother
    apply properAncestor_of_length_le hnearest hother
    exact length_le_of_find?_reverse hfind hmem' ((hq other hmem').mpr hp)

/-! ## The two lookups -/

section Lookups

variable {db : Database} {now : Time} {companyId : Nat}

structure DeniesCompany (companyId : Nat) (g : Grant) : Prop where
  effect : g.effect = .deny
  subjectType : g.subjectType = .company
  permission : g.permission = .read
  subjectId : g.subjectId = decimal companyId

theorem deniesCompanyRead_iff {g : Grant} :
    deniesCompanyRead companyId g = true ↔ DeniesCompany companyId g := by
  simp only [deniesCompanyRead, decide_eq_true_eq, denyBlocks_read]
  constructor
  · rintro ⟨heffect, hsubject, hpermission, hid⟩
    exact ⟨heffect, hsubject, hpermission, hid⟩
  · rintro ⟨heffect, hsubject, hpermission, hid⟩
    exact ⟨heffect, hsubject, hpermission, hid⟩

/--
`_nearest_ancestor_folder_grants` finds the deepest folder above the path that
has an active grant of the company in the bucket, with all its grants, and
`nearest_private_ancestor_folder` the deepest one with a grant that denies the
company to read; they find nothing only if there is no such folder.
-/
theorem ancestorLookups_deepest (db : Database) (now : Time) (companyId : Nat)
    (bucketName path : Text) (hpath : Plain path) :
    (nearestAncestorFolderGrants db now companyId bucketName path = none ↔
        ¬∃ folder, ProperAncestor path folder ∧
          ∃ g, NamedFolderGrant db now companyId bucketName folder g) ∧
      (∀ folder grants,
        nearestAncestorFolderGrants db now companyId bucketName path = some (folder, grants) →
          Deepest path (fun folder => ∃ g, NamedFolderGrant db now companyId bucketName folder g)
            folder ∧
          ∀ g, g ∈ grants ↔ NamedFolderGrant db now companyId bucketName folder g) ∧
      (nearestPrivateAncestorFolder db now companyId bucketName path = none ↔
        ¬∃ folder, ProperAncestor path folder ∧
          ∃ g, NamedFolderGrant db now companyId bucketName folder g ∧ DeniesCompany companyId g) ∧
      ∀ folder, nearestPrivateAncestorFolder db now companyId bucketName path = some folder →
        Deepest path (fun folder =>
          ∃ g, NamedFolderGrant db now companyId bucketName folder g ∧ DeniesCompany companyId g)
          folder := by
  have hgrants {folder : Text} (hfolder : folder ∈ ancestorFolderPrefixes path) (g : Grant) :
      g ∈ grantsOnFolder (folderGrantsForPrefixes db now companyId bucketName
          (ancestorFolderPrefixes path)) folder ↔
        NamedFolderGrant db now companyId bucketName folder g :=
    mem_grantsOnFolder_iff hpath hfolder
  obtain ⟨hnone, hsome⟩ := find?_ancestors hpath
    (p := fun folder => ∃ g, NamedFolderGrant db now companyId bucketName folder g)
    (q := fun folder => decide (grantsOnFolder (folderGrantsForPrefixes db now companyId
      bucketName (ancestorFolderPrefixes path)) folder ≠ [])) fun folder hfolder => by
      rw [decide_eq_true_eq, ne_eq, List.eq_nil_iff_forall_not_mem, not_forall_not]
      exact exists_congr (hgrants hfolder)
  obtain ⟨hnone', hsome'⟩ := find?_ancestors hpath
    (p := fun folder =>
      ∃ g, NamedFolderGrant db now companyId bucketName folder g ∧ DeniesCompany companyId g)
    (q := fun folder => (grantsOnFolder (folderGrantsForPrefixes db now companyId bucketName
      (ancestorFolderPrefixes path)) folder).any (deniesCompanyRead companyId))
    fun folder hfolder => by
      rw [List.any_eq_true]
      exact exists_congr fun g => and_congr (hgrants hfolder g) deniesCompanyRead_iff
  refine ⟨?_, ?_, hnone', hsome'⟩
  · rw [nearestAncestorFolderGrants, Option.map_eq_none_iff]
    exact hnone
  · intro folder grants hnearest
    obtain ⟨nearest, hfind, heq⟩ := Option.map_eq_some_iff.mp hnearest
    rw [Prod.mk.injEq] at heq
    obtain ⟨rfl, rfl⟩ := heq
    have hdeepest := hsome nearest hfind
    refine ⟨hdeepest, hgrants ?_⟩
    exact (mem_ancestorFolderPrefixes_iff hpath.normalizePath_eq).mpr hdeepest.ancestor

theorem ancestorLookups_deepest_privateFolder :
    nearestPrivateAncestorFolder privateFolder.db 0 1 companyBucketName
        ['a', '/', 'b', '/', 'c'] = some ['a'] ∧
      Deepest ['a', '/', 'b', '/', 'c']
        (fun folder => ∃ g, NamedFolderGrant privateFolder.db 0 1 companyBucketName folder g ∧
          DeniesCompany 1 g) ['a'] := by
  have hfound : nearestPrivateAncestorFolder privateFolder.db 0 1 companyBucketName
      ['a', '/', 'b', '/', 'c'] = some ['a'] := by
    decide +kernel
  have hlookups := ancestorLookups_deepest privateFolder.db 0 1 companyBucketName
    ['a', '/', 'b', '/', 'c'] (by decide)
  exact ⟨hfound, hlookups.2.2.2 ['a'] hfound⟩

end Lookups

end StorageService.Results
