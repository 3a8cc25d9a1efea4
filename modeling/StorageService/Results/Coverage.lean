import StorageService.Storage.Canonical
import StorageService.Storage.Queries
import StorageService.Storage.System

/-!
# Which names a grant covers

Stored names are canonical, grants are matched on trimmed names and folders are
gone through by prefix.  The three agree on names without outer blanks; the
results here say exactly where they do otherwise.
-/

namespace StorageService.Results

open StorageService.Foundation
open StorageService.Storage

/-! ## Folders in trimmed form -/

def matchedFolder (folder : Text) : Text :=
  normalizePath (folderPathFromPlaceholder (folder ++ placeholderSuffix))

theorem dropLead_below {folder rest : Text} (hfolder : SlashFree folder)
    (hrest : SlashFree rest) :
    dropLead (folder ++ '/' :: rest) =
      if dropLead folder = [] then rest else dropLead folder ++ '/' :: rest := by
  split
  · rename_i hlead
    have hnil : folder.dropWhile isSpace = [] := by
      by_contra hne
      have hlast : (folder.dropWhile isSpace).getLast hne = folder.getLast hfolder.1 :=
        (List.dropWhile_suffix isSpace).getLast hne
      have hslash := List.dropWhile_eq_nil_iff.mp hlead _ (List.getLast_mem hne)
      rw [hlast, hfolder.2.2] at hslash
      contradiction
    have hspace : isSpace '/' = false := by decide
    have hhead : isSlash (rest.head hrest.1) = false := hrest.2.1
    rw [dropLead, List.dropWhile_append, hnil]
    cases rest with
    | nil => exact absurd rfl hrest.1
    | cons c rest =>
        rw [List.head_cons] at hhead
        have hslash : isSlash '/' = true := by decide
        simp [hspace, hslash, hhead]
  · rename_i hne
    exact dropLead_append hne _

theorem dropTail_append_placeholder (s : Text) :
    dropTail (s ++ folderPlaceholderName) = s ++ folderPlaceholderName := by
  have hspace : folderPlaceholderName.rdropWhile isSpace = folderPlaceholderName := by
    decide +kernel
  have hslash : folderPlaceholderName.rdropWhile isSlash = folderPlaceholderName := by
    decide +kernel
  have hne : folderPlaceholderName ≠ [] := by decide
  rw [dropTail, rdropWhile_append, hspace, if_neg hne, rdropWhile_append, hslash, if_neg hne]

theorem folderPathFromPlaceholder_eq {folder : Text} (h : Canonical folder) :
    folderPathFromPlaceholder (folder ++ placeholderSuffix) = dropLead folder := by
  have hname : SlashFree folderPlaceholderName := canonical_folderPlaceholderName.slashFree
  have htrimmed : stripSlash (strip (folder ++ placeholderSuffix)) =
      (if dropLead folder = [] then [] else dropLead folder ++ ['/']) ++
        folderPlaceholderName := by
    change normalizePath (folder ++ '/' :: folderPlaceholderName) = _
    rw [normalizePath_eq, dropLead_below h.slashFree hname]
    split
    · exact dropTail_append_placeholder []
    · have happend := dropTail_append_placeholder (dropLead folder ++ ['/'])
      rw [List.append_assoc] at happend
      rw [List.append_assoc]
      exact happend
  rw [folderPathFromPlaceholder, htrimmed]
  split
  · rename_i hnil
    simp [hnil]
  · have hlong : dropLead folder ++ ['/'] ++ folderPlaceholderName ≠ folderPlaceholderName := by
      intro heq
      have hlen := congrArg List.length heq
      rw [List.length_append, List.length_append, List.length_singleton] at hlen
      omega
    have hsuffix : placeholderSuffix <:+ dropLead folder ++ ['/'] ++ folderPlaceholderName :=
      ⟨dropLead folder, by simp [placeholderSuffix]⟩
    simp only [if_neg hlong, if_pos hsuffix]
    simp [placeholderSuffix]

theorem matchedFolder_eq {folder : Text} (h : Canonical folder) :
    matchedFolder folder = dropTail (dropLead (dropLead folder)) := by
  rw [matchedFolder, folderPathFromPlaceholder_eq h, normalizePath_eq]

/-! ## Folder grants -/

def Blank (rest : Text) : Prop := ∀ c ∈ rest, isSpace c = true

/--
Matching sees `name` in `folder` just when it is there.  Of the folder matching
uses `matchedFolder`.  That may not end with a blank where `name` is the folder;
it must be all of the folder, or what trimming left of it a folder of the rest,
where `name` lies below; and elsewhere `name` may not come to lie below it by
being trimmed.
-/
structure FolderAgrees (folder name : Text) : Prop where
  same : name = folder → dropTail (matchedFolder folder) = matchedFolder folder
  below : ∀ rest, name = folder ++ '/' :: rest → matchedFolder folder = [] ∨ Blank rest ∨
    Under '/' (matchedFolder folder) (dropLead (dropLead folder))
  outside : ¬Under '/' folder name → matchedFolder folder ≠ [] ∧
    ¬Under '/' (matchedFolder folder) (normalizePath (normalizePath name))

def MatchedBelow (folder name : Text) : Prop :=
  matchedFolder folder = [] ∨
    Under '/' (matchedFolder folder) (normalizePath (normalizePath name))

theorem folderMatches_iff {folder name : Text} :
    folderMatches (folderPathFromPlaceholder (folder ++ placeholderSuffix))
        (normalizePath name) = true ↔ MatchedBelow folder name := by
  simp [folderMatches, matchedFolder, MatchedBelow]

theorem matchedBelow_self {folder : Text} (h : Canonical folder) :
    MatchedBelow folder folder ↔ dropTail (matchedFolder folder) = matchedFolder folder := by
  have hself : normalizePath (normalizePath folder) = dropTail (matchedFolder folder) := by
    rw [normalizePath_normalizePath, matchedFolder_eq h]
  rw [MatchedBelow, hself]
  constructor
  · rintro (hnil | hunder)
    · rw [hnil]
      rfl
    · exact ( dropTail_prefix _).eq_of_length_le hunder.isPrefix.length_le
  · intro heq
    rw [heq]
    exact .inr (.refl _)

/-- Trimming twice what lies below leaves the folder, or something below it. -/
theorem dropTail_dropTail_below {folder rest : Text} (hfolder : folder ≠ [])
    (hlast : isSlash (folder.getLast hfolder) = false) (hrest : SlashFree rest) :
    (Blank rest ∧ dropTail (dropTail (folder ++ '/' :: rest)) = dropTail folder) ∨
      (¬Blank rest ∧ Under '/' folder (dropTail (dropTail (folder ++ '/' :: rest)))) := by
  rcases dropTail_below hfolder hlast hrest with ⟨hblank, heq⟩ | ⟨hblank, rest', hrest', heq⟩
  · left
    rw [heq]
    exact ⟨hblank, rfl⟩
  · right
    refine ⟨hblank, ?_⟩
    rw [heq]
    rcases dropTail_below hfolder hlast hrest' with ⟨-, heq'⟩ | ⟨-, rest'', -, heq'⟩
    · rw [heq']
      exact .refl _
    · rw [heq']
      exact .below _ _

theorem matchedBelow_below {folder rest : Text} (h : Canonical folder)
    (hrest : SlashFree rest) :
    MatchedBelow folder (folder ++ '/' :: rest) ↔ matchedFolder folder = [] ∨ Blank rest ∨
      Under '/' (matchedFolder folder) (dropLead (dropLead folder)) := by
  rw [MatchedBelow, matchedFolder_eq h]
  refine or_congr_right' fun hne => ?_
  set front := dropLead (dropLead folder) with hfront
  have hfront' : front ≠ [] := by
    intro hnil
    rw [hnil] at hne
    exact hne rfl
  have hlead : dropLead folder ≠ [] := by
    intro hnil
    rw [hfront, hnil] at hfront'
    exact hfront' rfl
  have hlast : isSlash (front.getLast hfront') = false := by
    rw [((dropLead_suffix _).trans (dropLead_suffix _)).getLast hfront']
    exact h.slashFree.2.2
  have hname : normalizePath (normalizePath (folder ++ '/' :: rest)) =
      dropTail (dropTail (front ++ '/' :: rest)) := by
    rw [normalizePath_normalizePath, dropLead_append hlead, dropLead_append hfront']
  rw [hname]
  constructor
  · intro hunder
    rcases dropTail_dropTail_below hfront' hlast hrest with ⟨hblank, -⟩ | ⟨-, hbelow⟩
    · exact .inl hblank
    · exact .inr (hunder.of_under hbelow ( dropTail_prefix front).length_le)
  · intro hcases
    rcases dropTail_dropTail_below hfront' hlast hrest with ⟨-, heq⟩ | ⟨hblank, hbelow⟩
    · rw [heq]
      exact .refl _
    · exact (hcases.resolve_left hblank).trans hbelow

theorem matchedBelow_iff {folder name : Text} (hfolder : Canonical folder)
    (hname : Canonical name) :
    (MatchedBelow folder name ↔ Under '/' folder name) ↔ FolderAgrees folder name := by
  have hlong : ∀ rest : Text, folder ++ '/' :: rest ≠ folder := by
    intro rest heq
    have hlen := congrArg List.length heq
    simp at hlen
  by_cases hunder : Under '/' folder name
  · simp only [hunder, iff_true]
    rcases hunder with rfl | ⟨rest, hrest⟩
    · rw [matchedBelow_self hfolder]
      constructor
      · intro hsame
        exact ⟨fun _ => hsame, fun rest heq => absurd heq.symm (hlong rest),
          fun hnot => absurd (.refl _) hnot⟩
      · intro hagrees
        exact hagrees.same rfl
    · obtain rfl : folder ++ '/' :: rest = name := by simpa using hrest
      rw [matchedBelow_below hfolder (Canonical.append_iff.mp hname).2.slashFree]
      constructor
      · intro hbelow
        refine ⟨fun heq => absurd heq (hlong rest), fun rest' heq => ?_,
          fun hnot => absurd (.below _ _) hnot⟩
        obtain rfl : rest = rest' := by simpa using heq
        exact hbelow
      · intro hagrees
        exact hagrees.below rest rfl
  · simp only [hunder, iff_false, MatchedBelow, not_or]
    constructor
    · intro houtside
      exact ⟨fun heq => absurd (.inl heq) hunder,
        fun rest heq => absurd (heq ▸ .below folder rest) hunder, fun _ => houtside⟩
    · intro hagrees
      exact hagrees.outside hunder

theorem FolderAgrees.of_trimmed {folder name : Text} (hfolder : Canonical folder)
    (hfolder' : Trimmed folder) (hname : Trimmed name) : FolderAgrees folder name := by
  have hmatched : matchedFolder folder = folder := by
    rw [matchedFolder, folderPathFromPlaceholder_append hfolder', hfolder'.1]
  have htail : dropTail (dropLead (dropLead folder)) = folder := by
    rw [← matchedFolder_eq hfolder, hmatched]
  have hle := ( dropTail_prefix (dropLead (dropLead folder))).length_le
  rw [htail] at hle
  have hlead : dropLead (dropLead folder) = folder :=
    ((dropLead_suffix _).trans (dropLead_suffix _)).eq_of_length_le hle
  constructor
  · intro _
    rw [hmatched]
    rwa [hlead] at htail
  · intro rest _
    rw [hmatched, hlead]
    exact .inr (.inr (.refl _))
  · intro hnot
    rw [hmatched, hname.1, hname.1]
    exact ⟨hfolder'.2, hnot⟩

/-! ## Object grants -/

/-- Trimming keeps different names apart and does not use up equal ones. -/
structure ObjectAgrees (target name : Text) : Prop where
  same : name = target → normalizePath name ≠ []
  different : name ≠ target → normalizePath name = [] ∨ normalizePath target ≠ normalizePath name

theorem ObjectAgrees.of_trimmed {target name : Text} (htarget : Trimmed target)
    (hname : Trimmed name) : ObjectAgrees target name := by
  constructor
  · intro _
    rw [hname.1]
    exact hname.2
  · intro hne
    rw [htarget.1, hname.1]
    exact .inr (Ne.symm hne)

theorem resourceMatches_folder {grant : Grant} {bucket : Bucket} {marker : StorageObject}
    {name : Text} {objectId : Option UUID} (hbucket : grant.bucketId = bucket.id)
    (hresource : grant.resource = .folder marker) :
    resourceMatchesGrant grant bucket (some name) objectId =
      folderMatches (folderPathFromPlaceholder marker.name) (normalizePath name) := by
  simp [resourceMatchesGrant, hbucket, hresource, folderPathOf]

theorem resourceMatches_object {grant : Grant} {bucket : Bucket} {target : StorageObject}
    {name : Text} (hbucket : grant.bucketId = bucket.id)
    (hresource : grant.resource = .object target) :
    resourceMatchesGrant grant bucket (some name) none = true ↔
      normalizePath name ≠ [] ∧ normalizePath target.name = normalizePath name := by
  simp [resourceMatchesGrant, hbucket, hresource]

theorem resourceMatches_object_iff {grant : Grant} {bucket : Bucket} {target : StorageObject}
    {name : Text} (hbucket : grant.bucketId = bucket.id)
    (hresource : grant.resource = .object target) :
    (resourceMatchesGrant grant bucket (some name) none = true ↔ name = target.name) ↔
      ObjectAgrees target.name name := by
  rw [resourceMatches_object hbucket hresource]
  by_cases hsame : name = target.name
  · subst hsame
    simp only [and_true, iff_true]
    exact ⟨fun hne => ⟨fun _ => hne, fun hne' => absurd rfl hne'⟩, fun h => h.same rfl⟩
  · simp only [hsame, iff_false, not_and_or, not_not]
    exact ⟨fun h => ⟨fun heq => absurd heq hsame, fun _ => h⟩, fun h => h.different hsame⟩

/-! ## What lies inside a folder -/

theorem prefixFilter_eq {folder : Text} (h : Canonical folder) :
    prefixFilter folder = folder ++ ['/'] := by
  simp [prefixFilter, h.stripSlash_eq, h.ne_nil]

def LiesIn (folder name : Text) : Prop := name ≠ folder ∧ Under '/' folder name

theorem liesIn_iff {folder name : Text} : LiesIn folder name ↔ folder ++ ['/'] <+: name := by
  constructor
  · rintro ⟨hne, hunder⟩
    exact hunder.resolve_left hne
  · intro hprefix
    refine ⟨?_, .inr hprefix⟩
    intro heq
    have hle := hprefix.length_le
    rw [heq, List.length_append, List.length_singleton] at hle
    omega

def FoundExactly (engine : Engine) (folder name : Text) : Prop :=
  engine.StartsWith (folder ++ ['/']) name → folder ++ ['/'] <+: name

theorem mem_objectsUnderPrefix {db : Database} {bucket : Bucket} {folder : Text}
    {o : StorageObject} (hfolder : Canonical folder) (ho : o ∈ db.objects.rows)
    (hin : o.bucketId = bucket.id) :
    o ∈ objectsUnderPrefix db bucket folder ↔ db.engine.StartsWith (folder ++ ['/']) o.name := by
  simp [objectsUnderPrefix, Database.mem_objectsStartingWith, prefixFilter_eq hfolder, ho, hin]

theorem mem_listedObjects {db : Database} {now : Time} {display : Display}
    {principal : StoragePrincipal} {bucket : Bucket} {folder : Text} {o : StorageObject} :
    o ∈ listedObjects db now display principal bucket (prefixFilter folder) [] ↔
      o ∈ objectsUnderPrefix db bucket folder ∧
        canAccessPath db now principal bucket o.name (some o.id) .read = true := by
  simp [listedObjects, objectsUnderPrefix, List.mem_insertionSort]

/--
The grant covers the stored object `o` just when it lies in `folder`, and that is
where a listing, a deletion and a renaming of `folder` take it to lie.
-/
structure FolderCovers (db : Database) (grant : Grant) (bucket : Bucket) (folder : Text)
    (o : StorageObject) : Prop where
  matched : ∀ objectId, resourceMatchesGrant grant bucket (some o.name) objectId = true ↔
    Under '/' folder o.name
  listed : ∀ now display principal,
    o ∈ listedObjects db now display principal bucket (prefixFilter folder) [] ↔
      LiesIn folder o.name ∧
        canAccessPath db now principal bucket o.name (some o.id) .read = true
  deleted : o ∈ objectsUnderPrefix db bucket folder ↔ LiesIn folder o.name
  -- `rename_folder` looks at the prefix again
  renamed : o ∈ objectsUnderPrefix db bucket folder ∧ folder ++ ['/'] <+: o.name ↔
    LiesIn folder o.name

theorem folderCovers_iff {db : Database} {grant : Grant} {bucket : Bucket}
    {marker o : StorageObject} {folder : Text} (hbucket : grant.bucketId = bucket.id)
    (hresource : grant.resource = .folder marker)
    (hmarker : marker.name = folder ++ placeholderSuffix) (hfolder : Canonical folder)
    (ho : o ∈ db.objects.rows) (hin : o.bucketId = bucket.id) (hname : Canonical o.name) :
    FolderCovers db grant bucket folder o ↔
      FolderAgrees folder o.name ∧ FoundExactly db.engine folder o.name := by
  have hmatched : (∀ objectId, resourceMatchesGrant grant bucket (some o.name) objectId = true ↔
      Under '/' folder o.name) ↔ FolderAgrees folder o.name := by
    rw [← matchedBelow_iff hfolder hname, ← folderMatches_iff, ← hmarker]
    simp only [resourceMatches_folder hbucket hresource, forall_const]
  have hfound := mem_objectsUnderPrefix hfolder ho hin
  constructor
  · intro h
    exact ⟨hmatched.mp h.matched, fun hstarts => liesIn_iff.mp (h.deleted.mp (hfound.mpr hstarts))⟩
  · rintro ⟨hagrees, hexact⟩
    have hinside : o ∈ objectsUnderPrefix db bucket folder ↔ LiesIn folder o.name := by
      rw [hfound, liesIn_iff]
      exact ⟨hexact, .of_isPrefix db.engine⟩
    refine ⟨hmatched.mpr hagrees, fun now display principal => ?_, hinside, ?_⟩
    · rw [mem_listedObjects, hinside]
    · rw [hinside, ← liesIn_iff, and_self]

def storedAs (name : Text) : StorageObject where
  id := 1
  bucketId := sampleBucket.id
  name := name
  companyId := 1
  ownerId := none
  size := 0
  etag := []
  mimeType := octetStream
  storageKey := []
  version := 1
  createdAt := 0
  updatedAt := 0

def companyReads (resource : Resource StorageObject) : Grant where
  id := 2
  companyId := 1
  bucketId := sampleBucket.id
  subjectType := .company
  subjectId := ['1']
  resource := resource
  permission := .read
  effect := .allow
  createdById := none
  createdAt := 0
  expiresAt := none
  notes := []

def hrMarker : StorageObject := storedAs (['h', 'r'] ++ placeholderSuffix)

def hrWorld : World :=
  play (sampleEnv false) [.companyBucket 1, .upload (sampleUpload ['h', 'r', '/', 'x'] [97] 1)]
    .initial

end StorageService.Results
