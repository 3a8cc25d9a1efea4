import Mathlib.Data.List.Dedup
import StorageService.Results.Addressing
import StorageService.Results.Decisions
import StorageService.Webdav.Views

/-!
# The two listings of a folder

`list_objects` asks the grants about each object below a folder; `propfind` asks
them about the folder first, and about an object of the folder's own name before
that.
-/

namespace StorageService.Results

open StorageService.Foundation
open StorageService.Foundation.Action
open StorageService.Storage
open StorageService.Webdav

section Listings

/-! ## What a listing shows -/

def DavItem.folder? : DavItem → Option Text
  | .collection _ _ displayname => some displayname
  | .object _ _ => none

def DavItem.file? : DavItem → Option StorageObject
  | .collection _ _ _ => none
  | .object _ obj => some obj

def ListEntry.folder? : ListEntry → Option Text
  | .folder name _ _ => some name
  | .file _ _ => none

def ListEntry.file? : ListEntry → Option StorageObject
  | .folder _ _ _ => none
  | .file obj _ => some obj

def DavResponse.children : DavResponse → List DavItem
  | .multistatus items => items.tail
  | .noContent | .badRequest | .forbidden | .notFound => []

/-- The folders and files of a PROPFIND are the entries of the list. -/
structure ListingsAgree (response : DavResponse) (entries : List ListEntry) : Prop where
  folders : ((DavResponse.children response).filterMap DavItem.folder?).Perm
    (entries.filterMap ListEntry.folder?)
  files : ((DavResponse.children response).filterMap DavItem.file?).Perm
    ((entries.filterMap ListEntry.file?).filter fun o =>
      decide (basename o.name ≠ folderPlaceholderName))
  refused : response = .forbidden ∨ response = .notFound ↔ entries = []

variable {env : Env} {display : Display} {db : Database} {now : Time}
variable {principal : StoragePrincipal} {bucket : Bucket} {request : ListRequest}

def restOf (folder : Text) (o : StorageObject) : Text :=
  o.name.drop (prefixFilter folder).length

theorem drop_prefixFilter (folder : Text) (o : StorageObject) :
    o.name.drop (prefixFilter folder).length = restOf folder o := rfl

def ShownBelow (db : Database) (now : Time) (principal : StoragePrincipal) (bucket : Bucket)
    (folder : Text) (o : StorageObject) : Prop :=
  o ∈ objectsUnderPrefix db bucket folder ∧ restOf folder o ≠ [] ∧
    canAccessPath db now principal bucket o.name (some o.id) .read = true

/-- What PROPFIND decides about the folder is borne out by what lies below it. -/
structure FolderDecides (db : Database) (now : Time) (principal : StoragePrincipal)
    (bucket : Bucket) (folder : Text) : Prop where
  root : folder = [] → ∃ o, ShownBelow db now principal bucket folder o
  nested : folder ≠ [] → db.objectNamed bucket.id folder = none →
    (canAccessPath db now principal bucket folder none .read = true ∧
      objectsUnderPrefix db bucket folder ≠ [] ↔
        ∃ o, ShownBelow db now principal bucket folder o)
  file : folder ≠ [] → ∀ obj, db.objectNamed bucket.id folder = some obj →
    canAccessPath db now principal bucket obj.name (some obj.id) .read = true →
      (∃ o, ShownBelow db now principal bucket folder o) ∧
        ∀ o, ShownBelow db now principal bucket folder o → restOf folder o = folderPlaceholderName
  hidden : folder ≠ [] → ∀ obj, db.objectNamed bucket.id folder = some obj →
    canAccessPath db now principal bucket obj.name (some obj.id) .read = false →
      ∀ o, ¬ShownBelow db now principal bucket folder o

theorem sortByKey_perm {α : Type} (key : α → Text) (descending : Bool) (l : List α) :
    (sortByKey key descending l).Perm l := by
  unfold sortByKey
  split <;> exact List.perm_insertionSort ..

theorem listedObjects_eq (pre : Text) :
    listedObjects db now display principal bucket pre [] =
      (orderedObjects display db bucket pre).filter fun o =>
        canAccessPath db now principal bucket o.name (some o.id) .read := by
  simp [listedObjects, orderedObjects]

theorem allEntries_perm (env : Env) (display : Display) :
    (allEntries env display db now principal bucket request).Perm
      (folderEntries display bucket (prefixFilter request.pre)
          (activeGrants db now bucket.companyId)
          (listedObjects db now display principal bucket (prefixFilter request.pre)
            request.search) ++
        fileEntries bucket (prefixFilter request.pre) (activeGrants db now bucket.companyId)
          (listedObjects db now display principal bucket (prefixFilter request.pre)
            request.search)) :=
  (sortByKey_perm ..).append (sortByKey_perm ..)

theorem basename_append {pre rest : Text} (hpre : pre = [] ∨ ∃ folder, pre = folder ++ ['/'])
    (hrest : '/' ∉ rest) : basename (pre ++ rest) = rest := by
  have hkept : ∀ c ∈ rest.reverse, decide (c ≠ '/') = true := by
    intro c hc
    have hne : c ≠ '/' := fun h => hrest (h ▸ List.mem_reverse.mp hc)
    simpa using hne
  rw [basename, List.rtakeWhile, List.reverse_append, List.takeWhile_append_of_pos hkept]
  rcases hpre with rfl | ⟨folder, rfl⟩ <;> simp

theorem partitionSlash_fst_eq {text name : Text} :
    '/' ∈ text ∧ (partitionSlash text).1 = name ↔
      '/' ∉ name ∧ ∃ rest, text = name ++ '/' :: rest := by
  have hkept : ∀ s : Text, '/' ∉ s → ∀ c ∈ s, decide (c ≠ '/') = true := by
    intro s hs c hc
    have hne : c ≠ '/' := fun h => hs (h ▸ hc)
    simpa using hne
  constructor
  · rintro ⟨hslash, rfl⟩
    have hsplit : (partitionSlash text).1 ++ text.dropWhile (· ≠ '/') = text :=
      List.takeWhile_append_dropWhile
    have hfree : '/' ∉ (partitionSlash text).1 := by
      intro hmem
      simpa using List.mem_takeWhile_imp hmem
    refine ⟨hfree, ?_⟩
    cases hrest : text.dropWhile (· ≠ '/') with
    | nil =>
        rw [hrest, List.append_nil] at hsplit
        rw [hsplit] at hfree
        exact absurd hslash hfree
    | cons c rest =>
        have hne : text.dropWhile (fun c => decide (c ≠ '/')) ≠ [] :=
          hrest ▸ List.cons_ne_nil c rest
        have hhead := List.head_dropWhile_not (fun c => decide (c ≠ '/')) hne
        simp only [hrest, List.head_cons] at hhead
        obtain rfl : c = '/' := by simpa using hhead
        exact ⟨rest, by rw [← hrest, hsplit]⟩
  · rintro ⟨hname, rest, rfl⟩
    refine ⟨by simp, ?_⟩
    rw [partitionSlash, List.takeWhile_append_of_pos (hkept name hname)]
    simp

theorem stripSlash_prefixFilter (folder : Text) :
    stripSlash (prefixFilter folder) = stripSlash folder := by
  rw [prefixFilter]
  split
  · rename_i hnil
    rw [hnil]
    rfl
  · rename_i hne
    have hends := (trim_eq_self_iff isSlash (stripSlash folder)).mp (trim_trim _ _) hne
    exact stripSlash_append_slash ⟨hne, hends⟩ (.inr rfl)

theorem stripSlash_prefixFilter_append {folder base : Text} (hbase : '/' ∉ base) :
    stripSlash (prefixFilter folder ++ base) =
      if base = [] then stripSlash folder else prefixFilter folder ++ base := by
  split
  · rename_i hnil
    rw [hnil, List.append_nil, stripSlash_prefixFilter]
  · rename_i hne
    have hkept : ∀ c ∈ base, isSlash c = false := by
      intro c hc
      rw [isSlash, beq_eq_false_iff_ne]
      exact fun h => hbase (h ▸ hc)
    refine (trim_eq_self_iff _ _).mpr fun h => ⟨?_, ?_⟩
    · by_cases hpre : stripSlash folder = []
      · have hnil : prefixFilter folder = [] := if_pos hpre
        simp only [hnil, List.nil_append]
        exact hkept _ (List.head_mem _)
      · have hcons : prefixFilter folder = stripSlash folder ++ ['/'] := if_neg hpre
        simp only [hcons, List.append_assoc]
        rw [List.head_append_of_ne_nil hpre]
        exact ((trim_eq_self_iff isSlash _).mp (trim_trim _ _) hpre).1
    · rw [List.getLast_append_of_ne_nil _ hne]
      exact hkept _ (List.getLast_mem hne)

theorem prefixFilter_ends (folder : Text) :
    prefixFilter folder = [] ∨ ∃ pre, prefixFilter folder = pre ++ ['/'] := by
  by_cases h : stripSlash folder = []
  · exact .inl (if_pos h)
  · exact .inr ⟨stripSlash folder, if_neg h⟩

/-! ## The entries of the list -/

def nestedObjects (pre : Text) (objs : List StorageObject) : List StorageObject :=
  objs.filter fun o => decide ('/' ∈ o.name.drop pre.length)

def directObjects (pre : Text) (objs : List StorageObject) : List StorageObject :=
  objs.filter fun o => decide (o.name.drop pre.length ≠ [] ∧ '/' ∉ o.name.drop pre.length)

def folderNames (pre : Text) (objs : List StorageObject) : List Text :=
  ((nestedObjects pre objs).map fun o => (partitionSlash (o.name.drop pre.length)).1).dedup

theorem filterMap_folder_folderEntries (hdisplay : display.Lawful) (pre : Text)
    (grants : List Grant) (objs : List StorageObject) :
    ((folderEntries display bucket pre grants objs).filterMap ListEntry.folder?).Perm
      (folderNames pre objs) := by
  rw [folderEntries, List.filterMap_map]
  simpa [Function.comp_def, ListEntry.folder?, folderNames, nestedObjects] using
    hdisplay.setOrder _

theorem filterMap_file_folderEntries (pre : Text) (grants : List Grant)
    (objs : List StorageObject) :
    (folderEntries display bucket pre grants objs).filterMap ListEntry.file? = [] := by
  simp [folderEntries, List.filterMap_map, Function.comp_def, ListEntry.file?]

theorem filterMap_folder_fileEntries (pre : Text) (grants : List Grant)
    (objs : List StorageObject) :
    (fileEntries bucket pre grants objs).filterMap ListEntry.folder? = [] := by
  simp [fileEntries, List.filterMap_map, Function.comp_def, ListEntry.folder?]

theorem filterMap_file_fileEntries (pre : Text) (grants : List Grant)
    (objs : List StorageObject) :
    (fileEntries bucket pre grants objs).filterMap ListEntry.file? = directObjects pre objs := by
  simp [fileEntries, List.filterMap_map, Function.comp_def, ListEntry.file?, directObjects]

section Entries

variable {objs : List StorageObject}

theorem filterMap_folder_allEntries (env : Env) (hdisplay : display.Lawful)
    (hobjs : listedObjects db now display principal bucket (prefixFilter request.pre)
      request.search = objs) :
    ((allEntries env display db now principal bucket request).filterMap
      ListEntry.folder?).Perm (folderNames (prefixFilter request.pre) objs) := by
  subst hobjs
  refine ((allEntries_perm env display).filterMap _).trans ?_
  rw [List.filterMap_append, filterMap_folder_fileEntries, List.append_nil]
  exact filterMap_folder_folderEntries hdisplay _ _ _

theorem filterMap_file_allEntries (env : Env)
    (hobjs : listedObjects db now display principal bucket (prefixFilter request.pre)
      request.search = objs) :
    ((allEntries env display db now principal bucket request).filterMap
      ListEntry.file?).Perm (directObjects (prefixFilter request.pre) objs) := by
  subst hobjs
  refine ((allEntries_perm env display).filterMap _).trans ?_
  rw [List.filterMap_append, filterMap_file_folderEntries, filterMap_file_fileEntries,
    List.nil_append]

theorem allEntries_empty_iff (env : Env) (hdisplay : display.Lawful)
    (hobjs : listedObjects db now display principal bucket (prefixFilter request.pre)
      request.search = objs) :
    allEntries env display db now principal bucket request = [] ↔
      folderNames (prefixFilter request.pre) objs = [] ∧
        directObjects (prefixFilter request.pre) objs = [] := by
  subst hobjs
  rw [← List.perm_nil, (allEntries_perm env display).congr_left, List.perm_nil,
    List.append_eq_nil_iff, folderEntries, List.map_eq_nil_iff, ← List.perm_nil,
    (hdisplay.setOrder _).congr_left, List.perm_nil, fileEntries, List.map_eq_nil_iff]
  rfl

end Entries

/-! ## The items of the answer -/

theorem filterMap_folder_appendChildren (pre : Text) :
    ((appendChildren display db now principal bucket pre).filterMap DavItem.folder?).Perm
      (folderNames pre (listedObjects db now display principal bucket pre [])) := by
  rw [listedObjects_eq]
  simp only [appendChildren, List.filterMap_append, List.filterMap_map, Function.comp_def,
    DavItem.folder?, List.filterMap_some, List.filterMap_none, List.append_nil]
  exact List.perm_insertionSort _ _

theorem basename_of_direct {folder : Text} {o : StorageObject}
    (hfound : db.engine.StartsWith (prefixFilter folder) o.name)
    (hrest : '/' ∉ restOf folder o) : basename o.name = restOf folder o := by
  rw [restOf] at hrest ⊢
  rcases prefixFilter_ends folder with hpre | ⟨pre, hpre⟩
  · rw [hpre, List.length_nil, List.drop_zero] at hrest ⊢
    exact basename_append (.inl rfl) hrest
  · rw [hpre] at hfound hrest ⊢
    obtain ⟨front, rest, hname, hlength⟩ := hfound.slash
    have hdrop : o.name.drop (pre ++ ['/']).length = rest := by
      simp [hname, ← hlength, List.drop_append]
    have hsplit : o.name = (front ++ ['/']) ++ rest := by simp [hname]
    rw [hdrop] at hrest ⊢
    rw [hsplit]
    exact basename_append (.inr ⟨front, rfl⟩) hrest

theorem filterMap_file_appendChildren (folder : Text) :
    (appendChildren display db now principal bucket (prefixFilter folder)).filterMap
        DavItem.file? =
      (directObjects (prefixFilter folder)
          (listedObjects db now display principal bucket (prefixFilter folder) [])).filter
        fun o => decide (basename o.name ≠ folderPlaceholderName) := by
  rw [listedObjects_eq]
  simp only [appendChildren, List.filterMap_append, List.filterMap_map, Function.comp_def,
    DavItem.file?, List.filterMap_some, List.filterMap_none, List.nil_append, directObjects,
    List.filter_filter]
  refine List.filter_congr fun o ho => ?_
  have hfound : db.engine.StartsWith (prefixFilter folder) o.name := by
    rw [orderedObjects, List.mem_insertionSort, Database.mem_objectsStartingWith] at ho
    exact ho.2.2
  simp only [drop_prefixFilter]
  by_cases hrest : '/' ∈ restOf folder o
  · simp [hrest]
  · rw [basename_of_direct hfound hrest]
    simp [hrest, Bool.and_comm, Bool.and_assoc]

/-! ## Agreement -/

theorem shownBelow_iff (display : Display) {folder : Text} {o : StorageObject} :
    ShownBelow db now principal bucket folder o ↔
      o ∈ listedObjects db now display principal bucket (prefixFilter folder) [] ∧
        restOf folder o ≠ [] := by
  rw [mem_listedObjects, ShownBelow, and_assoc, and_comm (a := restOf folder o ≠ _)]

theorem found_of_listed {folder : Text} {o : StorageObject}
    (ho : o ∈ listedObjects db now display principal bucket (prefixFilter folder) []) :
    db.engine.StartsWith (prefixFilter folder) o.name :=
  (Database.mem_objectsStartingWith.mp (mem_listedObjects.mp ho).1).2.2

theorem folderNames_eq_nil_iff {pre : Text} {objs : List StorageObject} :
    folderNames pre objs = [] ↔ ∀ o ∈ objs, '/' ∉ o.name.drop pre.length := by
  simp [folderNames, nestedObjects, List.dedup_eq_nil]

/-- What is shown below a folder lies in one of its folders or in the folder itself. -/
theorem exists_shownBelow_iff (display : Display) {folder : Text} :
    (∃ o, ShownBelow db now principal bucket folder o) ↔
      ¬(folderNames (prefixFilter folder)
            (listedObjects db now display principal bucket (prefixFilter folder) []) = [] ∧
          directObjects (prefixFilter folder)
            (listedObjects db now display principal bucket (prefixFilter folder) []) = []) := by
  simp only [shownBelow_iff display, folderNames_eq_nil_iff, directObjects,
    List.filter_eq_nil_iff, decide_eq_true_eq, ← forall₂_and, not_forall, exists_prop]
  refine exists_congr fun o => and_congr_right fun ho => ?_
  rw [drop_prefixFilter]
  by_cases hslash : '/' ∈ restOf folder o
  · simp only [hslash, not_true, false_and, not_false_iff, iff_true]
    exact List.ne_nil_of_mem hslash
  · simp [hslash]

theorem shows_marker_iff (display : Display) {folder : Text} :
    (folderNames (prefixFilter folder)
          (listedObjects db now display principal bucket (prefixFilter folder) []) = [] ∧
        (directObjects (prefixFilter folder)
            (listedObjects db now display principal bucket (prefixFilter folder) [])).filter
          (fun o => decide (basename o.name ≠ folderPlaceholderName)) = []) ↔
      ∀ o, ShownBelow db now principal bucket folder o →
        restOf folder o = folderPlaceholderName := by
  simp only [shownBelow_iff display, folderNames_eq_nil_iff, directObjects,
    List.filter_filter, List.filter_eq_nil_iff, ← forall₂_and, and_imp]
  refine forall₂_congr fun o ho => ?_
  simp only [ne_eq, drop_prefixFilter, Bool.and_eq_true, decide_eq_true_eq]
  by_cases hslash : '/' ∈ restOf folder o
  · have hne : restOf folder o ≠ folderPlaceholderName := by
      intro h
      rw [h] at hslash
      exact absurd hslash (by decide)
    simp [hslash, hne, List.ne_nil_of_mem hslash]
  · rw [basename_of_direct (found_of_listed ho) hslash]
    simp only [hslash, not_false_iff, and_true, true_and]
    exact ⟨fun h hrest => of_not_not fun hne => h ⟨hne, decide_eq_true hrest⟩, fun h hboth =>
      hboth.1 (h (of_decide_eq_true hboth.2))⟩

theorem listingsAgree_refused {response : DavResponse}
    (h : response = .forbidden ∨ response = .notFound) {entries : List ListEntry} :
    ListingsAgree response entries ↔ entries = [] := by
  constructor
  · intro hagree
    exact hagree.refused.mp h
  · rintro rfl
    refine ⟨?_, ?_, iff_of_true h rfl⟩
    · rcases h with rfl | rfl <;> exact .nil
    · rcases h with rfl | rfl <;> exact .nil

section Agree

variable (env : Env) (hdisplay : display.Lawful) (hsearch : request.search = [])
include hdisplay hsearch

theorem allEntries_eq_nil_iff :
    allEntries env display db now principal bucket request = [] ↔
      ∀ o, ¬ShownBelow db now principal bucket request.pre o := by
  rw [← not_exists, exists_shownBelow_iff display, not_not,
    allEntries_empty_iff env hdisplay (by rw [hsearch])]

theorem listingsAgree_children (head : DavItem) :
    ListingsAgree
        (.multistatus (head :: appendChildren display db now principal bucket
          (prefixFilter request.pre)))
        (allEntries env display db now principal bucket request) ↔
      ∃ o, ShownBelow db now principal bucket request.pre o := by
  rw [← not_forall_not, ← allEntries_eq_nil_iff env hdisplay hsearch]
  constructor
  · intro hagree hnil
    cases hagree.refused.mpr hnil <;> contradiction
  · intro hne
    refine ⟨?_, ?_, iff_of_false (by simp) hne⟩
    · exact (filterMap_folder_appendChildren _).trans
        (filterMap_folder_allEntries env hdisplay (by rw [hsearch])).symm
    · change (List.filterMap DavItem.file? (appendChildren ..)).Perm _
      rw [filterMap_file_appendChildren]
      exact ((filterMap_file_allEntries env (by rw [hsearch])).filter _).symm

theorem listingsAgree_alone (head : DavItem) :
    ListingsAgree (.multistatus [head])
        (allEntries env display db now principal bucket request) ↔
      (∃ o, ShownBelow db now principal bucket request.pre o) ∧
        ∀ o, ShownBelow db now principal bucket request.pre o →
          restOf request.pre o = folderPlaceholderName := by
  have hfolders : ((allEntries env display db now principal bucket request).filterMap
      ListEntry.folder?).Perm _ := filterMap_folder_allEntries env hdisplay (by rw [hsearch])
  have hfiles : ((allEntries env display db now principal bucket request).filterMap
      ListEntry.file?).Perm _ := filterMap_file_allEntries env (by rw [hsearch])
  rw [← not_forall_not, ← allEntries_eq_nil_iff env hdisplay hsearch, ← shows_marker_iff display]
  constructor
  · intro hagree
    refine ⟨fun hnil => ?_, ?_, ?_⟩
    · cases hagree.refused.mpr hnil <;> contradiction
    · exact (hagree.folders.trans hfolders).nil_eq.symm
    · exact (hagree.files.trans (hfiles.filter _)).nil_eq.symm
  · rintro ⟨hne, hnofolder, hnofile⟩
    refine ⟨?_, ?_, iff_of_false (by simp) hne⟩
    · rw [hnofolder] at hfolders
      exact hfolders.symm
    · have hnone := hfiles.filter fun o => decide (basename o.name ≠ folderPlaceholderName)
      rw [hnofile] at hnone
      exact hnone.symm

end Agree

/-! ## PROPFIND -/

def folderAnswer (display : Display) (db : Database) (now : Time)
    (principal : StoragePrincipal) (depth : Text) (bucket : Bucket) (folder : Text) :
    DavResponse :=
  if folder = [] then
    .multistatus (.collection bucket.name [] bucket.name ::
      childrenAtDepth display db now principal depth bucket [])
  else propfindPath display db now principal depth bucket folder

theorem propfind_runs_iff {s s₁ s' : World} {depth path bucketName folder : Text}
    {response : DavResponse} (hpath : parsePath env path = (bucketName, folder))
    (hname : bucketName ≠ []) (hfolder : folder = [] ∨ Canonical folder)
    (hbucket : (getAccessibleBucket env principal bucketName .read).Runs s bucket s₁) :
    (propfind env display principal depth path).Runs s response s' ↔
      response = folderAnswer display s₁.db s₁.out.now principal depth bucket folder ∧
        s' = s₁ := by
  have hcompany := (getAccessibleBucket_resolved hbucket).company
  have hrequire : (requireCompanyId principal).Runs s bucket.companyId s := by
    simp [requireCompanyId, hcompany]
  rw [propfind, runs_bind_of_runs hrequire, hpath]
  simp only [if_neg hname]
  rw [runs_bind_of_runs hbucket]
  simp only [runs_bind, runs_database, runs_outside, folderAnswer]
  rcases hfolder with rfl | hcanonical
  · simp
  · have hsafe : safeObjectPath folder = .ok folder := hcanonical
    simp [hcanonical.ne_nil, hsafe, and_comm]

theorem rstrip_slash {folder : Text} (h : Canonical folder) :
    folder.rdropWhile isSlash ++ ['/'] = prefixFilter folder := by
  have hkept : folder.rdropWhile isSlash = folder :=
    List.rdropWhile_eq_self_iff.mpr fun hne => by simp [h.slash_ends.2]
  rw [hkept, prefixFilter_eq h]

theorem propfindPath_none {depth folder : Text} (hfolder : Canonical folder)
    (hnone : db.objectNamed bucket.id folder = none) :
    propfindPath display db now principal depth bucket folder =
      if canAccessPath db now principal bucket folder none .read = true then
        if objectsUnderPrefix db bucket folder = [] then .notFound
        else .multistatus (.collection bucket.name folder (basename folder) ::
          childrenAtDepth display db now principal depth bucket (prefixFilter folder))
      else .forbidden := by
  simp only [propfindPath, hnone, rstrip_slash hfolder, ite_not]
  rfl

theorem folderDecides_root :
    FolderDecides db now principal bucket [] ↔ ∃ o, ShownBelow db now principal bucket [] o :=
  ⟨fun h => h.root rfl, fun h => ⟨fun _ => h, fun hne => absurd rfl hne,
    fun hne => absurd rfl hne, fun hne => absurd rfl hne⟩⟩

section Decides

variable {folder : Text} (hne : folder ≠ [])
include hne

theorem folderDecides_none (hnone : db.objectNamed bucket.id folder = none) :
    FolderDecides db now principal bucket folder ↔
      (canAccessPath db now principal bucket folder none .read = true ∧
        objectsUnderPrefix db bucket folder ≠ [] ↔
          ∃ o, ShownBelow db now principal bucket folder o) := by
  constructor
  · intro h
    exact h.nested hne hnone
  · intro h
    refine ⟨fun hroot => absurd hroot hne, fun _ _ => h, ?_, ?_⟩
    · intro _ obj hobj
      rw [hnone] at hobj
      cases hobj
    · intro _ obj hobj
      rw [hnone] at hobj
      cases hobj

theorem folderDecides_some {obj : StorageObject}
    (hobj : db.objectNamed bucket.id folder = some obj) :
    FolderDecides db now principal bucket folder ↔
      if canAccessPath db now principal bucket obj.name (some obj.id) .read = true then
        (∃ o, ShownBelow db now principal bucket folder o) ∧
          ∀ o, ShownBelow db now principal bucket folder o → restOf folder o = folderPlaceholderName
      else ∀ o, ¬ShownBelow db now principal bucket folder o := by
  constructor
  · intro h
    split
    · rename_i hallowed
      exact h.file hne obj hobj hallowed
    · rename_i hrefused
      exact h.hidden hne obj hobj (Bool.eq_false_iff.mpr hrefused)
  · intro h
    refine ⟨fun hroot => absurd hroot hne, fun _ hnone => ?_, ?_, ?_⟩
    · rw [hobj] at hnone
      cases hnone
    · intro _ obj' hobj' hallowed
      obtain rfl := Option.some.inj (hobj.symm.trans hobj')
      rwa [if_pos hallowed] at h
    · intro _ obj' hobj' hrefused
      obtain rfl := Option.some.inj (hobj.symm.trans hobj')
      rwa [if_neg (Bool.eq_false_iff.mp hrefused)] at h

end Decides

def sampleDisplay : Display where
  isoformat := decimal
  containsFold := fun name search => decide (search <:+: name)
  nameLe := textLe
  setOrder := List.dedup

theorem sampleDisplay_lawful : sampleDisplay.Lawful := ⟨fun _ => .refl _⟩

def sampleListing (folder : Text) : ListRequest where
  pre := folder
  limit := 100
  offset := 0
  search := []
  sortColumn := ['n', 'a', 'm', 'e']
  sortOrder := ['a', 's', 'c']

def admitted (required : Permission) (principal : StoragePrincipal) (w : World) : World :=
  (getAccessibleBucket (sampleEnv false) principal companyBucketName required
    (w.withFault none)).2

theorem admitted_runs (required : Permission) (principal : StoragePrincipal) (w : World)
    (hok : (getAccessibleBucket (sampleEnv false) principal companyBucketName required
      (w.withFault none)).1.toOption.any (fun b => decide (b = sampleBucket)) = true) :
    (getAccessibleBucket (sampleEnv false) principal companyBucketName required).Runs
      (w.withFault none) sampleBucket (admitted required principal w) := by
  obtain ⟨bucket, hrun, hbucket⟩ := runs_of_any hok
  obtain rfl := of_decide_eq_true hbucket
  exact hrun

def hiddenFile : World :=
  play (sampleEnv false)
    [.companyBucket 1, .upload (sampleUpload ['b', '/', 'x'] [97] 1)] .initial

end Listings

end StorageService.Results
