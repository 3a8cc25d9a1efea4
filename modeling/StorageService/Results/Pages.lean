import StorageService.Foundation.Paging
import StorageService.Results.Listings

/-!
# The pages of a listing

Each page is cut out of a listing made anew, whose folders were gone through in an
order of its own.  Sorting brings them into one order except for folders of the same
key, so the pages fit together when none ends between two of these.
-/

namespace StorageService.Results

open StorageService.Foundation
open StorageService.Storage

section Pages

variable (env : Env) (display : Display) (db : Database) (now : Time)
variable (principal : StoragePrincipal) (bucket : Bucket)
variable (folder sortColumn sortOrder : Text)

structure ReadableUnder (o : StorageObject) (rest : Text) : Prop where
  row : o ∈ db.objects.rows
  bucketId : o.bucketId = bucket.id
  name : o.name = prefixFilter folder ++ rest
  readable : canAccessPath db now principal bucket o.name (some o.id) .read = true

structure FoundUnder (o : StorageObject) (rest : Text) : Prop where
  found : o ∈ objectsUnderPrefix db bucket folder
  rest : restOf folder o = rest
  readable : canAccessPath db now principal bucket o.name (some o.id) .read = true

/-- What is found beyond the folder lies in a child folder that has readable content of its own. -/
def FindsOwn : Prop :=
  ∀ o rest, FoundUnder db now principal bucket folder o rest → rest ≠ [] →
    ¬prefixFilter folder <+: o.name → '/' ∈ rest ∧ ∃ obj tail,
      ReadableUnder db now principal bucket folder obj ((partitionSlash rest).1 ++ '/' :: tail)

structure ListsOnce (below : StorageObject → Text → Prop) (entries : List ListEntry) : Prop where
  folders : ∀ name, name ∈ entries.filterMap ListEntry.folder? ↔
    '/' ∉ name ∧ ∃ o rest, below o (name ++ '/' :: rest)
  foldersOnce : (entries.filterMap ListEntry.folder?).Nodup
  files : ∀ o, o ∈ entries.filterMap ListEntry.file? ↔
    ∃ base, base ≠ [] ∧ '/' ∉ base ∧ below o base
  filesOnce : (entries.filterMap ListEntry.file?).Nodup

def pageRequest (folder sortColumn sortOrder : Text) (n k : Nat) : ListRequest where
  pre := folder
  limit := n
  offset := (k * n : Nat)
  search := []
  sortColumn := sortColumn
  sortOrder := sortOrder

/-- The first `m` pages; the one at `k` goes through its set of folders as `orders k` says. -/
def listedPages (orders : Nat → List Text → List Text) (n m : Nat) : List ListEntry :=
  (List.range m).flatMap fun k =>
    listObjects env { display with setOrder := orders k } db now principal bucket
      (pageRequest folder sortColumn sortOrder n k)

def PagesList (below : StorageObject → Text → Prop) (n : Nat) : Prop :=
  ∀ orders : Nat → List Text → List Text, (∀ k texts, (orders k texts).Perm texts.dedup) →
    ∃ enough, ∀ m, enough ≤ m → ListsOnce below
      (listedPages env display db now principal bucket folder sortColumn sortOrder orders n m)

def PagesExact (n : Nat) : Prop :=
  PagesList env display db now principal bucket folder sortColumn sortOrder
    (ReadableUnder db now principal bucket folder) n

def folderKey (column : SortColumn) (name : Text) : Text :=
  match column with
  | .name => env.lower name
  | .updatedAt | .createdAt => []

def keyBefore (descending : Bool) (a b : Text) : Bool :=
  if descending then textLe b a else textLe a b

def folderBefore (a b : Text) : Prop :=
  keyBefore (decide (env.lower sortOrder = ['d', 'e', 's', 'c']))
    (folderKey env (sortColumnOf sortColumn) a) (folderKey env (sortColumnOf sortColumn) b) = true

instance : DecidableRel (folderBefore env sortColumn sortOrder) := fun _ _ =>
  inferInstanceAs (Decidable (_ = true))

def childFolders : List Text :=
  folderNames (prefixFilter folder)
    ((db.objectsStartingWith bucket.id (prefixFilter folder)).filter fun o =>
      canAccessPath db now principal bucket o.name (some o.id) .read)

variable {env display db now principal bucket folder sortColumn sortOrder}

/-! ## The order of keys -/

theorem textLe_total (a b : Text) : textLe a b = true ∨ textLe b a = true := by
  induction a generalizing b with
  | nil => exact .inl rfl
  | cons c a ih =>
      cases b with
      | nil => exact .inr rfl
      | cons d b =>
          simp only [textLe, Bool.or_eq_true, Bool.and_eq_true, decide_eq_true_eq, beq_iff_eq]
          rcases Nat.lt_trichotomy c.toNat d.toNat with hlt | heq | hgt
          · exact .inl (.inl hlt)
          · obtain rfl : c = d := Char.toNat_inj.mp heq
            exact (ih b).imp (fun h => .inr ⟨rfl, h⟩) fun h => .inr ⟨rfl, h⟩
          · exact .inr (.inl hgt)

theorem textLe_trans {a b c : Text} (hab : textLe a b = true) (hbc : textLe b c = true) :
    textLe a c = true := by
  induction a generalizing b c with
  | nil => rfl
  | cons x a ih =>
      cases b with
      | nil => simp [textLe] at hab
      | cons y b =>
          cases c with
          | nil => simp [textLe] at hbc
          | cons z c =>
              simp only [textLe, Bool.or_eq_true, Bool.and_eq_true, decide_eq_true_eq,
                beq_iff_eq] at hab hbc ⊢
              rcases hab with hxy | ⟨rfl, hab⟩
              · rcases hbc with hyz | ⟨rfl, -⟩
                · exact .inl (hxy.trans hyz)
                · exact .inl hxy
              · rcases hbc with hyz | ⟨rfl, hbc⟩
                · exact .inl hyz
                · exact .inr ⟨rfl, ih hab hbc⟩

theorem keyBefore_total (descending : Bool) (a b : Text) :
    keyBefore descending a b = true ∨ keyBefore descending b a = true := by
  cases descending with
  | false => exact textLe_total a b
  | true => exact textLe_total b a

theorem keyBefore_trans {descending : Bool} {a b c : Text}
    (hab : keyBefore descending a b = true) (hbc : keyBefore descending b c = true) :
    keyBefore descending a c = true := by
  cases descending with
  | false => exact textLe_trans hab hbc
  | true => exact textLe_trans hbc hab

def keyOrder {α : Type} (key : α → Text) (descending : Bool) (a b : α) : Prop :=
  keyBefore descending (key a) (key b) = true

instance {α : Type} (key : α → Text) (descending : Bool) :
    DecidableRel (keyOrder key descending) := fun _ _ => inferInstanceAs (Decidable (_ = true))

instance {α : Type} (key : α → Text) (descending : Bool) :
    Std.Total (keyOrder key descending) := ⟨fun _ _ => keyBefore_total ..⟩

instance {α : Type} (key : α → Text) (descending : Bool) :
    IsTrans α (keyOrder key descending) := ⟨fun _ _ _ => keyBefore_trans⟩

theorem sortByKey_eq {α : Type} (key : α → Text) (descending : Bool) (l : List α) :
    sortByKey key descending l = l.insertionSort (keyOrder key descending) := by
  cases descending <;> rfl

theorem sortByKey_sorted {α : Type} (key : α → Text) (descending : Bool) (l : List α) :
    (sortByKey key descending l).Pairwise (keyOrder key descending) := by
  rw [sortByKey_eq]
  exact List.pairwise_insertionSort _ l

theorem sortByKey_of_sorted {α : Type} {key : α → Text} {descending : Bool} {l : List α}
    (h : l.Pairwise (keyOrder key descending)) : sortByKey key descending l = l := by
  rw [sortByKey_eq]
  exact h.insertionSort_eq

/-! ## What all pages are cut out of -/

variable (env display db now principal bucket folder sortColumn sortOrder) in
def sortedFolders (order : List Text → List Text) : List ListEntry :=
  sortByKey (sortKey env display (sortColumnOf sortColumn))
    (decide (env.lower sortOrder = ['d', 'e', 's', 'c']))
    (folderEntries { display with setOrder := order } bucket (prefixFilter folder)
      (activeGrants db now bucket.companyId)
      (listedObjects db now display principal bucket (prefixFilter folder) []))

variable (env display db now principal bucket folder sortColumn sortOrder) in
def sortedFiles : List ListEntry :=
  sortByKey (sortKey env display (sortColumnOf sortColumn))
    (decide (env.lower sortOrder = ['d', 'e', 's', 'c']))
    (fileEntries bucket (prefixFilter folder) (activeGrants db now bucket.companyId)
      (listedObjects db now display principal bucket (prefixFilter folder) []))

theorem slice_natCast {α : Type} (l : List α) (start n : Nat) :
    slice start (start + n : Int) l = (l.drop start).take n := by
  have hstart : sliceIndex l.length (start : Int) = min start l.length := by
    simp [sliceIndex]
  have hstop : sliceIndex l.length (start + n : Int) = min (start + n) l.length := by
    rw [sliceIndex, if_neg (by omega)]
    omega
  rw [slice, hstart, hstop]
  rcases Nat.le_total start l.length with hle | hle
  · rw [Nat.min_eq_left hle]
    rcases Nat.le_total (start + n) l.length with hfits | hlong
    · rw [Nat.min_eq_left hfits, Nat.add_sub_cancel_left]
    · rw [Nat.min_eq_right hlong, List.take_of_length_le (by simp),
        List.take_of_length_le (by rw [List.length_drop]; omega)]
  · rw [Nat.min_eq_right hle, List.drop_eq_nil_of_le le_rfl, List.drop_eq_nil_of_le hle]
    simp

theorem listedPages_eq (orders : Nat → List Text → List Text) (n m : Nat) :
    listedPages env display db now principal bucket folder sortColumn sortOrder orders n m =
      pages (fun k =>
        sortedFolders env display db now principal bucket folder sortColumn sortOrder (orders k) ++
          sortedFiles env display db now principal bucket folder sortColumn sortOrder) n m := by
  rw [listedPages, pages]
  congr 1
  funext k
  rw [listObjects, pageRequest, slice_natCast]
  rfl

/-! ## The content of a folder -/

theorem mem_folderNames {pre name : Text} {objs : List StorageObject} :
    name ∈ folderNames pre objs ↔
      '/' ∉ name ∧ ∃ o ∈ objs, ∃ rest, o.name.drop pre.length = name ++ '/' :: rest := by
  simp only [folderNames, nestedObjects, List.mem_dedup, List.mem_map, List.mem_filter,
    decide_eq_true_eq, and_assoc, partitionSlash_fst_eq]
  constructor
  · rintro ⟨o, ho, hname, hrest⟩
    exact ⟨hname, o, ho, hrest⟩
  · rintro ⟨hname, o, ho, hrest⟩
    exact ⟨o, ho, hname, hrest⟩

theorem folderNames_perm {pre : Text} {objs objs' : List StorageObject} (h : objs.Perm objs') :
    (folderNames pre objs).Perm (folderNames pre objs') :=
  ((h.filter _).map _).dedup

theorem listedObjects_perm :
    (listedObjects db now display principal bucket (prefixFilter folder) []).Perm
      ((db.objectsStartingWith bucket.id (prefixFilter folder)).filter fun o =>
        canAccessPath db now principal bucket o.name (some o.id) .read) := by
  rw [listedObjects_eq]
  exact (List.perm_insertionSort ..).filter _

theorem foundUnder_iff {o : StorageObject} {rest : Text} :
    FoundUnder db now principal bucket folder o rest ↔
      o ∈ listedObjects db now display principal bucket (prefixFilter folder) [] ∧
        o.name.drop (prefixFilter folder).length = rest := by
  rw [listedObjects_perm.mem_iff, List.mem_filter]
  constructor
  · rintro ⟨hfound, hrest, hreadable⟩
    exact ⟨⟨hfound, hreadable⟩, hrest⟩
  · rintro ⟨⟨hfound, hreadable⟩, hrest⟩
    exact ⟨hfound, hrest, hreadable⟩

theorem ReadableUnder.found {o : StorageObject} {rest : Text}
    (h : ReadableUnder db now principal bucket folder o rest) :
    FoundUnder db now principal bucket folder o rest where
  found := Database.mem_objectsStartingWith.mpr
    ⟨h.row, h.bucketId, .of_isPrefix _ (h.name ▸ List.prefix_append ..)⟩
  rest := by rw [restOf, h.name, List.drop_left]
  readable := h.readable

theorem FoundUnder.below {o : StorageObject} {rest : Text}
    (h : FoundUnder db now principal bucket folder o rest)
    (hname : prefixFilter folder <+: o.name) :
    ReadableUnder db now principal bucket folder o rest := by
  obtain ⟨hrow, hbucket, -⟩ := Database.mem_objectsStartingWith.mp h.found
  refine ⟨hrow, hbucket, ?_, h.readable⟩
  obtain ⟨tail, htail⟩ := hname
  have hrest : restOf folder o = tail := by rw [restOf, ← htail, List.drop_left]
  rw [← h.rest, hrest, htail]

theorem ListsOnce.exact_iff {entries : List ListEntry}
    (h : ListsOnce (FoundUnder db now principal bucket folder) entries) :
    ListsOnce (ReadableUnder db now principal bucket folder) entries ↔
      FindsOwn db now principal bucket folder := by
  constructor
  · intro hexact o rest ho hne hbeyond
    have hslash : '/' ∈ rest := by
      by_contra hslash
      obtain ⟨base, -, -, hbelow⟩ := (hexact.files o).mp ((h.files o).mpr ⟨rest, hne, hslash, ho⟩)
      exact hbeyond (hbelow.name ▸ List.prefix_append ..)
    obtain ⟨hfree, tail, hrest⟩ := partitionSlash_fst_eq.mp ⟨hslash, rfl⟩
    have hlisted := (h.folders (partitionSlash rest).1).mpr ⟨hfree, o, tail, hrest ▸ ho⟩
    exact ⟨hslash, ((hexact.folders _).mp hlisted).2⟩
  · intro hown
    refine ⟨fun name => ?_, h.foldersOnce, fun o => ?_, h.filesOnce⟩
    · rw [h.folders]
      refine and_congr_right fun hfree => ⟨?_, ?_⟩
      · rintro ⟨o, tail, ho⟩
        by_cases hname : prefixFilter folder <+: o.name
        · exact ⟨o, tail, ho.below hname⟩
        · obtain ⟨-, hcontent⟩ := hown o _ ho (by simp) hname
          rwa [(partitionSlash_fst_eq.mpr ⟨hfree, tail, rfl⟩).2] at hcontent
      · rintro ⟨o, tail, ho⟩
        exact ⟨o, tail, ho.found⟩
    · rw [h.files]
      refine exists_congr fun base => and_congr_right fun hne => and_congr_right fun hslash => ?_
      constructor
      · intro ho
        refine ho.below (of_not_not fun hname => ?_)
        exact hslash (hown o base ho hne hname).1
      · exact ReadableUnder.found

def folderEntry (bucket : Bucket) (pre : Text) (grants : List Grant) (objs : List StorageObject)
    (name : Text) : ListEntry :=
  .folder name
    (((nestedObjects pre objs).filter fun o => decide (partitionSlash (o.name.drop pre.length) =
      (name, folderPlaceholderName))).getLast?.map StorageObject.id)
    (pathAccessSummary bucket (stripSlash (pre ++ name)) none grants)

variable (display db now principal bucket folder) in
def listedFolder (name : Text) : ListEntry :=
  folderEntry bucket (prefixFilter folder) (activeGrants db now bucket.companyId)
    (listedObjects db now display principal bucket (prefixFilter folder) []) name

theorem sortedFolders_perm {order : List Text → List Text}
    (horder : ∀ texts, (order texts).Perm texts.dedup) :
    (sortedFolders env display db now principal bucket folder sortColumn sortOrder order).Perm
      ((childFolders db now principal bucket folder).map
        (listedFolder display db now principal bucket folder)) := by
  refine (sortByKey_perm ..).trans ?_
  exact List.Perm.map (listedFolder display db now principal bucket folder)
    ((horder _).trans (folderNames_perm listedObjects_perm))

theorem ListsOnce.of_perm {entries entries' : List ListEntry} (h : entries.Perm entries')
    {below : StorageObject → Text → Prop} (hlists : ListsOnce below entries) :
    ListsOnce below entries' where
  folders name := by rw [← (h.filterMap _).mem_iff, hlists.folders]
  foldersOnce := (h.filterMap _).nodup_iff.mp hlists.foldersOnce
  files o := by rw [← (h.filterMap _).mem_iff, hlists.files]
  filesOnce := (h.filterMap _).nodup_iff.mp hlists.filesOnce

theorem listsOnce_sorted {order : List Text → List Text}
    (horder : ∀ texts, (order texts).Perm texts.dedup) :
    ListsOnce (FoundUnder db now principal bucket folder)
      (sortedFolders env display db now principal bucket folder sortColumn sortOrder order ++
        sortedFiles env display db now principal bucket folder sortColumn sortOrder) := by
  set objs := listedObjects db now display principal bucket (prefixFilter folder) [] with hobjs
  refine ListsOnce.of_perm (List.Perm.symm ((sortedFolders_perm horder).append
    (sortByKey_perm ..))) ?_
  have hfolders : ((childFolders db now principal bucket folder).map
      (listedFolder display db now principal bucket folder)).filterMap ListEntry.folder? =
        childFolders db now principal bucket folder := by
    simp [List.filterMap_map, Function.comp_def, listedFolder, folderEntry, ListEntry.folder?]
  have hnone : ((childFolders db now principal bucket folder).map
      (listedFolder display db now principal bucket folder)).filterMap ListEntry.file? = [] := by
    simp [List.filterMap_map, Function.comp_def, listedFolder, folderEntry, ListEntry.file?]
  have hlisted : (listedObjects db now display principal bucket (prefixFilter folder) []).Perm
      _ := listedObjects_perm
  have hreadable : ∀ {o : StorageObject} {rest : Text},
      FoundUnder db now principal bucket folder o rest ↔
        o ∈ listedObjects db now display principal bucket (prefixFilter folder) [] ∧
          o.name.drop (prefixFilter folder).length = rest := foundUnder_iff
  constructor
  · intro name
    rw [List.filterMap_append, hfolders, filterMap_folder_fileEntries, List.append_nil,
      childFolders, (folderNames_perm hlisted.symm).mem_iff, mem_folderNames]
    simp only [hreadable]
    simp
  · rw [List.filterMap_append, hfolders, filterMap_folder_fileEntries, List.append_nil]
    exact List.nodup_dedup _
  · intro o
    rw [List.filterMap_append, hnone, filterMap_file_fileEntries, List.nil_append, directObjects,
      List.mem_filter, decide_eq_true_eq]
    simp only [hreadable]
    constructor
    · rintro ⟨ho, hne, hslash⟩
      exact ⟨_, hne, hslash, ho, rfl⟩
    · rintro ⟨base, hne, hslash, ho, rfl⟩
      exact ⟨ho, hne, hslash⟩
  · rw [List.filterMap_append, hnone, filterMap_file_fileEntries, List.nil_append]
    have hrows : db.objects.rows.Nodup := db.objectIds_nodup.of_map
    have hobjects : objs.Nodup := by
      rw [hobjs, listedObjects_perm.nodup_iff]
      exact (hrows.filter _).filter _
    exact hobjects.filter _

/-! ## Cuts between child folders -/

theorem cutsTie_sortedFolders {order : List Text → List Text}
    (horder : ∀ texts, (order texts).Perm texts.dedup) {j : Nat} :
    CutsTie (keyOrder (sortKey env display (sortColumnOf sortColumn))
        (decide (env.lower sortOrder = ['d', 'e', 's', 'c'])))
      (sortedFolders env display db now principal bucket folder sortColumn sortOrder order) j ↔
      CutsTie (folderBefore env sortColumn sortOrder)
        (childFolders db now principal bucket folder) j := by
  rw [cutsTie_perm (sortedFolders_perm horder), cutsTie_map]
  rfl

theorem pagesList_of_not_cutsTie {n : Nat} (hn : 0 < n)
    (h : ∀ k, ¬CutsTie (folderBefore env sortColumn sortOrder)
      (childFolders db now principal bucket folder) (k * n)) :
    PagesList env display db now principal bucket folder sortColumn sortOrder
      (FoundUnder db now principal bucket folder) n := by
  intro orders horders
  set files := sortedFiles env display db now principal bucket folder sortColumn sortOrder
  set folders := fun k =>
    sortedFolders env display db now principal bucket folder sortColumn sortOrder (orders k)
    with hfolders
  have hperm : ∀ k, (folders k).Perm (folders 0) := fun k =>
    (sortedFolders_perm (horders k)).trans (sortedFolders_perm (horders 0)).symm
  have htake : ∀ k m, ((folders k ++ files).take (m * n)).Perm
      ((folders 0 ++ files).take (m * n)) := by
    intro k m
    rw [List.take_append, List.take_append, (hperm k).length_eq]
    refine List.Perm.append_right _ ?_
    refine take_perm_of_not_cutsTie (sortByKey_sorted ..) (sortByKey_sorted ..) (hperm k) ?_
    exact fun hcut => h m ((cutsTie_sortedFolders (horders k)).mp hcut)
  refine ⟨(folders 0 ++ files).length, fun m hm => ?_⟩
  have hall : (folders 0 ++ files).take (m * n) = folders 0 ++ files :=
    List.take_of_length_le (hm.trans (Nat.le_mul_of_pos_right m hn))
  have hpages := pages_perm htake m
  rw [hall] at hpages
  rw [listedPages_eq]
  exact (listsOnce_sorted (horders 0)).of_perm hpages.symm

def orderAs (target texts : List Text) : List Text :=
  if target.Perm texts.dedup then target else texts.dedup

theorem orderAs_perm (target texts : List Text) : (orderAs target texts).Perm texts.dedup := by
  unfold orderAs
  split
  · assumption
  · rfl

theorem map_listedFolder_filterMap {entries : List ListEntry}
    (h : ∀ e ∈ entries, ∃ name, listedFolder display db now principal bucket folder name = e) :
    (entries.filterMap ListEntry.folder?).map
      (listedFolder display db now principal bucket folder) = entries := by
  induction entries with
  | nil => rfl
  | cons e entries ih =>
      rw [List.forall_mem_cons] at h
      obtain ⟨⟨name, rfl⟩, hrest⟩ := h
      have hname : ListEntry.folder? (listedFolder display db now principal bucket folder name) =
          some name := rfl
      rw [List.filterMap_cons_some hname, List.map_cons, ih hrest]

/-- Each sorting of the child folders is that of some enumeration of their set. -/
theorem sortedFolders_orderAs {entries : List ListEntry}
    (hsorted : entries.Pairwise (keyOrder (sortKey env display (sortColumnOf sortColumn))
      (decide (env.lower sortOrder = ['d', 'e', 's', 'c']))))
    (hperm : entries.Perm ((childFolders db now principal bucket folder).map
      (listedFolder display db now principal bucket folder))) :
    sortedFolders env display db now principal bucket folder sortColumn sortOrder
      (orderAs (entries.filterMap ListEntry.folder?)) = entries := by
  have hnames : (entries.filterMap ListEntry.folder?).Perm
      (childFolders db now principal bucket folder) := by
    refine (hperm.filterMap _).trans ?_
    simp [List.filterMap_map, Function.comp_def, listedFolder, folderEntry, ListEntry.folder?]
  have hentries : (entries.filterMap ListEntry.folder?).map
      (listedFolder display db now principal bucket folder) = entries := by
    refine map_listedFolder_filterMap fun e he => ?_
    obtain ⟨name, -, hname⟩ := List.mem_map.mp (hperm.mem_iff.mp he)
    exact ⟨name, hname⟩
  have horder : orderAs (entries.filterMap ListEntry.folder?)
      ((nestedObjects (prefixFilter folder)
        (listedObjects db now display principal bucket (prefixFilter folder) [])).map fun o =>
          (partitionSlash (o.name.drop (prefixFilter folder).length)).1) =
      entries.filterMap ListEntry.folder? :=
    if_pos (hnames.trans (folderNames_perm listedObjects_perm).symm)
  have hfolders : folderEntries
      { display with setOrder := orderAs (entries.filterMap ListEntry.folder?) } bucket
      (prefixFilter folder) (activeGrants db now bucket.companyId)
      (listedObjects db now display principal bucket (prefixFilter folder) []) = entries := by
    refine Eq.trans ?_ hentries
    exact congrArg (List.map (listedFolder display db now principal bucket folder)) horder
  rw [sortedFolders, hfolders, sortByKey_of_sorted hsorted]

/-- A page that ends between folders of the same key may repeat one. -/
theorem not_cutsTie_of_pagesList {n : Nat} (hn : 0 < n) {below : StorageObject → Text → Prop}
    (h : PagesList env display db now principal bucket folder sortColumn sortOrder below n)
    (k : Nat) :
    ¬CutsTie (folderBefore env sortColumn sortOrder)
      (childFolders db now principal bucket folder) (k * n) := by
  intro hcut
  have hdedup : ∀ texts : List Text, texts.dedup.Perm texts.dedup := fun _ => .refl _
  set files := sortedFiles env display db now principal bucket folder sortColumn sortOrder
  set folders :=
    sortedFolders env display db now principal bucket folder sortColumn sortOrder List.dedup
    with hfolders
  obtain ⟨folders', x, hperm, hsorted, hbefore, hafter⟩ := exists_repeated_of_cutsTie
    (sortByKey_sorted ..) ((cutsTie_sortedFolders hdedup).mpr hcut)
  rw [← sortedFolders, ← hfolders] at hperm hbefore
  have hlisted := hperm.trans (sortedFolders_perm hdedup)
  -- the pages up to the cut are made of `folders`, the others of `folders'`
  obtain ⟨enough, henough⟩ := h
    (fun i => if i < k then List.dedup else orderAs (folders'.filterMap ListEntry.folder?))
    (by
      intro i texts
      split
      · rfl
      · exact orderAs_perm ..)
  have hlists := henough (k + (enough + 1)) (by omega)
  rw [listedPages_eq, pages_of_changed
    (fun i hi => show _ = folders ++ files by rw [if_pos hi])
    (fun i hi => show _ = folders' ++ files by
      rw [if_neg (by omega), sortedFolders_orderAs hsorted hlisted])] at hlists
  have htwice : [x, x].Sublist ((folders ++ files).take (k * n) ++
      ((folders' ++ files).drop (k * n)).take ((enough + 1) * n)) :=
    sublist_of_changed hbefore hafter (Nat.mul_pos (Nat.succ_pos _) hn)
  obtain ⟨rest, hrest⟩ := List.head?_eq_some_iff.mp hafter
  obtain ⟨name, -, hname⟩ := List.mem_map.mp
    (hlisted.mem_iff.mp (List.mem_of_mem_drop (hrest ▸ List.mem_cons_self ..)))
  have hnames := htwice.filterMap ListEntry.folder?
  rw [← hname] at hnames
  exact (List.nodup_iff_sublist.mp hlists.foldersOnce name) hnames

/-- Where a query by prefix minds the case there is nothing else to find. -/
theorem findsOwn_of_postgresql (hengine : db.engine = .postgresql) :
    FindsOwn db now principal bucket folder := by
  intro o rest ho _ hbeyond
  obtain ⟨-, -, hfound⟩ := Database.mem_objectsStartingWith.mp ho.found
  rw [hengine, Engine.startsWith_postgresql] at hfound
  exact absurd hfound hbeyond

def twoFolders : World :=
  play (sampleEnv false)
    [.companyBucket 1,
      .upload (sampleUpload ['a', '/', 'x'] [97] 1),
      .upload (sampleUpload ['b', '/', 'x'] [98] 1)]
    .initial

end Pages

end StorageService.Results
