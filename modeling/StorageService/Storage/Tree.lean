import StorageService.Foundation.FileTree
import StorageService.Storage.Outcomes

/-!
# The storage as a tree of files

A client names a file by company, bucket and path.  What lies there is the blob
of the row with that name, and what the row says of it.  Each way in which an
operation changes rows and blobs is an event of the tree.
-/

namespace StorageService.Storage

open StorageService.Foundation

abbrev FileName := Nat × Text × Text

namespace Database

variable {db db' : Database} {o : StorageObject} {name : FileName}

def nameOf (db : Database) (o : StorageObject) : Option FileName :=
  (db.bucketById o.bucketId).map fun b => (b.companyId, b.name, o.name)

def objectAt (db : Database) (name : FileName) : Option StorageObject :=
  (db.bucketNamed name.1 name.2.1).bind fun b => db.objectNamed b.id name.2.2

theorem nameOf_of_mem {b : Bucket} (hb : b ∈ db.buckets.rows) (h : o.bucketId = b.id) :
    db.nameOf o = some (b.companyId, b.name, o.name) := by
  rw [nameOf, h, bucketById_of_mem hb, Option.map_some]

theorem nameOf_eq_some (ho : o ∈ db.objects.rows) : ∃ name, db.nameOf o = some name := by
  obtain ⟨b, hb, hid⟩ := db.objectBucket o ho
  exact ⟨_, nameOf_of_mem hb hid.symm⟩

theorem objectAt_of_bucket {b : Bucket} (hb : b ∈ db.buckets.rows) (path : Text) :
    db.objectAt (b.companyId, b.name, path) = db.objectNamed b.id path := by
  rw [objectAt, bucketNamed_eq_some.mpr ⟨hb, rfl, rfl⟩, Option.bind_some]

theorem objectAt_eq_some :
    db.objectAt name = some o ↔ o ∈ db.objects.rows ∧ db.nameOf o = some name := by
  constructor
  · intro h
    obtain ⟨b, hb, ho⟩ := Option.bind_eq_some_iff.mp h
    obtain ⟨hmem, hcompany, hname⟩ := bucketNamed_eq_some.mp hb
    obtain ⟨hrow, hbucketId, hpath⟩ := objectNamed_eq_some ho
    refine ⟨hrow, ?_⟩
    rw [nameOf_of_mem hmem hbucketId, hcompany, hname, hpath]
  · rintro ⟨ho, hname⟩
    obtain ⟨b, hb, hid⟩ := db.objectBucket o ho
    rw [nameOf_of_mem hb hid.symm, Option.some.injEq] at hname
    rw [← hname, objectAt_of_bucket hb, hid, objectNamed_of_mem ho]

theorem eq_of_nameOf {a : StorageObject} (ha : a ∈ db.objects.rows) (ho : o ∈ db.objects.rows)
    (h : db.nameOf a = db.nameOf o) : a = o := by
  obtain ⟨name, hname⟩ := nameOf_eq_some ho
  have hfound := objectAt_eq_some.mpr ⟨ha, h.trans hname⟩
  rw [objectAt_eq_some.mpr ⟨ho, hname⟩] at hfound
  exact (Option.some.inj hfound).symm

theorem nameOf_congr (h : db'.buckets = db.buckets) (o : StorageObject) :
    db'.nameOf o = db.nameOf o := by
  rw [nameOf, nameOf, bucketById, bucketById, h]

end Database

structure StoredFile where
  data : Bytes
  size : Nat
  mimeType : Text
  etag : Text
  deriving DecidableEq

def fileOf (o : StorageObject) (data : Bytes) : StoredFile := ⟨data, o.size, o.mimeType, o.etag⟩

def uploadedFile (env : Env) (path : Text) (contentType : Option Text) (data : Bytes) :
    StoredFile :=
  ⟨data, data.length, normalizeMimeType env contentType path, contentEtag env data⟩

/-- The filesystem backend keeps the old data under the new description. -/
def overwriteFile (env : Env) (old new : StoredFile) : StoredFile :=
  if env.s3Backend then new else { new with data := old.data }

def landed (env : Env) (old : Option StoredFile) (new : StoredFile) : StoredFile :=
  (old.map (overwriteFile env · new)).getD new

def contentOf (w : World) (o : StorageObject) : Option StoredFile :=
  (w.out.blobs.lookup o.storageKey).map (fileOf o)

def tree (w : World) : FileTree FileName StoredFile := fun name =>
  (w.db.objectAt name).bind (contentOf w)

def Backed (w : World) : Prop :=
  ∀ o ∈ w.db.objects.rows, w.out.blobs.lookup o.storageKey ≠ none

section Tree

variable {env : Env} {w s s' : World} {name : FileName} {data : Bytes} {o obj : StorageObject}
variable {file : StoredFile}

theorem contentOf_ne_none : contentOf w o ≠ none ↔ w.out.blobs.lookup o.storageKey ≠ none := by
  simp [contentOf]

theorem contentOf_congr (h : s'.out.blobs.lookup o.storageKey = s.out.blobs.lookup o.storageKey) :
    contentOf s' o = contentOf s o := by
  rw [contentOf, contentOf, h]

theorem contentOf_of_blobs (h : s'.out.blobs = s.out.blobs) (o : StorageObject) :
    contentOf s' o = contentOf s o :=
  contentOf_congr (by rw [h])

theorem contentOf_of_lookup (h : w.out.blobs.lookup o.storageKey = some data) :
    contentOf w o = some (fileOf o data) := by
  rw [contentOf, h, Option.map_some]

theorem tree_eq_some : tree w name = some file ↔
    ∃ o ∈ w.db.objects.rows, w.db.nameOf o = some name ∧ contentOf w o = some file := by
  simp only [tree, Option.bind_eq_some_iff, Database.objectAt_eq_some, and_assoc]

theorem tree_of_mem (ho : o ∈ w.db.objects.rows) (hname : w.db.nameOf o = some name) :
    tree w name = contentOf w o := by
  rw [tree, Database.objectAt_eq_some.mpr ⟨ho, hname⟩, Option.bind_some]

theorem Backed.tree_eq_none (hs : Backed w) :
    tree w name = none ↔ w.db.objectAt name = none := by
  constructor
  · intro h
    cases hfound : w.db.objectAt name with
    | none => rfl
    | some o =>
        obtain ⟨ho, hname⟩ := Database.objectAt_eq_some.mp hfound
        rw [tree_of_mem ho hname] at h
        exact absurd h (contentOf_ne_none.mpr (hs o ho))
  · intro h
    rw [tree, h, Option.bind_none]

theorem Backed.stored (hs : Backed w) (ho : o ∈ w.db.objects.rows) :
    ∃ data, w.out.blobs.lookup o.storageKey = some data :=
  Option.ne_none_iff_exists'.mp (hs o ho)

theorem Backed.content (hs : Backed w) (ho : o ∈ w.db.objects.rows) : contentOf w o ≠ none :=
  contentOf_ne_none.mpr (hs o ho)

theorem backed_initial (engine : Engine) : Backed (.initial engine) := by
  intro o ho
  cases ho

theorem tree_ext {t t' : FileTree FileName StoredFile}
    (h : ∀ name file, t name = some file ↔ t' name = some file) : t = t' := by
  funext name
  exact Option.ext (h name)

/-! ## Rows and blobs that stay -/

structure FilesKept (s s' : World) : Prop where
  objects : s'.db.objects = s.db.objects
  blobs : s'.out.blobs = s.out.blobs
  buckets : ∀ b ∈ s.db.buckets.rows, ∃ b' ∈ s'.db.buckets.rows,
    b'.id = b.id ∧ b'.companyId = b.companyId ∧ b'.name = b.name

theorem FilesKept.of_buckets (hbuckets : s'.db.buckets = s.db.buckets)
    (hobjects : s'.db.objects = s.db.objects) (hblobs : s'.out.blobs = s.out.blobs) :
    FilesKept s s' :=
  ⟨hobjects, hblobs, fun b hb => ⟨b, by rwa [hbuckets], rfl, rfl, rfl⟩⟩

theorem ContentKept.filesKept (h : ContentKept s s') : FilesKept s s' :=
  ⟨h.objects, h.blobs, h.kept⟩

theorem QuotasOnly.filesKept (h : QuotasOnly s s') : FilesKept s s' :=
  .of_buckets h.buckets h.objects h.blobs

theorem GrantAdded.filesKept {g : GrantRow} (h : GrantAdded g s s') : FilesKept s s' :=
  .of_buckets h.buckets h.objects h.blobs

theorem FilesKept.nameOf (h : FilesKept s s') (ho : o ∈ s.db.objects.rows) :
    s'.db.nameOf o = s.db.nameOf o := by
  obtain ⟨b, hb, hid⟩ := s.db.objectBucket o ho
  obtain ⟨b', hb', hid', hcompany, hname⟩ := h.buckets b hb
  rw [Database.nameOf_of_mem hb hid.symm, Database.nameOf_of_mem hb' (hid.symm.trans hid'.symm),
    hcompany, hname]

theorem tree_of_filesKept (h : FilesKept s s') : tree s' = tree s := by
  apply tree_ext
  intro name file
  simp only [tree_eq_some, h.objects, contentOf_of_blobs h.blobs]
  refine exists_congr fun o => and_congr_right fun ho => ?_
  rw [h.nameOf ho]

theorem Backed.of_filesKept (hs : Backed s) (h : FilesKept s s') : Backed s' := by
  intro o ho
  rw [h.objects] at ho
  rw [h.blobs]
  exact hs o ho

def BlobsStay (s s' : World) : Prop :=
  ∀ key data, s.out.blobs.lookup key = some data → s'.out.blobs.lookup key = some data

theorem blobsStay_lenient : Lenient BlobsStay where
  refl _ _ _ := id
  trans h h' key data := h' key data ∘ h key data
  rollback h := h
  fault _ _ _ _ := id

theorem BlobsStay.of_eq (h : s'.out.blobs = s.out.blobs) : BlobsStay s s' := by
  intro key data hkey
  rwa [h]

/-- What fails in a transaction and loses no blob leaves every file where it is. -/
theorem tree_of_blobsStay (hs : Backed s) (hdb : s'.db = s.db) (h : BlobsStay s s') :
    tree s' = tree s := by
  funext name
  rw [tree, tree, hdb]
  cases hfound : s.db.objectAt name with
  | none => rfl
  | some o =>
      obtain ⟨data, hdata⟩ := hs.stored (Database.objectAt_eq_some.mp hfound).1
      rw [Option.bind_some, Option.bind_some, contentOf_congr (by rw [hdata, h _ _ hdata])]

theorem Backed.of_blobsStay (hs : Backed s) (hdb : s'.db = s.db) (h : BlobsStay s s') :
    Backed s' := by
  intro o ho
  rw [hdb] at ho
  obtain ⟨data, hdata⟩ := hs.stored ho
  simp [h _ _ hdata]

/-! ## New content -/

theorem lookup_of_created (henv : env.Lawful) (hsound : Sound env s)
    (h : Created env s obj data s') : s'.out.blobs.lookup obj.storageKey = some data := by
  rw [h.blobs, Outside.lookup_save_self henv]
  have hfree : s.out.blobs.lookup obj.storageKey = none :=
    lookup_eq_none_of_drawn henv hsound (h.drawn ▸ h.owned)
  exact .inr fun old hold => by simp [hfree] at hold

theorem blobsStay_of_created (henv : env.Lawful) (hsound : Sound env s)
    (h : Created env s obj data s') : BlobsStay s s' := by
  intro key old hold
  have hfree : s.out.blobs.lookup obj.storageKey = none :=
    lookup_eq_none_of_drawn henv hsound (h.drawn ▸ h.owned)
  rw [h.blobs]
  refine Outside.lookup_save_of_stored henv hold (.inl ?_)
  rintro rfl
  rw [hold] at hfree
  contradiction

theorem tree_of_created (henv : env.Lawful) (hsound : Sound env s) (hs : Backed s)
    (h : Created env s obj data s') (hname : s.db.nameOf obj = some name) :
    tree s' = (tree s).after (.write name (fileOf obj data)) := by
  have hbuckets := h.buckets
  have hblob := lookup_of_created henv hsound h
  have hstay := blobsStay_of_created henv hsound h
  have hnew : obj ∈ s'.db.objects.rows := by
    rw [h.objects]
    simp
  have hname' : s'.db.nameOf obj = some name := (Database.nameOf_congr hbuckets obj).trans hname
  have hsame : ∀ {o : StorageObject}, o ∈ s.db.objects.rows → contentOf s' o = contentOf s o := by
    intro o ho
    obtain ⟨before, hbefore⟩ := hs.stored ho
    exact contentOf_congr (by rw [hstay _ _ hbefore, hbefore])
  funext other
  rw [FileTree.after]
  by_cases hother : other = name
  · subst hother
    rw [Function.update_self, tree_of_mem hnew hname', contentOf_of_lookup hblob]
  · rw [Function.update_of_ne hother]
    refine Option.ext fun old => ?_
    rw [tree_eq_some, tree_eq_some]
    constructor
    · rintro ⟨o, ho, hplace, hold⟩
      rw [Database.nameOf_congr hbuckets] at hplace
      rw [h.objects, List.mem_append, List.mem_singleton] at ho
      rcases ho with ho | rfl
      · exact ⟨o, ho, hplace, (hsame ho).symm.trans hold⟩
      · rw [hname, Option.some.injEq] at hplace
        exact absurd hplace.symm hother
    · rintro ⟨o, ho, hplace, hold⟩
      refine ⟨o, ?_, (Database.nameOf_congr hbuckets o).trans hplace, (hsame ho).trans hold⟩
      rw [h.objects]
      exact List.mem_append_left _ ho

theorem Backed.of_created (hs : Backed s) (henv : env.Lawful) (hsound : Sound env s)
    (h : Created env s obj data s') : Backed s' := by
  intro o ho
  rw [h.objects, List.mem_append, List.mem_singleton] at ho
  rcases ho with ho | rfl
  · obtain ⟨old, hold⟩ := hs.stored ho
    simp [blobsStay_of_created henv hsound h _ _ hold]
  · simp [lookup_of_created henv hsound h]

/-! ## Overwritten content -/

section Overwrote

variable {bucket : Bucket} {existing : StorageObject}

theorem lookup_of_overwrote (henv : env.Lawful) (hsound : Sound env s)
    (hexisting : existing ∈ s.db.objects.rows) (h : Overwrote env s bucket existing obj data s')
    (ho : o ∈ s.db.objects.rows) {old : Bytes} (hold : s.out.blobs.lookup o.storageKey = some old) :
    s'.out.blobs.lookup o.storageKey =
      some (if o = existing ∧ env.s3Backend = true then data else old) := by
  rw [h.blobs]
  by_cases heq : o = existing
  · subst heq
    by_cases hs3 : env.s3Backend = true
    · rw [if_pos ⟨rfl, hs3⟩, Outside.lookup_save_self henv]
      exact .inl hs3
    · rw [if_neg fun hboth => hs3 hboth.2]
      exact Outside.lookup_save_of_stored henv hold (.inr hs3)
  · rw [if_neg fun hboth => heq hboth.1]
    refine Outside.lookup_save_of_stored henv hold (.inl fun hkey => heq ?_)
    have howned := hsound.keys o ho
    rw [hkey] at howned
    exact Database.object_eq_of_id ho hexisting (howned.unique (hsound.keys existing hexisting))

theorem changed_of_overwrote (hexisting : existing ∈ s.db.objects.rows)
    (h : Overwrote env s bucket existing obj data s') (ho : o ∈ s.db.objects.rows) :
    (Database.changed existing.id (fun _ => obj) o).storageKey = o.storageKey ∧
      s'.db.nameOf (Database.changed existing.id (fun _ => obj) o) = s.db.nameOf o := by
  rw [Database.nameOf_congr h.buckets]
  by_cases hid : o.id = existing.id
  · obtain rfl := Database.object_eq_of_id ho hexisting hid
    obtain ⟨mimeType, ownerId, rfl⟩ := h.row
    simp [Database.changed, overwritten, Database.nameOf]
  · rw [Database.changed_of_ne hid]
    exact ⟨rfl, rfl⟩

theorem contentOf_of_overwrote_ne (henv : env.Lawful) (hsound : Sound env s) (hs : Backed s)
    (hexisting : existing ∈ s.db.objects.rows) (h : Overwrote env s bucket existing obj data s')
    (ho : o ∈ s.db.objects.rows) (hne : o ≠ existing) :
    contentOf s' (Database.changed existing.id (fun _ => obj) o) = contentOf s o := by
  have hid : o.id ≠ existing.id := fun hid => hne (Database.object_eq_of_id ho hexisting hid)
  obtain ⟨old, hold⟩ := hs.stored ho
  rw [Database.changed_of_ne hid]
  refine contentOf_congr ?_
  rw [lookup_of_overwrote henv hsound hexisting h ho hold, if_neg fun hboth => hne hboth.1, hold]

theorem contentOf_of_overwrote_self (henv : env.Lawful) (hsound : Sound env s)
    (hexisting : existing ∈ s.db.objects.rows) (h : Overwrote env s bucket existing obj data s')
    {old : StoredFile} (hold : contentOf s existing = some old) :
    contentOf s' obj = some (overwriteFile env old (fileOf obj data)) := by
  obtain ⟨before, hbefore, rfl⟩ := Option.map_eq_some_iff.mp hold
  have hkey : obj.storageKey = existing.storageKey := by
    obtain ⟨mimeType, ownerId, rfl⟩ := h.row
    rfl
  have hlookup := lookup_of_overwrote henv hsound hexisting h hexisting hbefore
  rw [contentOf, hkey, hlookup, Option.map_some, overwriteFile]
  by_cases hs3 : env.s3Backend = true
  · simp only [hs3, and_self, if_true]
  · simp only [hs3, and_false, if_false, Bool.false_eq_true, fileOf]

/-- S3 replaces the data, the filesystem backend only what is said of them. -/
theorem tree_of_overwrote (henv : env.Lawful) (hsound : Sound env s) (hs : Backed s)
    (hexisting : existing ∈ s.db.objects.rows) (h : Overwrote env s bucket existing obj data s')
    (hname : s.db.nameOf existing = some name) {old : StoredFile} (hold : tree s name = some old) :
    tree s' = (tree s).after (.write name (overwriteFile env old (fileOf obj data))) := by
  rw [tree_of_mem hexisting hname] at hold
  have hself : Database.changed existing.id (fun _ => obj) existing = obj := by
    obtain ⟨mimeType, ownerId, rfl⟩ := h.row
    simp [Database.changed, overwritten]
  have hcontent := contentOf_of_overwrote_self henv hsound hexisting h hold
  have hrow : ∀ {o : StorageObject}, o ∈ s.db.objects.rows →
      Database.changed existing.id (fun _ => obj) o ∈ s'.db.objects.rows := by
    intro o ho
    rw [h.objects]
    exact List.mem_map_of_mem ho
  have hplace : ∀ {o : StorageObject} {other : FileName}, o ∈ s.db.objects.rows →
      s.db.nameOf o = some other →
      s'.db.nameOf (Database.changed existing.id (fun _ => obj) o) = some other :=
    fun ho hother => (changed_of_overwrote hexisting h ho).2.trans hother
  funext other
  rw [FileTree.after]
  by_cases hother : other = name
  · subst hother
    have hplaced := hplace hexisting hname
    rw [hself] at hplaced
    rw [Function.update_self, tree_of_mem (hself ▸ hrow hexisting) hplaced, hcontent]
  · rw [Function.update_of_ne hother]
    cases hfound : s.db.objectAt other with
    | some o =>
        obtain ⟨ho, hat⟩ := Database.objectAt_eq_some.mp hfound
        have hne : o ≠ existing := by
          rintro rfl
          exact hother (Option.some.inj (hat.symm.trans hname))
        rw [tree_of_mem (hrow ho) (hplace ho hat), tree_of_mem ho hat]
        exact contentOf_of_overwrote_ne henv hsound hs hexisting h ho hne
    | none =>
        have hnone : s'.db.objectAt other = none := by
          refine Option.eq_none_iff_forall_ne_some.mpr fun o' ho' => ?_
          obtain ⟨hmem, hat⟩ := Database.objectAt_eq_some.mp ho'
          rw [h.objects] at hmem
          obtain ⟨o, ho, rfl⟩ := List.mem_map.mp hmem
          rw [(changed_of_overwrote hexisting h ho).2] at hat
          rw [Database.objectAt_eq_some.mpr ⟨ho, hat⟩] at hfound
          cases hfound
        rw [tree, tree, hnone, hfound]
        rfl

theorem Backed.of_overwrote (hs : Backed s) (henv : env.Lawful) (hsound : Sound env s)
    (hexisting : existing ∈ s.db.objects.rows) (h : Overwrote env s bucket existing obj data s') :
    Backed s' := by
  intro o' ho'
  rw [h.objects] at ho'
  obtain ⟨o, ho, rfl⟩ := List.mem_map.mp ho'
  obtain ⟨old, hold⟩ := hs.stored ho
  rw [(changed_of_overwrote hexisting h ho).1, lookup_of_overwrote henv hsound hexisting h ho hold]
  exact Option.some_ne_none _

end Overwrote

/-! ## Removed content -/

section Removed

variable {objs : List StorageObject}

theorem lookup_of_allRemoved (hsound : Sound env s) (hobjs : ∀ obj ∈ objs, obj ∈ s.db.objects.rows)
    (h : AllRemoved s objs s') (ho : o ∈ s'.db.objects.rows) :
    s'.out.blobs.lookup o.storageKey = s.out.blobs.lookup o.storageKey := by
  obtain ⟨hbefore, hkept⟩ := (h.objects o).mp ho
  rw [h.blobs, if_neg]
  rintro ⟨obj, hobj, hkey⟩
  have howned := hsound.keys obj (hobjs obj hobj)
  rw [hkey] at howned
  exact hkept obj hobj ((hsound.keys o hbefore).unique howned)

theorem tree_of_allRemoved (hsound : Sound env s) (hobjs : ∀ obj ∈ objs, obj ∈ s.db.objects.rows)
    (h : AllRemoved s objs s') {gone : FileName → Prop} [DecidablePred gone]
    (hgone : ∀ other, gone other ↔ ∃ obj ∈ objs, s.db.nameOf obj = some other) :
    tree s' = (tree s).after (.rearrange (FileTree.erased gone)) := by
  apply tree_ext
  intro other content
  simp only [FileTree.after, FileTree.erased]
  by_cases hother : gone other
  · rw [if_pos hother, Option.bind_none]
    refine iff_of_false (fun hcontent => ?_) (by simp)
    obtain ⟨o, ho, hname, -⟩ := tree_eq_some.mp hcontent
    obtain ⟨obj, hobj, hname'⟩ := (hgone other).mp hother
    obtain ⟨hbefore, hkept⟩ := (h.objects o).mp ho
    rw [Database.nameOf_congr h.buckets] at hname
    exact hkept obj hobj (congrArg StorageObject.id
      (Database.eq_of_nameOf hbefore (hobjs obj hobj) (hname.trans hname'.symm)))
  · rw [if_neg hother, Option.bind_some, tree_eq_some, tree_eq_some]
    constructor
    · rintro ⟨o, ho, hname, hcontent⟩
      rw [contentOf_congr (lookup_of_allRemoved hsound hobjs h ho)] at hcontent
      rw [Database.nameOf_congr h.buckets] at hname
      exact ⟨o, ((h.objects o).mp ho).1, hname, hcontent⟩
    · rintro ⟨o, ho, hname, hcontent⟩
      have hkept : o ∈ s'.db.objects.rows := by
        refine (h.objects o).mpr ⟨ho, fun obj hobj hid => hother ((hgone other).mpr ?_)⟩
        obtain rfl := Database.object_eq_of_id ho (hobjs obj hobj) hid
        exact ⟨o, hobj, hname⟩
      refine ⟨o, hkept, (Database.nameOf_congr h.buckets o).trans hname, ?_⟩
      rw [contentOf_congr (lookup_of_allRemoved hsound hobjs h hkept), hcontent]

theorem Backed.of_allRemoved (hs : Backed s) (hsound : Sound env s)
    (hobjs : ∀ obj ∈ objs, obj ∈ s.db.objects.rows) (h : AllRemoved s objs s') : Backed s' := by
  intro o ho
  rw [lookup_of_allRemoved hsound hobjs h ho]
  exact hs o ((h.objects o).mp ho).1

end Removed

/-! ## Content at another name -/

theorem SameContent.contentOf {o' : StorageObject} (h : SameContent o o')
    (hblobs : s'.out.blobs = s.out.blobs) : contentOf s' o' = contentOf s o := by
  have hfile : fileOf o' = fileOf o := by
    funext data
    rw [fileOf, fileOf, h.size, h.mimeType, h.etag]
  rw [StorageService.Storage.contentOf, StorageService.Storage.contentOf, h.storageKey, hblobs,
    hfile]

theorem tree_of_rewrote {f : StorageObject → StorageObject} (hf : ∀ o, SameContent o (f o))
    (h : Rewrote f s s') {source : FileName → Option FileName}
    (hsource : ∀ o ∈ s.db.objects.rows, ∀ other,
      s'.db.nameOf (f o) = some other ↔ source other = s.db.nameOf o) :
    tree s' = (tree s).after (.rearrange source) := by
  apply tree_ext
  intro other content
  rw [tree_eq_some, h.objects, FileTree.after, Option.bind_eq_some_iff]
  constructor
  · rintro ⟨_, ho', hname, hcontent⟩
    obtain ⟨o, ho, rfl⟩ := List.mem_map.mp ho'
    obtain ⟨old, hold⟩ := Database.nameOf_eq_some ho
    refine ⟨old, ((hsource o ho other).mp hname).trans hold, tree_eq_some.mpr ⟨o, ho, hold, ?_⟩⟩
    rwa [(hf o).contentOf h.blobs] at hcontent
  · rintro ⟨old, hold, hcontent⟩
    obtain ⟨o, ho, hname, hcontent⟩ := tree_eq_some.mp hcontent
    refine ⟨f o, List.mem_map_of_mem ho, (hsource o ho other).mpr (hold.trans hname.symm), ?_⟩
    rwa [(hf o).contentOf h.blobs]

theorem Backed.of_rewrote (hs : Backed s) {f : StorageObject → StorageObject}
    (hf : ∀ o, SameContent o (f o)) (h : Rewrote f s s') : Backed s' := by
  intro o' ho'
  rw [h.objects] at ho'
  obtain ⟨o, ho, rfl⟩ := List.mem_map.mp ho'
  rw [(hf o).storageKey, h.blobs]
  exact hs o ho

/-! ## What an operation does to the tree -/

structure Replays (s s' : World) (events : List (FileEvent FileName StoredFile)) : Prop where
  tree : tree s' = (tree s).replay events
  backed : Backed s'

theorem Replays.of_filesKept (hs : Backed s) (h : FilesKept s s') : Replays s s' [] :=
  ⟨tree_of_filesKept h, hs.of_filesKept h⟩

theorem Replays.refl (hs : Backed s) : Replays s s [] :=
  .of_filesKept hs (.of_buckets rfl rfl rfl)

theorem Replays.of_blobsStay (hs : Backed s) (hdb : s'.db = s.db) (h : BlobsStay s s') :
    Replays s s' [] :=
  ⟨tree_of_blobsStay hs hdb h, hs.of_blobsStay hdb h⟩

theorem Replays.trans {s₁ : World} {events events' : List (FileEvent FileName StoredFile)}
    (h : Replays s s₁ events) (h' : Replays s₁ s' events') :
    Replays s s' (events ++ events') :=
  ⟨by rw [h'.tree, h.tree, FileTree.replay_append], h'.backed⟩

theorem Replays.after_kept {s₁ : World} {events : List (FileEvent FileName StoredFile)}
    (hs : Backed s) (hkept : FilesKept s s₁) (h : Replays s₁ s' events) : Replays s s' events :=
  (Replays.of_filesKept hs hkept).trans h

theorem Replays.before_kept {s₁ : World} {events : List (FileEvent FileName StoredFile)}
    (h : Replays s s₁ events) (hkept : FilesKept s₁ s') : Replays s s' events := by
  have hboth := h.trans (.of_filesKept h.backed hkept)
  rwa [List.append_nil] at hboth

theorem Replays.of_created (henv : env.Lawful) (hsound : Sound env s) (hs : Backed s)
    {bucket : Bucket} (hbucket : bucket ∈ s.db.buckets.rows) (h : Created env s obj data s')
    (hplace : obj.bucketId = bucket.id) :
    Replays s s' [.write (bucket.companyId, bucket.name, obj.name) (fileOf obj data)] :=
  ⟨tree_of_created henv hsound hs h (Database.nameOf_of_mem hbucket hplace),
    hs.of_created henv hsound h⟩

theorem Replays.of_allRemoved (hsound : Sound env s) (hs : Backed s) {objs : List StorageObject}
    (hobjs : ∀ obj ∈ objs, obj ∈ s.db.objects.rows) (h : AllRemoved s objs s')
    {gone : FileName → Prop} [DecidablePred gone]
    (hgone : ∀ other, gone other ↔ ∃ obj ∈ objs, s.db.nameOf obj = some other) :
    Replays s s' [.rearrange (FileTree.erased gone)] :=
  ⟨tree_of_allRemoved hsound hobjs h hgone, hs.of_allRemoved hsound hobjs h⟩

/-- What an upload does to the tree. -/
theorem uploadObject_replays (henv : env.Lawful) (hsound : Sound env s) (hs : Backed s)
    {bucket : Bucket} (hbucket : bucket ∈ s.db.buckets.rows) {path : Text}
    {ownerId : Option Nat} {contentType : Option Text} {upsert : Bool}
    (h : (uploadObject env bucket path data ownerId contentType upsert).Runs s obj s') :
    ∃ pathName, safeObjectPath path = .ok pathName ∧
      Replays s s' [.write (bucket.companyId, bucket.name, pathName)
        (landed env (tree s (bucket.companyId, bucket.name, pathName))
          (uploadedFile env pathName contentType data))] := by
  obtain ⟨pathName, hpath, hcases⟩ := uploadObject_cases h
  have hfile : fileOf obj data = uploadedFile env pathName contentType data := by
    obtain ⟨hsize, hetag, hmime⟩ := uploadObject_describes h hpath
    rw [fileOf, hsize, hetag, hmime, uploadedFile]
  refine ⟨pathName, hpath, ?_⟩
  rcases hcases with ⟨existing, hexisting, h⟩ | ⟨hnone, h, hplace, hname, -⟩
  · obtain ⟨hmem, hplace, hname⟩ := Database.objectNamed_eq_some hexisting
    have hat : s.db.nameOf existing = some (bucket.companyId, bucket.name, pathName) := by
      rw [Database.nameOf_of_mem hbucket hplace, hname]
    obtain ⟨old, hold⟩ := Option.ne_none_iff_exists'.mp (hs.content hmem)
    rw [← tree_of_mem hmem hat] at hold
    refine ⟨?_, hs.of_overwrote henv hsound hmem h⟩
    rw [tree_of_overwrote henv hsound hs hmem h hat hold, hfile, hold]
    rfl
  · have hfree : tree s (bucket.companyId, bucket.name, pathName) = none := by
      rw [hs.tree_eq_none, Database.objectAt_of_bucket hbucket, hnone]
    rw [hfree, ← hfile, ← hname]
    exact .of_created henv hsound hs hbucket h hplace

theorem copyObject_replays (henv : env.Lawful) (hsound : Sound env s) (hs : Backed s)
    {bucket destBucket : Bucket} (hbucket : bucket ∈ s.db.buckets.rows)
    (hdest : destBucket ∈ s.db.buckets.rows) {source dest : Text} {ownerId : Option Nat}
    (h : (copyObject env bucket source destBucket dest ownerId).Runs s obj s') :
    ∃ sourceName destName, safeObjectPath source = .ok sourceName ∧
      safeObjectPath dest = .ok destName ∧
      tree s (bucket.companyId, bucket.name, sourceName) ≠ none ∧
      tree s (destBucket.companyId, destBucket.name, destName) = none ∧
      bucket.companyId = destBucket.companyId ∧
      Replays s s' [.rearrange (FileTree.copied (bucket.companyId, bucket.name, sourceName)
        (destBucket.companyId, destBucket.name, destName))] := by
  obtain ⟨-, -, -, -, -, -, -, -, -, hcompany, -⟩ := runs_copyObject h
  obtain ⟨sourceName, destName, src, content, hsource, hdestName, hsrc, hfree, hdata, hcreated,
    hplace, hname, -, hdescribed⟩ := copyObject_created h
  obtain ⟨hmem, hsrcPlace, hsrcName⟩ := Database.objectNamed_eq_some hsrc
  have hfile : fileOf src content = fileOf obj content := by
    obtain ⟨hsize, hetag, hmime⟩ := hdescribed
    rw [fileOf, fileOf, hsize, hetag, hmime]
  have hat : tree s (bucket.companyId, bucket.name, sourceName) = some (fileOf obj content) := by
    rw [tree_of_mem hmem (hsrcName ▸ Database.nameOf_of_mem hbucket hsrcPlace),
      contentOf_of_lookup hdata, hfile]
  have hnone : tree s (destBucket.companyId, destBucket.name, destName) = none := by
    rw [hs.tree_eq_none, Database.objectAt_of_bucket hdest, hfree]
  have hreplays := Replays.of_created henv hsound hs hdest hcreated hplace
  refine ⟨sourceName, destName, hsource, hdestName, by simp [hat], hnone, hcompany, ?_,
    hreplays.backed⟩
  rw [hreplays.tree, hname]
  funext other
  simp only [FileTree.replay_cons, FileTree.replay_nil, FileTree.after, FileTree.copied]
  by_cases hother : other = (destBucket.companyId, destBucket.name, destName)
  · rw [hother, Function.update_self, Function.update_self, Option.bind_some, hat]
  · rw [Function.update_of_ne hother, Function.update_of_ne hother, Option.bind_some]

theorem moveObject_replays (hs : Backed s) {bucket destBucket : Bucket}
    (hbucket : bucket ∈ s.db.buckets.rows) (hdest : destBucket ∈ s.db.buckets.rows)
    {source dest : Text} (h : (moveObject bucket source destBucket dest).Runs s obj s') :
    ∃ sourceName destName, safeObjectPath source = .ok sourceName ∧
      safeObjectPath dest = .ok destName ∧
      tree s (bucket.companyId, bucket.name, sourceName) ≠ none ∧
      tree s (destBucket.companyId, destBucket.name, destName) = none ∧
      bucket.companyId = destBucket.companyId ∧
      Replays s s' [.rearrange (FileTree.moved (bucket.companyId, bucket.name, sourceName)
        (destBucket.companyId, destBucket.name, destName))] := by
  obtain ⟨sourceName, destName, o, hsource, hdestName, ho, hfree, -, hrewrote, hgrants⟩ :=
    moveObject_rewrote h
  obtain ⟨hmem, hplace, hname⟩ := Database.objectNamed_eq_some ho
  set from' : FileName := (bucket.companyId, bucket.name, sourceName) with hfrom
  set to' : FileName := (destBucket.companyId, destBucket.name, destName) with hto
  have hat : s.db.nameOf o = some from' := by
    rw [Database.nameOf_of_mem hbucket hplace, hname]
  have hfound : tree s from' ≠ none := by
    rw [tree_of_mem hmem hat]
    exact hs.content hmem
  have hnone : tree s to' = none := by
    rw [hs.tree_eq_none, Database.objectAt_of_bucket hdest, hfree]
  have hcompany : bucket.companyId = destBucket.companyId := by
    rcases hgrants with ⟨hsame, -⟩ | ⟨-, hcompany, -⟩
    · rw [Database.bucket_eq_of_id hbucket hdest hsame]
    · exact hcompany
  have hne : from' ≠ to' := by
    intro heq
    rw [heq] at hfound
    exact hfound hnone
  have hsame : ∀ x, SameContent x
      (Database.changed o.id (relocated destBucket.id destName s.out.now) x) :=
    sameContent_changed (sameContent_relocated destBucket.id destName s.out.now)
  refine ⟨sourceName, destName, hsource, hdestName, hfound, hnone, hcompany, ?_,
    hs.of_rewrote hsame hrewrote⟩
  refine tree_of_rewrote hsame hrewrote fun x hx other => ?_
  rw [Database.nameOf_congr hrewrote.buckets]
  by_cases hid : x.id = o.id
  · obtain rfl := Database.object_eq_of_id hx hmem hid
    have hmoved : s.db.nameOf (Database.changed x.id
        (relocated destBucket.id destName s.out.now) x) = some to' := by
      rw [Database.nameOf_of_mem hdest (by simp [Database.changed, relocated])]
      simp [Database.changed, relocated, hto]
    rw [hmoved, hat, Option.some.injEq, FileTree.moved]
    by_cases hother : other = to'
    · rw [hother, Function.update_self]
      exact iff_of_true rfl rfl
    · rw [Function.update_of_ne hother]
      by_cases hfrom' : other = from'
      · rw [hfrom', Function.update_self]
        exact iff_of_false hne.symm (by simp)
      · rw [Function.update_of_ne hfrom', Option.some.injEq]
        exact iff_of_false (Ne.symm hother) hfrom'
  · obtain ⟨old, hold⟩ := Database.nameOf_eq_some hx
    have hfrom' : old ≠ from' := by
      rintro rfl
      exact hid (congrArg StorageObject.id (Database.eq_of_nameOf hx hmem (hold.trans hat.symm)))
    have hto' : old ≠ to' := by
      rintro rfl
      rw [tree_of_mem hx hold] at hnone
      exact hs.content hx hnone
    rw [Database.changed_of_ne hid, hold, Option.some.injEq, FileTree.moved]
    by_cases hother : other = to'
    · rw [hother, Function.update_self, Option.some.injEq]
      exact iff_of_false hto' hfrom'.symm
    · rw [Function.update_of_ne hother]
      by_cases hother' : other = from'
      · rw [hother', Function.update_self]
        exact iff_of_false hfrom' (by simp)
      · rw [Function.update_of_ne hother', Option.some.injEq, eq_comm]

end Tree

end StorageService.Storage
