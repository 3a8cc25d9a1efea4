import StorageService.Results.FolderDeletion
import StorageService.Storage.Failures
import StorageService.Webdav.Files

/-!
# WebDAV requests as requests about a tree

What a request asks of the tree of files is read off its paths.  Each handler
replies as a server of that tree may, and what it does to rows and blobs are the
events of its reply.
-/

namespace StorageService.Webdav

open StorageService.Foundation
open StorageService.Foundation.Action
open StorageService.Storage
open StorageService.Results

/-! ## What a request asks and what its answer says -/

def fileAt (env : Env) (companyId : Option Nat) (path : Text) : Option FileName :=
  let (bucketName, objectPath) := parsePath env path
  match companyId, safeObjectPath objectPath with
  | some companyId, .ok name =>
      if bucketName = [] then none else some (companyId, bucketName, name)
  | _, _ => none

def placeAt (env : Env) (companyId : Option Nat) (path : Text) : Option FileName :=
  let (bucketName, objectPath) := parsePath env path
  if objectPath = [] then
    if bucketName = [] then none else companyId.map fun companyId => (companyId, bucketName, [])
  else fileAt env companyId path

def filesOf (env : Env) (companyId : Option Nat) (path destination : Text) :
    Option (FileName × FileName) :=
  match fileAt env companyId path,
      (destinationDavPath env destination).bind (fileAt env companyId) with
  | some source, some dest => some (source, dest)
  | _, _ => none

def DavRequest.asks (env : Env) (companyId : Option Nat) :
    DavRequest → Option (FileRequest FileName StoredFile)
  | .propfind path _ => (placeAt env companyId path).map .find
  | .get path => (fileAt env companyId path).map .read
  | .head path => (fileAt env companyId path).map .probe
  | .put path contentType body => (fileAt env companyId path).map fun file =>
      .write file (uploadedFile env file.2.2 contentType body)
  | .delete path => (fileAt env companyId path).map .remove
  | .mkcol path => (fileAt env companyId path).map .makeFolder
  | .move path destination =>
      (filesOf env companyId path destination).map fun files => .move files.1 files.2
  | .copy path destination =>
      (filesOf env companyId path destination).map fun files => .copy files.1 files.2

def DavItem.shown (companyId : Nat) : DavItem → FileItem FileName FileHeaders
  | .collection bucket path _ => .folder (companyId, bucket, path)
  | .object bucket obj =>
      .file (companyId, bucket, obj.name) ⟨obj.mimeType, obj.size, etagHeader obj, none⟩

abbrev DavReply := FileReply FileName FileHeaders (FileHeaders × Bytes)

def reply (companyId : Nat) : Except Failure DavAnswer → DavReply
  | .ok (.file headers data) => .content (headers, data)
  | .ok (.head headers) => .described headers
  | .ok (.multistatus items) => .listing (items.map (DavItem.shown companyId))
  | .ok .created => .created
  | .ok .noContent => .done
  | .ok (.error status _) =>
      if status = 404 then .missing else if status = 405 then .taken else .refused
  | .error _ => .refused

/--
A folder is what a query by prefix finds, its marker is empty, and a file is told of
as its row has it.
-/
def fileServer (env : Env) : FileServer FileName StoredFile FileHeaders (FileHeaders × Bytes) where
  below folder name := name.1 = folder.1 ∧ name.2.1 = folder.2.1 ∧
    env.engine.StartsWith (prefixFilter folder.2.2) name.2.2
  child folder name := name.1 = folder.1 ∧ name.2.1 = folder.2.1 ∧ ∃ base, '/' ∉ base ∧
    name.2.2.map env.engine.fold =
      (stripSlash (prefixFilter folder.2.2 ++ base)).map env.engine.fold
  root folder := folder.2.2 = []
  marker folder := (folder.1, folder.2.1, folder.2.2 ++ placeholderSuffix)
  placeholder folder := uploadedFile env (folder.2.2 ++ placeholderSuffix) (some octetStream) []
  overwrite := overwriteFile env
  describe _ file :=
    ⟨file.mimeType, file.size, if file.etag = [] then none else some file.etag, none⟩
  present name file :=
    (⟨if file.mimeType ≠ [] then file.mimeType else (env.guessType name.2.2).getD octetStream,
      file.size, if file.etag = [] then none else some file.etag, some (basename name.2.2)⟩,
      file.data)

def Answers (env : Env) (t : FileTree FileName StoredFile)
    (asked : Option (FileRequest FileName StoredFile)) (result : Except Failure DavAnswer)
    (events : List (FileEvent FileName StoredFile)) : Prop :=
  match asked with
  | none => events = [] ∧ ∀ companyId, (reply companyId result).Silent
  | some asked => Serves (fileServer env) t asked (reply asked.name.1 result) events

/-- The request was answered rightly, and what happened are the events of the answer. -/
def Served (env : Env) (asked : Option (FileRequest FileName StoredFile)) (s : World)
    (result : Except Failure DavAnswer) (s' : World) : Prop :=
  ∃ events, Replays s s' events ∧ Answers env (tree s) asked result events

def ServedBy {γ : Type} (answer : γ → DavAnswer) (env : Env)
    (asked : Option (FileRequest FileName StoredFile)) (s : World) (result : Except Failure γ)
    (s' : World) : Prop :=
  Served env asked s (result.map answer) s'

/-- A state in which requests run as they should: every row has its blob and no fault is due. -/
structure Ready (env : Env) (s : World) : Prop where
  sound : Sound env s
  backed : Backed s
  quiet : s.out.fault = none

section Requests

variable {env : Env} {display : Display} {s s₁ s' : World} {principal : StoragePrincipal}
variable {bucket : Bucket} {path name : Text} {asked : Option (FileRequest FileName StoredFile)}
variable {result : Except Failure DavAnswer} {α γ : Type} {answer : γ → DavAnswer}
variable {f : α → Act γ}

/-! ## Names of files -/

theorem fileAt_eq_none (h : (parsePath env path).1 = [] ∨ (parsePath env path).2 = [])
    (companyId : Option Nat) : fileAt env companyId path = none := by
  simp only [fileAt]
  split
  · rename_i hname
    rcases h with h | h
    · exact if_pos h
    · rw [h] at hname
      cases hname
  · rfl

theorem fileAt_company {companyId : Option Nat} {file : FileName}
    (h : fileAt env companyId path = some file) : companyId = some file.1 := by
  simp only [fileAt] at h
  split at h
  · split at h
    · contradiction
    · cases h
      rfl
  · contradiction

/-! ## Served requests -/

theorem served_refused (h : Replays s s' [])
    (hreply : ∀ companyId, reply companyId result = .refused) :
    Served env asked s result s' := by
  refine ⟨[], h, ?_⟩
  cases asked with
  | none => exact ⟨rfl, fun companyId => by simp [hreply, FileReply.Silent]⟩
  | some asked =>
      rw [Answers, hreply]
      exact .refused asked

theorem served_none (h : Replays s s' [])
    (hreply : ∀ companyId, (reply companyId result).Silent) :
    Served env none s result s' :=
  ⟨[], h, rfl, hreply⟩

theorem ends_refused (hs : Backed s) {a : γ}
    (hreply : ∀ companyId, reply companyId (.ok (answer a)) = .refused) :
    Ends (ServedBy answer env asked s) (pure a) s :=
  served_refused (.refl hs) hreply

theorem Served.after_kept (hs : Backed s) (hkept : FilesKept s s₁)
    (h : Served env asked s₁ result s') : Served env asked s result s' := by
  obtain ⟨events, hreplays, hserves⟩ := h
  rw [tree_of_filesKept hkept] at hserves
  exact ⟨events, hreplays.after_kept hs hkept, hserves⟩

def Unchanged (s s' : World) : Prop := s' = s

theorem unchanged_composable : Composable Unchanged where
  refl _ := rfl
  trans h h' := Eq.trans h' h
  rollback h := by
    cases h
    rfl

theorem ends_look {x : Act α} (hs : Backed s) (hx : x.Within Unchanged)
    (hrest : ∀ a, x.Runs s a s → Ends (ServedBy answer env asked s) (f a) s) :
    Ends (ServedBy answer env asked s) (x >>= f) s := by
  refine ends_bind (fun e s' hfail => ?_) fun a s₁ hrun => ?_
  · obtain rfl : s' = s := hx.fails hfail
    exact served_refused (.refl hs) fun _ => rfl
  · obtain rfl : s₁ = s := hx.runs hrun
    exact hrest a hrun

theorem ends_ofExcept {r : Except Failure α} (hs : Backed s)
    (hrest : ∀ a, r = .ok a → Ends (ServedBy answer env asked s) (f a) s) :
    Ends (ServedBy answer env asked s) (ofExcept r >>= f) s :=
  ends_look hs (Within.ofExcept unchanged_composable r) fun a hrun =>
    hrest a (runs_ofExcept.mp hrun).1

theorem getAccessibleBucket_filesKept (name : Text) (required : Permission) :
    (getAccessibleBucket env principal name required).Within FilesKept :=
  (getAccessibleBucket_within contentKept_lenient.toComposable
    (fun _ _ => (ensureCompanyBucket_bucketsOnly env _).mono BucketsOnly.toContentKept) name
    required).mono ContentKept.filesKept

theorem ready_of_bucket {required : Permission} (hs : Ready env s)
    (h : (getAccessibleBucket env principal name required).Runs s bucket s₁) : Ready env s₁ where
  sound := (Keeps.of_contentKept
    (getAccessibleBucket_resolved h).bucketsOnly.toContentKept).sound hs.sound
  backed := hs.backed.of_filesKept ((getAccessibleBucket_filesKept name required).runs h)
  quiet := getAccessibleBucket_fault h hs.quiet

theorem ends_getAccessibleBucket {required : Permission} {f : Bucket → Act γ} (hs : Ready env s)
    (hrest : ∀ bucket s₁, Resolved principal name required bucket s s₁ → Ready env s₁ →
      Ends (ServedBy answer env asked s₁) (f bucket) s₁) :
    Ends (ServedBy answer env asked s) (getAccessibleBucket env principal name required >>= f)
      s := by
  have hkept : (getAccessibleBucket env principal name required).Within FilesKept :=
    getAccessibleBucket_filesKept name required
  refine ends_bind (fun e s' hfail => ?_) fun bucket s₁ hrun => ?_
  · exact served_refused (.of_filesKept hs.backed (hkept.fails hfail)) fun _ => rfl
  · exact Served.after_kept hs.backed (hkept.runs hrun)
      (hrest bucket s₁ (getAccessibleBucket_resolved hrun) (ready_of_bucket hs hrun))

theorem requireCompanyId_unchanged : (requireCompanyId principal).Within Unchanged :=
  Within.ofOption unchanged_composable _ _

/-! ## Rows and files -/

theorem tree_eq_none_iff (hs : Backed s) (hbucket : bucket ∈ s.db.buckets.rows) :
    tree s (bucket.companyId, bucket.name, name) = none ↔
      s.db.objectNamed bucket.id name = none := by
  rw [hs.tree_eq_none, Database.objectAt_of_bucket hbucket]

theorem tree_of_objectNamed (hbucket : bucket ∈ s.db.buckets.rows) {obj : StorageObject}
    (hfound : s.db.objectNamed bucket.id name = some obj) :
    tree s (bucket.companyId, bucket.name, name) = contentOf s obj := by
  rw [tree, Database.objectAt_of_bucket hbucket, hfound, Option.bind_some]

theorem exists_below (hs : Ready env s) (hbucket : bucket ∈ s.db.buckets.rows)
    {o : StorageObject} (ho : o ∈ objectsUnderPrefix s.db bucket name) :
    ∃ other, (fileServer env).below (bucket.companyId, bucket.name, name) other ∧
      tree s other ≠ none := by
  obtain ⟨hmem, hplace, hfound⟩ := Database.mem_objectsStartingWith.mp ho
  rw [hs.sound.engine] at hfound
  refine ⟨(bucket.companyId, bucket.name, o.name), ⟨rfl, rfl, hfound⟩, ?_⟩
  rw [tree_of_mem hmem (Database.nameOf_of_mem hbucket hplace)]
  exact hs.backed.content hmem

theorem none_below (hs : Ready env s) (hbucket : bucket ∈ s.db.buckets.rows)
    (hnone : objectsUnderPrefix s.db bucket name = []) (other : FileName)
    (hbelow : (fileServer env).below (bucket.companyId, bucket.name, name) other) :
    tree s other = none := by
  obtain ⟨company, bucketName, path⟩ := other
  obtain ⟨rfl, rfl, hprefix⟩ := hbelow
  rw [tree, Database.objectAt_of_bucket hbucket]
  cases hfound : s.db.objectNamed bucket.id path with
  | none => rfl
  | some o =>
      obtain ⟨hmem, hplace, rfl⟩ := Database.objectNamed_eq_some hfound
      have ho : o ∈ objectsUnderPrefix s.db bucket name :=
        Database.mem_objectsStartingWith.mpr ⟨hmem, hplace, hs.sound.engine ▸ hprefix⟩
      rw [hnone] at ho
      cases ho

theorem fileAt_of_resolved {bucketName objectPath : Text} {required : Permission}
    (hpath : parsePath env path = (bucketName, objectPath)) (hempty : bucketName ≠ [])
    (hresolved : Resolved principal bucketName required bucket s s₁)
    (hname : safeObjectPath objectPath = .ok name) :
    fileAt env principal.companyId path = some (bucket.companyId, bucket.name, name) := by
  rw [hresolved.company, hresolved.name_eq]
  simp only [fileAt, hpath, hname, if_neg hempty]

/-! ## Reading -/

theorem runs_reach_quiet (hfault : s.out.fault = none) (p : Point) : (reach p).Runs s () s :=
  runs_reachOr.mpr ⟨s.out, visit_of_fault_none hfault p, rfl⟩

theorem buildDownloadResponse_served (hs : Ready env s) (hbucket : bucket ∈ s.db.buckets.rows)
    {obj : StorageObject} (hfound : s.db.objectNamed bucket.id name = some obj) :
    Ends (ServedBy id env (some (.read (bucket.companyId, bucket.name, name))) s)
      (buildDownloadResponse env obj) s := by
  obtain ⟨data, hdata⟩ := hs.backed.stored (Database.objectNamed_eq_some hfound).1
  have hopen : (openBlob obj.storageKey).Runs s data s := by simp [openBlob, hdata]
  have hcontent := (tree_of_objectNamed hbucket hfound).trans (contentOf_of_lookup hdata)
  obtain ⟨-, -, rfl⟩ := Database.objectNamed_eq_some hfound
  rw [buildDownloadResponse, ends_bind_of_runs (runs_reach_quiet hs.quiet _),
    ends_bind_of_runs hopen, ends_pure]
  exact ⟨[], .refl hs.backed, .read hcontent⟩

theorem getOrHead_served (hs : Ready env s) (head : Bool) :
    Ends (ServedBy id env ((fileAt env principal.companyId path).map fun file =>
      if head then .probe file else .read file) s) (getOrHead env principal head path) s := by
  refine ends_look hs.backed requireCompanyId_unchanged fun companyId _ => ?_
  rcases hpath : parsePath env path with ⟨bucketName, objectPath⟩
  refine ends_ite (fun hempty => ?_) fun hnonempty => ?_
  · rw [fileAt_eq_none (by rwa [hpath])]
    exact served_none (.refl hs.backed) fun _ => trivial
  · refine ends_getAccessibleBucket hs fun bucket s₁ hresolved hs₁ => ?_
    refine ends_ofExcept hs₁.backed fun name hname => ?_
    rw [fileAt_of_resolved hpath (not_or.mp hnonempty).1 hresolved hname, Option.map_some,
      ends_database, ends_outside]
    cases hfound : s₁.db.objectNamed bucket.id name with
    | none =>
        have hmissing := (tree_eq_none_iff hs₁.backed hresolved.mem).mpr hfound
        cases head with
        | true => exact ⟨[], .refl hs₁.backed, .probeMissing hmissing⟩
        | false => exact ⟨[], .refl hs₁.backed, .readMissing hmissing⟩
    | some obj =>
        refine ends_ite (fun _ => ?_) fun _ => ends_refused hs₁.backed fun _ => rfl
        cases head with
        | true =>
            obtain ⟨data, hdata⟩ := hs₁.backed.stored (Database.objectNamed_eq_some hfound).1
            have hcontent := (tree_of_objectNamed hresolved.mem hfound).trans
              (contentOf_of_lookup hdata)
            exact ⟨[], .refl hs₁.backed, .probed hcontent⟩
        | false => exact buildDownloadResponse_served hs₁ hresolved.mem hfound

/-! ## Writing -/

theorem put_served (henv : env.Lawful) (hs : Ready env s) (contentType : Option Text)
    (body : Bytes) :
    Ends (ServedBy id env ((fileAt env principal.companyId path).map fun file =>
      .write file (uploadedFile env file.2.2 contentType body)) s)
      (put env principal path contentType body) s := by
  refine ends_look hs.backed requireCompanyId_unchanged fun companyId _ => ?_
  rcases hpath : parsePath env path with ⟨bucketName, objectPath⟩
  refine ends_ite (fun _ => ends_refused hs.backed fun _ => rfl) fun hnonempty => ?_
  refine ends_getAccessibleBucket hs fun bucket s₁ hresolved hs₁ => ?_
  refine ends_ofExcept hs₁.backed fun name hname => ?_
  rw [fileAt_of_resolved hpath (not_or.mp hnonempty).1 hresolved hname, Option.map_some,
    ends_database, ends_outside]
  refine ends_ite (fun _ => ?_) fun _ => ends_refused hs₁.backed fun _ => rfl
  refine ends_bind (fun e s' hfail => ?_) fun obj s' hrun => ?_
  · exact served_refused ((uploadObject_nothingLost henv hs₁.sound hs₁.quiet hfail).replays
      hs₁.backed) fun _ => rfl
  · obtain ⟨pathName, hpathName, hreplays⟩ :=
      uploadObject_replays henv hs₁.sound hs₁.backed hresolved.mem hrun
    obtain rfl : pathName = name := Except.ok.inj (hpathName.symm.trans hname)
    have hfree : tree s₁ (bucket.companyId, bucket.name, pathName) = none ↔
        s₁.db.objectNamed bucket.id pathName = none := tree_eq_none_iff hs₁.backed hresolved.mem
    refine ⟨_, hreplays, ?_⟩
    cases hold : tree s₁ (bucket.companyId, bucket.name, pathName) with
    | none =>
        rw [decide_eq_true (hfree.mp hold)]
        exact .created hold
    | some old =>
        rw [decide_eq_false (by rw [← hfree, hold]; exact Option.some_ne_none old)]
        exact .replaced hold

theorem canonical_placeholder (hname : Canonical name) : Canonical (name ++ placeholderSuffix) :=
  Canonical.append_iff.mpr ⟨hname, canonical_folderPlaceholderName⟩

theorem mkcol_served (henv : env.Lawful) (hs : Ready env s) :
    Ends (ServedBy id env ((fileAt env principal.companyId path).map .makeFolder) s)
      (mkcol env principal path) s := by
  refine ends_look hs.backed requireCompanyId_unchanged fun companyId _ => ?_
  rcases hpath : parsePath env path with ⟨bucketName, objectPath⟩
  refine ends_ite (fun _ => ends_refused hs.backed fun _ => rfl) fun hempty => ?_
  refine ends_getAccessibleBucket hs fun bucket s₁ hresolved hs₁ => ?_
  refine ends_ite (fun _ => ends_refused hs₁.backed fun _ => rfl) fun _ => ?_
  refine ends_ofExcept hs₁.backed fun name hname => ?_
  rw [fileAt_of_resolved hpath hempty hresolved hname, Option.map_some,
    ends_database, ends_outside]
  have hcanonical := canonical_placeholder (canonical_of_safeObjectPath hname)
  have hpre := prefixFilter_eq (canonical_of_safeObjectPath hname)
  have hbelow (engine : Engine) :
      engine.StartsWith (prefixFilter name) (name ++ placeholderSuffix) := by
    refine .of_isPrefix engine ?_
    rw [hpre]
    exact ⟨folderPlaceholderName, by simp [placeholderSuffix]⟩
  have hexisting : ∀ o ∈ objectsUnderPrefix s₁.db bucket name,
      Served env (some (.makeFolder (bucket.companyId, bucket.name, name))) s₁
        (.ok collectionExists) s₁ := by
    intro o ho
    obtain ⟨other, hother, hfound⟩ := exists_below hs₁ hresolved.mem ho
    exact ⟨[], .refl hs₁.backed, .folderTaken hother hfound⟩
  rw [objectsUnderPrefix, hpre] at hexisting
  refine ends_ite (fun _ => ?_) fun _ => ends_refused hs₁.backed fun _ => rfl
  refine ends_ite (fun hmarker => ?_) fun _ => ends_ite (fun hstored => ?_) fun hnone => ?_
  · obtain ⟨o, ho⟩ := Option.ne_none_iff_exists'.mp hmarker
    obtain ⟨hmem, hplace, hmark⟩ := Database.objectNamed_eq_some ho
    rw [← hpre] at hexisting
    exact hexisting o (Database.mem_objectsStartingWith.mpr
      ⟨hmem, hplace, hmark ▸ hbelow s₁.db.engine⟩)
  · obtain ⟨o, ho⟩ := List.exists_mem_of_ne_nil _ hstored
    exact hexisting o ho
  · have hempty' : ∀ other, (fileServer env).below (bucket.companyId, bucket.name, name) other →
        tree s₁ other = none :=
      none_below hs₁ hresolved.mem (by rw [objectsUnderPrefix, hpre]; exact not_not.mp hnone)
    refine ends_bind (fun e s' hfail => ?_) fun obj s' hrun => ?_
    · exact served_refused ((uploadObject_nothingLost henv hs₁.sound hs₁.quiet hfail).replays
        hs₁.backed) fun _ => rfl
    · obtain ⟨marker, hmarker, hreplays⟩ :=
        uploadObject_replays henv hs₁.sound hs₁.backed hresolved.mem hrun
      obtain rfl : marker = name ++ placeholderSuffix :=
        Except.ok.inj (hmarker.symm.trans hcanonical)
      have hfree : tree s₁ (bucket.companyId, bucket.name, name ++ placeholderSuffix) = none :=
        hempty' _ ⟨rfl, rfl, hbelow env.engine⟩
      rw [hfree] at hreplays
      exact ⟨_, hreplays, .folderMade hempty'⟩

/-! ## Listing -/

theorem listAccessibleBuckets_filesKept :
    (listAccessibleBuckets env display principal).Within FilesKept := by
  have hC := contentKept_lenient.toComposable
  have hkept : (listAccessibleBuckets env display principal).Within ContentKept := by
    refine Within.bind hC (Within.ofOption hC _ _) fun companyId => ?_
    refine Within.bind hC ((ensureCompanyBucket_bucketsOnly env companyId).mono
      BucketsOnly.toContentKept) fun _ => ?_
    exact Within.bind hC (Within.database hC) fun _ => Within.bind hC (Within.outside hC)
      fun _ => Within.pure hC _
  exact hkept.mono ContentKept.filesKept

theorem placeAt_of_resolved {bucketName objectPath : Text} {required : Permission}
    (hpath : parsePath env path = (bucketName, objectPath)) (hempty : bucketName ≠ [])
    (hresolved : Resolved principal bucketName required bucket s s₁)
    (hname : objectPath = [] ∧ name = [] ∨ objectPath ≠ [] ∧ safeObjectPath objectPath = .ok name) :
    placeAt env principal.companyId path = some (bucket.companyId, bucket.name, name) := by
  simp only [placeAt, hpath]
  rcases hname with ⟨rfl, rfl⟩ | ⟨hne, hname⟩
  · simp only [if_neg hempty, if_true, hresolved.company, hresolved.name_eq, Option.map_some]
  · rw [if_neg hne, fileAt_of_resolved hpath hempty hresolved hname]

theorem child_of_found {folder base : Text} {o : StorageObject}
    (hfound : env.engine.StartsWith (prefixFilter folder) o.name) (hbase : '/' ∉ base)
    (hrest : restOf folder o = base) (hne : base ≠ []) :
    (fileServer env).child (bucket.companyId, bucket.name, folder)
      (bucket.companyId, bucket.name, o.name) := by
  refine ⟨rfl, rfl, base, hbase, ?_⟩
  rw [hfound.map_eq, drop_prefixFilter, hrest, stripSlash_prefixFilter_append hbase, if_neg hne]

theorem below_of_found {folder base tail : Text} {o : StorageObject}
    (hfound : env.engine.StartsWith (prefixFilter folder) o.name) (hbase : '/' ∉ base)
    (hrest : restOf folder o = base ++ '/' :: tail) :
    env.engine.StartsWith (prefixFilter (stripSlash (prefixFilter folder ++ base))) o.name := by
  have hlong : env.engine.StartsWith (prefixFilter folder ++ base ++ ['/']) o.name := by
    rw [Engine.StartsWith, hfound.map_eq, drop_prefixFilter, hrest]
    refine List.IsPrefix.map _ ⟨tail, by simp⟩
  have hidem : stripSlash (stripSlash (prefixFilter folder ++ base)) =
      stripSlash (prefixFilter folder ++ base) := trim_trim _ _
  rw [prefixFilter, hidem, stripSlash_prefixFilter_append hbase]
  by_cases hnil : base = []
  · rw [if_pos hnil]
    exact hfound
  · rw [if_neg hnil, if_neg (by simp [hnil])]
    exact hlong

theorem listed_appendChildren (hs : Ready env s) (hbucket : bucket ∈ s.db.buckets.rows)
    (folder : Text) {item : DavItem}
    (hitem : item ∈ appendChildren display s.db s.out.now principal bucket (prefixFilter folder)) :
    Listed (fileServer env) (tree s) (bucket.companyId, bucket.name, folder)
      (item.shown bucket.companyId) := by
  have hshown : ∀ o ∈ orderedObjects display s.db bucket (prefixFilter folder),
      env.engine.StartsWith (prefixFilter folder) o.name ∧
        ∃ data, tree s (bucket.companyId, bucket.name, o.name) = some (fileOf o data) := by
    intro o ho
    rw [orderedObjects, List.mem_insertionSort] at ho
    obtain ⟨hmem, hplace, hfound⟩ := Database.mem_objectsStartingWith.mp ho
    obtain ⟨data, hdata⟩ := hs.backed.stored hmem
    refine ⟨hs.sound.engine ▸ hfound, data, ?_⟩
    rw [tree_of_mem hmem (Database.nameOf_of_mem hbucket hplace), contentOf_of_lookup hdata]
  simp only [appendChildren, List.mem_append, List.mem_map, List.mem_insertionSort,
    List.mem_dedup, List.mem_filter, drop_prefixFilter] at hitem
  rcases hitem with ⟨base, ⟨o, ⟨⟨ho, -⟩, hslash⟩, hbase⟩, rfl⟩ | ⟨o, ⟨⟨ho, -⟩, hrest⟩, rfl⟩
  · obtain ⟨hfound, data, hdata⟩ := hshown o ho
    obtain ⟨hfree, tail, htail⟩ := partitionSlash_fst_eq.mp ⟨of_decide_eq_true hslash, hbase⟩
    have hbelow : (fileServer env).below
        (bucket.companyId, bucket.name, stripSlash (prefixFilter folder ++ base))
        (bucket.companyId, bucket.name, o.name) := ⟨rfl, rfl, below_of_found hfound hfree htail⟩
    exact .folder ⟨rfl, rfl, base, hfree, rfl⟩ hbelow (by simp [hdata])
  · obtain ⟨hfound, data, hdata⟩ := hshown o ho
    obtain ⟨hne, hfree, -⟩ := of_decide_eq_true hrest
    exact .file (child_of_found hfound hfree rfl hne) hdata

theorem listed_childrenAtDepth (hs : Ready env s) (hbucket : bucket ∈ s.db.buckets.rows)
    (depth folder : Text) :
    ∀ item ∈ (childrenAtDepth display s.db s.out.now principal depth bucket
        (prefixFilter folder)).map (DavItem.shown bucket.companyId),
      Listed (fileServer env) (tree s) (bucket.companyId, bucket.name, folder) item := by
  intro item hitem
  obtain ⟨item, hmem, rfl⟩ := List.mem_map.mp hitem
  rw [childrenAtDepth] at hmem
  split at hmem
  · cases hmem
  · exact listed_appendChildren hs hbucket folder hmem

theorem propfindPath_served {depth : Text} (hs : Ready env s)
    (hbucket : bucket ∈ s.db.buckets.rows) (hname : Canonical name) :
    ServedBy DavResponse.answer env (some (.find (bucket.companyId, bucket.name, name))) s
      (.ok (propfindPath display s.db s.out.now principal depth bucket name)) s := by
  rw [propfindPath, rstrip_slash hname]
  cases hfound : s.db.objectNamed bucket.id name with
  | some obj =>
      by_cases hread : canAccessPath s.db s.out.now principal bucket obj.name (some obj.id)
          .read = true
      · refine ⟨[], .refl hs.backed, ?_⟩
        simp only [if_pos hread]
        obtain ⟨hmem, -, rfl⟩ := Database.objectNamed_eq_some hfound
        obtain ⟨data, hdata⟩ := hs.backed.stored hmem
        exact .foundFile
          ((tree_of_objectNamed hbucket hfound).trans (contentOf_of_lookup hdata))
      · simp only [if_neg hread]
        exact served_refused (.refl hs.backed) fun _ => rfl
  | none =>
      by_cases hread : canAccessPath s.db s.out.now principal bucket name none .read = true
      · simp only [hread, not_true_eq_false, if_false]
        by_cases hnone : objectsUnderPrefix s.db bucket name = []
        · refine ⟨[], .refl hs.backed, ?_⟩
          rw [← objectsUnderPrefix, if_pos hnone]
          exact .findMissing ((tree_eq_none_iff hs.backed hbucket).mpr hfound)
            (none_below hs hbucket hnone)
        · obtain ⟨o, ho⟩ := List.exists_mem_of_ne_nil _ hnone
          refine ⟨[], .refl hs.backed, ?_⟩
          rw [objectsUnderPrefix] at hnone
          rw [if_neg hnone]
          exact .foundFolder (.inr (exists_below hs hbucket ho))
            (listed_childrenAtDepth hs hbucket depth name)
      · simp only [hread, Bool.false_eq_true, not_false_iff, if_true]
        exact served_refused (.refl hs.backed) fun _ => rfl

theorem silent_buckets (buckets : List Bucket) (companyId : Nat) :
    (reply companyId (.ok (.multistatus (.collection [] [] ['d', 'a', 'v'] ::
      buckets.map fun b => .collection b.name [] b.name)))).Silent := by
  intro item hitem
  simp only [List.map_cons, List.map_map, List.mem_cons, List.mem_map] at hitem
  rcases hitem with rfl | ⟨b, -, rfl⟩
  · exact ⟨_, rfl⟩
  · exact ⟨_, rfl⟩

theorem propfind_served (hs : Ready env s) (depth : Text) :
    Ends (ServedBy DavResponse.answer env ((placeAt env principal.companyId path).map .find) s)
      (propfind env display principal depth path) s := by
  refine ends_look hs.backed requireCompanyId_unchanged fun companyId _ => ?_
  rcases hpath : parsePath env path with ⟨bucketName, objectPath⟩
  refine ends_ite (fun hempty => ?_) fun hempty => ?_
  · have hnowhere : placeAt env principal.companyId path = none := by
      simp only [placeAt, hpath, if_pos hempty]
      rw [fileAt_eq_none (by rw [hpath]; exact .inl hempty), ite_self]
    rw [hnowhere]
    refine ends_ite (fun _ => served_none (.refl hs.backed) (silent_buckets [])) fun _ => ?_
    refine ends_bind (fun e s' hfail => ?_) fun buckets s' hrun => ?_
    · exact served_none (.of_filesKept hs.backed (listAccessibleBuckets_filesKept.fails hfail))
        fun _ => trivial
    · exact served_none (.of_filesKept hs.backed (listAccessibleBuckets_filesKept.runs hrun))
        (silent_buckets buckets)
  · refine ends_getAccessibleBucket hs fun bucket s₁ hresolved hs₁ => ?_
    rw [ends_database, ends_outside]
    refine ends_ite (fun hroot => ?_) fun hne => ?_
    · rw [placeAt_of_resolved hpath hempty hresolved (.inl ⟨hroot, rfl⟩)]
      exact ⟨[], .refl hs₁.backed, .foundFolder (.inl rfl)
        (listed_childrenAtDepth hs₁ hresolved.mem depth [])⟩
    · refine ends_ofExcept hs₁.backed fun name hname => ?_
      rw [placeAt_of_resolved hpath hempty hresolved (.inr ⟨hne, hname⟩)]
      exact propfindPath_served hs₁ hresolved.mem (canonical_of_safeObjectPath hname)

/-! ## Removing -/

/-- The loop over a folder removes some of its items. -/
theorem forEach_deleteIfWritable_removes {objs : List StorageObject} {u : Unit}
    (h : (forEach (deleteIfWritable env principal bucket) objs).Runs s u s') :
    ∃ gone, gone ⊆ objs ∧ AllRemoved s gone s' := by
  induction objs generalizing s with
  | nil =>
      rw [runs_forEach_nil] at h
      exact ⟨[], List.Subset.refl [], h ▸ .nil s⟩
  | cons item objs ih =>
      rw [runs_forEach_cons] at h
      obtain ⟨s₁, hfirst, hrest⟩ := h
      obtain ⟨gone, hsub, hgone⟩ := ih hrest
      simp only [deleteIfWritable, runs_bind, runs_database, runs_outside, runs_ite,
        runs_pure] at hfirst
      obtain ⟨_, _, ⟨rfl, rfl⟩, _, _, ⟨rfl, rfl⟩, ⟨-, hdelete⟩ | ⟨-, -, rfl⟩⟩ := hfirst
      · exact ⟨item :: gone, List.cons_subset_cons item hsub,
          .cons (deleteObject_removed hdelete) hgone⟩
      · exact ⟨gone, List.subset_cons_of_subset item hsub, hgone⟩

theorem deletePath_served (hs : Ready env s) (hbucket : bucket ∈ s.db.buckets.rows)
    (hname : Canonical name) :
    Ends (ServedBy DavResponse.answer env
      (some (.remove (bucket.companyId, bucket.name, name))) s)
      (deletePath env display principal bucket name) s := by
  rw [deletePath, ends_database, ends_outside]
  cases hfound : s.db.objectNamed bucket.id name with
  | some obj =>
      refine ends_ite (fun _ => ?_) fun _ => ends_refused hs.backed fun _ => rfl
      obtain ⟨hmem, hplace, hpath⟩ := Database.objectNamed_eq_some hfound
      have hrun : (deleteObject env obj).Runs s () (without env s obj) :=
        (runs_deleteObject_without hs.quiet).mpr rfl
      have hremoved : AllRemoved s [obj] (without env s obj) :=
        .cons (deleteObject_removed hrun) (.nil _)
      have hobjs : ∀ o ∈ [obj], o ∈ s.db.objects.rows := by simpa using hmem
      rw [ends_bind_of_runs hrun, ends_pure]
      refine ⟨_, .of_allRemoved hs.sound hs.backed hobjs hremoved fun other => ?_, .removed ?_⟩
      · simp only [List.mem_singleton, exists_eq_left]
        rw [Database.nameOf_of_mem hbucket hplace, hpath,
          Option.some.injEq, eq_comm]
      · rw [tree_of_objectNamed hbucket hfound]
        exact hs.backed.content hmem
  | none =>
      have hmissing := (tree_eq_none_iff hs.backed hbucket).mpr hfound
      have hperm := orderedObjects_perm bucket display s.db hname
      refine ends_ite (fun hnil => ?_) fun hsome => ?_
      · rw [hnil] at hperm
        exact ⟨[], .refl hs.backed,
          .removeMissing hmissing (none_below hs hbucket hperm.nil_eq.symm)⟩
      · have hrun (objs : List StorageObject) :
            (forEach (deleteIfWritable env principal bucket) objs).Runs s ()
              (objs.foldl (afterItem env principal bucket) s) :=
          (runs_forEach_deleteIfWritable hs.quiet).mpr rfl
        rw [ends_bind_of_runs (hrun _), ends_pure]
        obtain ⟨gone, hsub, hremoved⟩ := forEach_deleteIfWritable_removes (hrun _)
        have hbelow : ∀ o ∈ gone, o ∈ objectsUnderPrefix s.db bucket name :=
          fun o ho => hperm.mem_iff.mp (hsub ho)
        have hobjs : ∀ o ∈ gone, o ∈ s.db.objects.rows := fun o ho =>
          (Database.mem_objectsStartingWith.mp (hbelow o ho)).1
        refine ⟨_, .of_allRemoved hs.sound hs.backed hobjs hremoved fun other => Iff.rfl,
          .cleared hmissing ?_ ?_⟩
        · rintro other ⟨o, ho, hother⟩
          obtain ⟨-, hplace, hprefix⟩ := Database.mem_objectsStartingWith.mp (hbelow o ho)
          rw [Database.nameOf_of_mem hbucket hplace, Option.some.injEq] at hother
          rw [← hother]
          exact ⟨rfl, rfl, hs.sound.engine ▸ hprefix⟩
        · obtain ⟨o, ho⟩ := List.exists_mem_of_ne_nil _ hsome
          exact exists_below hs hbucket (hperm.mem_iff.mp ho)

theorem delete_served (hs : Ready env s) :
    Ends (ServedBy DavResponse.answer env ((fileAt env principal.companyId path).map .remove) s)
      (delete env display principal path) s := by
  refine ends_look hs.backed requireCompanyId_unchanged fun companyId _ => ?_
  rcases hpath : parsePath env path with ⟨bucketName, objectPath⟩
  refine ends_ite (fun _ => ends_refused hs.backed fun _ => rfl) fun hnonempty => ?_
  refine ends_getAccessibleBucket hs fun bucket s₁ hresolved hs₁ => ?_
  refine ends_ofExcept hs₁.backed fun name hname => ?_
  rw [fileAt_of_resolved hpath (not_or.mp hnonempty).1 hresolved hname]
  exact deletePath_served hs₁ hresolved.mem (canonical_of_safeObjectPath hname)

/-! ## Moving and copying -/

theorem filesOf_of_resolved {destination tail bucketName objectPath destBucketName : Text}
    {destPath destName : Text} {destBucket : Bucket} {required : Permission}
    (htail : destinationDavPath env destination = some tail)
    (hpath : parsePath env path = (bucketName, objectPath))
    (hdestPath : parsePath env tail = (destBucketName, destPath))
    (hempty : bucketName ≠ [] ∧ destBucketName ≠ [])
    (hresolved : Resolved principal bucketName required bucket s s₁)
    (hdest : Resolved principal destBucketName .write destBucket s₁ s')
    (hname : safeObjectPath objectPath = .ok name)
    (hdestName : safeObjectPath destPath = .ok destName) :
    filesOf env principal.companyId path destination =
      some ((bucket.companyId, bucket.name, name),
        (destBucket.companyId, destBucket.name, destName)) := by
  simp only [filesOf, htail, Option.bind_some,
    fileAt_of_resolved hpath hempty.1 hresolved hname,
    fileAt_of_resolved hdestPath hempty.2 hdest hdestName]

theorem moveOrCopy_served (henv : env.Lawful) (hs : Ready env s) (copy : Bool)
    (destination : Text) :
    Ends (ServedBy (fun _ => .created) env
      ((filesOf env principal.companyId path destination).map fun files =>
        if copy then .copy files.1 files.2 else .move files.1 files.2) s)
      (moveOrCopy env principal copy path destination) s := by
  refine ends_look hs.backed requireCompanyId_unchanged fun companyId _ => ?_
  refine ends_look hs.backed (Within.ofOption unchanged_composable _ _) fun tail htail => ?_
  obtain ⟨htail, -⟩ := runs_ofOption.mp htail
  rcases hdestPath : parsePath env tail with ⟨destBucketName, destPath⟩
  rcases hpath : parsePath env path with ⟨bucketName, objectPath⟩
  refine ends_look hs.backed (Within.ensure unchanged_composable _ _) fun _ hnonempty => ?_
  obtain ⟨⟨hdestNonempty, -, hnonempty, -⟩, -⟩ := runs_ensure.mp hnonempty
  refine ends_getAccessibleBucket hs fun bucket s₁ hresolved hs₁ => ?_
  refine ends_bind (fun e s' hfail => ?_) fun destBucket s₂ hrun => ?_
  · exact served_refused (.of_filesKept hs₁.backed
      ((getAccessibleBucket_filesKept _ _).fails hfail)) fun _ => rfl
  have hdest := getAccessibleBucket_resolved hrun
  obtain ⟨rfl, -, -⟩ := getAccessibleBucket_again hresolved.company hresolved.provisioned hrun
  have hpaths := assertCanAccessPath_within unchanged_composable principal
  refine ends_look hs₁.backed (hpaths _ _ _ _) fun _ _ => ?_
  refine ends_look hs₁.backed (hpaths _ _ _ _) fun _ _ => ?_
  have hasked : ∀ {name destName : Text}, safeObjectPath objectPath = .ok name →
      safeObjectPath destPath = .ok destName → _ := fun hname hdestName =>
    filesOf_of_resolved htail hpath hdestPath ⟨hnonempty, hdestNonempty⟩ hresolved hdest hname
      hdestName
  cases copy with
  | true =>
      refine ends_of (fun e s' hfail => ?_) fun obj s' hrun => ?_
      · exact served_refused ((copyObject_nothingLost henv hs₁.sound hfail).replays hs₁.backed)
          fun _ => rfl
      · obtain ⟨name, destName, hname, hdestName, hfound, hfree, -, hreplays⟩ :=
          copyObject_replays henv hs₁.sound hs₁.backed hresolved.mem hdest.mem hrun
        rw [hasked hname hdestName]
        exact ⟨_, hreplays, .copied hfound hfree⟩
  | false =>
      refine ends_of (fun e s' hfail => ?_) fun obj s' hrun => ?_
      · exact served_refused ((moveObject_nothingLost hfail).replays hs₁.backed) fun _ => rfl
      · obtain ⟨name, destName, hname, hdestName, hfound, hfree, -, hreplays⟩ :=
          moveObject_replays hs₁.backed hresolved.mem hdest.mem hrun
        rw [hasked hname hdestName]
        exact ⟨_, hreplays, .moved hfound hfree⟩

/-! ## Soundness -/

theorem keeps_look {x : Act α} (hx : x.Within Unchanged) (hrest : ∀ a, Keeps env s (f a s).2) :
    Keeps env s ((x >>= f) s).2 := by
  have hC := keeps_composable env
  have hsame : x.Within (Keeps env) := hx.mono fun h => h ▸ hC.refl _
  refine hC.bind_at (hsame s) fun a s₁ hrun => ?_
  obtain rfl : s₁ = s := hx.runs hrun
  exact hrest a

theorem keeps_ite {c : Prop} [Decidable c] {x y : Act γ} (hx : Keeps env s (x s).2)
    (hy : Keeps env s (y s).2) : Keeps env s ((if c then x else y) s).2 := by
  by_cases hc : c
  · rwa [if_pos hc]
  · rwa [if_neg hc]

theorem keeps_pure (a : γ) : Keeps env s ((pure a : Act γ) s).2 := (keeps_composable env).refl s

theorem getAccessibleBucket_keeps (name : Text) (required : Permission) :
    (getAccessibleBucket env principal name required).Within (Keeps env) :=
  getAccessibleBucket_within (keeps_composable env)
    (fun companyId _ => ensureCompanyBucket_keeps env companyId) name required

theorem keeps_getAccessibleBucket {required : Permission} {f : Bucket → Act γ}
    (hrest : ∀ bucket s₁, bucket ∈ s₁.db.buckets.rows → Keeps env s₁ (f bucket s₁).2) :
    Keeps env s ((getAccessibleBucket env principal name required >>= f) s).2 :=
  (keeps_composable env).bind_at (getAccessibleBucket_keeps name required s)
    fun bucket s₁ hrun => hrest bucket s₁ (getAccessibleBucket_resolved hrun).mem

theorem getOrHead_keeps (head : Bool) :
    (getOrHead env principal head path).Within (Keeps env) := by
  have hC := keeps_composable env
  have hreach := fun p => within_reachOr (keeps_lenient env) (.interrupted p) p
  refine Within.bind hC (Within.ofOption hC _ _) fun _ => ?_
  refine Within.ite (Within.pure hC _) ?_
  refine Within.bind hC (getAccessibleBucket_keeps _ _) fun bucket => ?_
  refine Within.bind hC (Within.ofExcept hC _) fun name => ?_
  refine Within.bind hC (Within.database hC) fun db => ?_
  refine Within.bind hC (Within.outside hC) fun out => ?_
  split
  · exact Within.pure hC _
  · refine Within.ite (Within.ite (Within.pure hC _) ?_) (Within.pure hC _)
    refine Within.bind hC (hreach _) fun _ => Within.bind hC ?_ fun _ => Within.pure hC _
    exact Within.bind hC (Within.outside hC) fun _ => Within.ofOption hC _ _

theorem propfind_keeps (depth : Text) :
    (propfind env display principal depth path).Within (Keeps env) := by
  have hC := keeps_composable env
  refine Within.bind hC (Within.ofOption hC _ _) fun _ => Within.ite (Within.ite ?_ ?_) ?_
  · exact Within.pure hC _
  · refine Within.bind hC (Within.bind hC (Within.ofOption hC _ _) fun companyId => ?_) fun _ =>
      Within.pure hC _
    refine Within.bind hC (ensureCompanyBucket_keeps env companyId) fun _ => ?_
    exact Within.bind hC (Within.database hC) fun _ => Within.bind hC (Within.outside hC)
      fun _ => Within.pure hC _
  · refine Within.bind hC (getAccessibleBucket_keeps _ _) fun bucket => ?_
    refine Within.bind hC (Within.database hC) fun _ => Within.bind hC (Within.outside hC)
      fun _ => Within.ite (Within.pure hC _) ?_
    exact Within.bind hC (Within.ofExcept hC _) fun _ => Within.pure hC _

theorem delete_keeps : (delete env display principal path).Within (Keeps env) := by
  have hC := keeps_composable env
  have hitem : ∀ bucket item,
      (deleteIfWritable env principal bucket item).Within (Keeps env) := fun bucket item =>
    Within.bind hC (Within.database hC) fun _ => Within.bind hC (Within.outside hC) fun _ =>
      Within.ite (deleteObject_keeps item) (Within.pure hC _)
  refine Within.bind hC (Within.ofOption hC _ _) fun _ => Within.ite (Within.pure hC _) ?_
  refine Within.bind hC (getAccessibleBucket_keeps _ _) fun bucket => ?_
  refine Within.bind hC (Within.ofExcept hC _) fun name => ?_
  refine Within.bind hC (Within.database hC) fun db => ?_
  refine Within.bind hC (Within.outside hC) fun out => ?_
  split
  · exact Within.ite (Within.pure hC _) (Within.bind hC (Within.forEach hC (hitem bucket) _)
      fun _ => Within.pure hC _)
  · exact Within.ite (Within.bind hC (deleteObject_keeps _) fun _ => Within.pure hC _)
      (Within.pure hC _)

theorem put_keeps (henv : env.Lawful) (contentType : Option Text) (body : Bytes) :
    Keeps env s (put env principal path contentType body s).2 := by
  refine keeps_look requireCompanyId_unchanged fun _ => ?_
  rcases parsePath env path with ⟨bucketName, objectPath⟩
  refine keeps_ite (keeps_pure _) ?_
  refine keeps_getAccessibleBucket fun bucket s₁ hbucket => ?_
  refine keeps_look (Within.ofExcept unchanged_composable _) fun name => ?_
  refine keeps_look (Within.database unchanged_composable) fun db => ?_
  refine keeps_look (Within.outside unchanged_composable) fun out => ?_
  refine keeps_ite ?_ (keeps_pure _)
  exact (keeps_composable env).bind_at (uploadObject_keeps henv (known_of_mem hbucket) _ _ _ _ _)
    fun _ _ _ => keeps_pure _

theorem mkcol_keeps (henv : env.Lawful) : Keeps env s (mkcol env principal path s).2 := by
  refine keeps_look requireCompanyId_unchanged fun _ => keeps_ite (keeps_pure _) ?_
  refine keeps_getAccessibleBucket fun bucket s₁ hbucket => keeps_ite (keeps_pure _) ?_
  refine keeps_look (Within.ofExcept unchanged_composable _) fun name => ?_
  refine keeps_look (Within.database unchanged_composable) fun db => ?_
  refine keeps_look (Within.outside unchanged_composable) fun out => ?_
  refine keeps_ite (keeps_ite (keeps_pure _) (keeps_ite (keeps_pure _) ?_)) (keeps_pure _)
  exact (keeps_composable env).bind_at (uploadObject_keeps henv (known_of_mem hbucket) _ _ _ _ _)
    fun _ _ _ => keeps_pure _

theorem moveOrCopy_keeps (henv : env.Lawful) (copy : Bool) (destination : Text) :
    Keeps env s (moveOrCopy env principal copy path destination s).2 := by
  have hpaths := assertCanAccessPath_within unchanged_composable principal
  refine keeps_look requireCompanyId_unchanged fun _ => ?_
  refine keeps_look (Within.ofOption unchanged_composable _ _) fun tail => ?_
  refine keeps_look (Within.ensure unchanged_composable _ _) fun _ => ?_
  refine (keeps_composable env).bind_at (getAccessibleBucket_keeps _ _ s) fun bucket s₁ hrun => ?_
  have hresolved := getAccessibleBucket_resolved hrun
  refine (keeps_composable env).bind_at (getAccessibleBucket_keeps _ _ s₁)
    fun destBucket s₂ hrun' => ?_
  have hdest := getAccessibleBucket_resolved hrun'
  obtain ⟨rfl, -, -⟩ := getAccessibleBucket_again hresolved.company hresolved.provisioned hrun'
  refine keeps_look (hpaths _ _ _ _) fun _ => keeps_look (hpaths _ _ _ _) fun _ => keeps_ite ?_ ?_
  · exact copyObject_keeps henv (known_of_mem hdest.mem) _ _ _
  · exact moveObject_keeps (known_of_mem hresolved.mem) (known_of_mem hdest.mem) _ _

theorem dispatch_keeps (henv : env.Lawful) (display : Display) (principal : StoragePrincipal)
    (request : DavRequest) :
    Keeps env s (dispatch env display principal request s).2 := by
  have hC := keeps_composable env
  cases request with
  | propfind path depth =>
      exact Within.bind hC (propfind_keeps depth) (fun _ => Within.pure hC _) s
  | get path => exact getOrHead_keeps false s
  | head path => exact getOrHead_keeps true s
  | put path contentType body => exact put_keeps henv contentType body
  | delete path => exact Within.bind hC delete_keeps (fun _ => Within.pure hC _) s
  | mkcol path => exact mkcol_keeps henv
  | move path destination =>
      exact hC.bind_at (moveOrCopy_keeps henv false destination) fun _ _ _ => keeps_pure _
  | copy path destination =>
      exact hC.bind_at (moveOrCopy_keeps henv true destination) fun _ _ _ => keeps_pure _

/-! ## Every request -/

theorem ends_answered {x : Act γ} (h : Ends (ServedBy answer env asked s) x s) :
    Ends (Served env asked s) (x >>= fun a => pure (answer a)) s := by
  refine ends_bind (fun e s' hfail => ?_) fun a s₁ hrun => h.runs hrun
  obtain ⟨e', he⟩ := hfail
  have hserved : Served env asked s (.error e') s' := by
    have hend := h
    rw [Ends, he] at hend
    exact hend
  exact hserved

theorem ends_id {x : Act DavAnswer} (h : Ends (ServedBy id env asked s) x s) :
    Ends (Served env asked s) x s := by
  refine h.imp fun r s' hr => ?_
  cases r with
  | ok a => exact hr
  | error e => exact hr

theorem dispatch_served (henv : env.Lawful) (hs : Ready env s) (display : Display)
    (principal : StoragePrincipal) (request : DavRequest) :
    Ends (Served env (request.asks env principal.companyId) s)
      (dispatch env display principal request) s := by
  cases request with
  | propfind path depth => exact ends_answered (propfind_served hs depth)
  | get path => exact ends_id (getOrHead_served hs false)
  | head path => exact ends_id (getOrHead_served hs true)
  | put path contentType body => exact ends_id (put_served henv hs contentType body)
  | delete path => exact ends_answered (delete_served hs)
  | mkcol path => exact ends_id (mkcol_served henv hs)
  | move path destination => exact ends_answered (moveOrCopy_served henv hs false destination)
  | copy path destination => exact ends_answered (moveOrCopy_served henv hs true destination)

end Requests

end StorageService.Webdav
