import StorageService.Storage.Tree

/-!
# Operations on the tree of files

Each successful operation of the services is a list of events of the tree: it writes
the data of an upload or the mark of a folder, and otherwise puts content that was
there at other names of the same company.
-/

namespace StorageService.Storage

open StorageService.Foundation
open StorageService.Foundation.Action

/-! ## The files an operation names -/

def Deletion.Touches (env : Env) (name : FileName) : Deletion → Prop
  | object obj => obj.companyId = name.1 ∧ obj.name = name.2.2
  | paths bucket _ names => bucket.companyId = name.1 ∧ bucket.name = name.2.1 ∧
      ∃ path ∈ names, safeObjectPath path = .ok name.2.2
  | underPrefix bucket folderPath _ => bucket.companyId = name.1 ∧ bucket.name = name.2.1 ∧
      env.engine.StartsWith (prefixFilter folderPath) name.2.2
  | wholeBucket bucket _ => bucket.companyId = name.1 ∧ bucket.name = name.2.1

def Operation.Touches (env : Env) (name : FileName) : Operation → Prop
  | upload u => u.bucket.companyId = name.1 ∧ u.bucket.name = name.2.1 ∧
      safeObjectPath u.path = .ok name.2.2
  | delete d => d.Touches env name
  | rename bucket source _ => bucket.companyId = name.1 ∧ bucket.name = name.2.1 ∧
      ∃ folder, safeObjectPath source = .ok folder ∧ stripSlash folder ++ ['/'] <+: name.2.2
  | move bucket source _ _ => bucket.companyId = name.1 ∧ bucket.name = name.2.1 ∧
      safeObjectPath source = .ok name.2.2
  | copy _ _ _ _ _ | folderMarker _ _ _ | createGrant _ _ | deleteGrant _ _ | companyBucket _
  | addBucket _ | companyLimit _ _ _ | userLimit _ _ _ => False

def Operation.Writes (env : Env) (op : Operation) (t : FileTree FileName StoredFile)
    (name : FileName) (file : StoredFile) : Prop :=
  file.data = [] ∧ file.size = 0 ∨ ∃ u, op = .upload u ∧ u.bucket.companyId = name.1 ∧
    landed env (t name) (uploadedFile env name.2.2 u.contentType u.data) = file

structure Operation.Accounts (env : Env) (op : Operation) (t : FileTree FileName StoredFile)
    (events : List (FileEvent FileName StoredFile)) : Prop where
  writes : ∀ name file, FileEvent.write name file ∈ events → op.Writes env t name file
  sources : ∀ source, FileEvent.rearrange source ∈ events →
    ∀ name old, source name = some old → old.1 = name.1
  leaves : ∀ name, t name ≠ none → ¬op.Touches env name →
    ∀ e ∈ events, FileTree.leaves name e

section Accounts

variable {env : Env} {w w' s s' : World} {t : FileTree FileName StoredFile} {op : Operation}
variable {name : FileName} {bucket : Bucket} {events : List (FileEvent FileName StoredFile)}

theorem Operation.Accounts.nil : op.Accounts env t [] where
  writes _ _ h := by cases h
  sources _ h := by cases h
  leaves _ _ _ _ h := by cases h

theorem Operation.Accounts.write {file : StoredFile} (hfile : op.Writes env t name file)
    (hfree : t name = none ∨ op.Touches env name) : op.Accounts env t [.write name file] where
  writes _ _ h := by
    cases List.mem_singleton.mp h
    exact hfile
  sources _ h := by cases List.mem_singleton.mp h
  leaves other hother hnot e he := by
    obtain rfl := List.mem_singleton.mp he
    rintro rfl
    exact hfree.elim hother hnot

theorem Operation.Accounts.rearrange {source : FileName → Option FileName}
    (hsource : ∀ name old, source name = some old → old.1 = name.1)
    (hleaves : ∀ name, t name ≠ none → ¬op.Touches env name → source name = some name) :
    op.Accounts env t [.rearrange source] where
  writes _ _ h := by cases List.mem_singleton.mp h
  sources _ h := by
    cases List.mem_singleton.mp h
    exact hsource
  leaves other hother hnot e he := by
    obtain rfl := List.mem_singleton.mp he
    exact hleaves other hother hnot

def Operation.Replayed (env : Env) (op : Operation) (s s' : World) : Prop :=
  ∃ events, Replays s s' events ∧ op.Accounts env (tree s) events

theorem Operation.Replayed.of_filesKept (hs : Backed s) (h : FilesKept s s') :
    op.Replayed env s s' :=
  ⟨[], .of_filesKept hs h, .nil⟩

/-! ## Rows and names -/

theorem Sound.company_of_nameOf (hs : Sound env s) {o : StorageObject}
    (ho : o ∈ s.db.objects.rows) (hname : s.db.nameOf o = some name) : o.companyId = name.1 := by
  obtain ⟨b, hb, hid⟩ := s.db.objectBucket o ho
  rw [Database.nameOf_of_mem hb hid.symm, Option.some.injEq] at hname
  rw [← hname]
  exact (hs.company o ho b hb hid).symm

theorem nameOf_bucket (hbucket : bucket ∈ s.db.buckets.rows) {o : StorageObject}
    (hplace : o.bucketId = bucket.id) (hname : s.db.nameOf o = some name) :
    bucket.companyId = name.1 ∧ bucket.name = name.2.1 ∧ o.name = name.2.2 := by
  rw [Database.nameOf_of_mem hbucket hplace, Option.some.injEq] at hname
  rw [← hname]
  exact ⟨rfl, rfl, rfl⟩

def sourceOf (s s' : World) (name : FileName) : Option FileName :=
  (s'.db.objectAt name).bind fun o' => (s.db.objectById o'.id).bind s.db.nameOf

theorem sourceOf_iff {f : StorageObject → StorageObject} (hf : ∀ o, SameContent o (f o))
    (h : Rewrote f s s') {o : StorageObject} (ho : o ∈ s.db.objects.rows) (other : FileName) :
    s'.db.nameOf (f o) = some other ↔ sourceOf s s' other = s.db.nameOf o := by
  have hrow : f o ∈ s'.db.objects.rows := by
    rw [h.objects]
    exact List.mem_map_of_mem ho
  have hfound : s.db.objectById o.id = some o := Database.objectById_eq_some.mpr ⟨ho, rfl⟩
  constructor
  · intro hname
    rw [sourceOf, Database.objectAt_eq_some.mpr ⟨hrow, hname⟩, Option.bind_some, (hf o).id,
      hfound, Option.bind_some]
  · intro hsource
    obtain ⟨old, hold⟩ := Database.nameOf_eq_some ho
    obtain ⟨o', ho', hbind⟩ := Option.bind_eq_some_iff.mp (hsource.trans hold)
    obtain ⟨x, hx, hxname⟩ := Option.bind_eq_some_iff.mp hbind
    obtain ⟨hxmem, hxid⟩ := Database.objectById_eq_some.mp hx
    obtain rfl : x = o := Database.eq_of_nameOf hxmem ho (hxname.trans hold.symm)
    obtain ⟨hmem', hname'⟩ := Database.objectAt_eq_some.mp ho'
    rw [h.objects] at hmem'
    obtain ⟨y, hy, rfl⟩ := List.mem_map.mp hmem'
    obtain rfl : y = x := Database.object_eq_of_id hy hxmem ((hf y).id.symm.trans hxid.symm)
    exact hname'

theorem sourceOf_company (hs : Sound env s) (hs' : Sound env s')
    {f : StorageObject → StorageObject} (hf : ∀ o, SameContent o (f o)) (h : Rewrote f s s')
    {old : FileName} (hsource : sourceOf s s' name = some old) : old.1 = name.1 := by
  obtain ⟨o', ho', hbind⟩ := Option.bind_eq_some_iff.mp hsource
  obtain ⟨x, hx, hxname⟩ := Option.bind_eq_some_iff.mp hbind
  obtain ⟨hxmem, hxid⟩ := Database.objectById_eq_some.mp hx
  obtain ⟨hmem', hname'⟩ := Database.objectAt_eq_some.mp ho'
  have hnew := hs'.company_of_nameOf hmem' hname'
  rw [h.objects] at hmem'
  obtain ⟨y, hy, rfl⟩ := List.mem_map.mp hmem'
  obtain rfl : y = x := Database.object_eq_of_id hy hxmem ((hf y).id.symm.trans hxid.symm)
  rw [← hs.company_of_nameOf hxmem hxname, ← hnew, (hf y).companyId]

theorem Operation.Replayed.of_rewrote (hsound : Sound env s) (hsound' : Sound env s')
    (hs : Backed s) {f : StorageObject → StorageObject} (hf : ∀ o, SameContent o (f o))
    (h : Rewrote f s s')
    (hstays : ∀ o ∈ s.db.objects.rows, ∀ name, s.db.nameOf o = some name → ¬op.Touches env name →
      f o = o) :
    op.Replayed env s s' := by
  refine ⟨[.rearrange (sourceOf s s')],
    ⟨tree_of_rewrote hf h fun o ho other => sourceOf_iff hf h ho other, hs.of_rewrote hf h⟩,
    .rearrange (fun _ _ => sourceOf_company hsound hsound' hf h) fun name hname hnot => ?_⟩
  obtain ⟨data, hdata⟩ := Option.ne_none_iff_exists'.mp hname
  obtain ⟨o, ho, hat, -⟩ := tree_eq_some.mp hdata
  have hsame : s'.db.nameOf (f o) = some name := by
    rw [hstays o ho name hat hnot, Database.nameOf_congr h.buckets, hat]
  rw [(sourceOf_iff hf h ho name).mp hsame, hat]

/-! ## One lemma per operation -/

theorem ensureFolderMarker_replayed (henv : env.Lawful) (hsound : Sound env s) (hs : Backed s)
    (hbucket : bucket ∈ s.db.buckets.rows) {folderPath : Text} {ownerId : Option Nat}
    {obj : StorageObject}
    (h : (ensureFolderMarker env bucket folderPath ownerId).Runs s obj s') :
    op.Replayed env s s' := by
  rcases ensureFolderMarker_cases h with
    ⟨-, rfl⟩ | ⟨hnone, hcreated, -, hsize, hplace, hname, -⟩
  · exact ⟨[], .refl hs, .nil⟩
  · have hfree : tree s (bucket.companyId, bucket.name, obj.name) = none := by
      rw [hs.tree_eq_none, Database.objectAt_of_bucket hbucket, hname, hnone]
    exact ⟨_, .of_created henv hsound hs hbucket hcreated hplace,
      .write (.inl ⟨rfl, hsize⟩) (.inl hfree)⟩

theorem createGrant_replayed (henv : env.Lawful) (hsound : Sound env s) (hs : Backed s)
    {principal : StoragePrincipal} {data : GrantRequest} {g : GrantRow}
    (h : (createGrant env principal data).Runs s g s') : op.Replayed env s s' := by
  obtain ⟨fields, bucket, s₁, s₂, resource, -, hresolved, -, htarget, -, hadded⟩ :=
    createGrant_cases h
  have hkept := hresolved.bucketsOnly.toContentKept.filesKept
  have hsound₁ : Sound env s₁ :=
    (Keeps.of_contentKept hresolved.bucketsOnly.toContentKept).sound hsound
  have hs₁ := hs.of_filesKept hkept
  have hmarked : op.Replayed env s₁ s₂ := by
    cases htype : fields.resourceType with
    | bucket =>
        rw [htype, grantTarget, runs_pure] at htarget
        obtain ⟨-, rfl⟩ := htarget
        exact ⟨[], .refl hs₁, .nil⟩
    | object =>
        simp only [htype, grantTarget, runs_bind, runs_database, runs_ofOption,
          runs_pure] at htarget
        obtain ⟨_, _, ⟨rfl, rfl⟩, _, _, ⟨-, rfl⟩, -, rfl⟩ := htarget
        exact ⟨[], .refl hs₁, .nil⟩
    | folder =>
        simp only [htype, grantTarget, runs_bind, runs_pure] at htarget
        obtain ⟨marker, _, hmarker, -, rfl⟩ := htarget
        exact ensureFolderMarker_replayed henv hsound₁ hs₁ hresolved.mem hmarker
  obtain ⟨events, hreplays, haccounts⟩ := hmarked
  rw [tree_of_filesKept hkept] at haccounts
  exact ⟨events, (hreplays.after_kept hs hkept).before_kept hadded.filesKept, haccounts⟩

theorem Deletion.touches_of_mem {d : Deletion} (hloaded : d.Loaded s.db) (hsound : Sound env s)
    {o : StorageObject} (ho : o ∈ d.objects s.db) (hname : s.db.nameOf o = some name) :
    d.Touches env name := by
  cases d with
  | object obj =>
      obtain rfl := List.mem_singleton.mp ho
      refine ⟨hsound.company_of_nameOf hloaded hname, ?_⟩
      obtain ⟨b, hb, hid⟩ := s.db.objectBucket o hloaded
      exact (nameOf_bucket hb hid.symm hname).2.2
  | paths bucket principal names =>
      obtain ⟨raw, hraw, hfound⟩ := List.mem_filterMap.mp ho
      split at hfound
      · contradiction
      · rename_i path hpath
        obtain ⟨-, hplace, rfl⟩ := Database.objectNamed_eq_some hfound
        obtain ⟨hcompany, hbucket, hat⟩ := nameOf_bucket hloaded hplace hname
        exact ⟨hcompany, hbucket, raw, hraw, hat ▸ hpath⟩
  | underPrefix bucket folderPath principal =>
      obtain ⟨-, hplace, hprefix⟩ := Database.mem_objectsStartingWith.mp ho
      obtain ⟨hcompany, hbucket, hat⟩ := nameOf_bucket hloaded hplace hname
      rw [hsound.engine] at hprefix
      exact ⟨hcompany, hbucket, hat ▸ hprefix⟩
  | wholeBucket bucket principal =>
      obtain ⟨-, hplace⟩ := List.mem_filter.mp ho
      obtain ⟨hcompany, hbucket, -⟩ := nameOf_bucket hloaded (of_decide_eq_true hplace) hname
      exact ⟨hcompany, hbucket⟩

theorem deletion_replayed {d : Deletion} (hsound : Sound env w) (hs : Backed w)
    (h : Succeeds env (.delete d) w w') : (Operation.delete d).Replayed env w w' := by
  have hloaded : d.Loaded w.db := h.1
  have hobjs := Deletion.objects_subset hloaded
  refine ⟨_, .of_allRemoved hsound hs hobjs h.allRemoved fun other => Iff.rfl, .rearrange ?_ ?_⟩
  · intro name old hold
    simp only [FileTree.erased] at hold
    split at hold
    · contradiction
    · rw [Option.some.inj hold]
  · intro name _ hnot
    refine if_neg ?_
    rintro ⟨o, ho, hname⟩
    exact hnot (Deletion.touches_of_mem hloaded hsound ho hname)

theorem renamedRow_eq_self {src dst : Text} {now : Time} {o : StorageObject}
    (h : o.bucketId = bucket.id → ¬src ++ ['/'] <+: o.name) :
    renamedRow bucket.id src dst now o = o :=
  if_neg fun hboth => h hboth.1 hboth.2

/-- Every successful operation is accounted for by events of the tree. -/
theorem Succeeds.replayed (henv : env.Lawful) (hsound : Sound env w) (hs : Backed w)
    (h : Succeeds env op w w') : op.Replayed env w w' := by
  have hsound' := h.step.sound henv hsound
  have hstart := h
  obtain ⟨hloaded, fault, hrun⟩ := h
  have hsoundf : Sound env (w.withFault fault) := ((keeps_lenient env).fault w fault).sound hsound
  have hfrom : ∀ {s' : World}, op.Replayed env (w.withFault fault) s' → op.Replayed env w s' := by
    rintro s' ⟨events, ⟨htree, hbacked⟩, haccounts⟩
    exact ⟨events, ⟨htree, hbacked⟩, haccounts⟩
  cases op with
  | upload u =>
      simp only [Operation.run, runs_bind, runs_pure] at hrun
      obtain ⟨obj, _, hupload, -, rfl⟩ := hrun
      obtain ⟨path, hpath, hreplays⟩ := uploadObject_replays henv hsoundf hs hloaded hupload
      exact hfrom ⟨_, hreplays, .write (.inr ⟨u, rfl, rfl, rfl⟩) (.inr ⟨rfl, rfl, hpath⟩)⟩
  | delete d => exact deletion_replayed hsound hs hstart
  | rename bucket source dest =>
      simp only [Operation.run, runs_bind, runs_pure] at hrun
      obtain ⟨result, _, hrename, -, rfl⟩ := hrun
      obtain ⟨folder, _, hfolder, -, -, ⟨-, rfl⟩ | ⟨-, -, hrewrote⟩⟩ :=
        renameFolder_rewrote hrename
      · exact hfrom ⟨[], .refl hs, .nil⟩
      · refine hfrom (.of_rewrote hsoundf hsound' hs (sameContent_renamedRow _ _ _ _) hrewrote
          fun o _ name hname hnot => renamedRow_eq_self fun hplace hprefix => hnot ?_)
        obtain ⟨hcompany, hbucket, hat⟩ := nameOf_bucket hloaded hplace hname
        exact ⟨hcompany, hbucket, folder, hfolder, hat ▸ hprefix⟩
  | move bucket source destBucket dest =>
      simp only [Operation.run, runs_bind, runs_pure] at hrun
      obtain ⟨moved, _, hmove, -, rfl⟩ := hrun
      obtain ⟨sourceName, _, obj, hsource, -, hobj, -, -, hrewrote, -⟩ := moveObject_rewrote hmove
      obtain ⟨hmem, hplace, hpath⟩ := Database.objectNamed_eq_some hobj
      refine hfrom (.of_rewrote hsoundf hsound' hs
        (sameContent_changed (sameContent_relocated _ _ _)) hrewrote fun o ho name hname hnot => ?_)
      refine Database.changed_of_ne fun hid => hnot ?_
      obtain rfl := Database.object_eq_of_id ho hmem hid
      obtain ⟨hcompany, hbucket, hat⟩ := nameOf_bucket hloaded.1 hplace hname
      exact ⟨hcompany, hbucket, by rw [hsource, ← hpath, hat]⟩
  | copy bucket source destBucket dest ownerId =>
      simp only [Operation.run, runs_bind, runs_pure] at hrun
      obtain ⟨obj, _, hcopy, -, rfl⟩ := hrun
      obtain ⟨sourceName, destName, -, -, -, hfree, hcompany, hreplays⟩ :=
        copyObject_replays henv hsoundf hs hloaded.1 hloaded.2 hcopy
      refine hfrom ⟨_, hreplays, .rearrange (fun name old hold => ?_) fun name hname _ => ?_⟩
      · by_cases heq : name = (destBucket.companyId, destBucket.name, destName)
        · rw [heq, FileTree.copied, Function.update_self, Option.some.injEq] at hold
          rw [heq, ← hold]
          exact hcompany
        · rw [FileTree.copied, Function.update_of_ne heq, Option.some.injEq] at hold
          rw [hold]
      · refine Function.update_of_ne ?_ _ _
        rintro rfl
        exact hname hfree
  | folderMarker bucket folderPath ownerId =>
      simp only [Operation.run, runs_bind, runs_pure] at hrun
      obtain ⟨obj, _, hmarker, -, rfl⟩ := hrun
      exact hfrom (ensureFolderMarker_replayed henv hsoundf hs hloaded hmarker)
  | createGrant principal data =>
      simp only [Operation.run, runs_bind, runs_pure] at hrun
      obtain ⟨g, _, hgrant, -, rfl⟩ := hrun
      exact hfrom (createGrant_replayed henv hsoundf hs hgrant)
  | deleteGrant principal grantId =>
      exact hfrom (.of_filesKept hs ((deleteGrant_contentKept env _ _).runs hrun).filesKept)
  | companyBucket companyId =>
      simp only [Operation.run, runs_bind, runs_pure] at hrun
      obtain ⟨b, _, hensure, -, rfl⟩ := hrun
      exact hfrom (.of_filesKept hs
        ((ensureCompanyBucket_bucketsOnly env _).runs hensure).toContentKept.filesKept)
  | addBucket bucket =>
      exact hfrom (.of_filesKept hs
        ((addBucket_bucketsOnly env bucket).runs hrun).toContentKept.filesKept)
  | companyLimit companyId maxBytes maxBytesPerUser =>
      exact hfrom (.of_filesKept hs
        ((setCompanyLimit_quotasOnly env _ _ _).runs hrun).filesKept)
  | userLimit companyId userId maxBytes =>
      exact hfrom (.of_filesKept hs ((setUserLimit_quotasOnly _ _ _).runs hrun).filesKept)

end Accounts

end StorageService.Storage
