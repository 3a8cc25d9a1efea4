import StorageService.Storage.Changes

/-!
# Where grants and objects lie

In every state that is reached a grant lies in the bucket of its object and in
the company of its bucket, and no stored name starts or ends with a slash.
-/

namespace StorageService.Storage

open StorageService.Foundation
open StorageService.Foundation.Action

variable {env : Env} {w s s' : World}

/-! ## The ends of names -/

structure Framed (name : Text) : Prop where
  ends : SlashFree name
  folder : ∀ folder, name = folder ++ placeholderSuffix → SlashFree folder

theorem Canonical.framed {name : Text} (h : Canonical name) : Framed name := by
  refine ⟨h.slashFree, ?_⟩
  rintro folder rfl
  exact (Canonical.append_iff.mp h).1.slashFree

theorem SlashFree.below {src dst rest : Text} (hdst : SlashFree dst)
    (h : SlashFree (src ++ '/' :: rest)) : SlashFree (dst ++ '/' :: rest) := by
  obtain ⟨hne, hhead, -⟩ := hdst
  obtain ⟨_, _, hlast⟩ := h
  refine ⟨by simp, ?_, ?_⟩
  · rwa [List.head_append_of_ne_nil hne]
  · rw [List.getLast_append_of_ne_nil _ (List.cons_ne_nil '/' rest)] at hlast ⊢
    exact hlast

theorem framed_folderPlaceholderPath (folderPath : Text) :
    Framed (folderPlaceholderPath folderPath) := by
  have hmarker : SlashFree folderPlaceholderName := canonical_folderPlaceholderName.slashFree
  simp only [folderPlaceholderPath]
  split
  · refine ⟨hmarker, fun folder heq => ?_⟩
    have hlength := congrArg List.length heq
    simp only [List.length_append, placeholderSuffix, List.length_cons] at hlength
    omega
  · rename_i hne
    have hfolder : SlashFree (stripSlash (strip folderPath)) :=
      ⟨hne, (trim_eq_self_iff isSlash _).mp (trim_trim isSlash _) hne⟩
    refine ⟨?_, fun folder heq => ?_⟩
    · have hbelow : SlashFree (folderPlaceholderName ++ '/' :: folderPlaceholderName) :=
        (Canonical.append_iff.mpr ⟨canonical_folderPlaceholderName,
          canonical_folderPlaceholderName⟩).slashFree
      exact hfolder.below hbelow
    · rwa [← List.append_cancel_right heq]

theorem Framed.renamedPath {src dst name : Text} (h : Framed name)
    ( hprefix : src ++ ['/'] <+: name) (hdst : SlashFree dst) :
    Framed (renamedPath src dst name) := by
  obtain ⟨rest, rfl⟩ := hprefix
  have hsplit : src ++ ['/'] ++ rest = src ++ '/' :: rest := by simp
  rw [hsplit] at h ⊢
  rw [Storage.renamedPath, List.drop_left]
  refine ⟨hdst.below h.ends, fun folder heq => ?_⟩
  have hbase : '/' ∉ folderPlaceholderName := by decide
  obtain ⟨inner, rfl⟩ : dst <+: folder :=
    prefix_of_sep_prefix hbase (heq ▸ ⟨rest, by simp⟩)
  rw [List.append_assoc] at heq
  have hrest := List.append_cancel_left heq
  cases inner with
  | nil => simpa using hdst
  | cons c inner =>
      rw [List.cons_append, List.cons.injEq] at hrest
      obtain ⟨rfl, rfl⟩ := hrest
      exact hdst.below (h.folder (src ++ '/' :: inner) (by simp))

/-! ## Grants and their objects -/

structure LiesIn (db : Database) (g : GrantRow) : Prop where
  bucket : ∃ b ∈ db.buckets.rows, b.id = g.bucketId ∧ b.companyId = g.companyId
  object : ∀ o ∈ db.objects.rows, g.resource.object? = some o.id → o.bucketId = g.bucketId

structure WellPlaced (db : Database) : Prop where
  grants : ∀ g ∈ db.grants.rows, LiesIn db g
  framed : ∀ o ∈ db.objects.rows, Framed o.name

theorem LiesIn.of_kept {db db' : Database} {g : GrantRow} (h : LiesIn db g)
    (hg : g ∈ db.grants.rows)
    (hbuckets : ∀ b ∈ db.buckets.rows, ∃ b' ∈ db'.buckets.rows,
      b'.id = b.id ∧ b'.companyId = b.companyId)
    (hobjects : ∀ o' ∈ db'.objects.rows, (∃ o ∈ db.objects.rows, o.id = o'.id ∧
      o.bucketId = o'.bucketId) ∨ ∀ p ∈ db.objects.rows, p.id ≠ o'.id) : LiesIn db' g := by
  obtain ⟨b, hb, hid, hcompany⟩ := h.bucket
  obtain ⟨b', hb', hid', hcompany'⟩ := hbuckets b hb
  refine ⟨⟨b', hb', hid'.trans hid, hcompany'.trans hcompany⟩, fun o' ho' href => ?_⟩
  rcases hobjects o' ho' with ⟨o, ho, hsame, hbucketId⟩ | hfresh
  · rw [← hbucketId]
    exact h.object o ho (href.trans (congrArg some hsame.symm))
  · -- a grant never refers to an object that is not there
    have hreferences := db.grantObject g hg
    rw [href] at hreferences
    obtain ⟨p, hp, hid⟩ := hreferences
    exact absurd hid (hfresh p hp)

theorem WellPlaced.of_same {db db' : Database} (h : WellPlaced db)
    (hbuckets : ∀ b ∈ db.buckets.rows, ∃ b' ∈ db'.buckets.rows,
      b'.id = b.id ∧ b'.companyId = b.companyId)
    (hobjects : ∀ o ∈ db'.objects.rows, o ∈ db.objects.rows)
    (hgrants : ∀ g ∈ db'.grants.rows, g ∈ db.grants.rows) : WellPlaced db' where
  grants g hg := (h.grants g (hgrants g hg)).of_kept (hgrants g hg) hbuckets
    fun o ho => .inl ⟨o, hobjects o ho, rfl, rfl⟩
  framed o ho := h.framed o (hobjects o ho)

theorem buckets_of_eq {db db' : Database} (h : db'.buckets = db.buckets) :
    ∀ b ∈ db.buckets.rows, ∃ b' ∈ db'.buckets.rows, b'.id = b.id ∧ b'.companyId = b.companyId := by
  rw [h]
  exact fun b hb => ⟨b, hb, rfl, rfl⟩

theorem fresh_of_append {db db' : Database} {obj : StorageObject}
    (h : db'.objects.rows = db.objects.rows ++ [obj]) : ∀ p ∈ db.objects.rows, p.id ≠ obj.id := by
  intro p hp hid
  have hunique := db'.objects.unique
  rw [h, List.pairwise_append] at hunique
  exact hunique.2.2 p hp obj (List.mem_singleton_self obj) (.inl hid)

theorem WellPlaced.of_created {db db' : Database} (h : WellPlaced db) {obj : StorageObject}
    {new : List GrantRow} (hbuckets : db'.buckets = db.buckets)
    (hobjects : db'.objects.rows = db.objects.rows ++ [obj])
    (hgrants : db'.grants.rows = db.grants.rows ++ new) (hframed : Framed obj.name)
    (hnew : ∀ g ∈ new, LiesIn db' g) : WellPlaced db' := by
  have hfresh := fresh_of_append hobjects
  constructor
  · rw [hgrants, List.forall_mem_append]
    refine ⟨fun g hg => (h.grants g hg).of_kept hg (buckets_of_eq hbuckets) fun o ho => ?_, hnew⟩
    rw [hobjects, List.mem_append, List.mem_singleton] at ho
    rcases ho with ho | rfl
    · exact .inl ⟨o, ho, rfl, rfl⟩
    · exact .inr hfresh
  · rw [hobjects, List.forall_mem_append, List.forall_mem_singleton]
    exact ⟨h.framed, hframed⟩

theorem WellPlaced.of_rewritten {db db' : Database} (h : WellPlaced db)
    {f : StorageObject → StorageObject} (hf : ∀ o ∈ db.objects.rows, (f o).id = o.id ∧
      (f o).bucketId = o.bucketId ∧ Framed (f o).name)
    (hbuckets : db'.buckets = db.buckets) (hobjects : db'.objects.rows = db.objects.rows.map f)
    (hgrants : db'.grants = db.grants) : WellPlaced db' := by
  constructor
  · rw [hgrants]
    refine fun g hg => (h.grants g hg).of_kept hg (buckets_of_eq hbuckets) fun o ho => ?_
    rw [hobjects] at ho
    obtain ⟨p, hp, rfl⟩ := List.mem_map.mp ho
    exact .inl ⟨p, hp, (hf p hp).1.symm, (hf p hp).2.1.symm⟩
  · rw [hobjects, List.forall_mem_map]
    exact fun o ho => (hf o ho).2.2

/-- An object that is moved takes its grants along. -/
theorem WellPlaced.of_moved {bucket destBucket : Bucket} {name : Text} {obj : StorageObject}
    (h : WellPlaced s.db) (hbucket : bucket ∈ s.db.buckets.rows)
    (hdest : destBucket ∈ s.db.buckets.rows) (hobj : obj ∈ s.db.objects.rows)
    (hin : obj.bucketId = bucket.id) (hname : Framed name)
    (hrewrote : Rewrote (Database.changed obj.id (relocated destBucket.id name s.out.now)) s s')
    (hgrants : s'.db.grants = s.db.grants ∧ bucket.id = destBucket.id ∨
      s'.db.grants.rows = s.db.grants.rows.map (Database.rebucket obj.id destBucket.id) ∧
        bucket.companyId = destBucket.companyId) : WellPlaced s'.db := by
  have hrows : ∀ o ∈ s'.db.objects.rows, o.id ≠ obj.id ∧ o ∈ s.db.objects.rows ∨
      o.id = obj.id ∧ o.bucketId = destBucket.id ∧ o.name = name := by
    intro o ho
    rw [hrewrote.objects] at ho
    obtain ⟨p, hp, rfl⟩ := List.mem_map.mp ho
    by_cases hid : p.id = obj.id
    · right
      simp [Database.changed, hid, relocated]
    · left
      rw [Database.changed_of_ne hid]
      exact ⟨hid, hp⟩
  have hframed : ∀ o ∈ s'.db.objects.rows, Framed o.name := by
    intro o ho
    rcases hrows o ho with ⟨-, hold⟩ | ⟨-, -, rfl⟩
    · exact h.framed o hold
    · exact hname
  refine ⟨fun g hg => ?_, hframed⟩
  rcases hgrants with ⟨hgrants, hsame⟩ | ⟨hgrants, hcompany⟩
  · rw [hgrants] at hg
    refine (h.grants g hg).of_kept hg (buckets_of_eq hrewrote.buckets) fun o ho => ?_
    rcases hrows o ho with ⟨-, hold⟩ | ⟨hid, hbucketId, -⟩
    · exact .inl ⟨o, hold, rfl, rfl⟩
    · exact .inl ⟨obj, hobj, hid.symm, by rw [hin, hbucketId, hsame]⟩
  · rw [hgrants] at hg
    obtain ⟨old, hold, rfl⟩ := List.mem_map.mp hg
    obtain ⟨⟨b, hb, hid, hbcompany⟩, hobject⟩ := h.grants old hold
    by_cases hattached : old.resource.object? = some obj.id
    · -- its grants follow it, within the company
      have hold' : b = bucket := by
        apply Database.bucket_eq_of_id hb hbucket
        rw [hid, ← hobject obj hobj hattached, hin]
      subst hold'
      refine ⟨⟨destBucket, ?_, ?_, ?_⟩, fun o ho href => ?_⟩
      · rwa [hrewrote.buckets]
      · simp [Database.rebucket, hattached]
      · simp [Database.rebucket, hattached, ← hcompany, hbcompany]
      · rw [Database.rebucket_resource, hattached, Option.some.injEq] at href
        rcases hrows o ho with ⟨hne, -⟩ | ⟨-, hbucketId, -⟩
        · exact absurd href.symm hne
        · simp [Database.rebucket, hattached, hbucketId]
    · have hself : Database.rebucket obj.id destBucket.id old = old := by
        simp [Database.rebucket, hattached]
      rw [hself]
      refine ⟨⟨b, by rwa [hrewrote.buckets], hid, hbcompany⟩, fun o ho href => ?_⟩
      rcases hrows o ho with ⟨-, hmem⟩ | ⟨hoid, -, -⟩
      · exact hobject o hmem href
      · exact absurd (hoid ▸ href) hattached

theorem WellPlaced.change {op : Operation} (hs : WellPlaced s.db) (loaded : op.Loaded w.db)
    (h : Change env w op s s') : WellPlaced s'.db := by
  cases h with
  | kept h =>
      exact hs.of_same (buckets_of_eq h.buckets) (by rw [h.objects]; exact fun _ => id)
        (by rw [h.grants]; exact fun _ => id)
  | provisioned h =>
      refine hs.of_same (fun b hb => ?_) (by rw [h.objects]; exact fun _ => id)
        (by rw [h.grants]; exact fun _ => id)
      obtain ⟨b', hb', hid, hcompany, -⟩ := h.kept b hb
      exact ⟨b', hb', hid, hcompany⟩
  | bucketAdded _ buckets objects grants =>
      refine hs.of_same (fun b hb => ⟨b, ?_, rfl, rfl⟩) (by rw [objects]; exact fun _ => id)
        (by rw [grants]; exact fun _ => id)
      rw [buckets]
      exact List.mem_append_left _ hb
  | @created _ bucket ownerId obj _ new asked free place buckets objects grants granted =>
      refine hs.of_created buckets objects grants asked.canonical.framed fun g hg => ?_
      obtain ⟨-, hon⟩ := granted g hg
      refine ⟨⟨bucket, ?_, ?_, ?_⟩, fun o ho href => ?_⟩
      · rw [buckets]
        exact asked.loaded loaded
      · rw [hon.bucketId, place.1]
      · rw [hon.companyId, place.2]
      · rw [hon.resource, ownResource_object?, Option.some.injEq] at href
        rw [objects, List.mem_append, List.mem_singleton] at ho
        rcases ho with ho | rfl
        · exact absurd href.symm (fresh_of_append objects o ho)
        · rw [hon.bucketId]
  | @marked _ bucket folderPath obj _ _ asked name place buckets objects grants =>
      have hnone : s'.db.grants.rows = s.db.grants.rows ++ [] := by simp [grants]
      refine hs.of_created buckets objects hnone ?_ (by simp)
      rw [name]
      exact framed_folderPlaceholderPath folderPath
  | @overwrote u existing obj _ found same buckets objects grants =>
      refine hs.of_rewritten (fun o ho => ?_) buckets objects grants
      by_cases hid : o.id = existing.id
      · obtain rfl := Database.object_eq_of_id ho found hid
        simp only [Database.changed, if_true, same, true_and]
        exact hs.framed o ho
      · rw [Database.changed_of_ne hid]
        exact ⟨rfl, rfl, hs.framed o ho⟩
  | removed h =>
      exact hs.of_same (buckets_of_eq h.buckets) (fun o ho => ((h.objects o).mp ho).1)
        fun g hg => ((h.grants g).mp hg).1
  | @renamed bucket source dest src dst _ _ named _ h grants =>
      refine hs.of_rewritten (fun o ho => ?_) h.buckets h.objects grants
      have hdst := canonical_of_safeObjectPath named
      unfold renamedRow
      split
      · rename_i hinside
        refine ⟨rfl, rfl, (hs.framed o ho).renamedPath hinside.2 ?_⟩
        rw [hdst.stripSlash_eq]
        exact hdst.slashFree
      · exact ⟨rfl, rfl, hs.framed o ho⟩
  | moved _ named found _ h grants =>
      obtain ⟨hobj, hin, -⟩ := Database.objectNamed_eq_some found
      exact hs.of_moved loaded.1 loaded.2 hobj hin
        (canonical_of_safeObjectPath named).framed h grants
  | @granted principal data fields bucket resource id now s₁ _ _ read resolved _ same names h =>
      have hbucket : bucket ∈ s.db.buckets.rows := by
        rw [same]
        exact List.mem_of_find?_eq_some resolved.found
      have hobjects : ∀ o ∈ s'.db.objects.rows, o ∈ s.db.objects.rows := by
        rw [h.objects]
        exact fun o ho => ho
      refine ⟨?_, fun o ho => hs.framed o (hobjects o ho)⟩
      rw [h.grants, List.forall_mem_append, List.forall_mem_singleton]
      refine ⟨fun g hg => (hs.grants g hg).of_kept hg (buckets_of_eq h.buckets)
        fun o ho => .inl ⟨o, hobjects o ho, rfl, rfl⟩, ⟨bucket, ?_, rfl, rfl⟩, fun o ho href => ?_⟩
      · rwa [h.buckets]
      · -- the request names an object of its bucket
        unfold GrantFields.Names at names
        have hnamed : ∃ p ∈ s.db.objects.rows, p.bucketId = bucket.id ∧ some p.id = some o.id := by
          change resource.object? = some o.id at href
          split at names
          · rw [names] at href
            contradiction
          · obtain ⟨p, hp, hbucketId, rfl⟩ := names
            exact ⟨p, hp, hbucketId, href⟩
          · obtain ⟨p, hp, hbucketId, -, rfl⟩ := names
            exact ⟨p, hp, hbucketId, href⟩
        obtain ⟨p, hp, hbucketId, hid⟩ := hnamed
        rw [← Database.object_eq_of_id hp (hobjects o ho) (Option.some.inj hid)]
        exact hbucketId
  | ungranted buckets objects grants =>
      refine hs.of_same (buckets_of_eq buckets) (by rw [objects]; exact fun _ => id) ?_
      rw [grants]
      exact fun g hg => (List.mem_filter.mp hg).1

theorem Reachable.wellPlaced (henv : env.Lawful) (h : Reachable env w) : WellPlaced w.db := by
  have hinitial : WellPlaced (World.initial env.engine).db := by
    constructor <;> simp [World.initial, Database.empty]
  refine (GuardedRun.of_reachable h).invariant (P := fun w => WellPlaced w.db) henv ?_ ?_ hinitial
  · intro w w' hdb _ h
    rwa [hdb]
  · intro w s s' op loaded _ _ hs hchange _
    exact hs.change loaded hchange

end StorageService.Storage
