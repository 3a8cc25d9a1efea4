import StorageService.Storage.Canonical
import StorageService.Storage.Effects

/-!
# Renaming a folder there and back

A successful rename replaces the folder at the front of each name below it and
touches no other name.  As nothing lay at the destination before, the objects there
are just the renamed ones, so the way back is free.
-/

namespace StorageService.Results

open StorageService.Foundation
open StorageService.Foundation.Action
open StorageService.Storage

section Renaming

structure RenamedExactly (s : World) (bucket : Bucket) (src dst : Text)
    (f : StorageObject → StorageObject) (s' : World) : Prop where
  objects : s'.db.objects.rows = s.db.objects.rows.map f
  below : ∀ o ∈ s.db.objects.rows, o.bucketId = bucket.id → ∀ rest,
    o.name = src ++ '/' :: rest →
      f o = { o with name := dst ++ '/' :: rest, updatedAt := (f o).updatedAt }
  others : ∀ o ∈ s.db.objects.rows,
    ¬(o.bucketId = bucket.id ∧ ∃ rest, o.name = src ++ '/' :: rest) → f o = o
  unique : ∀ a ∈ s'.db.objects.rows, ∀ b ∈ s'.db.objects.rows,
    a.bucketId = b.bucketId → a.name = b.name → a = b
  buckets : s'.db.buckets = s.db.buckets
  grants : s'.db.grants = s.db.grants
  companyQuotas : s'.db.companyQuotas = s.db.companyQuotas
  userQuotas : s'.db.userQuotas = s.db.userQuotas
  blobs : s'.out.blobs = s.out.blobs
  engine : s'.db.engine = s.db.engine

def placed (db : Database) : List (UUID × UUID × Text) :=
  db.objects.rows.map fun o => (o.id, o.bucketId, o.name)

def RenamesBack (s : World) (bucket : Bucket) (src dst : Text) (s' : World) : Prop :=
  ∀ back there s₁, safeObjectPath back = .ok dst → safeObjectPath there = .ok src →
    s₁.db = s'.db → s₁.out.fault = none →
    ∃ result s₂, (renameFolder bucket back there).Runs s₁ result s₂ ∧
      placed s₂.db = placed s.db ∧ s₂.db.grants = s.db.grants

variable {s s' : World} {bucket : Bucket} {src dst : Text}

/-! ## Names -/

theorem renamedPath_below (src dst rest : Text) :
    renamedPath src dst (src ++ '/' :: rest) = dst ++ '/' :: rest := by
  rw [renamedPath, List.drop_left]

theorem below_iff {name : Text} :
    src ++ ['/'] <+: name ↔ ∃ rest, name = src ++ '/' :: rest := by
  constructor
  · rintro ⟨rest, rfl⟩
    exact ⟨rest, by simp⟩
  · rintro ⟨rest, rfl⟩
    exact ⟨rest, by simp⟩

theorem renamedPath_injOn {name name' : Text} (h : src ++ ['/'] <+: name)
    (h' : src ++ ['/'] <+: name') (heq : renamedPath src dst name = renamedPath src dst name') :
    name = name' := by
  obtain ⟨rest, rfl⟩ := below_iff.mp h
  obtain ⟨rest', rfl⟩ := below_iff.mp h'
  rw [renamedPath_below, renamedPath_below, List.append_cancel_left_eq] at heq
  rw [heq]

/-- Two folders neither of which is the other or lies in it have no name below them in common. -/
theorem not_below_both {name : Text} (hne : src ≠ dst) (hsrc : ¬src ++ ['/'] <+: dst)
    (hdst : ¬dst ++ ['/'] <+: src) (h : src ++ ['/'] <+: name) : ¬dst ++ ['/'] <+: name := by
  intro h'
  have hslash : ∀ {a b : Text}, a ++ ['/'] <+: b ++ ['/'] → a = b ∨ a ++ ['/'] <+: b := by
    intro a b hab
    rcases List.prefix_concat_iff.mp hab with heq | hlt
    · exact .inl (List.append_cancel_right heq)
    · exact .inr hlt
  rcases List.prefix_or_prefix_of_prefix h h' with hle | hle
  · exact (hslash hle).elim hne hsrc
  · exact (hslash hle).elim (fun heq => hne heq.symm) hdst

/-! ## When a rename goes through -/

theorem visit_of_no_fault {out : Outside} (h : out.fault = none) (p : Point) :
    out.visit p = some out := by
  rw [Outside.visit, h]

theorem updateObject_isSome (db : Database) (id : UUID) {f : StorageObject → StorageObject}
    (hbucket : ∀ o, (f o).bucketId = o.bucketId)
    (hfree : ∀ o ∈ db.objects.rows, o.id = id → ∀ p ∈ db.objects.rows,
      p.bucketId = o.bucketId → p.name = (f o).name → p.id = id) :
    ∃ db', db.updateObject id f = some db' := by
  have hrewritable : db.objects.Rewritable (Database.changed id f) := by
    rw [Table.Rewritable, List.pairwise_map]
    refine db.objects.unique.imp_of_mem fun {a b} ha hb hab hclash => ?_
    rw [StorageObject.Clash, Database.changed_id, Database.changed_id] at hclash
    rcases hclash with hid | ⟨hsame, hname⟩
    · exact hab (.inl hid)
    · by_cases haid : a.id = id
      · by_cases hbid : b.id = id
        · exact hab (.inl (haid.trans hbid.symm))
        · simp only [Database.changed, haid, hbid, if_true, if_false, hbucket] at hsame hname
          exact hbid (hfree a ha haid b hb hsame.symm hname.symm)
      · by_cases hbid : b.id = id
        · simp only [Database.changed, haid, hbid, if_true, if_false, hbucket] at hsame hname
          exact haid (hfree b hb hbid a ha hsame hname)
        · simp only [Database.changed, haid, hbid, if_false] at hsame hname
          exact hab (.inr ⟨hsame, hname⟩)
  have hbuckets : ∀ o ∈ db.objects.rows.map (Database.changed id f),
      ∃ b ∈ db.buckets.rows, b.id = o.bucketId := by
    intro o ho
    obtain ⟨p, hp, rfl⟩ := List.mem_map.mp ho
    have hsame : (Database.changed id f p).bucketId = p.bucketId := by
      by_cases hid : p.id = id <;> simp [Database.changed, hid, hbucket]
    rw [hsame]
    exact db.objectBucket p hp
  rw [Database.updateObject, dif_pos ⟨hrewritable, hbuckets⟩]
  exact ⟨_, rfl⟩

theorem renameOne_runs {obj : StorageObject} (hfault : s.out.fault = none)
    (hobj : obj ∈ s.db.objects.rows) (hbucket : obj.bucketId = bucket.id)
    (hfree : ∀ o ∈ s.db.objects.rows, o.bucketId = bucket.id →
      o.name = renamedPath src dst obj.name → o.id = obj.id) :
    ∃ s', (renameOne bucket src dst obj).Runs s () s' ∧ s'.out.fault = none := by
  by_cases hbelow : src ++ ['/'] <+: obj.name
  · obtain ⟨db', hdb'⟩ := updateObject_isSome s.db obj.id
      (f := fun o => { o with
        name := renamedPath src dst obj.name, updatedAt := s.out.now }) (fun _ => rfl)
      fun o ho hid p hp hsame hname => by
        rw [Database.object_eq_of_id ho hobj hid, hbucket] at hsame
        exact hfree p hp hsame hname
    refine ⟨⟨db', s.out⟩, ?_, hfault⟩
    rw [renameOne, if_neg (not_not.mpr hbelow)]
    simp only [runs_bind, runs_database, runs_ensure, runs_outside, runs_execute]
    exact ⟨_, s, ⟨rfl, rfl⟩, (), s, ⟨fun o ho h => hfree o ho h.1 h.2, rfl⟩, _, s, ⟨rfl, rfl⟩,
      s.out, db', visit_of_no_fault hfault _, hdb', rfl⟩
  · refine ⟨s, ?_, hfault⟩
    rw [renameOne, if_pos hbelow]
    exact runs_pure.mpr ⟨rfl, rfl⟩

/-- The loop gets through when no object has a name that one of `objs` is to get. -/
theorem forEach_renameOne_runs {objs : List StorageObject} (hfault : s.out.fault = none)
    (hobjs : ∀ o ∈ objs, o ∈ s.db.objects.rows ∧ o.bucketId = bucket.id ∧
      src ++ ['/'] <+: o.name)
    (hnodup : (objs.map StorageObject.id).Nodup)
    (hfree : ∀ obj ∈ objs, ∀ o ∈ s.db.objects.rows, o.bucketId = bucket.id →
      o.name = renamedPath src dst obj.name → o.id = obj.id) :
    ∃ s', (forEach (renameOne bucket src dst) objs).Runs s () s' := by
  induction objs generalizing s with
  | nil => exact ⟨s, runs_forEach_nil.mpr rfl⟩
  | cons obj objs ih =>
      rw [List.forall_mem_cons] at hobjs hfree
      rw [List.map_cons, List.nodup_cons] at hnodup
      obtain ⟨⟨hrow, hbucket, hbelow⟩, hrest⟩ := hobjs
      obtain ⟨s₁, hfirst, hfault₁⟩ := renameOne_runs hfault hrow hbucket hfree.1
      have hrewrote := (runs_renameOne hrow hfirst).1
      have hother : ∀ o ∈ objs, o.id ≠ obj.id := fun o ho hid =>
        hnodup.1 (List.mem_map.mpr ⟨o, ho, hid⟩)
      have hkept : ∀ o, o.id ≠ obj.id → renameAmong [obj] src dst s.out.now o = o := by
        intro o hid
        simp [renameAmong, Ne.symm hid]
      have hrest₁ : ∀ o ∈ objs, o ∈ s₁.db.objects.rows ∧ o.bucketId = bucket.id ∧
          src ++ ['/'] <+: o.name := by
        intro o ho
        obtain ⟨horow, hinside⟩ := hrest o ho
        refine ⟨?_, hinside⟩
        rw [hrewrote.objects]
        exact List.mem_map.mpr ⟨o, horow, hkept o (hother o ho)⟩
      have hfree₁ : ∀ x ∈ objs, ∀ o ∈ s₁.db.objects.rows, o.bucketId = bucket.id →
          o.name = renamedPath src dst x.name → o.id = x.id := by
        intro x hx o ho hobucket honame
        rw [hrewrote.objects] at ho
        obtain ⟨p, hp, rfl⟩ := List.mem_map.mp ho
        by_cases hid : p.id = obj.id
        · -- the row just renamed has its new name to itself
          have hrenamed : (renameAmong [obj] src dst s.out.now p).name =
              renamedPath src dst obj.name := by
            rw [Database.object_eq_of_id hp hrow hid]
            simp [renameAmong, hbelow]
          rw [hrenamed] at honame
          obtain ⟨hxrow, hxbucket, hxbelow⟩ := hrest x hx
          have hname : obj.name = x.name := renamedPath_injOn hbelow hxbelow honame
          have hsame : obj = x :=
            s.db.objects.eq_of_clash hrow hxrow (.inr ⟨hbucket.trans hxbucket.symm, hname⟩)
          exact absurd (congrArg StorageObject.id hsame.symm) (hother x hx)
        · rw [hkept p hid] at hobucket honame ⊢
          exact hfree.2 x hx p hp hobucket honame
      obtain ⟨s', hloop⟩ := ih hfault₁ hrest₁ hnodup.2 hfree₁
      exact ⟨s', runs_forEach_cons.mpr ⟨s₁, hfirst, hloop⟩⟩

/-! ## The checks of the operation -/

structure MayRename (db : Database) (bucket : Bucket) (src dst : Text) : Prop where
  ne : src ≠ dst
  outside : ¬src ++ ['/'] <+: dst
  stored : objectsUnderPrefix db bucket src ≠ []
  vacant : objectsUnderPrefix db bucket dst = []
  free : db.objectNamed bucket.id dst = none

theorem mem_objectsUnderPrefix_of_below {db : Database} {o : StorageObject} (h : Canonical src)
    (ho : o ∈ db.objects.rows) (hbucket : o.bucketId = bucket.id)
    (hbelow : src ++ ['/'] <+: o.name) : o ∈ objectsUnderPrefix db bucket src := by
  rw [objectsUnderPrefix, prefixFilter, h.stripSlash_eq, if_neg h.ne_nil]
  exact Database.mem_objectsStartingWith_of_isPrefix ho hbucket hbelow

theorem mem_objectsUnderPrefix_canonical {db : Database} {o : StorageObject}
    (hengine : db.engine = .postgresql) (h : Canonical src) :
    o ∈ objectsUnderPrefix db bucket src ↔
      o ∈ db.objects.rows ∧ o.bucketId = bucket.id ∧ src ++ ['/'] <+: o.name := by
  rw [objectsUnderPrefix, prefixFilter, h.stripSlash_eq, if_neg h.ne_nil,
    Database.mem_objectsStartingWith, hengine, Engine.startsWith_postgresql]

def deepestFirst (db : Database) (bucket : Bucket) (src : Text) : List StorageObject :=
  (objectsUnderPrefix db bucket src).insertionSort fun a b => b.name.count '/' ≤ a.name.count '/'

theorem runs_renameFolder_iff {sourcePath destPath : Text}
    (hsource : safeObjectPath sourcePath = .ok src) (hdest : safeObjectPath destPath = .ok dst) :
    (∃ result, (renameFolder bucket sourcePath destPath).Runs s result s') ↔
      src = dst ∧ s' = s ∨ MayRename s.db bucket src dst ∧
        (forEach (renameOne bucket src dst) (deepestFirst s.db bucket src)).Runs s () s' := by
  have hsrc := canonical_of_safeObjectPath hsource
  have hdst := canonical_of_safeObjectPath hdest
  simp only [renameFolder, hsource, hdest, runs_atomic, runs_bind, runs_ofExcept, runs_ensure,
    Except.ok.injEq, and_assoc, exists_and_left, exists_eq_left', exists_eq_left,
    hsrc.stripSlash_eq, hdst.stripSlash_eq, runs_ite, runs_database, runs_pure, exists_unit]
  constructor
  · rintro ⟨-, -, result, ⟨hsame, -, rfl⟩ | ⟨hne, houtside, hsome, hnone, hfree, s₁, hloop, -, rfl⟩⟩
    · exact .inl ⟨hsame, rfl⟩
    · exact .inr ⟨⟨hne, houtside, hsome, hnone, hfree⟩, hloop⟩
  · rintro (⟨hsame, rfl⟩ | ⟨⟨hne, houtside, hsome, hnone, hfree⟩, hloop⟩)
    · exact ⟨hsrc.ne_nil, hdst.ne_nil, _, .inl ⟨hsame, rfl, rfl⟩⟩
    · exact ⟨hsrc.ne_nil, hdst.ne_nil, _,
        .inr ⟨hne, houtside, hsome, hnone, hfree, s', hloop, rfl, rfl⟩⟩

theorem fails_renameFolder {sourcePath destPath : Text}
    (h : (renameFolder bucket sourcePath destPath).Fails s s') : s'.db = s.db := by
  rw [renameFolder, fails_atomic] at h
  obtain ⟨s₁, -, rfl⟩ := h
  rfl

theorem MayRename.runs (h : MayRename s.db bucket src dst) (hengine : s.db.engine = .postgresql)
    (hsrc : Canonical src) (hdst : Canonical dst) (hfault : s.out.fault = none) :
    ∃ s', (forEach (renameOne bucket src dst) (deepestFirst s.db bucket src)).Runs s () s' := by
  have hmem : ∀ o, o ∈ deepestFirst s.db bucket src ↔ o ∈ s.db.objects.rows ∧
      o.bucketId = bucket.id ∧ src ++ ['/'] <+: o.name := by
    intro o
    rw [deepestFirst, List.mem_insertionSort, mem_objectsUnderPrefix_canonical hengine hsrc]
  have hnodup : ((deepestFirst s.db bucket src).map StorageObject.id).Nodup := by
    rw [deepestFirst, ((List.perm_insertionSort _ _).map _).nodup_iff]
    exact s.db.objectIds_nodup.sublist (List.filter_sublist.map _)
  refine forEach_renameOne_runs hfault (fun o ho => (hmem o).mp ho) hnodup ?_
  -- a name that an object is to get lies below the destination, where there is none
  intro obj hobj o ho hobucket honame
  obtain ⟨rest, hrest⟩ := below_iff.mp ((hmem obj).mp hobj).2.2
  rw [hrest, renamedPath_below] at honame
  have hthere : o ∈ objectsUnderPrefix s.db bucket dst :=
    mem_objectsUnderPrefix_of_below hdst ho hobucket (below_iff.mpr ⟨rest, honame⟩)
  rw [h.vacant] at hthere
  contradiction

/-! ## What a rename does -/

theorem renamedRow_below {now : Time} {o : StorageObject} {rest : Text}
    (hbucket : o.bucketId = bucket.id) (hname : o.name = src ++ '/' :: rest) :
    renamedRow bucket.id src dst now o =
      { o with name := dst ++ '/' :: rest, updatedAt := now } := by
  rw [renamedRow, if_pos ⟨hbucket, below_iff.mpr ⟨rest, hname⟩⟩, hname, renamedPath_below]

theorem renamedRow_other {now : Time} {o : StorageObject}
    (h : ¬(o.bucketId = bucket.id ∧ src ++ ['/'] <+: o.name)) :
    renamedRow bucket.id src dst now o = o := by
  rw [renamedRow, if_neg h]

theorem renamedExactly_of_rewrote {f : StorageObject → StorageObject}
    (hgrants : s'.db.grants = s.db.grants) (h : Rewrote f s s')
    (hbelow : ∀ o ∈ s.db.objects.rows, o.bucketId = bucket.id → ∀ rest,
      o.name = src ++ '/' :: rest →
        f o = { o with name := dst ++ '/' :: rest, updatedAt := (f o).updatedAt })
    (hothers : ∀ o ∈ s.db.objects.rows,
      ¬(o.bucketId = bucket.id ∧ ∃ rest, o.name = src ++ '/' :: rest) → f o = o) :
    RenamedExactly s bucket src dst f s' where
  objects := h.objects
  below := hbelow
  others := hothers
  unique _ ha _ hb hsame hname := s'.db.objects.eq_of_clash ha hb (.inr ⟨hsame, hname⟩)
  buckets := h.buckets
  grants := hgrants
  companyQuotas := h.companyQuotas
  userQuotas := h.userQuotas
  blobs := h.blobs
  engine := h.engine

theorem runs_renameFolder_exactly {sourcePath destPath : Text} {result : RenameResult}
    (hsource : safeObjectPath sourcePath = .ok src) (hdest : safeObjectPath destPath = .ok dst)
    (h : (renameFolder bucket sourcePath destPath).Runs s result s') :
    ∃ f, RenamedExactly s bucket src dst f s' ∧
      (src = dst ∧ f = id ∨ MayRename s.db bucket src dst ∧
        f = renamedRow bucket.id src dst s.out.now) := by
  have hsrc := (canonical_of_safeObjectPath hsource).stripSlash_eq
  have hdst := (canonical_of_safeObjectPath hdest).stripSlash_eq
  obtain ⟨source, dest, hsource', hdest', hgrants, hcases⟩ := renameFolder_rewrote h
  obtain rfl : src = source := Except.ok.inj (hsource.symm.trans hsource')
  obtain rfl : dst = dest := Except.ok.inj (hdest.symm.trans hdest')
  rw [hsrc, hdst] at hcases
  rcases (runs_renameFolder_iff hsource hdest).mp ⟨result, h⟩ with ⟨rfl, rfl⟩ | ⟨hmay, -⟩
  · refine ⟨id, renamedExactly_of_rewrote rfl (.refl s') (fun o _ _ rest hname => ?_)
      fun _ _ _ => rfl, .inl ⟨rfl, rfl⟩⟩
    rw [← hname]
    rfl
  · obtain ⟨hsame, -⟩ | ⟨-, -, hrewrote⟩ := hcases
    · exact absurd hsame hmay.ne
    · refine ⟨_, renamedExactly_of_rewrote hgrants hrewrote (fun o _ hbucket rest hname => ?_)
        (fun o _ hnot => ?_), .inr ⟨hmay, rfl⟩⟩
      · rw [renamedRow_below hbucket hname]
      · refine renamedRow_other fun hinside => hnot ⟨hinside.1, below_iff.mp hinside.2⟩

/-! ## The way back -/

theorem mem_of_objectNamed_none {db : Database} {bucketId : UUID} {name : Text} :
    db.objectNamed bucketId name = none ↔
      ∀ o ∈ db.objects.rows, o.bucketId = bucketId → o.name ≠ name := by
  simp [Database.objectNamed, List.find?_eq_none]

/-- After the rename the way back is free, if it was no object that bore the folder's name. -/
theorem MayRename.back {now : Time} {db : Database} (h : MayRename s.db bucket src dst)
    (hengine : s.db.engine = .postgresql) (hkept : db.engine = s.db.engine)
    (hsrc : Canonical src) (hdst : Canonical dst) (hfree : s.db.objectNamed bucket.id src = none)
    (hrows : db.objects.rows = s.db.objects.rows.map (renamedRow bucket.id src dst now)) :
    MayRename db bucket dst src := by
  have hback : ¬dst ++ ['/'] <+: src := by
    intro hinside
    obtain ⟨o, ho⟩ := List.exists_mem_of_ne_nil _ h.stored
    obtain ⟨hrow, hbucket, hbelow⟩ := (mem_objectsUnderPrefix_canonical hengine hsrc).mp ho
    have hthere : o ∈ objectsUnderPrefix s.db bucket dst :=
      mem_objectsUnderPrefix_of_below hdst hrow hbucket
        (hinside.trans ((List.prefix_append src ['/']).trans hbelow))
    rw [h.vacant] at hthere
    contradiction
  refine ⟨h.ne.symm, hback, ?_, ?_, ?_⟩
  · obtain ⟨o, ho⟩ := List.exists_mem_of_ne_nil _ h.stored
    obtain ⟨hrow, hbucket, hbelow⟩ := (mem_objectsUnderPrefix_canonical hengine hsrc).mp ho
    obtain ⟨rest, hrest⟩ := below_iff.mp hbelow
    have hrenamed := List.mem_map_of_mem (f := renamedRow bucket.id src dst now) hrow
    have hthere : renamedRow bucket.id src dst now o ∈ objectsUnderPrefix db bucket dst := by
      refine mem_objectsUnderPrefix_of_below hdst (hrows ▸ hrenamed) ?_ ?_
      · rw [renamedRow_below hbucket hrest]
        exact hbucket
      · rw [renamedRow_below hbucket hrest]
        exact below_iff.mpr ⟨rest, rfl⟩
    exact List.ne_nil_of_mem hthere
  · refine List.eq_nil_iff_forall_not_mem.mpr fun p hp => ?_
    rw [mem_objectsUnderPrefix_canonical (hkept.trans hengine) hsrc, hrows, List.mem_map] at hp
    obtain ⟨⟨o, ho, rfl⟩, hbucket, hbelow⟩ := hp
    by_cases hinside : o.bucketId = bucket.id ∧ src ++ ['/'] <+: o.name
    · obtain ⟨rest, hrest⟩ := below_iff.mp hinside.2
      rw [renamedRow_below hinside.1 hrest] at hbelow
      exact not_below_both h.ne h.outside hback hbelow (below_iff.mpr ⟨rest, rfl⟩)
    · rw [renamedRow_other hinside] at hbucket hbelow
      exact hinside ⟨hbucket, hbelow⟩
  · rw [mem_of_objectNamed_none] at hfree ⊢
    intro p hp hbucket hname
    rw [hrows, List.mem_map] at hp
    obtain ⟨o, ho, rfl⟩ := hp
    by_cases hinside : o.bucketId = bucket.id ∧ src ++ ['/'] <+: o.name
    · obtain ⟨rest, hrest⟩ := below_iff.mp hinside.2
      rw [renamedRow_below hinside.1 hrest] at hname
      exact hback (below_iff.mpr ⟨rest, hname.symm⟩)
    · rw [renamedRow_other hinside] at hbucket hname
      exact hfree o ho hbucket hname

theorem placed_renamedRow_back (src : Text) (now now' : Time) {o : StorageObject}
    (hother : o.bucketId = bucket.id → ¬dst ++ ['/'] <+: o.name) :
    (renamedRow bucket.id dst src now' (renamedRow bucket.id src dst now o)).id = o.id ∧
      (renamedRow bucket.id dst src now' (renamedRow bucket.id src dst now o)).bucketId =
        o.bucketId ∧
      (renamedRow bucket.id dst src now' (renamedRow bucket.id src dst now o)).name = o.name := by
  by_cases hinside : o.bucketId = bucket.id ∧ src ++ ['/'] <+: o.name
  · obtain ⟨rest, hrest⟩ := below_iff.mp hinside.2
    have hback : renamedRow bucket.id dst src now'
        { o with name := dst ++ '/' :: rest, updatedAt := now } =
          { o with name := src ++ '/' :: rest, updatedAt := now' } :=
      renamedRow_below hinside.1 rfl
    rw [renamedRow_below hinside.1 hrest, hback]
    exact ⟨rfl, rfl, hrest.symm⟩
  · rw [renamedRow_other hinside, renamedRow_other fun h => hother h.1 h.2]
    exact ⟨rfl, rfl, rfl⟩

/--
A rename of a folder is exact, and can be taken back if no object bears the name
of the folder itself and prefix queries tell the case of letters; one that raises
changes nothing.
-/
theorem renameFolder_exact (s : World) (bucket : Bucket) (sourcePath destPath : Text) :
    (∃ s', (renameFolder bucket sourcePath destPath).Fails s s' ∧ s'.db = s.db) ∨
      ∃ src dst result f s', safeObjectPath sourcePath = .ok src ∧
        safeObjectPath destPath = .ok dst ∧
        (renameFolder bucket sourcePath destPath).Runs s result s' ∧
        RenamedExactly s bucket src dst f s' ∧
        (s.db.engine = .postgresql → s.db.objectNamed bucket.id src = none →
          RenamesBack s bucket src dst s') := by
  rcases runs_or_fails (renameFolder bucket sourcePath destPath) s with ⟨result, hrun⟩ | hfail
  · right
    obtain ⟨src, dst, hsource, hdest, -⟩ := renameFolder_rewrote hrun
    obtain ⟨f, hexact, hcases⟩ := runs_renameFolder_exactly hsource hdest hrun
    refine ⟨src, dst, result, f, _, hsource, hdest, hrun, hexact, ?_⟩
    intro hengine hfree back there s₁ hback hthere hdb hfault
    have hsrc := canonical_of_safeObjectPath hsource
    have hdst := canonical_of_safeObjectPath hdest
    rcases hcases with ⟨hsame, hf⟩ | ⟨hmay, hf⟩
    · obtain ⟨result', hrun'⟩ :=
        (runs_renameFolder_iff hback hthere (s := s₁)).mpr (.inl ⟨hsame.symm, rfl⟩)
      refine ⟨result', s₁, hrun', ?_, ?_⟩
      · rw [placed, hdb, hexact.objects, hf, List.map_id]
        rfl
      · rw [hdb, hexact.grants]
    · have hrows := hexact.objects
      rw [hf, ← hdb] at hrows
      have hkept : s₁.db.engine = s.db.engine := by rw [hdb, hexact.engine]
      have hmay' := hmay.back hengine hkept hsrc hdst hfree hrows
      obtain ⟨s₂, hloop⟩ := hmay'.runs (hkept.trans hengine) hdst hsrc hfault
      obtain ⟨result', hrun'⟩ := (runs_renameFolder_iff hback hthere).mpr (.inr ⟨hmay', hloop⟩)
      obtain ⟨g, hexact', ⟨hsame, -⟩ | ⟨-, hg⟩⟩ := runs_renameFolder_exactly hback hthere hrun'
      · exact absurd hsame hmay'.ne
      · refine ⟨result', s₂, hrun', ?_, ?_⟩
        · rw [placed, placed, hexact'.objects, hrows, hg, List.map_map, List.map_map]
          refine List.map_congr_left fun o ho => ?_
          have hother : o.bucketId = bucket.id → ¬dst ++ ['/'] <+: o.name := by
            intro hbucket hbelow
            have hthere := mem_objectsUnderPrefix_of_below hdst ho hbucket hbelow
            rw [hmay.vacant] at hthere
            contradiction
          obtain ⟨hid, hbucket, hname⟩ :=
            placed_renamedRow_back src s.out.now s₁.out.now hother
          rw [Function.comp_apply, Function.comp_apply, hid, hbucket, hname]
        · rw [hexact'.grants, hdb, hexact.grants]
  · exact .inl ⟨_, hfail, fails_renameFolder hfail⟩

end Renaming

end StorageService.Results
