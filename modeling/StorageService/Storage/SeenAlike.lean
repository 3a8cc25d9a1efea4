import StorageService.Foundation.TwoRuns
import StorageService.Storage.Queries
import StorageService.Storage.Tenants

/-!
# Worlds that look the same to a company

Two worlds in which the same belongs to a company, at the same time.  What the
queries of its members find, and what the grants decide about them, is the same
in both: names and ids of its objects and buckets lead to its own rows only.
-/

namespace StorageService.Storage

open StorageService.Foundation
open StorageService.Foundation.Action

variable {env : Env} {companyId : Nat} {w v : World}

structure SeenAlike (env : Env) (companyId : Nat) (w v : World) : Prop where
  tenant : v.tenant companyId = w.tenant companyId
  now : v.out.now = w.out.now
  fault : v.out.fault = w.out.fault
  sound : Sound env w ∧ Sound env v
  placed : WellPlaced w.db ∧ WellPlaced v.db

theorem find?_filter_of_imp {ρ : Type} {p q : ρ → Bool} {rows : List ρ}
    (h : ∀ r ∈ rows, p r = true → q r = true) : (rows.filter q).find? p = rows.find? p := by
  rw [List.find?_filter]
  induction rows with
  | nil => rfl
  | cons r rows ih =>
      rw [List.forall_mem_cons] at h
      rw [List.find?_cons, List.find?_cons, ih h.2]
      cases hp : p r with
      | false => simp
      | true => simp [h.1 hp]

namespace SeenAlike

theorem symm (h : SeenAlike env companyId w v) : SeenAlike env companyId v w where
  tenant := h.tenant.symm
  now := h.now.symm
  fault := h.fault.symm
  sound := h.sound.symm
  placed := h.placed.symm

theorem buckets (h : SeenAlike env companyId w v) :
    (v.tenant companyId).buckets = (w.tenant companyId).buckets :=
  congrArg Tenant.buckets h.tenant

theorem objects (h : SeenAlike env companyId w v) :
    v.db.objectsOf companyId = w.db.objectsOf companyId :=
  congrArg Tenant.objects h.tenant

theorem grants (h : SeenAlike env companyId w v) :
    (v.tenant companyId).grants = (w.tenant companyId).grants :=
  congrArg Tenant.grants h.tenant

theorem bucket_mem (h : SeenAlike env companyId w v) {b : Bucket} (hb : b ∈ w.db.buckets.rows)
    (hcompany : b.companyId = companyId) : b ∈ v.db.buckets.rows := by
  have hmem : b ∈ (w.tenant companyId).buckets :=
    List.mem_filter.mpr ⟨hb, decide_eq_true hcompany⟩
  rw [← h.buckets] at hmem
  exact (List.mem_filter.mp hmem).1

theorem object_mem (h : SeenAlike env companyId w v) {o : StorageObject}
    (ho : o ∈ w.db.objects.rows) (hcompany : o.companyId = companyId) :
    o ∈ v.db.objects.rows := by
  have hmem : o ∈ w.db.objectsOf companyId := Database.mem_objectsOf.mpr ⟨ho, hcompany⟩
  rw [← h.objects] at hmem
  exact (Database.mem_objectsOf.mp hmem).1

/-! ## Queries -/

theorem bucketNamed (h : SeenAlike env companyId w v) (name : Text) :
    v.db.bucketNamed companyId name = w.db.bucketNamed companyId name := by
  have hown : ∀ db : Database, (db.buckets.rows.filter
      fun b => decide (b.companyId = companyId)).find?
        (fun b => decide (b.companyId = companyId ∧ b.name = name)) =
      db.bucketNamed companyId name := fun db =>
    find?_filter_of_imp fun b _ hb => decide_eq_true (of_decide_eq_true hb).1
  rw [← hown, ← hown]
  exact congrArg _ h.buckets

theorem objectNamed (h : SeenAlike env companyId w v) {b : Bucket}
    (hb : b ∈ w.db.buckets.rows) (hcompany : b.companyId = companyId) (name : Text) :
    v.db.objectNamed b.id name = w.db.objectNamed b.id name := by
  have hown : ∀ u : World, Sound env u → b ∈ u.db.buckets.rows →
      (u.db.objectsOf companyId).find? (fun o => decide (o.bucketId = b.id ∧ o.name = name)) =
        u.db.objectNamed b.id name := by
    intro u hu hmem
    refine find?_filter_of_imp fun o ho hfound => decide_eq_true ?_
    rw [hu.company_of_known ho (known_of_mem hmem) (of_decide_eq_true hfound).1, hcompany]
  rw [← hown v h.sound.2 (h.bucket_mem hb hcompany), ← hown w h.sound.1 hb, h.objects]

theorem objectsStartingWith (h : SeenAlike env companyId w v) {b : Bucket}
    (hb : b ∈ w.db.buckets.rows) (hcompany : b.companyId = companyId) (pre : Text) :
    v.db.objectsStartingWith b.id pre = w.db.objectsStartingWith b.id pre := by
  have hown : ∀ u : World, Sound env u → b ∈ u.db.buckets.rows →
      (u.db.objectsOf companyId).filter
          (fun o => decide (o.bucketId = b.id ∧ env.engine.StartsWith pre o.name)) =
        u.db.objectsStartingWith b.id pre := by
    intro u hu hmem
    rw [Database.objectsStartingWith, hu.engine]
    refine filter_filter_of_imp fun o ho hfound => decide_eq_true ?_
    rw [hu.company_of_known ho (known_of_mem hmem) (of_decide_eq_true hfound).1, hcompany]
  rw [← hown v h.sound.2 (h.bucket_mem hb hcompany), ← hown w h.sound.1 hb, h.objects]

theorem lookup (h : SeenAlike env companyId w v) {o : StorageObject}
    (ho : o ∈ w.db.objectsOf companyId) :
    v.out.blobs.lookup o.storageKey = w.out.blobs.lookup o.storageKey := by
  have hspares : Spares companyId w v := h.tenant
  exact hspares.blobs ho

theorem objectById (h : SeenAlike env companyId w v) {id : UUID} {o : StorageObject}
    (hfound : w.db.objectById id = some o) (hcompany : o.companyId = companyId) :
    v.db.objectById id = some o := by
  obtain ⟨hmem, hid⟩ := Database.objectById_eq_some.mp hfound
  exact Database.objectById_eq_some.mpr ⟨h.object_mem hmem hcompany, hid⟩

/-! ## Grants -/

theorem grant_mem (h : SeenAlike env companyId w v) {g : GrantRow}
    (hg : g ∈ w.db.grants.rows) (hcompany : g.companyId = companyId) :
    (∃ b ∈ w.db.buckets.rows, b.id = g.bucketId ∧ b.companyId = companyId) ∧
      ∀ id, g.resource.object? = some id →
        ∃ o ∈ w.db.objects.rows, o.id = id ∧ o.companyId = companyId := by
  obtain ⟨⟨b, hb, hid, hsame⟩, hobject⟩ := h.placed.1.grants g hg
  refine ⟨⟨b, hb, hid, hsame.trans hcompany⟩, fun id href => ?_⟩
  have hreferences := w.db.grantObject g hg
  rw [href] at hreferences
  obtain ⟨o, ho, rfl⟩ := hreferences
  refine ⟨o, ho, rfl, ?_⟩
  rw [← hcompany, ← hsame]
  exact (h.sound.1.company o ho b hb (hid.trans (hobject o ho href).symm)).symm

theorem selectRelated (h : SeenAlike env companyId w v) {g : GrantRow}
    (hg : g ∈ w.db.grants.rows) (hcompany : g.companyId = companyId) :
    v.db.selectRelated g = w.db.selectRelated g := by
  obtain ⟨-, hobject⟩ := h.grant_mem hg hcompany
  have hlookup : ∀ id, g.resource.object? = some id →
      v.db.objectById id = w.db.objectById id := by
    intro id href
    obtain ⟨o, ho, hid, hsame⟩ := hobject id href
    have hfound := Database.objectById_eq_some.mpr ⟨ho, hid⟩
    rw [hfound, h.objectById hfound hsame]
  have hresource : g.resource.lookup v.db.objectById = g.resource.lookup w.db.objectById := by
    cases hres : g.resource with
    | bucket => rfl
    | folder marker => simp only [Resource.lookup, hlookup marker (by rw [hres]; rfl)]
    | object target => simp only [Resource.lookup, hlookup target (by rw [hres]; rfl)]
  rw [Database.selectRelated, Database.selectRelated, hresource]

theorem joinedGrants (h : SeenAlike env companyId w v) :
    (v.db.grants.rows.filter fun g => decide (g.companyId = companyId)).filterMap
        v.db.selectRelated =
      (w.db.grants.rows.filter fun g => decide (g.companyId = companyId)).filterMap
        w.db.selectRelated := by
  have hrows : v.db.grants.rows.filter (fun g => decide (g.companyId = companyId)) =
      w.db.grants.rows.filter fun g => decide (g.companyId = companyId) := h.grants
  rw [hrows]
  apply List.filterMap_congr
  intro g hg
  obtain ⟨hmem, hcompany⟩ := List.mem_filter.mp hg
  exact h.selectRelated hmem (of_decide_eq_true hcompany)

theorem activeGrants (h : SeenAlike env companyId w v) (now : Time) :
    activeGrants v.db now companyId = activeGrants w.db now companyId := by
  have hfilter : ∀ db : Database, (db.grants.rows.filter fun g =>
      decide (g.companyId = companyId) && g.active now) =
      (db.grants.rows.filter fun g => decide (g.companyId = companyId)).filter
        fun g => g.active now := by
    intro db
    rw [List.filter_filter]
    exact List.filter_congr fun g _ => Bool.and_comm _ _
  have hrows : v.db.grants.rows.filter (fun g => decide (g.companyId = companyId)) =
      w.db.grants.rows.filter fun g => decide (g.companyId = companyId) := h.grants
  rw [Storage.activeGrants, Storage.activeGrants, hfilter, hfilter, hrows]
  apply List.filterMap_congr
  intro g hg
  obtain ⟨hmem, hcompany⟩ := List.mem_filter.mp (List.mem_filter.mp hg).1
  exact h.selectRelated hmem (of_decide_eq_true hcompany)

theorem bucketById_grant (h : SeenAlike env companyId w v) {g : GrantRow}
    (hg : g ∈ w.db.grants.rows) (hcompany : g.companyId = companyId) :
    v.db.bucketById g.bucketId = w.db.bucketById g.bucketId := by
  obtain ⟨⟨b, hb, hid, hsame⟩, -⟩ := h.grant_mem hg hcompany
  rw [← hid, Database.bucketById_of_mem hb, Database.bucketById_of_mem (h.bucket_mem hb hsame)]

section Decisions

variable {principal : StoragePrincipal}

theorem evaluateAccess (h : SeenAlike env companyId w v)
    (hcompany : principal.companyId = some companyId) (now : Time) :
    evaluateAccess v.db now principal = evaluateAccess w.db now principal := by
  funext bucket path objectId required
  simp only [Storage.evaluateAccess, matchingGrants, hcompany, h.activeGrants]

theorem canAccessPath (h : SeenAlike env companyId w v)
    (hcompany : principal.companyId = some companyId) :
    canAccessPath v.db v.out.now principal = canAccessPath w.db w.out.now principal := by
  funext bucket path objectId required
  rw [Storage.canAccessPath, Storage.canAccessPath, h.evaluateAccess hcompany, h.now]

theorem canAccessBucket (h : SeenAlike env companyId w v)
    (hcompany : principal.companyId = some companyId) :
    canAccessBucket v.db v.out.now principal = canAccessBucket w.db w.out.now principal := by
  funext bucket required
  rw [Storage.canAccessBucket, Storage.canAccessBucket, h.evaluateAccess hcompany, h.now]

end Decisions

theorem nearestPrivateAncestorFolder (h : SeenAlike env companyId w v) (now : Time) :
    nearestPrivateAncestorFolder v.db now companyId =
      nearestPrivateAncestorFolder w.db now companyId := by
  have hgrants : folderGrantsForPrefixes v.db now companyId =
      folderGrantsForPrefixes w.db now companyId := by
    funext bucketName prefixes
    rw [folderGrantsForPrefixes, folderGrantsForPrefixes, h.activeGrants]
    apply List.filter_congr
    intro g hg
    obtain ⟨⟨hcompany, -⟩, hrow, -⟩ := mem_activeGrants.mp hg
    have hbucket := h.bucketById_grant hrow hcompany
    rw [show g.row.bucketId = g.bucketId from rfl] at hbucket
    rw [hbucket]
  funext bucketName path
  rw [Storage.nearestPrivateAncestorFolder, Storage.nearestPrivateAncestorFolder, hgrants]

end SeenAlike

end StorageService.Storage
