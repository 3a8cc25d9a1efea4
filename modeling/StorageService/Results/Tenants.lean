import StorageService.Results.Listings
import StorageService.Storage.SeenAlike
import StorageService.Webdav.Reads

/-!
# Companies do not notice each other

What belongs to a company stays as it is while others work, and what its members
are told depends on nothing else.  The second part compares two worlds that have
nothing in common but what belongs to the company.
-/

namespace StorageService.Results

open StorageService.Foundation
open StorageService.Foundation.Action
open StorageService.Storage
open StorageService.Webdav

variable {env : Env} {display : Display} {companyId : Nat} {w v : World}

/-- Worlds that look the same to a company whose bucket is there. -/
structure Twins (env : Env) (companyId : Nat) (w v : World) : Prop
    extends SeenAlike env companyId w v where
  provisioned : Provisioned companyId w.db

abbrev Confined {α : Type} (env : Env) (companyId : Nat) (x y : Act α) (w v : World) : Prop :=
  Coincide (Twins env companyId) x y w v

section Steps

variable {α γ : Type} {principal : StoragePrincipal}

theorem Twins.of_faults (h : Twins env companyId w v) {f : Option (Point × Nat)} :
    Twins env companyId { w with out := { w.out with fault := f } }
      { v with out := { v.out with fault := f } } where
  tenant := h.tenant
  now := h.now
  fault := rfl
  sound := ⟨((keeps_lenient env).fault w f).sound h.sound.1,
    ((keeps_lenient env).fault v f).sound h.sound.2⟩
  placed := h.placed
  provisioned := h.provisioned

theorem visit_alike {p : Point} {out out' : Outside} (h : out'.fault = out.fault) :
    (out'.visit p).map Outside.fault = (out.visit p).map Outside.fault := by
  unfold Outside.visit
  rw [h]
  split
  · simp [h]
  · split
    · split <;> simp
    · simp [h]

theorem confined_reach (h : Twins env companyId w v) (p : Point) {f g : Unit → Act γ}
    (hrest : ∀ w₁ v₁, w₁.db = w.db → Twins env companyId w₁ v₁ →
      Confined env companyId (f ()) (g ()) w₁ v₁) :
    Confined env companyId (reach p >>= f) (reach p >>= g) w v := by
  have hvisit := visit_alike (p := p) h.fault
  have hreach : Confined env companyId (reach p) (reach p) w v := by
    refine coincide_outside ?_
    cases hw : w.out.visit p with
    | none =>
        rw [hw, Option.map_none, Option.map_eq_none_iff] at hvisit
        rw [hvisit]
        exact coincide_raise h _
    | some out =>
        rw [hw, Option.map_some, Option.map_eq_some_iff] at hvisit
        obtain ⟨out', hv, hfault⟩ := hvisit
        rw [hv]
        refine ⟨rfl, ?_⟩
        change Twins env companyId { w with out := out } { v with out := out' }
        rw [Outside.visit_eq_some hw, Outside.visit_eq_some hv, hfault]
        exact h.of_faults
  refine coincide_bind hreach fun _ w₁ v₁ hrun _ h₁ => hrest w₁ v₁ ?_ h₁
  obtain ⟨out, -, rfl⟩ := runs_reachOr.mp hrun
  rfl

theorem Twins.ensureCompanyBucket (h : Twins env companyId w v) :
    Confined env companyId (ensureCompanyBucket env companyId)
      (ensureCompanyBucket env companyId) w v := by
  obtain ⟨bucket, hfound, hkind, hpublic⟩ := h.provisioned
  refine coincide_database ?_
  rw [h.bucketNamed, hfound]
  have hright : ¬(bucket.kind ≠ .company ∨ bucket.isPublic = true) := by
    simp [hkind, hpublic]
  simp only [if_neg hright]
  exact coincide_pure h rfl

theorem confined_assertCanAccessBucket (h : Twins env companyId w v)
    (hcompany : principal.companyId = some companyId) (b : Bucket) (required : Permission) :
    Confined env companyId (assertCanAccessBucket principal b required)
      (assertCanAccessBucket principal b required) w v := by
  refine coincide_database (coincide_outside ?_)
  rw [h.canAccessBucket hcompany]
  exact coincide_ensure h _ _

theorem confined_assertCanAccessPath (h : Twins env companyId w v)
    (hcompany : principal.companyId = some companyId) (b : Bucket) (path : Text)
    (objectId : Option UUID) (required : Permission) :
    Confined env companyId (assertCanAccessPath principal b path objectId required)
      (assertCanAccessPath principal b path objectId required) w v := by
  refine coincide_database (coincide_outside ?_)
  rw [h.canAccessPath hcompany]
  exact coincide_ensure h _ _

theorem confined_bucket (h : Twins env companyId w v)
    (hcompany : principal.companyId = some companyId) {name : Text} {required : Permission}
    {f g : Bucket → Act γ}
    (hrest : ∀ b w₁ v₁, Twins env companyId w₁ v₁ → b ∈ w₁.db.buckets.rows →
      b.companyId = companyId → Confined env companyId (f b) (g b) w₁ v₁) :
    Confined env companyId (getAccessibleBucket env principal name required >>= f)
      (getAccessibleBucket env principal name required >>= g) w v := by
  have hresolve : Confined env companyId (getAccessibleBucket env principal name required)
      (getAccessibleBucket env principal name required) w v := by
    rw [getAccessibleBucket, requireCompanyId, hcompany]
    refine coincide_bind_ofOption h fun c hc => ?_
    obtain rfl : companyId = c := Option.some.inj hc
    refine coincide_bind h.ensureCompanyBucket fun _ w₁ v₁ _ _ h₁ => ?_
    refine coincide_database ?_
    rw [h₁.bucketNamed]
    refine coincide_bind_ofOption h₁ fun b _ => ?_
    exact coincide_bind (confined_assertCanAccessBucket h₁ hcompany b _) fun _ w₂ v₂ _ _ h₂ =>
      coincide_pure h₂ rfl
  refine coincide_bind hresolve fun b w₁ v₁ hrun _ h₁ => ?_
  have hresolved := getAccessibleBucket_resolved hrun
  exact hrest b w₁ v₁ h₁ hresolved.mem
    (Option.some.inj (hresolved.company.symm.trans hcompany))

theorem confined_requireCompanyId (hcompany : principal.companyId = some companyId)
    {f g : Nat → Act γ} (hrest : Confined env companyId (f companyId) (g companyId) w v) :
    Confined env companyId (requireCompanyId principal >>= f) (requireCompanyId principal >>= g)
      w v := by
  rw [requireCompanyId, hcompany]
  exact ⟨hrest.result, hrest.related⟩

end Steps

/-! ## What a query makes of the rows it finds -/

section Queries

variable {principal : StoragePrincipal} {bucket : Bucket} {objectId : Text}

theorem listObjects_alike (h : Twins env companyId w v)
    (hcompany : principal.companyId = some companyId) (hb : bucket ∈ w.db.buckets.rows)
    (hown : bucket.companyId = companyId) (request : ListRequest) :
    listObjects env display v.db v.out.now principal bucket request =
      listObjects env display w.db w.out.now principal bucket request := by
  have hlisted : ∀ pre search, listedObjects v.db v.out.now display principal bucket pre search =
      listedObjects w.db w.out.now display principal bucket pre search := by
    intro pre search
    simp only [listedObjects, h.objectsStartingWith hb hown, h.canAccessPath hcompany]
  have hgrants : activeGrants v.db v.out.now bucket.companyId =
      activeGrants w.db w.out.now bucket.companyId := by
    rw [hown, h.activeGrants, h.now]
  simp only [listObjects, allEntries, hlisted, hgrants]

theorem summarizePrefix_alike (h : Twins env companyId w v)
    (hcompany : principal.companyId = some companyId) (hb : bucket ∈ w.db.buckets.rows)
    (hown : bucket.companyId = companyId) (pre : Text) :
    summarizePrefix v.db v.out.now bucket pre (some principal) =
      summarizePrefix w.db w.out.now bucket pre (some principal) := by
  simp only [summarizePrefix, summarizedObjects, objectsUnderPrefix,
    h.objectsStartingWith hb hown, Option.all_some, h.canAccessPath hcompany]

theorem propfindPath_alike (h : Twins env companyId w v)
    (hcompany : principal.companyId = some companyId) (hb : bucket ∈ w.db.buckets.rows)
    (hown : bucket.companyId = companyId) (depth name : Text) :
    propfindPath display v.db v.out.now principal depth bucket name =
      propfindPath display w.db w.out.now principal depth bucket name := by
  simp only [propfindPath, childrenAtDepth, appendChildren, orderedObjects,
    h.objectsStartingWith hb hown, h.objectNamed hb hown, h.canAccessPath hcompany]

theorem childrenAtDepth_alike (h : Twins env companyId w v)
    (hcompany : principal.companyId = some companyId) (hb : bucket ∈ w.db.buckets.rows)
    (hown : bucket.companyId = companyId) (depth pre : Text) :
    childrenAtDepth display v.db v.out.now principal depth bucket pre =
      childrenAtDepth display w.db w.out.now principal depth bucket pre := by
  simp only [childrenAtDepth, appendChildren, orderedObjects, h.objectsStartingWith hb hown,
    h.canAccessPath hcompany]

theorem joined_own {db : Database} {g : Grant}
    (hg : g ∈ (db.grants.rows.filter fun g => decide (g.companyId = companyId)).filterMap
      db.selectRelated) : g.row ∈ db.grants.rows ∧ g.row.companyId = companyId := by
  obtain ⟨row, hrow, hjoin⟩ := List.mem_filterMap.mp hg
  obtain ⟨rfl, -⟩ := Database.selectRelated_eq_some.mp hjoin
  obtain ⟨hmem, hcompany⟩ := List.mem_filter.mp hrow
  exact ⟨hmem, of_decide_eq_true hcompany⟩

theorem listGrants_alike (h : Twins env companyId w v)
    (hcompany : principal.companyId = some companyId) (narrow : GrantFilter) :
    Confined env companyId (listGrants principal narrow) (listGrants principal narrow) w v := by
  refine confined_requireCompanyId hcompany (coincide_database (coincide_pure h ?_))
  have hbucket : ∀ g : Grant, g.row ∈ w.db.grants.rows ∧ g.row.companyId = companyId →
      v.db.bucketById g.bucketId = w.db.bucketById g.bucketId :=
    fun g hg => h.bucketById_grant hg.1 hg.2
  rw [h.joinedGrants]
  have hkept : ((w.db.grants.rows.filter fun g => decide (g.companyId = companyId)).filterMap
        w.db.selectRelated).filter
          (fun g => keptByFilter v.db narrow g && listedTo principal companyId g) =
      ((w.db.grants.rows.filter fun g => decide (g.companyId = companyId)).filterMap
        w.db.selectRelated).filter
          fun g => keptByFilter w.db narrow g && listedTo principal companyId g := by
    apply List.filter_congr
    intro g hg
    rw [keptByFilter, keptByFilter, hbucket g (joined_own hg)]
  rw [hkept]
  apply List.map_congr_left
  intro g hg
  rw [List.mem_insertionSort] at hg
  have hsame := hbucket g (joined_own (List.mem_filter.mp hg).1)
  have hpath : resourcePath v.db g = resourcePath w.db g := by
    unfold resourcePath
    rw [hsame]
  rw [serializeGrant, serializeGrant, hsame, hpath]

theorem resolveItemById_other (hcompany : principal.companyId = some companyId) {uid : UUID}
    (huid : uuidOfText objectId = some uid)
    (hnone : ∀ o, w.db.objectById uid = some o → o.companyId ≠ companyId) :
    resolveItemById principal objectId w = (.error objectNotFound, w) := by
  cases hfound : w.db.objectById uid with
  | none =>
      simp [resolveItemById, huid, hfound, ofOption, database, bind, pure, raise]
  | some o =>
      have hdenied : ¬(principal.companyId = none ∨ principal.companyId = some o.companyId) := by
        rw [hcompany]
        simpa [eq_comm] using hnone o hfound
      cases hbucket : w.db.bucketById o.bucketId with
      | none =>
          simp [resolveItemById, huid, hfound, hbucket, ofOption, database, bind, pure, raise]
      | some b =>
          simp [resolveItemById, huid, hfound, hbucket, ofOption, database, bind, pure, raise,
            ensure, hdenied]

theorem resolveItemById_own (h : Twins env companyId w v)
    (hcompany : principal.companyId = some companyId) {uid : UUID}
    (huid : uuidOfText objectId = some uid) {o : StorageObject}
    (hfound : w.db.objectById uid = some o) (hsame : o.companyId = companyId) :
    Confined env companyId (resolveItemById principal objectId)
      (resolveItemById principal objectId) w v := by
  obtain ⟨hmem, -⟩ := Database.objectById_eq_some.mp hfound
  obtain ⟨b, hb, hid⟩ := w.db.objectBucket o hmem
  have hbucket : b.companyId = companyId := by
    rw [h.sound.1.company o hmem b hb hid, hsame]
  rw [resolveItemById, huid]
  refine coincide_bind_ofOption h fun uid' huid' => coincide_database ?_
  obtain rfl := Option.some.inj huid'
  rw [hfound, h.objectById hfound hsame]
  refine coincide_bind_ofOption h fun o' ho => ?_
  obtain rfl := Option.some.inj ho
  rw [← hid, Database.bucketById_of_mem hb,
    Database.bucketById_of_mem (h.bucket_mem hb hbucket)]
  refine coincide_bind_ofOption h fun b' _ => ?_
  refine coincide_bind (coincide_ensure h _ _) fun _ w₁ v₁ _ _ h₁ => ?_
  exact coincide_bind (confined_assertCanAccessPath h₁ hcompany b' _ _ _) fun _ w₂ v₂ _ _ h₂ =>
    coincide_pure h₂ rfl

theorem resolveItemById_alike (h : Twins env companyId w v)
    (hcompany : principal.companyId = some companyId) (objectId : Text) :
    Confined env companyId (resolveItemById principal objectId)
      (resolveItemById principal objectId) w v := by
  cases huid : uuidOfText objectId with
  | none =>
      rw [resolveItemById, huid]
      refine coincide_bind_ofOption h fun uid hnone => ?_
      cases hnone
  | some uid =>
      by_cases hown : ∃ o, w.db.objectById uid = some o ∧ o.companyId = companyId
      · obtain ⟨o, hfound, hsame⟩ := hown
        exact resolveItemById_own h hcompany huid hfound hsame
      · have hw := resolveItemById_other (w := w) hcompany huid
          fun o hfound hsame => hown ⟨o, hfound, hsame⟩
        have hv := resolveItemById_other (w := v) hcompany huid
          fun o hfound hsame => hown ⟨o, h.symm.objectById hfound hsame, hsame⟩
        refine ⟨by rw [hw, hv], ?_⟩
        rw [hw, hv]
        exact h

end Queries

/-! ## Answers -/

section Answers

variable {principal : StoragePrincipal}

theorem bucketList_alike (h : Twins env companyId w v)
    (hcompany : principal.companyId = some companyId) :
    Confined env companyId (listAccessibleBuckets env display principal)
      (listAccessibleBuckets env display principal) w v := by
  refine confined_requireCompanyId hcompany ?_
  refine coincide_bind h.ensureCompanyBucket fun _ w₁ v₁ _ _ h₁ => ?_
  refine coincide_database (coincide_outside (coincide_pure h₁ ?_))
  have hrows : v₁.db.buckets.rows.filter (fun b => decide (b.companyId = companyId)) =
      w₁.db.buckets.rows.filter fun b => decide (b.companyId = companyId) := h₁.buckets
  rw [hrows, h₁.canAccessBucket hcompany]

/-- An object that a member may reach is one of the company, and so are its content and grants. -/
theorem confined_object {γ : Type} (h : Twins env companyId w v)
    (hcompany : principal.companyId = some companyId) {bucketName path : Text}
    {f g : Bucket × StorageObject → Act γ}
    (hrest : ∀ found w₁ v₁, Twins env companyId w₁ v₁ → found.1.companyId = companyId →
      found.2 ∈ w₁.db.objectsOf companyId → Confined env companyId (f found) (g found) w₁ v₁) :
    Confined env companyId (getAccessibleObject env principal bucketName path .read >>= f)
      (getAccessibleObject env principal bucketName path .read >>= g) w v := by
  have hobject : Confined env companyId (getAccessibleObject env principal bucketName path .read)
      (getAccessibleObject env principal bucketName path .read) w v := by
    refine confined_bucket h hcompany fun b w₁ v₁ h₁ hb hown => ?_
    refine coincide_bind_ofExcept h₁ fun name _ => coincide_database ?_
    rw [h₁.objectNamed hb hown]
    refine coincide_bind_ofOption h₁ fun o _ => ?_
    exact coincide_bind (confined_assertCanAccessPath h₁ hcompany b _ _ _) fun _ w₂ v₂ _ _ h₂ =>
      coincide_pure h₂ rfl
  refine coincide_bind hobject fun found w₁ v₁ hrun _ h₁ => ?_
  simp only [getAccessibleObject, runs_bind, runs_ofExcept, runs_database, runs_ofOption,
    runs_assertCanAccessPath, runs_pure] at hrun
  obtain ⟨b, w₂, hbucket, name, _, ⟨-, rfl⟩, db, _, ⟨rfl, rfl⟩, o, _, ⟨hfound, rfl⟩, _, _,
    ⟨-, rfl⟩, rfl, rfl⟩ := hrun
  have hresolved := getAccessibleBucket_resolved hbucket
  have hown : b.companyId = companyId := Option.some.inj (hresolved.company.symm.trans hcompany)
  exact hrest (b, o) _ v₁ h₁ hown (h₁.sound.1.mem_objectsOf hresolved.mem hown hfound)

theorem buildDownloadResponse_alike (h : Twins env companyId w v) {obj : StorageObject}
    (hobj : obj ∈ w.db.objectsOf companyId) :
    Confined env companyId (buildDownloadResponse env obj) (buildDownloadResponse env obj)
      w v := by
  refine confined_reach h .rowWrite fun w₁ v₁ hdb h₁ => ?_
  refine coincide_bind (coincide_outside ?_) fun data w₂ v₂ _ _ h₂ => coincide_pure h₂ rfl
  rw [← hdb] at hobj
  rw [h₁.lookup hobj]
  exact coincide_ofOption h₁ _ _

theorem snapshot_alike (h : Twins env companyId w v) (userId : Option Nat) :
    Confined env companyId (snapshot env companyId userId) (snapshot env companyId userId)
      w v := by
  have hquota : v.db.companyQuotas companyId = w.db.companyQuotas companyId :=
    congrArg Tenant.quota h.tenant
  have hrow : Confined env companyId (getOrCreateCompanyQuota env companyId)
      (getOrCreateCompanyQuota env companyId) w v := by
    refine coincide_database ?_
    rw [hquota]
    split
    · exact coincide_pure h rfl
    · refine coincide_bind (coincide_modifyDatabase ?_) fun _ w₁ v₁ _ _ h₁ => coincide_pure h₁ rfl
      have hsound : ∀ u : World, Sound env u → Sound env
          { u with db := u.db.setCompanyQuota companyId (defaultCompanyQuota env) } :=
        fun u hu => ⟨hu.engine, hu.keys, hu.allotted, hu.blobs, hu.company⟩
      refine ⟨⟨?_, h.now, h.fault, h.sound.imp (hsound w) (hsound v),
        h.placed.imp (fun hw => ⟨fun g hg => ⟨(hw.grants g hg).bucket, (hw.grants g hg).object⟩,
          hw.framed⟩) fun hv => ⟨fun g hg => ⟨(hv.grants g hg).bucket,
            (hv.grants g hg).object⟩, hv.framed⟩⟩, h.provisioned⟩
      have htenant : ∀ u : World, World.tenant
          { u with db := u.db.setCompanyQuota companyId (defaultCompanyQuota env) } companyId =
            { u.tenant companyId with quota := some (defaultCompanyQuota env) } := by
        intro u
        simp only [World.tenant, Database.setCompanyQuota, Function.update_self]
        rfl
      rw [htenant, htenant, h.tenant]
  refine coincide_bind hrow fun company w₁ v₁ _ _ h₁ => coincide_database (coincide_pure h₁ ?_)
  have husers : v₁.db.userQuotas companyId = w₁.db.userQuotas companyId :=
    congrArg Tenant.userQuotas h₁.tenant
  rw [husers]

theorem getOrHead_alike (h : Twins env companyId w v)
    (hcompany : principal.companyId = some companyId) (head : Bool) (path : Text) :
    Confined env companyId (getOrHead env principal head path) (getOrHead env principal head path)
      w v := by
  refine confined_requireCompanyId hcompany ?_
  rcases parsePath env path with ⟨bucketName, objectPath⟩
  refine coincide_ite (fun _ => coincide_pure h rfl) fun _ => ?_
  refine confined_bucket h hcompany fun b w₁ v₁ h₁ hb hown => ?_
  refine coincide_bind_ofExcept h₁ fun name _ => coincide_database (coincide_outside ?_)
  rw [h₁.objectNamed hb hown, h₁.canAccessPath hcompany]
  cases hfound : w₁.db.objectNamed b.id name with
  | none => exact coincide_pure h₁ rfl
  | some obj =>
      have hobj := h₁.sound.1.mem_objectsOf hb hown hfound
      refine coincide_ite (fun _ => ?_) fun _ => coincide_pure h₁ rfl
      exact coincide_ite (fun _ => coincide_pure h₁ rfl)
        fun _ => buildDownloadResponse_alike h₁ hobj

theorem propfind_alike (h : Twins env companyId w v)
    (hcompany : principal.companyId = some companyId) (depth path : Text) :
    Confined env companyId (propfind env display principal depth path)
      (propfind env display principal depth path) w v := by
  refine confined_requireCompanyId hcompany ?_
  rcases parsePath env path with ⟨bucketName, objectPath⟩
  refine coincide_ite (fun _ => coincide_ite (fun _ => coincide_pure h rfl) fun _ => ?_) fun _ => ?_
  · exact coincide_bind (bucketList_alike h hcompany) fun buckets w₁ v₁ _ _ h₁ =>
      coincide_pure h₁ rfl
  · refine confined_bucket h hcompany fun b w₁ v₁ h₁ hb hown => ?_
    refine coincide_database (coincide_outside (coincide_ite (fun _ => ?_) fun _ => ?_))
    · exact coincide_pure h₁ (by rw [childrenAtDepth_alike h₁ hcompany hb hown])
    · exact coincide_bind_ofExcept h₁ fun name _ =>
        coincide_pure h₁ (propfindPath_alike h₁ hcompany hb hown depth name)

theorem ask_alike (h : Twins env companyId w v)
    (hcompany : principal.companyId = some companyId) (question : Question) :
    Confined env companyId (question.ask env display principal)
      (question.ask env display principal) w v := by
  cases question with
  | buckets =>
      refine coincide_bind (coincide_bind (bucketList_alike h hcompany) fun buckets w₁ v₁ _ _ h₁ =>
        coincide_database (coincide_outside (coincide_pure h₁ ?_)))
          fun _ w₂ v₂ _ _ h₂ => coincide_pure h₂ rfl
      have hserialized : serializeBucket v₁.db v₁.out.now principal =
          serializeBucket w₁.db w₁.out.now principal := by
        funext b
        rw [serializeBucket, serializeBucket, h₁.canAccessBucket hcompany]
      rw [hserialized]
  | bucket bucketName =>
      refine coincide_bind (confined_bucket h hcompany fun b w₁ v₁ h₁ _ _ =>
        coincide_database (coincide_outside (coincide_pure h₁ ?_)))
          fun _ w₂ v₂ _ _ h₂ => coincide_pure h₂ rfl
      rw [serializeBucket, serializeBucket, h₁.canAccessBucket hcompany]
  | list bucketName request =>
      exact coincide_bind (confined_bucket h hcompany fun b w₁ v₁ h₁ hb hown =>
        coincide_database (coincide_outside (coincide_pure h₁
          (listObjects_alike h₁ hcompany hb hown request)))) fun _ w₂ v₂ _ _ h₂ =>
            coincide_pure h₂ rfl
  | info bucketName path =>
      refine coincide_bind (confined_object h hcompany fun found w₁ v₁ h₁ hown _ =>
        coincide_database (coincide_outside (coincide_pure h₁ ?_)))
          fun _ w₂ v₂ _ _ h₂ => coincide_pure h₂ rfl
      rw [hown, h₁.activeGrants, h₁.now]
  | download bucketName path =>
      exact coincide_bind (confined_object h hcompany fun found w₁ v₁ h₁ _ hobj =>
        buildDownloadResponse_alike h₁ hobj) fun _ w₂ v₂ _ _ h₂ => coincide_pure h₂ rfl
  | item objectId =>
      exact coincide_bind (resolveItemById_alike h hcompany objectId) fun _ w₁ v₁ _ _ h₁ =>
        coincide_pure h₁ rfl
  | folder bucketName pre =>
      refine coincide_bind (confined_bucket h hcompany fun b w₁ v₁ h₁ hb hown => ?_)
        fun _ w₂ v₂ _ _ h₂ => coincide_pure h₂ rfl
      refine coincide_ite (fun _ => ?_) fun _ => ?_
      · exact coincide_bind_ofExcept h₁ fun _ _ => coincide_database (coincide_outside
          (coincide_pure h₁ (summarizePrefix_alike h₁ hcompany hb hown pre)))
      · exact coincide_database (coincide_outside (coincide_pure h₁
          (summarizePrefix_alike h₁ hcompany hb hown pre)))
  | grants narrow =>
      exact coincide_bind (listGrants_alike h hcompany narrow) fun _ w₁ v₁ _ _ h₁ =>
        coincide_pure h₁ rfl
  | effectiveGrants narrow =>
      refine coincide_bind (confined_requireCompanyId hcompany ?_) fun _ w₁ v₁ _ _ h₁ =>
        coincide_pure h₁ rfl
      refine coincide_bind (listGrants_alike h hcompany narrow) fun _ w₁ v₁ _ _ h₁ => ?_
      refine coincide_database (coincide_outside (coincide_pure h₁ ?_))
      rw [h₁.nearestPrivateAncestorFolder, h₁.now]
  | quota =>
      exact coincide_bind (confined_requireCompanyId hcompany (snapshot_alike h _))
        fun _ w₁ v₁ _ _ h₁ => coincide_pure h₁ rfl
  | propfind depth path =>
      exact coincide_bind (propfind_alike h hcompany depth path) fun _ w₁ v₁ _ _ h₁ =>
        coincide_pure h₁ rfl
  | get head path =>
      exact coincide_bind (getOrHead_alike h hcompany head path) fun _ w₁ v₁ _ _ h₁ =>
        coincide_pure h₁ rfl

end Answers

/-! ## Neighbours -/

section Neighbours

/--
Nothing that happens on behalf of others touches a company: its rows, its counters
and the content of its files stay as they are.
-/
theorem tenant_kept (henv : env.Lawful) (hw : Reachable env w)
    (h : GuardedRun env (fun _ op => op.AwayFrom companyId) w v) :
    v.tenant companyId = w.tenant companyId :=
  GuardedRun.spares henv hw h

def oneTenant : World :=
  play (sampleEnv true) [.companyBucket 1, .upload (sampleUpload ['a'] [97] 1)] .initial

def otherBucket : Bucket := newCompanyBucket 2 ((sampleEnv true).uuid4 oneTenant.out.drawn)

def neighbourWork : List Operation :=
  [.companyBucket 2, .upload { sampleUpload ['a'] [98] 2 with bucket := otherBucket }]

def twoTenants : World := play (sampleEnv true) neighbourWork oneTenant

theorem oneTenant_reachable : Reachable (sampleEnv true) oneTenant :=
  Reachable.play .refl (by decide +kernel)

theorem neighbourWork_run :
    GuardedRun (sampleEnv true) (fun _ op => op.AwayFrom 1) oneTenant twoTenants := by
  refine GuardedRun.after (GuardedRun.after .refl ?_ ?_) ?_ ?_
  · simp [Operation.AwayFrom]
  · trivial
  · simp [Operation.AwayFrom, otherBucket, newCompanyBucket]
  · decide +kernel

theorem tenant_kept_besideUpload : twoTenants.tenant 1 = oneTenant.tenant 1 :=
  tenant_kept (sampleEnv_lawful true) oneTenant_reachable neighbourWork_run

/--
Two installations that have no more in common than what belongs to a company tell
its members the same at the same time, whatever they ask and wherever it fails.
-/
theorem answers_confined (henv : env.Lawful) (hw : Reachable env w) (hv : Reachable env v)
    (htenant : v.tenant companyId = w.tenant companyId) (hnow : v.out.now = w.out.now)
    (hprovisioned : Provisioned companyId w.db) {principal : StoragePrincipal}
    (hcompany : principal.companyId = some companyId) (question : Question)
    (fault : Option (Point × Nat)) :
    (question.ask env display principal (v.withFault fault)).1 =
      (question.ask env display principal (w.withFault fault)).1 := by
  have hfault := (keeps_lenient env).fault
  have hplaced : WellPlaced w.db ∧ WellPlaced v.db := ⟨hw.wellPlaced henv, hv.wellPlaced henv⟩
  have htwins : Twins env companyId (w.withFault fault) (v.withFault fault) := {
    tenant := htenant
    now := hnow
    fault := rfl
    sound := ⟨(hfault w fault).sound (hw.sound henv), (hfault v fault).sound (hv.sound henv)⟩
    placed := hplaced
    provisioned := hprovisioned
  }
  exact (ask_alike htwins hcompany question).result

theorem answers_confined_besideUpload :
    ((Question.download companyBucketName ['a']).ask (sampleEnv true) sampleDisplay (member 1)
        (twoTenants.withFault none)).1 =
      ((Question.download companyBucketName ['a']).ask (sampleEnv true) sampleDisplay (member 1)
        (oneTenant.withFault none)).1 := by
  have htwo : Reachable (sampleEnv true) twoTenants :=
    GuardedRun.reachable oneTenant_reachable neighbourWork_run
  have htenant : twoTenants.tenant 1 = oneTenant.tenant 1 :=
    GuardedRun.spares (sampleEnv_lawful true) oneTenant_reachable neighbourWork_run
  have hprovisioned : Provisioned 1 oneTenant.db := ⟨sampleBucket, by decide +kernel⟩
  exact answers_confined (sampleEnv_lawful true) oneTenant_reachable htwo htenant
    (by decide +kernel) hprovisioned rfl (.download companyBucketName ['a']) none

end Neighbours

end StorageService.Results
