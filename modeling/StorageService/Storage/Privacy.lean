import StorageService.Storage.Access

/-!
# Private by default

The second half of `access.py`: the grants of ancestor folders, the guard that
keeps a nested path from being opened under a private folder, and the grants
written for a new object.  A new folder copies the grants of the nearest
ancestor that has some; a new file then inherits them; without such an ancestor
the new object is denied to the company and administered by its creator.
-/

namespace StorageService.Storage

open StorageService.Foundation
open StorageService.Foundation.Action

def ancestorFolderPrefixes (path : Text) : List Text :=
  let path := normalizePath path
  if path = [] ∨ '/' ∉ path then []
  else
    let parts := path.splitOn '/'
    (List.range (parts.length - 1)).map fun i =>
      List.intercalate ['/'] (parts.take (i + 1))

def Resource.marker? : Resource StorageObject → Option StorageObject
  | .folder marker => some marker
  | _ => none

def folderGrantsForPrefixes (db : Database) (now : Time) (companyId : Nat)
    (bucketName : Text) (folderPrefixes : List Text) : List Grant :=
  let names := folderPrefixes.map folderPlaceholderPath
  (activeGrants db now companyId).filter fun g =>
    (g.resource.marker?.any fun marker => names.contains marker.name) &&
      decide ((db.bucketById g.bucketId).map Bucket.name = some bucketName)

def grantsOnFolder (grants : List Grant) (folder : Text) : List Grant :=
  grants.filter fun g =>
    g.resource.marker?.any fun marker => decide (folderPathOf marker = folder)

def nearestAncestorFolderGrants (db : Database) (now : Time) (companyId : Nat)
    (bucketName path : Text) : Option (Text × List Grant) :=
  let ancestors := ancestorFolderPrefixes path
  let grants := folderGrantsForPrefixes db now companyId bucketName ancestors
  (ancestors.reverse.find? fun folder => grantsOnFolder grants folder ≠ []).map fun folder =>
    (folder, grantsOnFolder grants folder)

def deniesCompanyRead (companyId : Nat) (g : Grant) : Bool :=
  decide (g.effect = .deny ∧ g.subjectType = .company ∧
    denyBlocks g.permission .read = true ∧ g.subjectId = decimal companyId)

def nearestPrivateAncestorFolder (db : Database) (now : Time) (companyId : Nat)
    (bucketName path : Text) : Option Text :=
  let ancestors := ancestorFolderPrefixes path
  let grants := folderGrantsForPrefixes db now companyId bucketName ancestors
  ancestors.reverse.find? fun folder =>
    (grantsOnFolder grants folder).any (deniesCompanyRead companyId)

theorem ne_nil_of_mem_ancestorFolderPrefixes {path folder : Text}
    (h : folder ∈ ancestorFolderPrefixes path) : folder ≠ [] := by
  unfold ancestorFolderPrefixes at h
  simp only at h
  split at h
  · simp at h
  · rename_i hpath
    obtain ⟨i, hi, rfl⟩ := List.mem_map.mp h
    rw [List.mem_range] at hi
    have hsplit : List.intercalate ['/'] ((normalizePath path).splitOn '/') =
        normalizePath path := List.intercalate_splitOn '/'
    cases hparts : (normalizePath path).splitOn '/' with
    | nil => simp [hparts] at hi
    | cons part parts =>
        rw [hparts] at hsplit hi
        rcases part with _ | ⟨c, part⟩
        · -- a trimmed path does not start with a slash
          exfalso
          cases parts with
          | nil => simp at hi
          | cons next parts =>
              have htrim : trim isSlash (normalizePath path) = normalizePath path :=
                trim_trim isSlash (strip path)
              rw [← hsplit, trim_eq_self_iff] at htrim
              simp [List.intercalate_cons_cons, isSlash] at htrim
        · cases parts.take i with
          | nil => simp
          | cons next rest => simp

theorem nearestPrivateAncestorFolder_of_mem {db : Database} {now : Time} {companyId : Nat}
    {bucketName path : Text} {d : Grant} {marker : StorageObject}
    (hactive : d ∈ activeGrants db now companyId)
    (hbucket : (db.bucketById d.bucketId).map Bucket.name = some bucketName)
    (hdenies : deniesCompanyRead companyId d = true) (hresource : d.resource = .folder marker)
    (hname : marker.name = folderPlaceholderPath (folderPathOf marker))
    (habove : folderPathOf marker ∈ ancestorFolderPrefixes path) :
    ∃ folder, nearestPrivateAncestorFolder db now companyId bucketName path = some folder ∧
      folder ≠ [] := by
  have hgrant : d ∈ folderGrantsForPrefixes db now companyId bucketName
      (ancestorFolderPrefixes path) := by
    simp only [folderGrantsForPrefixes, List.mem_filter, Bool.and_eq_true, decide_eq_true_eq]
    refine ⟨hactive, ?_, hbucket⟩
    simp only [hresource, Resource.marker?, Option.any_some, List.contains_iff_mem]
    rw [hname]
    exact List.mem_map_of_mem habove
  have hon : d ∈ grantsOnFolder (folderGrantsForPrefixes db now companyId bucketName
      (ancestorFolderPrefixes path)) (folderPathOf marker) := by
    simp [grantsOnFolder, hgrant, hresource, Resource.marker?]
  cases hnearest : nearestPrivateAncestorFolder db now companyId bucketName path with
  | none =>
      unfold nearestPrivateAncestorFolder at hnearest
      have hno := List.find?_eq_none.mp hnearest (folderPathOf marker)
        (List.mem_reverse.mpr habove)
      exact absurd (List.any_eq_true.mpr ⟨d, hon, hdenies⟩) hno
  | some folder =>
      refine ⟨folder, rfl, ?_⟩
      unfold nearestPrivateAncestorFolder at hnearest
      exact ne_nil_of_mem_ancestorFolderPrefixes
        (List.mem_reverse.mp (List.mem_of_find?_eq_some hnearest))

def assertCanOpenToCompany (companyId : Nat) (bucketName path : Text) : Act Unit := do
  let db ← database
  let out ← outside
  match nearestPrivateAncestorFolder db out.now companyId bucketName path with
  | none => pure ()
  | some folder =>
      if folder = [] then pure ()
      else
        let name := String.ofList folder
        raise (.storageError
          (s!"Cannot open this path to the company while the parent folder \"{name}\" " ++
            s!"is private. Change access on \"{name}\" first.")
          400 "parent_folder_private")

/-! ## Grants of a new object -/

def autoPrivateNotes : Text :=
  ['a', 'u', 't', 'o', ':', ' ', 'p', 'r', 'i', 'v', 'a', 't', 'e', ' ',
    'b', 'y', ' ', 'd', 'e', 'f', 'a', 'u', 'l', 't']

def resourceGrantsExist (db : Database) (now : Time) (target : StorageObject)
    (resource : Resource UUID) : Bool :=
  db.grants.rows.any fun g =>
    decide (g.companyId = target.companyId) && g.active now &&
      decide (g.resource = resource) && decide (g.bucketId = target.bucketId)

def createGrantRow (env : Env) (row : UUID → Time → GrantRow) : Act GrantRow := do
  let id ← drawUuid env
  let out ← outside
  let grant := row id out.now
  execute (·.createGrant grant)
  pure grant

def copiedGrant (userId : Nat) (target : StorageObject) (src : Grant) (id : UUID)
    (now : Time) : GrantRow where
  id := id
  companyId := target.companyId
  bucketId := target.bucketId
  subjectType := src.subjectType
  subjectId := src.subjectId
  resource := .folder target.id
  permission := src.permission
  effect := src.effect
  createdById := some userId
  createdAt := now
  expiresAt := src.expiresAt
  notes := if src.notes = [] then autoPrivateNotes else src.notes

def copyFolderGrants (env : Env) (sourceGrants : List Grant) (userId : Nat)
    (target : StorageObject) : Act Unit :=
  forEach (fun src => do let _ ← createGrantRow env (copiedGrant userId target src))
    sourceGrants

def automaticGrant (userId : Nat) (target : StorageObject) (resource : Resource UUID)
    (subjectType : SubjectType) (subjectId : Text) (permission : Permission)
    (effect : Effect) (id : UUID) (now : Time) : GrantRow where
  id := id
  companyId := target.companyId
  bucketId := target.bucketId
  subjectType := subjectType
  subjectId := subjectId
  resource := resource
  permission := permission
  effect := effect
  createdById := some userId
  createdAt := now
  expiresAt := none
  notes := autoPrivateNotes

/-- `nearest and parent_grants`: the grants a new object at `path` finds above it. -/
def parentGrants (db : Database) (now : Time) (target : StorageObject) (path : Text) :
    Option (List Grant) :=
  let bucketName := ((db.bucketById target.bucketId).map Bucket.name).getD []
  match nearestAncestorFolderGrants db now target.companyId bucketName path with
  | none => none
  | some (nearest, grants) => if nearest ≠ [] ∧ grants ≠ [] then some grants else none

def createPrivateGrants (env : Env) (userId : Nat) (target : StorageObject)
    (resource : Resource UUID) : Act Unit := do
  let _ ← createGrantRow env (automaticGrant userId target resource .company
    (decimal target.companyId) .read .deny)
  let _ ← createGrantRow env (automaticGrant userId target resource .user
    (decimal userId) .admin .allow)

def ensureDefaultPrivateAccess (env : Env) (userId : Nat) (target : StorageObject)
    (isFolder : Bool) : Act Unit := do
  let db ← database
  let out ← outside
  let resource : Resource UUID := if isFolder then .folder target.id else .object target.id
  let path := if isFolder then folderPathOf target else normalizePath target.name
  if path = [] ∨ resourceGrantsExist db out.now target resource then pure ()
  else
    match parentGrants db out.now target path with
    | some grants =>
        if isFolder then copyFolderGrants env grants userId target else pure ()
    | none => createPrivateGrants env userId target resource

def applyDefaultPrivateOnCreate (env : Env) (target : StorageObject) (userId : Option Nat) :
    Act Unit :=
  match userId with
  | none => pure ()
  | some userId =>
      let path := normalizePath target.name
      if path = [] ∨ path = folderPlaceholderName then pure ()
      else if placeholderSuffix <:+ path then
        if folderPathFromPlaceholder path = [] then pure ()
        else ensureDefaultPrivateAccess env userId target true
      else ensureDefaultPrivateAccess env userId target false

/-! ## What the automatic grants touch -/

def ownResource (target : StorageObject) : Resource UUID :=
  if placeholderSuffix <:+ normalizePath target.name then .folder target.id
  else .object target.id

@[simp] theorem ownResource_object? (target : StorageObject) :
    (ownResource target).object? = some target.id := by
  unfold ownResource
  split <;> rfl

structure AddsGrants (p : GrantRow → Prop) (s s' : World) : Prop where
  buckets : s'.db.buckets = s.db.buckets
  objects : s'.db.objects = s.db.objects
  companyQuotas : s'.db.companyQuotas = s.db.companyQuotas
  userQuotas : s'.db.userQuotas = s.db.userQuotas
  grants : ∃ new, s'.db.grants.rows = s.db.grants.rows ++ new ∧ ∀ g ∈ new, p g
  blobs : s'.out.blobs = s.out.blobs
  drawn : s.out.drawn ≤ s'.out.drawn
  now : s'.out.now = s.out.now
  engine : s'.db.engine = s.db.engine

theorem addsGrants_lenient (p : GrantRow → Prop) : Lenient (AddsGrants p) where
  refl _ := ⟨rfl, rfl, rfl, rfl, ⟨[], by simp⟩, rfl, le_rfl, rfl, rfl⟩
  trans := by
    rintro s s₁ s₂ ⟨hb, ho, hc, hu, ⟨new, hg, hnew⟩, hblobs, hdrawn, hnow, he⟩
      ⟨hb', ho', hc', hu', ⟨new', hg', hnew'⟩, hblobs', hdrawn', hnow', he'⟩
    refine ⟨hb'.trans hb, ho'.trans ho, hc'.trans hc, hu'.trans hu, ⟨new ++ new', ?_, ?_⟩,
      hblobs'.trans hblobs, hdrawn.trans hdrawn', hnow'.trans hnow, he'.trans he⟩
    · rw [hg', hg, List.append_assoc]
    · intro g hmem
      rcases List.mem_append.mp hmem with h | h
      · exact hnew g h
      · exact hnew' g h
  rollback := by
    rintro s s₁ ⟨-, -, -, -, -, hblobs, hdrawn, hnow, -⟩
    exact ⟨rfl, rfl, rfl, rfl, ⟨[], by simp⟩, hblobs, hdrawn, hnow, rfl⟩
  fault _ _ := ⟨rfl, rfl, rfl, rfl, ⟨[], by simp⟩, rfl, le_rfl, rfl, rfl⟩

structure AddsGrantsOn (resource : Resource UUID) (s s' : World) : Prop where
  buckets : s'.db.buckets = s.db.buckets
  objects : s'.db.objects = s.db.objects
  companyQuotas : s'.db.companyQuotas = s.db.companyQuotas
  userQuotas : s'.db.userQuotas = s.db.userQuotas
  grants : ∃ new, s'.db.grants.rows = s.db.grants.rows ++ new ∧
    ∀ g ∈ new, g.resource = resource
  blobs : s'.out.blobs = s.out.blobs
  drawn : s.out.drawn ≤ s'.out.drawn
  now : s'.out.now = s.out.now
  engine : s'.db.engine = s.db.engine

theorem AddsGrants.on {p : GrantRow → Prop} {resource : Resource UUID} {s s' : World}
    (h : AddsGrants p s s') (hp : ∀ g, p g → g.resource = resource) :
    AddsGrantsOn resource s s' where
  buckets := h.buckets
  objects := h.objects
  companyQuotas := h.companyQuotas
  userQuotas := h.userQuotas
  grants := by
    obtain ⟨new, hrows, hnew⟩ := h.grants
    exact ⟨new, hrows, fun g hg => hp g (hnew g hg)⟩
  blobs := h.blobs
  drawn := h.drawn
  now := h.now
  engine := h.engine

theorem createGrantRow_addsGrants (env : Env) {p : GrantRow → Prop}
    {row : UUID → Time → GrantRow} (hrow : ∀ i t, p (row i t)) :
    (createGrantRow env row).Within (AddsGrants p) := by
  have hR := addsGrants_lenient p
  have hdraw := within_drawUuid (R := AddsGrants p) env fun _ =>
    ⟨rfl, rfl, rfl, rfl, ⟨[], by simp⟩, rfl, Nat.le_succ _, rfl, rfl⟩
  refine Within.bind hR.toComposable hdraw fun i => ?_
  refine Within.bind hR.toComposable (Within.outside hR.toComposable) fun out => ?_
  refine Within.bind hR.toComposable (within_execute hR ?_) fun _ =>
    Within.pure hR.toComposable _
  intro s db hdb
  obtain ⟨hb, ho, hg, hc, hu⟩ := Database.createGrant_eq_some hdb
  exact ⟨hb, ho, hc, hu, ⟨[row i out.now], hg, by simpa using hrow i out.now⟩,
    rfl, le_rfl, rfl, Database.createGrant_engine hdb⟩

theorem createGrantRow_addsGrantsOn (env : Env) {resource : Resource UUID}
    {row : UUID → Time → GrantRow} (hrow : ∀ i t, (row i t).resource = resource) :
    (createGrantRow env row).Within (AddsGrantsOn resource) := fun s =>
  (createGrantRow_addsGrants env (p := fun g => g.resource = resource) hrow s).on
    fun _ h => h

structure GrantedOn (target : StorageObject) (resource : Resource UUID) (g : GrantRow) :
    Prop where
  resource : g.resource = resource
  bucketId : g.bucketId = target.bucketId
  companyId : g.companyId = target.companyId

theorem copyFolderGrants_addsGrants (env : Env) (sourceGrants : List Grant) (userId : Nat)
    (target : StorageObject) :
    (copyFolderGrants env sourceGrants userId target).Within
      (AddsGrants (GrantedOn target (.folder target.id))) := by
  have hR := (addsGrants_lenient (GrantedOn target (.folder target.id))).toComposable
  apply Within.forEach hR
  intro src
  exact Within.bind hR (createGrantRow_addsGrants env fun _ _ => ⟨rfl, rfl, rfl⟩) fun _ =>
    Within.pure hR _

theorem createPrivateGrants_addsGrants (env : Env) (userId : Nat)
    (target : StorageObject) (resource : Resource UUID) :
    (createPrivateGrants env userId target resource).Within
      (AddsGrants (GrantedOn target resource)) := by
  have hR := (addsGrants_lenient (GrantedOn target resource)).toComposable
  refine Within.bind hR (createGrantRow_addsGrants env fun _ _ => ⟨rfl, rfl, rfl⟩) fun _ => ?_
  exact Within.bind hR (createGrantRow_addsGrants env fun _ _ => ⟨rfl, rfl, rfl⟩) fun _ =>
    Within.pure hR _

theorem ensureDefaultPrivateAccess_addsGrants (env : Env) (userId : Nat)
    (target : StorageObject) (isFolder : Bool) {resource : Resource UUID}
    (hresource : resource = if isFolder then .folder target.id else .object target.id) :
    (ensureDefaultPrivateAccess env userId target isFolder).Within
      (AddsGrants (GrantedOn target resource)) := by
  have hR := (addsGrants_lenient (GrantedOn target resource)).toComposable
  refine Within.bind hR (Within.database hR) fun db => ?_
  refine Within.bind hR (Within.outside hR) fun out => ?_
  cases isFolder with
  | false =>
      obtain rfl : resource = .object target.id := hresource
      refine Within.ite (Within.pure hR _) ?_
      split
      · exact Within.pure hR _
      · exact createPrivateGrants_addsGrants env userId target _
  | true =>
      obtain rfl : resource = .folder target.id := hresource
      refine Within.ite (Within.pure hR _) ?_
      split
      · exact copyFolderGrants_addsGrants env _ userId target
      · exact createPrivateGrants_addsGrants env userId target _

theorem applyDefaultPrivateOnCreate_addsGrants (env : Env) (target : StorageObject)
    (userId : Option Nat) :
    (applyDefaultPrivateOnCreate env target userId).Within
      (AddsGrants fun g => userId ≠ none ∧ GrantedOn target (ownResource target) g) := by
  cases userId with
  | none => exact Within.pure (addsGrants_lenient _).toComposable _
  | some userId =>
      have hp : (fun g => some userId ≠ none ∧ GrantedOn target (ownResource target) g) =
          GrantedOn target (ownResource target) := by
        funext g
        simp
      rw [hp]
      have hR := (addsGrants_lenient (GrantedOn target (ownResource target))).toComposable
      refine Within.ite (Within.pure hR _) (Within.ite_of (fun hmarker => ?_) fun hfile => ?_)
      · exact Within.ite (Within.pure hR _)
          (ensureDefaultPrivateAccess_addsGrants env userId target true (if_pos hmarker))
      · exact ensureDefaultPrivateAccess_addsGrants env userId target false (if_neg hfile)

theorem applyDefaultPrivateOnCreate_addsGrantsOn (env : Env) (target : StorageObject)
    (userId : Option Nat) :
    (applyDefaultPrivateOnCreate env target userId).Within
      (AddsGrantsOn (ownResource target)) := fun s =>
  (applyDefaultPrivateOnCreate_addsGrants env target userId s).on fun _ h => h.2.resource

end StorageService.Storage
