import StorageService.Results.Specificity
import StorageService.Storage.Inheritance

/-!
# Private by default

What an upload under a free name does to the decisions: on its own the new
object is the creator's alone, and the marker of a folder below one that has
grants changes nothing.
-/

namespace StorageService.Results

open StorageService.Foundation
open StorageService.Foundation.Action
open StorageService.Storage

variable {env : Env}

/-! ## Folder grants -/

def MarkerLast (name : Text) : Prop := folderPlaceholderName ∉ (name.splitOn '/').dropLast

instance (name : Text) : Decidable (MarkerLast name) := inferInstanceAs (Decidable (_ ∉ _))

/-- Folder grants sit on markers, and no stored name has blanks at the ends of its parts. -/
structure Tidy (db : Database) (now : Time) (companyId : Nat) : Prop where
  markers : ∀ g ∈ activeGrants db now companyId, ∀ marker, g.resource = .folder marker →
    marker.name = folderPlaceholderName ∨ placeholderSuffix <:+ marker.name
  names : ∀ o ∈ db.objects.rows, Unpadded o.name

section FolderGrants

variable {db : Database} {now : Time} {bucket : Bucket} {path : Option Text}
  {objectId : Option UUID} {g : Grant}

theorem matches_folder_iff {marker : StorageObject} (hbucketId : g.bucketId = bucket.id)
    (hresource : g.resource = .folder marker) (htrimmed : Trimmed (folderPathOf marker)) :
    resourceMatchesGrant g bucket path objectId = true ↔
      Under '/' (folderPathOf marker) (normalizePath (normalizePath (path.getD []))) := by
  rw [resourceMatchesGrant, if_neg (not_not.mpr hbucketId)]
  simp only [hresource]
  rw [folderMatches_trimmed (.inr htrimmed), or_iff_right htrimmed.2]

theorem folderGrant_matches_iff {folder : Text} (h : FolderGrant db now bucket folder g)
    (htrimmed : Trimmed folder) :
    resourceMatchesGrant g bucket path objectId = true ↔
      Under '/' folder (normalizePath (normalizePath (path.getD []))) := by
  obtain ⟨-, hbucketId, marker, hresource, hname⟩ := h
  have hpath : folderPathOf marker = folder := by
    rw [folderPathOf, hname, folderPathFromPlaceholder_append htrimmed]
  rw [matches_folder_iff hbucketId hresource (hpath ▸ htrimmed), hpath]

theorem folderGrant_score {folder : Text} (h : FolderGrant db now bucket folder g)
    (htrimmed : Trimmed folder) : resourceScore g.resource = 100 + folderDepth folder := by
  obtain ⟨-, -, marker, hresource, hname⟩ := h
  rw [hresource, resourceScore, folderPathOf, hname, folderPathFromPlaceholder_append htrimmed]

theorem folderGrant_of_match (hplaced : WellPlaced db) (htidy : Tidy db now bucket.companyId)
    (hactive : g ∈ activeGrants db now bucket.companyId) {marker : StorageObject}
    (hresource : g.resource = .folder marker)
    (hmatch : resourceMatchesGrant g bucket path objectId = true) :
    folderPathOf marker = [] ∨
      FolderGrant db now bucket (folderPathOf marker) g ∧ Trimmed (folderPathOf marker) ∧
        Under '/' (folderPathOf marker) (normalizePath (normalizePath (path.getD []))) := by
  have hmarker : marker ∈ db.objects.rows :=
    (mem_activeGrants.mp hactive).2.2 marker (by rw [hresource]; rfl)
  rcases htidy.markers g hactive marker hresource with hroot | ⟨folder, hfolder⟩
  · left
    rw [folderPathOf, hroot]
    decide
  · right
    have hunpadded := htidy.names marker hmarker
    rw [← hfolder] at hunpadded
    have htrimmed : Trimmed folder := (unpadded_append_iff.mp hunpadded).1.trimmed
      ((hplaced.framed marker hmarker).folder folder hfolder.symm)
    have hpath : folderPathOf marker = folder := by
      rw [folderPathOf, ← hfolder, folderPathFromPlaceholder_append htrimmed]
    have hbucketId : g.bucketId = bucket.id := by
      by_contra hne
      simp [resourceMatchesGrant, hne] at hmatch
    rw [← hpath] at htrimmed hfolder
    exact ⟨⟨hactive, hbucketId, marker, hresource, hfolder.symm⟩, htrimmed,
      (matches_folder_iff hbucketId hresource htrimmed).mp hmatch⟩

theorem object_of_match (hplaced : WellPlaced db) (htidy : Tidy db now bucket.companyId)
    (hactive : g ∈ activeGrants db now bucket.companyId) {target : StorageObject}
    (hresource : g.resource = .object target)
    (hmatch : resourceMatchesGrant g bucket path objectId = true) :
    target ∈ db.objects.rows ∧ target.bucketId = bucket.id ∧
      (objectId = some target.id ∨ target.name = normalizePath (path.getD [])) := by
  obtain ⟨-, hrow, hrows⟩ := mem_activeGrants.mp hactive
  have htarget : target ∈ db.objects.rows := hrows target (by rw [hresource]; rfl)
  have hself : normalizePath target.name = target.name :=
    ((htidy.names target htarget).trimmed (hplaced.framed target htarget).ends).1
  have hlies := (hplaced.grants g.row hrow).object target htarget
    (by rw [StorageAccessGrant.row, Resource.object?_map, hresource]; rfl)
  unfold resourceMatchesGrant at hmatch
  split at hmatch
  · contradiction
  · rename_i hbucketId
    refine ⟨htarget, hlies.trans (not_not.mp hbucketId), ?_⟩
    simp only [hresource, hself] at hmatch
    split at hmatch
    · exact .inl ‹_›
    · exact .inr (of_decide_eq_true hmatch).2

end FolderGrants

/-! ## A new object on its own -/

def ownGrantResource (obj : StorageObject) : Resource StorageObject :=
  if placeholderSuffix <:+ normalizePath obj.name then .folder obj else .object obj

def joinedWith (obj : StorageObject) (row : GrantRow) : Grant :=
  { row with resource := ownGrantResource obj }

@[simp] theorem row_joinedWith {obj : StorageObject} {row : GrantRow}
    (h : row.resource = ownResource obj) : (joinedWith obj row).row = row := by
  obtain ⟨_, _, _, _, _, resource, _, _, _, _, _, _⟩ := row
  obtain rfl : resource = ownResource obj := h
  simp only [StorageAccessGrant.row, joinedWith, ownGrantResource, ownResource]
  split <;> rfl

theorem eq_joinedWith {obj : StorageObject} {g : Grant}
    (hrow : g.row.resource = ownResource obj) (hobj : g.resource.object? = some obj) :
    g = joinedWith obj g.row := by
  obtain ⟨_, _, _, _, _, resource, _, _, _, _, _, _⟩ := g
  suffices resource = ownGrantResource obj by simp [joinedWith, StorageAccessGrant.row, this]
  simp only [StorageAccessGrant.row, ownResource] at hrow
  rw [ownGrantResource]
  cases resource with
  | bucket => simp [Resource.object?] at hobj
  | folder marker =>
      obtain rfl : marker = obj := by simpa [Resource.object?] using hobj
      split at hrow
      · rw [if_pos ‹_›]
      · simp [Resource.map] at hrow
  | object target =>
      obtain rfl : target = obj := by simpa [Resource.object?] using hobj
      split at hrow
      · simp [Resource.map] at hrow
      · rw [if_neg ‹_›]

section Matching

variable {db db' : Database} {now : Time} {bucket : Bucket} {obj : StorageObject}
  {new : List GrantRow}

theorem mem_matchingGrants_of_new (hfresh : ∀ p ∈ db.objects.rows, p.id ≠ obj.id)
    (hobjects : db'.objects.rows = db.objects.rows ++ [obj])
    (hgrants : db'.grants.rows = db.grants.rows ++ new)
    (hnew : ∀ row ∈ new, GrantedOn obj (ownResource obj) row)
    (hcompanyId : obj.companyId = bucket.companyId) {principal : StoragePrincipal}
    (hcompany : principal.companyId = some bucket.companyId) {path : Option Text}
    {objectId : Option UUID} {g : Grant} :
    g ∈ matchingGrants db' now principal bucket path objectId ↔
      g ∈ matchingGrants db now principal bucket path objectId ∨
        ∃ row ∈ new, row.active now = true ∧ g = joinedWith obj row ∧
          subjectMatches g principal = true ∧
          resourceMatchesGrant g bucket path objectId = true := by
  rw [mem_matchingGrants hcompany, mem_matchingGrants hcompany,
    mem_activeGrants_of_granted hfresh hobjects hgrants
      fun row hrow => by rw [(hnew row hrow).resource, ownResource_object?]]
  constructor
  · rintro ⟨hold | ⟨⟨-, hactive⟩, hrow, hobj⟩, hmatches⟩
    · exact .inl ⟨hold, hmatches⟩
    · exact .inr ⟨g.row, hrow, hactive, eq_joinedWith (hnew _ hrow).resource hobj, hmatches⟩
  · rintro (⟨hold, hmatches⟩ | ⟨row, hrow, hactive, rfl, hmatches⟩)
    · exact ⟨.inl hold, hmatches⟩
    · refine ⟨.inr ⟨⟨(hnew row hrow).companyId.trans hcompanyId, hactive⟩, ?_, ?_⟩, hmatches⟩
      · rwa [row_joinedWith (hnew row hrow).resource]
      · rw [joinedWith, ownGrantResource]
        split <;> rfl

end Matching

theorem own_matches {bucket : Bucket} {obj : StorageObject} {objectId : Option UUID} {g : Grant}
    (hplain : Plain obj.name) (hbucketId : g.bucketId = bucket.id)
    (hresource : g.resource = ownGrantResource obj) :
    resourceMatchesGrant g bucket (some obj.name) objectId = true := by
  have hself := hplain.normalizePath_eq
  rw [ownGrantResource, hself] at hresource
  rcases ownPath_cases hplain with ⟨hmarker, hname, hown, hpath⟩ | ⟨hfile, -⟩
  · rw [if_pos hmarker] at hresource
    rw [matches_folder_iff hbucketId hresource (hpath ▸ hown.trimmed), Option.getD_some, hself,
      hself, hpath, hname]
    exact Under.below (ownPath obj) folderPlaceholderName
  · rw [if_neg hfile] at hresource
    simp [resourceMatchesGrant, hbucketId, hresource, hself, hplain.trimmed.2]

theorem folderDepth_lt_object {name : Text} (hplain : Plain name)
    (hlength : name.length ≤ nameLimit) : 100 + folderDepth name < 1000 := by
  have hcount := hplain.canonical.count_lt
  rw [folderDepth_eq hplain.trimmed]
  rw [nameLimit] at hlength
  omega

theorem not_markerLast (folder : Text) :
    ¬MarkerLast (folder ++ placeholderSuffix ++ placeholderSuffix) := by
  have hmarker : folderPlaceholderName.splitOn '/' = [folderPlaceholderName] := by decide
  intro hlast
  apply hlast
  rw [placeholderSuffix, List.splitOn_append_cons_self, List.splitOn_append_cons_self, hmarker,
    List.dropLast_concat]
  simp

theorem score_lt_own {db : Database} {now : Time} {bucket : Bucket} {obj : StorageObject}
    {objectId : Option UUID} {g : Grant} (hplaced : WellPlaced db)
    (htidy : Tidy db now bucket.companyId) (hlast : ∀ o ∈ db.objects.rows, MarkerLast o.name)
    (hplain : Plain obj.name) (hlength : obj.name.length ≤ nameLimit)
    (hnew : db.objectNamed bucket.id obj.name = none)
    (hfree : ∀ folder rest, obj.name = folder ++ '/' :: rest →
      ∀ g, ¬FolderGrant db now bucket folder g)
    (hfresh : ∀ p ∈ db.objects.rows, p.id ≠ obj.id)
    (hid : objectId = none ∨ objectId = some obj.id)
    (hactive : g ∈ activeGrants db now bucket.companyId)
    (hmatch : resourceMatchesGrant g bucket (some obj.name) objectId = true) :
    resourceScore g.resource < resourceScore (ownGrantResource obj) := by
  have hself := hplain.normalizePath_eq
  have hown : 100 < resourceScore (ownGrantResource obj) := by
    rw [ownGrantResource, hself]
    rcases ownPath_cases hplain with ⟨hmarker, -, hown, hpath⟩ | ⟨hfile, -⟩
    · rw [if_pos hmarker, resourceScore, hpath, folderDepth_eq hown.trimmed]
      omega
    · rw [if_neg hfile, resourceScore]
      decide
  cases hresource : g.resource with
  | bucket => exact Nat.lt_trans (by decide) hown
  | folder marker =>
      rcases folderGrant_of_match hplaced htidy hactive hresource hmatch with
        hroot | ⟨hgrant, -, hunder⟩
      · rwa [resourceScore, hroot]
      · rw [Option.getD_some, hself, hself] at hunder
        rcases hunder with hsame | ⟨rest, hrest⟩
        · obtain ⟨-, -, marker', hresource', hname⟩ := hgrant
          obtain rfl : marker = marker' := Resource.folder.inj (hresource.symm.trans hresource')
          rw [← hsame] at hname
          rw [resourceScore, ← hsame, ownGrantResource, hself]
          rcases ownPath_cases hplain with ⟨hmarker, hmarkerName, -, -⟩ | ⟨hfile, -⟩
          · -- the marker would have the marker name twice
            have hstored := hlast marker ((mem_activeGrants.mp hactive).2.2 marker
              (by rw [hresource]; rfl))
            rw [hname, hmarkerName] at hstored
            exact absurd hstored (not_markerLast _)
          · rw [if_neg hfile]
            exact folderDepth_lt_object hplain hlength
        · exact absurd hgrant (hfree _ rest (by rw [← hrest]; simp) g)
  | object target =>
      obtain ⟨htarget, hbucketId, hsame⟩ := object_of_match hplaced htidy hactive hresource hmatch
      exfalso
      rcases hsame with hsame | hsame
      · rcases hid with rfl | rfl
        · contradiction
        · exact hfresh target htarget (Option.some.inj hsame).symm
      · rw [Option.getD_some, hself] at hsame
        have hfound := Database.objectNamed_of_mem htarget
        rw [hbucketId, hsame, hnew] at hfound
        contradiction

theorem evaluateAccess_alone {db db' : Database} {now : Time} {bucket : Bucket}
    {obj : StorageObject} {userId : Nat} {i j : UUID} {objectId : Option UUID}
    (hbucketId : obj.bucketId = bucket.id) (hcompany : obj.companyId = bucket.companyId)
    (hplain : Plain obj.name) (hfresh : ∀ p ∈ db.objects.rows, p.id ≠ obj.id)
    (hobjects : db'.objects.rows = db.objects.rows ++ [obj])
    (hgrants : db'.grants.rows = db.grants.rows ++
      [automaticGrant userId obj (ownResource obj) .company (decimal obj.companyId) .read .deny
          i now,
        automaticGrant userId obj (ownResource obj) .user (decimal userId) .admin .allow j now])
    (hbelow : ∀ g ∈ activeGrants db now bucket.companyId,
      resourceMatchesGrant g bucket (some obj.name) objectId = true →
        resourceScore g.resource < resourceScore (ownGrantResource obj))
    (principal : StoragePrincipal) (required : Permission) :
    evaluateAccess db' now principal bucket (some obj.name) objectId required =
      decide (principal.companyId = some bucket.companyId ∧ principal.userId = userId) := by
  by_cases hsame : principal.companyId = some bucket.companyId
  swap
  · simp [evaluateAccess, hsame]
  simp only [hsame, true_and]
  rw [evaluateAccess_eq_ruling _ _ _ _ _ hsame]
  set deny : GrantRow := automaticGrant userId obj (ownResource obj) .company
    (decimal obj.companyId) .read .deny i now with hdeny
  set allow : GrantRow := automaticGrant userId obj (ownResource obj) .user (decimal userId)
    .admin .allow j now with hallow
  have hnew : ∀ row ∈ [deny, allow], GrantedOn obj (ownResource obj) row := by
    simp only [List.forall_mem_cons, List.not_mem_nil, false_imp_iff, implies_true, and_true]
    exact ⟨⟨rfl, rfl, rfl⟩, ⟨rfl, rfl, rfl⟩⟩
  have hmem := fun g => @mem_matchingGrants_of_new db db' now bucket obj [deny, allow] hfresh
    hobjects hgrants hnew hcompany principal hsame (some obj.name) objectId g
  have hold : ∀ g ∈ matchingGrants db now principal bucket (some obj.name) objectId,
      ∀ row, ¬grantSpecificity (joinedWith obj row) ≤ grantSpecificity g := by
    intro g hg row
    obtain ⟨hactive, -, hmatch⟩ := (mem_matchingGrants hsame).mp hg
    rw [not_le]
    exact Prod.Lex.toLex_lt_toLex.mpr (.inl (hbelow g hactive hmatch))
  have hdenied : joinedWith obj deny ∈
      matchingGrants db' now principal bucket (some obj.name) objectId := by
    refine (hmem _).mpr (.inr ⟨deny, by simp, rfl, rfl, ?_, own_matches hplain hbucketId rfl⟩)
    simp [subjectMatches, hsame, joinedWith, hdeny, automaticGrant, hcompany]
  by_cases huser : principal.userId = userId
  · rw [decide_eq_true huser]
    have hallowed : joinedWith obj allow ∈
        matchingGrants db' now principal bucket (some obj.name) objectId := by
      refine (hmem _).mpr (.inr ⟨allow, by simp, rfl, rfl, ?_, own_matches hplain hbucketId rfl⟩)
      simp [subjectMatches, hsame, joinedWith, hallow, automaticGrant, huser]
    refine permitted_of_above hallowed fun g hg hle => ?_
    rcases (hmem g).mp hg with hg | ⟨row, hrow, -, rfl, -⟩
    · exact absurd hle (hold g hg allow)
    · simp only [List.mem_cons, List.not_mem_nil, or_false] at hrow
      rcases hrow with rfl | rfl
      · -- the user comes before the company
        rcases Prod.Lex.toLex_le_toLex.mp hle with hlt | ⟨-, hle⟩
        · exact absurd hlt (lt_irrefl _)
        · have hscores : subjectScore .user ≤ subjectScore .company := hle
          exact absurd hscores (by decide)
      · refine grantVerdict_eq_permit.mpr ⟨rfl, ?_⟩
        cases required <;> rfl
  · rw [decide_eq_false huser]
    refine refused_of_above hdenied fun g hg hle => ?_
    rcases (hmem g).mp hg with hg | ⟨row, hrow, -, rfl, hsubject, -⟩
    · exact absurd hle (hold g hg deny)
    · simp only [List.mem_cons, List.not_mem_nil, or_false] at hrow
      rcases hrow with rfl | rfl
      · refine grantVerdict_eq_refuse.mpr ⟨rfl, ?_⟩
        cases required <;> rfl
      · have hother : decimal userId = decimal principal.userId := by
          simpa [subjectMatches, hsame, joinedWith, hallow, automaticGrant] using hsubject
        exact absurd (decimal_injective hother).symm huser

/--
A new object with no granted folder above it is its creator's alone, whatever
else was granted before.
-/
theorem uploadObject_private (henv : env.Lawful) {w : World} (hw : Reachable env w)
    {bucket : Bucket} (hbucket : bucket ∈ w.db.buckets.rows)
    (htidy : Tidy w.db w.out.now bucket.companyId)
    (hlast : ∀ o ∈ w.db.objects.rows, MarkerLast o.name) {path name : Text}
    (hsafe : safeObjectPath path = .ok name) (hunpadded : Unpadded name)
    (hlength : name.length ≤ nameLimit) (hroot : name ≠ folderPlaceholderName)
    (hnew : w.db.objectNamed bucket.id name = none)
    (hfree : ∀ folder rest, name = folder ++ '/' :: rest →
      ∀ g, ¬FolderGrant w.db w.out.now bucket folder g)
    {fault : Option (Point × Nat)} {data : Bytes} {userId : Nat} {contentType : Option Text}
    {upsert : Bool} {obj : StorageObject} {w' : World}
    (h : (uploadObject env bucket path data (some userId) contentType upsert).Runs
      (w.withFault fault) obj w')
    (principal : StoragePrincipal) (objectId : Option UUID)
    (hid : objectId = none ∨ objectId = some obj.id) (required : Permission) :
    evaluateAccess w'.db w'.out.now principal bucket (some obj.name) objectId required =
      decide (principal.companyId = some bucket.companyId ∧ principal.userId = userId) := by
  have hplaced := hw.wellPlaced henv
  have hplain : Plain name := ⟨canonical_of_safeObjectPath hsafe, hunpadded⟩
  obtain ⟨hbucketId, rfl, hcompanyId, hfresh, hnow, hobjects, new, hgrants, -, -, hgiven⟩ :=
    uploadObject_new (s := w.withFault fault) hplaced hbucket hsafe hplain hroot hnew h
  -- a folder above the own path is one above the name
  have habove : ∀ folder rest, ownPath obj = folder ++ '/' :: rest →
      ∃ rest', obj.name = folder ++ '/' :: rest' := by
    intro folder rest hown
    rcases ownPath_cases hplain with ⟨-, hname, -⟩ | ⟨-, hname⟩
    · exact ⟨rest ++ placeholderSuffix, by rw [hname, hown]; simp⟩
    · exact ⟨rest, hname.trans hown⟩
  have hbelow : ∀ g ∈ activeGrants w.db w.out.now bucket.companyId,
      resourceMatchesGrant g bucket (some obj.name) objectId = true →
        resourceScore g.resource < resourceScore (ownGrantResource obj) :=
    fun g hactive hmatch => score_lt_own hplaced htidy hlast hplain hlength hnew hfree hfresh hid
      hactive hmatch
  have hnogrant : ∀ folder rest, ownPath obj = folder ++ '/' :: rest →
      ∀ g, ¬FolderGrant w.db w.out.now bucket folder g := by
    intro folder rest hown
    obtain ⟨rest', hname⟩ := habove folder rest hown
    exact hfree folder rest' hname
  rw [hnow]
  cases hgiven userId rfl with
  | alone i j =>
      exact evaluateAccess_alone hbucketId hcompanyId hplain hfresh hobjects hgrants hbelow
        principal required
  | copied hmarker hown hne hsources =>
      obtain ⟨g, hg⟩ := List.exists_mem_of_ne_nil _ hne
      exact absurd ((hsources g).mp hg) (hnogrant _ _ hown g)
  | inherited hfile hown hgrant => exact absurd hgrant (hnogrant _ _ hown _)

theorem tidy_of_all {db : Database} {now : Time} {companyId : Nat}
    (hmarkers : (activeGrants db now companyId).all (fun g => g.resource.marker?.all fun marker =>
      decide (marker.name = folderPlaceholderName ∨ placeholderSuffix <:+ marker.name)) = true)
    (hnames : ∀ o ∈ db.objects.rows, Unpadded o.name) : Tidy db now companyId where
  markers g hg marker hresource := by
    have hall := List.all_eq_true.mp hmarkers g hg
    rw [hresource] at hall
    exact of_decide_eq_true hall
  names := hnames

theorem privateFolder_tidy :
    Tidy privateFolder.db privateFolder.out.now sampleBucket.companyId :=
  tidy_of_all (by decide +kernel) (by decide +kernel)

def besideFolder : World :=
  ((sampleUpload ['c'] [99] 3).run (sampleEnv false) (privateFolder.withFault none)).2

theorem uploadObject_private_besideFolder : ∃ obj : StorageObject,
    evaluateAccess besideFolder.db besideFolder.out.now (member 3) sampleBucket (some obj.name)
        (some obj.id) .admin = true ∧
      evaluateAccess besideFolder.db besideFolder.out.now (staffMember 1) sampleBucket
        (some obj.name) (some obj.id) .read = false := by
  have hok : ((sampleUpload ['c'] [99] 3).run (sampleEnv false)
      (privateFolder.withFault none)).1.toOption.any (fun _ => true) = true := by
    decide +kernel
  obtain ⟨obj, hok, -⟩ := runs_of_any hok
  have hrun : ((sampleUpload ['c'] [99] 3).run (sampleEnv false)).Runs
      (privateFolder.withFault none) obj besideFolder := hok
  have hbucket : sampleBucket ∈ privateFolder.db.buckets.rows := by decide +kernel
  have hlast : ∀ o ∈ privateFolder.db.objects.rows, MarkerLast o.name := by decide +kernel
  have hsafe : safeObjectPath ['c'] = .ok ['c'] := by decide +kernel
  have hnew : privateFolder.db.objectNamed sampleBucket.id ['c'] = none := by decide +kernel
  have hanswer := uploadObject_private (sampleEnv_lawful false) privateFolder_reachable hbucket
    privateFolder_tidy hlast hsafe (by decide) (by decide) (by decide) hnew
    (fun folder rest h => absurd (h ▸ by simp : '/' ∈ ['c']) (by decide)) hrun
  refine ⟨obj, ?_, ?_⟩
  · exact hanswer (member 3) (some obj.id) (.inr rfl) .admin
  · exact hanswer (staffMember 1) (some obj.id) (.inr rfl) .read

@[irreducible] def deepFolder : Text := (List.replicate 900 ['a', '/']).flatten ++ ['a']

@[irreducible] def grantedDeep : World :=
  play (sampleEnv false)
    [.companyBucket 1, .upload (sampleUpload (deepFolder ++ placeholderSuffix) [] 2)] .initial

def uploadDeep : Act StorageObject :=
  uploadAlone (sampleEnv false) sampleBucket deepFolder [97] 3
    (normalizeMimeType (sampleEnv false) none deepFolder)

theorem grantedDeep_tidy :
    Tidy grantedDeep.db grantedDeep.out.now sampleBucket.companyId ∧
      grantedDeep.db.objects.rows.map StorageObject.name = [deepFolder ++ placeholderSuffix] := by
  have hfacts : (activeGrants grantedDeep.db grantedDeep.out.now 1).all (fun g =>
      g.resource.marker?.all fun marker => decide (marker.name = folderPlaceholderName ∨
        placeholderSuffix <:+ marker.name)) = true ∧
      (∀ o ∈ grantedDeep.db.objects.rows, Unpadded o.name) ∧
      grantedDeep.db.objects.rows.map StorageObject.name = [deepFolder ++ placeholderSuffix] := by
    decide +kernel
  exact ⟨tidy_of_all hfacts.1 hfacts.2.1, hfacts.2.2⟩

/-- A folder grant on the very path of a file has more weight from 901 segments on. -/
theorem not_uploadObject_private :
    ¬∀ (env : Env) (w : World) (bucket : Bucket) (path name : Text) (data : Bytes) (userId : Nat)
      (contentType : Option Text) (upsert : Bool) (obj : StorageObject) (w' : World),
      env.Lawful → Reachable env w → bucket ∈ w.db.buckets.rows →
      Tidy w.db w.out.now bucket.companyId → (∀ o ∈ w.db.objects.rows, MarkerLast o.name) →
      safeObjectPath path = .ok name → Unpadded name → MarkerLast name →
      name ≠ folderPlaceholderName → w.db.objectNamed bucket.id name = none →
      (∀ folder rest, name = folder ++ '/' :: rest →
        ∀ g, ¬FolderGrant w.db w.out.now bucket folder g) →
      (uploadObject env bucket path data (some userId) contentType upsert).Runs (w.withFault none)
        obj w' →
      ∀ (principal : StoragePrincipal) (required : Permission),
        evaluateAccess w'.db w'.out.now principal bucket (some obj.name) (some obj.id) required =
          decide (principal.companyId = some bucket.companyId ∧ principal.userId = userId) := by
  intro h
  obtain ⟨htidy, hnames⟩ := grantedDeep_tidy
  have hbucket : sampleBucket ∈ grantedDeep.db.buckets.rows := by decide +kernel
  have hreachable : Reachable (sampleEnv false) grantedDeep := by
    unfold grantedDeep
    exact Reachable.play .refl (by decide +kernel)
  have hnamed : ∀ o ∈ grantedDeep.db.objects.rows, o.name = deepFolder ++ placeholderSuffix := by
    intro o ho
    have hmem := List.mem_map_of_mem (f := StorageObject.name) ho
    rw [hnames] at hmem
    exact List.mem_singleton.mp hmem
  obtain ⟨hsafe, hunpadded, hlast, hlast', hfile, hmime, hroot⟩ :
      safeObjectPath deepFolder = .ok deepFolder ∧ Unpadded deepFolder ∧ MarkerLast deepFolder ∧
        MarkerLast (deepFolder ++ placeholderSuffix) ∧ ¬placeholderSuffix <:+ deepFolder ∧
        mimeAllowed (sampleEnv false) (normalizeMimeType (sampleEnv false) none deepFolder)
          sampleBucket.allowedMimeTypes = true ∧ deepFolder ≠ folderPlaceholderName := by
    decide +kernel
  have hplain : Plain deepFolder := ⟨canonical_of_safeObjectPath hsafe, hunpadded⟩
  have hnew : grantedDeep.db.objectNamed sampleBucket.id deepFolder = none := by
    cases hfound : grantedDeep.db.objectNamed sampleBucket.id deepFolder with
    | none => rfl
    | some o =>
        obtain ⟨hmem, -, hname⟩ := Database.objectNamed_eq_some hfound
        exact absurd (hname.symm.trans (hnamed o hmem)) (by simp [placeholderSuffix])
  have hfree : ∀ folder rest, deepFolder = folder ++ '/' :: rest →
      ∀ g, ¬FolderGrant grantedDeep.db grantedDeep.out.now sampleBucket folder g := by
    rintro folder rest habove g ⟨hactive, -, marker, hresource, hname⟩
    have hmarker := (mem_activeGrants.mp hactive).2.2 marker (by rw [hresource]; rfl)
    rw [hnamed marker hmarker, List.append_left_inj] at hname
    rw [hname] at habove
    simp at habove
  have hok : (uploadDeep (grantedDeep.withFault none)).1.toOption.any (fun obj =>
      !evaluateAccess (uploadDeep (grantedDeep.withFault none)).2.db
        (uploadDeep (grantedDeep.withFault none)).2.out.now (member 3) sampleBucket
        (some obj.name) (some obj.id) .read) = true := by
    decide +kernel
  obtain ⟨obj, hrun, hrefused⟩ := runs_of_any hok
  have hplaced : WellPlaced (grantedDeep.withFault none).db :=
    show WellPlaced grantedDeep.db from hreachable.wellPlaced (sampleEnv_lawful false)
  have hupload : (uploadObject (sampleEnv false) sampleBucket deepFolder [97] (some 3) none
      true).Runs (grantedDeep.withFault none) obj (uploadDeep (grantedDeep.withFault none)).2 :=
    runs_uploadObject_alone hplaced hbucket hsafe hplain hroot hfile hnew hfree hmime (by decide)
      hrun
  have hanswer := h (sampleEnv false) grantedDeep sampleBucket deepFolder deepFolder [97] 3 none
    true obj _ (sampleEnv_lawful false) hreachable hbucket htidy
    (fun o ho => (hnamed o ho).symm ▸ hlast') hsafe hunpadded hlast hroot hnew hfree hupload
    (member 3) .read
  rw [Bool.not_eq_true'] at hrefused
  rw [decide_eq_true ⟨rfl, rfl⟩, hrefused] at hanswer
  cases hanswer

/-! ## A folder inside a folder -/

section Copies

variable {db db' : Database} {now : Time} {bucket : Bucket} {obj : StorageObject}
  {nearest rest : Text}

theorem not_folderGrant_of_new (hplaced : WellPlaced db) {folder : Text}
    (hnew : db.objectNamed bucket.id (folder ++ placeholderSuffix) = none) (g : Grant) :
    ¬FolderGrant db now bucket folder g := by
  rintro ⟨hactive, hbucketId, marker, hresource, hname⟩
  obtain ⟨-, hrow, hrows⟩ := mem_activeGrants.mp hactive
  have hmarker : marker ∈ db.objects.rows := hrows marker (by rw [hresource]; rfl)
  have hlies := (hplaced.grants g.row hrow).object marker hmarker
    (by rw [StorageAccessGrant.row, Resource.object?_map, hresource]; rfl)
  have hfound := Database.objectNamed_of_mem hmarker
  rw [hlies.trans hbucketId, hname, hnew] at hfound
  contradiction

theorem folder_cases {folder path outer : Text} {g : Grant} (hplaced : WellPlaced db)
    (hnew : db.objectNamed bucket.id (folder ++ placeholderSuffix) = none)
    (habove : folder = nearest ++ '/' :: rest)
    (hnearest : ∀ outer rest g, folder = outer ++ '/' :: rest →
      FolderGrant db now bucket outer g → outer.length ≤ nearest.length)
    (hpath : Under '/' folder path) (hgrant : FolderGrant db now bucket outer g)
    (houter : Under '/' outer path) :
    Under '/' outer nearest ∨ Under '/' folder outer ∧ outer ≠ folder := by
  have hne : outer ≠ folder := by
    rintro rfl
    exact not_folderGrant_of_new hplaced hnew g hgrant
  rcases le_total outer.length folder.length with hle | hle
  · left
    have hunder : Under '/' outer folder := houter.of_under hpath hle
    obtain ⟨inner, hinner⟩ := hunder.resolve_left hne.symm
    refine hunder.of_under ?_ (hnearest outer inner g (by rw [← hinner]; simp) hgrant)
    rw [habove]
    exact Under.below nearest rest
  · exact .inr ⟨hpath.of_under houter hle, hne⟩

theorem folderDepth_le_of_under {outer inner : Text} (houter : Trimmed outer)
    (hinner : Trimmed inner) (h : Under '/' outer inner) :
    folderDepth outer ≤ folderDepth inner := by
  rw [folderDepth_eq houter, folderDepth_eq hinner]
  exact Nat.succ_le_succ (h.isPrefix.sublist.count_le '/')

theorem folderDepth_lt_of_under {outer inner : Text} (houter : Trimmed outer)
    (hinner : Trimmed inner) (h : Under '/' outer inner) (hne : inner ≠ outer) :
    folderDepth outer < folderDepth inner := by
  rw [folderDepth_eq houter, folderDepth_eq hinner]
  exact Nat.succ_lt_succ (h.count_lt hne)

/-- The scores of matching grants leave a gap between the copied folder and the new one. -/
theorem score_gap {folder : Text} {path : Option Text} {objectId : Option UUID} {g : Grant}
    (hplaced : WellPlaced db) (htidy : Tidy db now bucket.companyId) (hplain : Plain folder)
    (hlength : folder.length ≤ nameLimit)
    (hnew : db.objectNamed bucket.id (folder ++ placeholderSuffix) = none)
    (habove : folder = nearest ++ '/' :: rest)
    (hnearest : ∀ outer rest g, folder = outer ++ '/' :: rest →
      FolderGrant db now bucket outer g → outer.length ≤ nearest.length)
    (hpath : Under '/' folder (normalizePath (normalizePath (path.getD []))))
    (hactive : g ∈ activeGrants db now bucket.companyId)
    (hmatch : resourceMatchesGrant g bucket path objectId = true) :
    (resourceScore g.resource ≤ 100 + folderDepth nearest ∨
        100 + folderDepth folder < resourceScore g.resource) ∧
      (resourceScore g.resource = 100 + folderDepth nearest →
        FolderGrant db now bucket nearest g) := by
  have hnearestPlain : Plain nearest := by
    rw [habove] at hplain
    exact (Plain.append_iff.mp hplain).1
  have hlt : folderDepth nearest < folderDepth folder := by
    refine folderDepth_lt_of_under hnearestPlain.trimmed hplain.trimmed ?_ ?_
    · rw [habove]
      exact Under.below nearest rest
    · rw [habove]
      intro heq
      have hlengths := congrArg List.length heq
      simp at hlengths
  have hpos : 0 < folderDepth nearest := by
    rw [folderDepth_eq hnearestPlain.trimmed]
    exact Nat.succ_pos _
  cases hresource : g.resource with
  | bucket =>
      simp only [resourceScore]
      omega
  | folder marker =>
      rcases folderGrant_of_match hplaced htidy hactive hresource hmatch with
        hroot | ⟨hgrant, htrimmed, hover⟩
      · have hzero : folderDepth (folderPathOf marker) = 0 := by rw [hroot, folderDepth_root]
        simp only [resourceScore, hzero]
        omega
      · simp only [resourceScore]
        rcases folder_cases hplaced hnew habove hnearest hpath hgrant hover with
          hunder | ⟨hunder, hne⟩
        · refine ⟨.inl ?_, fun hscore => ?_⟩
          · have hle := folderDepth_le_of_under htrimmed hnearestPlain.trimmed hunder
            omega
          · by_cases hsame : nearest = folderPathOf marker
            · rwa [hsame]
            · have hlt := folderDepth_lt_of_under htrimmed hnearestPlain.trimmed hunder hsame
              omega
        · have hlt' := folderDepth_lt_of_under hplain.trimmed htrimmed hunder hne
          omega
  | object target =>
      have hobject := folderDepth_lt_object hplain hlength
      simp only [resourceScore]
      omega

/-- Copies of the nearest grants on a new folder decide as the originals do. -/
theorem evaluateAccess_copied {userId : Nat} {sources : List Grant} {rows : List GrantRow}
    (hplaced : WellPlaced db) (htidy : Tidy db now bucket.companyId)
    (hbucketId : obj.bucketId = bucket.id) (hcompanyId : obj.companyId = bucket.companyId)
    {folder : Text} (hname : obj.name = folder ++ placeholderSuffix) (hplain : Plain folder)
    (hlength : folder.length ≤ nameLimit) (hnew : db.objectNamed bucket.id obj.name = none)
    (hfresh : ∀ p ∈ db.objects.rows, p.id ≠ obj.id)
    (hobjects : db'.objects.rows = db.objects.rows ++ [obj])
    (hgrants : db'.grants.rows = db.grants.rows ++ rows)
    (hgranted : ∀ row ∈ rows, GrantedOn obj (ownResource obj) row)
    (habove : folder = nearest ++ '/' :: rest)
    (hsources : ∀ g, g ∈ sources ↔ FolderGrant db now bucket nearest g)
    (hnearest : ∀ outer rest g, folder = outer ++ '/' :: rest →
      FolderGrant db now bucket outer g → outer.length ≤ nearest.length)
    (hrows : CopiesOf userId obj sources rows)
    (principal : StoragePrincipal) (path : Option Text) (objectId : Option UUID)
    (required : Permission) :
    evaluateAccess db' now principal bucket path objectId required =
      evaluateAccess db now principal bucket path objectId required := by
  by_cases hcompany : principal.companyId = some bucket.companyId
  swap
  · simp [evaluateAccess, hcompany]
  have hmem := fun g => @mem_matchingGrants_of_new db db' now bucket obj rows hfresh hobjects
    hgrants hgranted hcompanyId principal hcompany path objectId g
  have hself : normalizePath obj.name = obj.name := by
    rw [hname]
    exact (Plain.append_iff.mpr ⟨hplain, by decide⟩).normalizePath_eq
  have hresource : ∀ row, (joinedWith obj row).resource = .folder obj := fun row => by
    rw [joinedWith, ownGrantResource, hself, if_pos ⟨folder, hname.symm⟩]
  have hfolder : folderPathOf obj = folder := by
    rw [folderPathOf, hname, folderPathFromPlaceholder_append hplain.trimmed]
  have hcopyMatches : ∀ row ∈ rows, resourceMatchesGrant (joinedWith obj row) bucket path
      objectId = true ↔ Under '/' folder (normalizePath (normalizePath (path.getD []))) := by
    intro row hrow
    rw [matches_folder_iff ((hgranted row hrow).bucketId.trans hbucketId) (hresource row)
      (hfolder ▸ hplain.trimmed), hfolder]
  rw [evaluateAccess_eq_ruling _ _ _ _ _ hcompany, evaluateAccess_eq_ruling _ _ _ _ _ hcompany]
  by_cases hpath : Under '/' folder (normalizePath (normalizePath (path.getD [])))
  swap
  · -- the copies do not speak about other paths
    apply ruling_congr
    intro g
    rw [hmem]
    refine or_iff_left ?_
    rintro ⟨row, hrow, -, rfl, -, hmatch⟩
    exact hpath ((hcopyMatches row hrow).mp hmatch)
  have hgap : ∀ g ∈ matchingGrants db now principal bucket path objectId, _ := fun g hg =>
    score_gap hplaced htidy hplain hlength (hname ▸ hnew) habove hnearest hpath
      ((mem_matchingGrants hcompany).mp hg).1 ((mem_matchingGrants hcompany).mp hg).2.2
  have hnearestPlain : Plain nearest := by
    rw [habove] at hplain
    exact (Plain.append_iff.mp hplain).1
  have hover : Under '/' nearest folder := habove ▸ Under.below nearest rest
  have hlt : folderDepth nearest < folderDepth folder := by
    refine folderDepth_lt_of_under hnearestPlain.trimmed hplain.trimmed hover ?_
    rw [habove]
    simp
  have hscore : ∀ row, resourceScore (joinedWith obj row).resource = 100 + folderDepth folder :=
    fun row => by rw [hresource, resourceScore, hfolder]
  refine ruling_of_copied (Nat.add_lt_add_left hlt 100) hmem (fun g hg => (hgap g hg).1) ?_ ?_
  · rintro _ ⟨row, hrow, -, rfl, hsubject, -⟩
    obtain ⟨src, hsrc, i, t, rfl⟩ := hrows.copies row hrow
    have hon := (hsources src).mp hsrc
    refine ⟨hscore _, src, (mem_matchingGrants hcompany).mpr ⟨hon.active, hsubject, ?_⟩,
      folderGrant_score hon hnearestPlain.trimmed, rfl, rfl⟩
    exact (folderGrant_matches_iff hon hnearestPlain.trimmed).mpr (hover.trans hpath)
  · intro src hsrc hlevel
    obtain ⟨hactive, hsubject, -⟩ := (mem_matchingGrants hcompany).mp hsrc
    obtain ⟨row, hrow, i, t, rfl⟩ :=
      hrows.copied src ((hsources src).mpr ((hgap src hsrc).2 hlevel))
    exact ⟨_, ⟨_, hrow, (mem_activeGrants.mp hactive).1.2, rfl, hsubject,
      (hcopyMatches _ hrow).mpr hpath⟩, rfl, rfl⟩

end Copies

/-- A new folder below one that has grants changes no decision, whoever creates it. -/
theorem uploadObject_marker_unchanged (henv : env.Lawful) {w : World} (hw : Reachable env w)
    {bucket : Bucket} (hbucket : bucket ∈ w.db.buckets.rows)
    (htidy : Tidy w.db w.out.now bucket.companyId) {path folder : Text}
    (hsafe : safeObjectPath path = .ok (folder ++ placeholderSuffix))
    (hunpadded : Unpadded folder) (hlength : folder.length ≤ nameLimit)
    (hnew : w.db.objectNamed bucket.id (folder ++ placeholderSuffix) = none)
    {outer rest : Text} (habove : folder = outer ++ '/' :: rest) {g : Grant}
    (hgrant : FolderGrant w.db w.out.now bucket outer g) {fault : Option (Point × Nat)}
    {data : Bytes} {ownerId : Option Nat} {contentType : Option Text} {upsert : Bool}
    {obj : StorageObject} {w' : World}
    (h : (uploadObject env bucket path data ownerId contentType upsert).Runs
      (w.withFault fault) obj w')
    (principal : StoragePrincipal) (path' : Option Text) (objectId : Option UUID)
    (required : Permission) :
    evaluateAccess w'.db w'.out.now principal bucket path' objectId required =
      evaluateAccess w.db w.out.now principal bucket path' objectId required := by
  have hplaced := hw.wellPlaced henv
  have hplain : Plain folder :=
    ⟨(Canonical.append_iff.mp (canonical_of_safeObjectPath hsafe)).1, hunpadded⟩
  have hmarker : Plain (folder ++ placeholderSuffix) := Plain.append_iff.mpr ⟨hplain, by decide⟩
  have hroot : folder ++ placeholderSuffix ≠ folderPlaceholderName := by
    intro heq
    have hlengths := congrArg List.length heq
    simp only [placeholderSuffix, List.length_append, List.length_cons] at hlengths
    omega
  obtain ⟨hbucketId, hname, hcompanyId, hfresh, hnow, hobjects, new, hgrants, hgranted, hnone,
    hgiven⟩ :=
    uploadObject_new (s := w.withFault fault) hplaced hbucket hsafe hmarker hroot hnew h
  have hsuffix : placeholderSuffix <:+ obj.name := hname ▸ List.suffix_append ..
  have hown : ownPath obj = folder := by
    rcases ownPath_cases (hname ▸ hmarker) with ⟨-, hsplit, -⟩ | ⟨hfile, -⟩
    · exact (List.append_cancel_right (hname.symm.trans hsplit)).symm
    · exact absurd hsuffix hfile
  rw [hnow]
  cases ownerId with
  | none =>
      obtain rfl := hnone rfl
      by_cases hcompany : principal.companyId = some bucket.companyId
      swap
      · simp [evaluateAccess, hcompany]
      apply evaluateAccess_of_matchingGrants
      intro x
      rw [mem_matchingGrants_of_new hfresh hobjects hgrants hgranted hcompanyId hcompany]
      simp only [List.not_mem_nil, false_and, exists_false, or_false]
      rfl
  | some userId =>
      cases hgiven userId rfl with
      | alone i j hno => exact absurd hgrant (hno outer rest (hown.trans habove) g)
      | copied hfolder hnearest hne hsources hdeepest hrows =>
          rw [hown] at hnearest hdeepest
          exact evaluateAccess_copied hplaced htidy hbucketId hcompanyId hname hplain hlength
            (hname ▸ hnew) hfresh hobjects hgrants hgranted hnearest hsources hdeepest hrows
            principal path' objectId required
      | inherited hfile => exact absurd hsuffix hfile

theorem exists_marker_of_any {db : Database} {now : Time} {bucket : Bucket}
    {p : StorageObject → Bool} (h : (activeGrants db now bucket.companyId).any (fun g =>
      decide (g.bucketId = bucket.id) && g.resource.marker?.any p) = true) :
    ∃ g ∈ activeGrants db now bucket.companyId, g.bucketId = bucket.id ∧
      ∃ marker, g.resource = .folder marker ∧ p marker = true := by
  obtain ⟨g, hg, hany⟩ := List.any_eq_true.mp h
  rw [Bool.and_eq_true, decide_eq_true_eq] at hany
  refine ⟨g, hg, hany.1, ?_⟩
  cases hresource : g.resource with
  | bucket | object => simp [hresource, Resource.marker?] at hany
  | folder marker => exact ⟨marker, rfl, by simpa [hresource, Resource.marker?] using hany.2⟩

def innerFolder : World :=
  ((sampleUpload (folderPlaceholderPath ['a', '/', 'b']) [] 1).run (sampleEnv false)
    (privateFolder.withFault none)).2

theorem uploadObject_marker_unchanged_innerFolder :
    evaluateAccess innerFolder.db innerFolder.out.now (member 2) sampleBucket
        (some ['a', '/', 'b', '/', 'x']) none .read =
      evaluateAccess privateFolder.db privateFolder.out.now (member 2) sampleBucket
        (some ['a', '/', 'b', '/', 'x']) none .read := by
  have hok : ((sampleUpload (folderPlaceholderPath ['a', '/', 'b']) [] 1).run (sampleEnv false)
      (privateFolder.withFault none)).1.toOption.any (fun _ => true) = true := by
    decide +kernel
  obtain ⟨obj, hok, -⟩ := runs_of_any hok
  have hrun : ((sampleUpload (folderPlaceholderPath ['a', '/', 'b']) [] 1).run
      (sampleEnv false)).Runs (privateFolder.withFault none) obj innerFolder := hok
  have hbucket : sampleBucket ∈ privateFolder.db.buckets.rows := by decide +kernel
  have hsafe : safeObjectPath (folderPlaceholderPath ['a', '/', 'b']) =
      .ok (['a', '/', 'b'] ++ placeholderSuffix) := by decide +kernel
  have hnew : privateFolder.db.objectNamed sampleBucket.id
      (['a', '/', 'b'] ++ placeholderSuffix) = none := by decide +kernel
  have hany : (activeGrants privateFolder.db privateFolder.out.now
      sampleBucket.companyId).any (fun g =>
      decide (g.bucketId = sampleBucket.id) && g.resource.marker?.any fun marker =>
        decide (marker.name = ['a'] ++ placeholderSuffix)) = true := by
    decide +kernel
  obtain ⟨g, hactive, hbucketId, marker, hresource, hname⟩ := exists_marker_of_any hany
  have hgrant : FolderGrant privateFolder.db privateFolder.out.now sampleBucket ['a'] g :=
    ⟨hactive, hbucketId, marker, hresource, of_decide_eq_true hname⟩
  have habove : ['a', '/', 'b'] = ['a'] ++ '/' :: ['b'] := rfl
  have hunpadded : Unpadded ['a', '/', 'b'] := by decide
  have hlength : ['a', '/', 'b'].length ≤ nameLimit := by decide
  exact uploadObject_marker_unchanged (sampleEnv_lawful false) privateFolder_reachable hbucket
    privateFolder_tidy hsafe hunpadded hlength hnew habove hgrant hrun (member 2)
    (some ['a', '/', 'b', '/', 'x']) none .read

def grantedRoot : World :=
  play (sampleEnv false)
    [.companyBucket 1,
      .createGrant (staffMember 9)
        (allowRequest ['f', 'o', 'l', 'd', 'e', 'r'] ['/', ' ', '/'] ['r', 'e', 'a', 'd'])]
    .initial

/-- A new folder below the root alone is made private, though the root has grants. -/
theorem not_uploadObject_marker_unchanged :
    ¬∀ (env : Env) (w : World) (bucket : Bucket) (path folder : Text) (marker : StorageObject)
      (g : Grant) (data : Bytes) (ownerId : Option Nat) (contentType : Option Text)
      (upsert : Bool) (obj : StorageObject) (w' : World),
      env.Lawful → Reachable env w → bucket ∈ w.db.buckets.rows →
      Tidy w.db w.out.now bucket.companyId →
      safeObjectPath path = .ok (folder ++ placeholderSuffix) → Unpadded folder →
      w.db.objectNamed bucket.id (folder ++ placeholderSuffix) = none →
      g ∈ activeGrants w.db w.out.now bucket.companyId → g.bucketId = bucket.id →
      g.resource = .folder marker → Inside folder (folderPathOf marker) →
      (uploadObject env bucket path data ownerId contentType upsert).Runs (w.withFault none) obj
        w' →
      ∀ (principal : StoragePrincipal) (path' : Option Text) (objectId : Option UUID)
        (required : Permission),
        evaluateAccess w'.db w'.out.now principal bucket path' objectId required =
          evaluateAccess w.db w.out.now principal bucket path' objectId required := by
  intro h
  have hok : ((sampleUpload (folderPlaceholderPath ['a']) [] 1).run (sampleEnv false)
      (grantedRoot.withFault none)).1.toOption.any (fun _ => true) = true := by
    decide +kernel
  obtain ⟨obj, hrun, -⟩ := runs_of_any hok
  have hbucket : sampleBucket ∈ grantedRoot.db.buckets.rows := by decide +kernel
  have hsafe : safeObjectPath (folderPlaceholderPath ['a']) =
      .ok (['a'] ++ placeholderSuffix) := by decide +kernel
  have hnew : grantedRoot.db.objectNamed sampleBucket.id (['a'] ++ placeholderSuffix) = none := by
    decide +kernel
  have hany : (activeGrants grantedRoot.db grantedRoot.out.now
      sampleBucket.companyId).any (fun g =>
      decide (g.bucketId = sampleBucket.id) && g.resource.marker?.any fun marker =>
        decide (folderPathOf marker = [])) = true := by
    decide +kernel
  obtain ⟨g, hactive, hbucketId, marker, hresource, hroot⟩ := exists_marker_of_any hany
  have hinside : Inside ['a'] (folderPathOf marker) := by
    rw [of_decide_eq_true hroot]
    exact ⟨by decide, .inl rfl⟩
  have hsame := h (sampleEnv false) grantedRoot sampleBucket _ ['a'] marker g _ _ _ _ obj _
    (sampleEnv_lawful false) (Reachable.play .refl (by decide +kernel)) hbucket
    (tidy_of_all (by decide +kernel) (by decide +kernel)) hsafe (by decide) hnew hactive hbucketId
    hresource hinside hrun (member 3) (some ['a', '/', 'x']) none .read
  revert hsame
  decide +kernel

end StorageService.Results
