import StorageService.Results.Decisions
import StorageService.Storage.Canonical

/-!
# The documented order of grants

The object before its folders, an inner folder before an outer one, all of them
before the bucket, and then the user before the company.  The scores of
`grantSpecificity` give this order to the grants that match a request, so the
decision is the one the order leads to.
-/

namespace StorageService.Results

open StorageService.Foundation
open StorageService.Storage

section Specificity

/-! ## Nested permissions -/

theorem denyBlocks_mono {denied lower upper : Permission}
    (hle : permissionRank lower ≤ permissionRank upper)
    (h : denyBlocks denied lower = true) : denyBlocks denied upper = true := by
  simp only [denyBlocks, decide_eq_true_eq] at h ⊢
  exact h.trans hle

theorem permissionAtLeast_anti {granted lower upper : Permission}
    (hle : permissionRank lower ≤ permissionRank upper)
    (h : permissionAtLeast granted upper = true) : permissionAtLeast granted lower = true := by
  simp only [permissionAtLeast, decide_eq_true_eq] at h ⊢
  exact hle.trans h

theorem kindDefaultAllows_anti (principal : StoragePrincipal) (bucket : Bucket)
    {lower upper : Permission} (hle : permissionRank lower ≤ permissionRank upper)
    (h : kindDefaultAllows principal bucket upper = true) :
    kindDefaultAllows principal bucket lower = true := by
  unfold kindDefaultAllows at h ⊢
  split at h
  · contradiction
  · rename_i hcompany
    rw [if_neg hcompany]
    cases hkind : bucket.kind with
    | company =>
        simp only [hkind] at h
        cases lower with
        | read | write => rfl
        | admin =>
            cases upper with
            | read | write => exact absurd hle (by decide)
            | admin => exact h
    | connector =>
        simp only [hkind, decide_eq_true_eq] at h
        subst h
        cases lower with
        | read => rfl
        | write | admin => exact absurd hle (by decide)

theorem evaluateAccess_anti {db : Database} {now : Time} {principal : StoragePrincipal}
    {bucket : Bucket} {path : Option Text} {objectId : Option UUID} {lower upper : Permission}
    (hle : permissionRank lower ≤ permissionRank upper)
    (h : evaluateAccess db now principal bucket path objectId upper = true) :
    evaluateAccess db now principal bucket path objectId lower = true := by
  have hcompany := companyId_of_evaluateAccess h
  rw [evaluateAccess_eq_ruling _ _ _ _ _ hcompany] at h ⊢
  refine ruling_imp (fun g _ => ?_) (fun g _ => ?_) (fun g _ => ?_)
    (kindDefaultAllows_anti principal bucket hle) h
  · rw [grantVerdict_eq_refuse, grantVerdict_eq_refuse]
    rintro ⟨hdeny, hblocks⟩
    exact ⟨hdeny, denyBlocks_mono hle hblocks⟩
  · rw [grantVerdict_eq_permit, grantVerdict_eq_permit]
    rintro ⟨hallow, hleast⟩
    exact ⟨hallow, permissionAtLeast_anti hle hleast⟩
  · rw [grantVerdict_eq_silent, grantVerdict_eq_silent]
    rintro ⟨hdeny, hpasses⟩
    refine ⟨hdeny, Bool.eq_false_iff.mpr fun hblocks => ?_⟩
    rw [denyBlocks_mono hle hblocks] at hpasses
    contradiction

/-- Whoever may administer may write, and whoever may write may read. -/
theorem evaluateAccess_nested (db : Database) (now : Time) (principal : StoragePrincipal)
    (bucket : Bucket) (path : Option Text) (objectId : Option UUID) :
    (evaluateAccess db now principal bucket path objectId .admin = true →
        evaluateAccess db now principal bucket path objectId .write = true) ∧
      (evaluateAccess db now principal bucket path objectId .write = true →
        evaluateAccess db now principal bucket path objectId .read = true) :=
  ⟨evaluateAccess_anti (by decide), evaluateAccess_anti (by decide)⟩

/-! ## The order -/

def Inside (inner outer : Text) : Prop :=
  inner ≠ outer ∧ (outer = [] ∨ Under '/' outer inner)

/-- `a` comes before `b`: the object, then folders from the inside, then the bucket. -/
inductive Nearer : Resource StorageObject → Resource StorageObject → Prop where
  | objectFolder (target marker : StorageObject) : Nearer (.object target) (.folder marker)
  | objectBucket (target : StorageObject) : Nearer (.object target) .bucket
  | folderBucket (marker : StorageObject) : Nearer (.folder marker) .bucket
  | inner (marker outer : StorageObject)
      (hinside : Inside (folderPathOf marker) (folderPathOf outer)) :
      Nearer (.folder marker) (.folder outer)

/-- First the resource counts, then the user before the company. -/
def Outranks (a b : Grant) : Prop :=
  Nearer a.resource b.resource ∨
    ¬Nearer b.resource a.resource ∧ a.subjectType = .user ∧ b.subjectType = .company

def Heard (db : Database) (now : Time) (principal : StoragePrincipal) (bucket : Bucket)
    (path : Option Text) (objectId : Option UUID) (g : Grant) : Prop :=
  g ∈ matchingGrants db now principal bucket path objectId ∧
    ∀ h ∈ matchingGrants db now principal bucket path objectId, ¬Outranks h g

def StoredName (name : Text) : Prop := Plain name ∧ name.length ≤ nameLimit

instance (name : Text) : Decidable (StoredName name) := inferInstanceAs (Decidable (_ ∧ _))

/-- Every active grant on an object hangs on a name that fits and has no blanks. -/
def GrantsOnStoredNames (db : Database) (now : Time) (companyId : Nat) : Prop :=
  ∀ g ∈ activeGrants db now companyId, ∀ o, g.resource.object? = some o → StoredName o.name

/-! ## Scores of folders -/

theorem folderDepth_root : folderDepth [] = 0 := rfl

theorem folderDepth_eq {folder : Text} (h : Trimmed folder) :
    folderDepth folder = folder.count '/' + 1 := by
  rw [folderDepth, if_neg h.2, h.1, length_splitOn]

theorem folderMatches_trimmed {folder path : Text} (h : folder = [] ∨ Trimmed folder) :
    folderMatches folder path = true ↔ folder = [] ∨ Under '/' folder (normalizePath path) := by
  have hself : normalizePath folder = folder := by
    rcases h with rfl | htrimmed
    · rfl
    · exact htrimmed.1
  rw [folderMatches, decide_eq_true_eq, hself]

theorem folderDepth_le {o : StorageObject} (h : StoredName o.name) :
    folderDepth (folderPathOf o) ≤ nameLimit / 2 := by
  obtain ⟨hplain, hlength⟩ := h
  rcases hplain.folderPath with hroot | hfolder
  · rw [folderPathOf, hroot]
    exact Nat.zero_le _
  · have hcount := hfolder.canonical.count_lt
    have hle := folderPathFromPlaceholder_length_le o.name
    rw [folderPathOf, folderDepth_eq hfolder.trimmed]
    rw [nameLimit] at hlength ⊢
    omega

theorem folderDepth_lt_iff {outer inner path : Text} (houter : outer = [] ∨ Trimmed outer)
    (hinner : inner = [] ∨ Trimmed inner) (houterPath : outer = [] ∨ Under '/' outer path)
    (hinnerPath : inner = [] ∨ Under '/' inner path) :
    folderDepth outer < folderDepth inner ↔ Inside inner outer := by
  rcases hinner with rfl | hinner
  · -- nothing lies above the root
    rw [folderDepth_root]
    refine iff_of_false (Nat.not_lt_zero _) ?_
    rintro ⟨hne, rfl | hunder⟩
    · exact hne rfl
    · exact hne (List.prefix_nil.mp hunder.isPrefix).symm
  · rcases houter with rfl | houter
    · rw [folderDepth_root, folderDepth_eq hinner]
      exact iff_of_true (Nat.succ_pos _) ⟨hinner.2, .inl rfl⟩
    · rw [folderDepth_eq hinner, folderDepth_eq houter]
      have houterPath := houterPath.resolve_left houter.2
      have hinnerPath := hinnerPath.resolve_left hinner.2
      constructor
      · intro hlt
        refine ⟨fun heq => by simp [heq] at hlt, .inr ?_⟩
        rcases le_total outer.length inner.length with hle | hle
        · exact houterPath.of_under hinnerPath hle
        · have hunder : Under '/' inner outer := hinnerPath.of_under houterPath hle
          have hcount := hunder.isPrefix.sublist.count_le '/'
          omega
      · rintro ⟨hne, hunder⟩
        have hlt := (hunder.resolve_left houter.2).count_lt hne
        omega

/-! ## Scores of grants -/

section Scores

variable {db : Database} {now : Time} {principal : StoragePrincipal} {bucket : Bucket}
  {path : Option Text} {objectId : Option UUID}

theorem resourceScore_lt_iff {a b : Grant}
    (hplain : ∀ g ∈ [a, b], ∀ o, g.resource.object? = some o → StoredName o.name)
    (ha : resourceMatchesGrant a bucket path objectId = true)
    (hb : resourceMatchesGrant b bucket path objectId = true) :
    resourceScore b.resource < resourceScore a.resource ↔ Nearer a.resource b.resource := by
  have hdepth : ∀ g ∈ [a, b], ∀ marker, g.resource = .folder marker →
      folderDepth (folderPathOf marker) ≤ 512 := fun g hg marker hresource =>
    folderDepth_le (hplain g hg marker (by rw [hresource]; rfl))
  have hfolder : ∀ g ∈ [a, b], ∀ marker, g.resource = .folder marker →
      resourceMatchesGrant g bucket path objectId = true →
      (folderPathOf marker = [] ∨ Trimmed (folderPathOf marker)) ∧
        (folderPathOf marker = [] ∨
          Under '/' (folderPathOf marker) (normalizePath (normalizePath (path.getD [])))) := by
    intro g hg marker hresource hmatch
    have hmarker := (hplain g hg marker (by rw [hresource]; rfl)).1.folderPath.imp_right
      Plain.trimmed
    refine ⟨hmarker, ?_⟩
    unfold resourceMatchesGrant at hmatch
    split at hmatch
    · contradiction
    · rw [hresource] at hmatch
      exact (folderMatches_trimmed hmarker).mp hmatch
  cases harsource : a.resource with
  | bucket =>
      refine iff_of_false ?_ (by rintro ⟨⟩)
      cases hbresource : b.resource <;> simp [resourceScore]
  | folder marker =>
      have hle := hdepth a (by simp) marker harsource
      cases hbresource : b.resource with
      | bucket =>
          refine iff_of_true ?_ (.folderBucket marker)
          simp only [resourceScore]
          omega
      | folder outer =>
          obtain ⟨hinner, hinnerPath⟩ := hfolder a (by simp) marker harsource ha
          obtain ⟨houter, houterPath⟩ := hfolder b (by simp) outer hbresource hb
          rw [resourceScore, resourceScore, Nat.add_lt_add_iff_left,
            folderDepth_lt_iff houter hinner houterPath hinnerPath]
          constructor
          · exact fun hinside => .inner marker outer hinside
          · rintro ⟨⟩
            assumption
      | object target =>
          refine iff_of_false ?_ (by rintro ⟨⟩)
          simp only [resourceScore]
          omega
  | object target =>
      cases hbresource : b.resource with
      | bucket => exact iff_of_true (by simp [resourceScore]) (.objectBucket target)
      | folder marker =>
          have hle := hdepth b (by simp) marker hbresource
          refine iff_of_true ?_ (.objectFolder target marker)
          simp only [resourceScore]
          omega
      | object other => exact iff_of_false (by simp [resourceScore]) (by rintro ⟨⟩)

theorem subjectType_of_subjectMatches {g : Grant} (h : subjectMatches g principal = true) :
    g.subjectType = .user ∨ g.subjectType = .company := by
  cases htype : g.subjectType with
  | user => exact .inl rfl
  | company => exact .inr rfl
  | group => cases hcompany : principal.companyId <;>
      simp [subjectMatches, hcompany, htype] at h

/-- The scores never order two matching grants differently. -/
theorem grantSpecificity_lt_iff
    (hcompany : principal.companyId = some bucket.companyId)
    (hstored : GrantsOnStoredNames db now bucket.companyId) {a b : Grant}
    (ha : a ∈ matchingGrants db now principal bucket path objectId)
    (hb : b ∈ matchingGrants db now principal bucket path objectId) :
    grantSpecificity b < grantSpecificity a ↔ Outranks a b := by
  obtain ⟨haactive, hasubject, haresource⟩ := (mem_matchingGrants hcompany).mp ha
  obtain ⟨hbactive, hbsubject, hbresource⟩ := (mem_matchingGrants hcompany).mp hb
  have hab : resourceScore b.resource < resourceScore a.resource ↔
      Nearer a.resource b.resource :=
    resourceScore_lt_iff (by simpa using ⟨hstored a haactive, hstored b hbactive⟩) haresource
      hbresource
  have hba : resourceScore a.resource < resourceScore b.resource ↔
      Nearer b.resource a.resource :=
    resourceScore_lt_iff (by simpa using ⟨hstored b hbactive, hstored a haactive⟩) hbresource
      haresource
  have hsubject : subjectScore b.subjectType < subjectScore a.subjectType ↔
      a.subjectType = .user ∧ b.subjectType = .company := by
    rcases subjectType_of_subjectMatches hasubject with h | h <;>
      rcases subjectType_of_subjectMatches hbsubject with h' | h' <;>
        simp [h, h', subjectScore]
  rw [grantSpecificity, grantSpecificity, Prod.Lex.toLex_lt_toLex, Outranks, ← hab, ← hba,
    hsubject]
  refine or_congr_right' fun hnot => and_congr_left fun _ => ?_
  omega

theorem heard_iff (hcompany : principal.companyId = some bucket.companyId)
    (hstored : GrantsOnStoredNames db now bucket.companyId) {g : Grant} :
    Heard db now principal bucket path objectId g ↔
      g ∈ topGrants db now principal bucket path objectId := by
  rw [topGrants, mem_top, Heard]
  refine and_congr_right fun hg => forall₂_congr fun h hh => ?_
  rw [← grantSpecificity_lt_iff hcompany hstored hh hg, not_lt]

end Scores

/-! ## The decision -/

structure MeetsOrder (db : Database) (now : Time) (principal : StoragePrincipal)
    (bucket : Bucket) (path : Option Text) (objectId : Option UUID) : Prop where
  ordered : ∀ a ∈ matchingGrants db now principal bucket path objectId,
    ∀ b ∈ matchingGrants db now principal bucket path objectId,
      grantSpecificity b < grantSpecificity a ↔ Outranks a b
  denied : ∀ required, (∃ g, Heard db now principal bucket path objectId g ∧
    g.effect = .deny ∧ permissionRank g.permission ≤ permissionRank required) →
      evaluateAccess db now principal bucket path objectId required = false
  allowed : ∀ required, (¬∃ g, Heard db now principal bucket path objectId g ∧
      g.effect = .deny ∧ permissionRank g.permission ≤ permissionRank required) →
    (∃ g, Heard db now principal bucket path objectId g ∧ g.effect = .allow) →
      (evaluateAccess db now principal bucket path objectId required = true ↔
        ∃ g, Heard db now principal bucket path objectId g ∧ g.effect = .allow ∧
          permissionRank required ≤ permissionRank g.permission)
  byDefault : ∀ required, (¬∃ g, Heard db now principal bucket path objectId g ∧
      g.effect = .deny ∧ permissionRank g.permission ≤ permissionRank required) →
    (¬∃ g, Heard db now principal bucket path objectId g ∧ g.effect = .allow) →
      evaluateAccess db now principal bucket path objectId required =
        kindDefaultAllows principal bucket required
  unheard : ∀ g ∈ matchingGrants db now principal bucket path objectId,
    ¬Heard db now principal bucket path objectId g → ∀ required,
      evaluateAccess (db.deleteGrant g.id) now principal bucket path objectId required =
        evaluateAccess db now principal bucket path objectId required

theorem mem_matchingGrants_deleteGrant {db : Database} {now : Time}
    {principal : StoragePrincipal} {bucket : Bucket} {path : Option Text}
    {objectId : Option UUID} (hcompany : principal.companyId = some bucket.companyId)
    {d : Grant} (hd : d ∈ matchingGrants db now principal bucket path objectId) {g : Grant} :
    g ∈ matchingGrants (db.deleteGrant d.id) now principal bucket path objectId ↔
      g ∈ matchingGrants db now principal bucket path objectId ∧ g ≠ d := by
  obtain ⟨-, hrow, hjoin⟩ := mem_activeGrants.mp ((mem_matchingGrants hcompany).mp hd).1
  have hjoined : db.selectRelated d.row = some d :=
    Database.selectRelated_eq_some.mpr ⟨rfl, hjoin⟩
  rw [mem_matchingGrants hcompany, mem_matchingGrants hcompany,
    mem_activeGrants_deleteGrant hrow hjoined]
  tauto

/-- On grants with stored names the decision follows the documented order. -/
theorem evaluateAccess_meetsOrder (db : Database) (now : Time) (principal : StoragePrincipal)
    (bucket : Bucket) (path : Option Text) (objectId : Option UUID)
    (hcompany : principal.companyId = some bucket.companyId)
    (hstored : GrantsOnStoredNames db now bucket.companyId) :
    MeetsOrder db now principal bucket path objectId := by
  have hheard : ∀ g, Heard db now principal bucket path objectId g ↔
      g ∈ top grantSpecificity (matchingGrants db now principal bucket path objectId) :=
    fun g => heard_iff hcompany hstored
  have hdecision := fun required => evaluateAccess_eq_ruling db now path objectId required hcompany
  constructor
  · intro a ha b hb
    exact grantSpecificity_lt_iff hcompany hstored ha hb
  · rintro required ⟨g, hg, hdeny, hle⟩
    rw [hdecision, ← Bool.not_eq_true, ruling_eq_true_iff]
    rintro ⟨hno, -⟩
    have hrefuse : grantVerdict required g = .refuse :=
      grantVerdict_eq_refuse.mpr ⟨hdeny, by simpa [denyBlocks] using hle⟩
    exact hno g ((hheard g).mp hg) hrefuse
  · rintro required hno ⟨a, ha, hallow⟩
    rw [hdecision, ruling_eq_true_iff]
    constructor
    · rintro ⟨-, ⟨g, hg, hpermit⟩ | ⟨hsilent, -⟩⟩
      · obtain ⟨heffect, hleast⟩ := grantVerdict_eq_permit.mp hpermit
        exact ⟨g, (hheard g).mpr hg, heffect, by simpa [permissionAtLeast] using hleast⟩
      · -- an allow is never silent
        have hdeny := (grantVerdict_eq_silent.mp (hsilent a ((hheard a).mp ha))).1
        rw [hallow] at hdeny
        contradiction
    · rintro ⟨g, hg, heffect, hle⟩
      refine ⟨fun r hr hrefuse => ?_, .inl ⟨g, (hheard g).mp hg, ?_⟩⟩
      · obtain ⟨hdeny, hblocks⟩ := grantVerdict_eq_refuse.mp hrefuse
        exact hno ⟨r, (hheard r).mpr hr, hdeny, by simpa [denyBlocks] using hblocks⟩
      · exact grantVerdict_eq_permit.mpr ⟨heffect, by simpa [permissionAtLeast] using hle⟩
  · intro required hno hnone
    -- every grant that is heard is a deny that does not block
    have hsilent : ∀ r ∈ top grantSpecificity
        (matchingGrants db now principal bucket path objectId),
        grantVerdict required r = .silent := by
      intro r hr
      have hdeny : r.effect = .deny := by
        cases heffect : r.effect with
        | deny => rfl
        | allow => exact absurd ⟨r, (hheard r).mpr hr, heffect⟩ hnone
      refine grantVerdict_eq_silent.mpr ⟨hdeny, Bool.eq_false_iff.mpr fun hblocks => ?_⟩
      exact hno ⟨r, (hheard r).mpr hr, hdeny, by simpa [denyBlocks] using hblocks⟩
    rw [hdecision, Bool.eq_iff_iff, ruling_eq_true_iff]
    constructor
    · rintro ⟨-, ⟨r, hr, hpermit⟩ | ⟨-, hdefault⟩⟩
      · rw [hsilent r hr] at hpermit
        contradiction
      · exact hdefault
    · intro hdefault
      exact ⟨fun r hr => by simp [hsilent r hr], .inr ⟨hsilent, hdefault⟩⟩
  · intro g hg hnot required
    rw [evaluateAccess_eq_ruling _ _ _ _ _ hcompany, hdecision]
    exact ruling_without (fun hmem => hnot ((hheard g).mpr hmem)) fun r =>
      mem_matchingGrants_deleteGrant hcompany hg

theorem privateFolder_storedNames : GrantsOnStoredNames privateFolder.db 0 1 := by
  have hall : ∀ g ∈ activeGrants privateFolder.db 0 1,
      (g.resource.object?.all fun o => decide (StoredName o.name)) = true := by
    decide +kernel
  intro g hg o ho
  simpa [ho] using hall g hg

theorem evaluateAccess_meetsOrder_privateFolder :
    MeetsOrder privateFolder.db 0 (member 2) sampleBucket (some ['a', '/', 'x']) none :=
  evaluateAccess_meetsOrder privateFolder.db 0 (member 2) sampleBucket (some ['a', '/', 'x']) none
    rfl privateFolder_storedNames

end Specificity

end StorageService.Results
