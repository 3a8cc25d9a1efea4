import Mathlib.Data.Set.Finite.Basic
import StorageService.Results.Decisions
import StorageService.Storage.Queries

/-!
# What a listing says about access

`path_access_summary` looks at all grants that match a path at once; of them
`evaluate_access` hears the most specific ones.
-/

namespace StorageService.Results

open StorageService.Foundation
open StorageService.Storage

section Summary

def DeniesRead (g : Grant) : Prop := g.effect = .deny ∧ g.permission = .read

instance (g : Grant) : Decidable (DeniesRead g) := inferInstanceAs (Decidable (_ ∧ _))

def score (g : Grant) : Nat := resourceScore g.resource

variable (db : Database) (now : Time) (bucket : Bucket) (path : Text) (objectId : Option UUID)

def companyGrants : List Grant :=
  (activeGrants db now bucket.companyId).filter fun g =>
    decide (g.subjectType = .company ∧ g.subjectId = decimal bucket.companyId) &&
      resourceMatchesGrant g bucket (some path) objectId

def userGrants (userId : Nat) : List Grant :=
  (activeGrants db now bucket.companyId).filter fun g =>
    decide (g.subjectType = .user ∧ g.subjectId = decimal userId) &&
      resourceMatchesGrant g bucket (some path) objectId

def KeepsUp (userId : Nat) : Prop :=
  ∃ g ∈ top score (userGrants db now bucket path objectId userId),
    ∀ d ∈ companyGrants db now bucket path objectId, score d ≤ score g

def summarised : List Grant :=
  (activeGrants db now bucket.companyId).filter fun g =>
    resourceMatchesGrant g bucket (some (normalizePath path)) objectId

def Restricts : Prop :=
  (normalizePath path ≠ [] ∨ objectId ≠ none) ∧
    ∃ g ∈ summarised db now bucket path objectId, g.subjectType = .company ∧ DeniesRead g

def Named (userId : Nat) : Prop :=
  decimal userId ∈ allowedSubjects .user (summarised db now bucket path objectId)

def summaryOf : AccessSummary :=
  pathAccessSummary bucket path objectId (activeGrants db now bucket.companyId)

structure SummaryTruthful : Prop where
  restricted : (summaryOf db now bucket path objectId).audience = .restricted →
    ∀ principal : StoragePrincipal, principal.companyId = some bucket.companyId →
      principal.isCompanyOwner = false → principal.isStaff = false →
      (∀ ids, (summaryOf db now bucket path objectId).allowedUserIds = some ids →
        decimal principal.userId ∉ ids) →
      evaluateAccess db now principal bucket (some path) objectId .read = false
  opened : (summaryOf db now bucket path objectId).audience = .company ∨
      (summaryOf db now bucket path objectId).audience = .limited →
    ∀ principal : StoragePrincipal, principal.companyId = some bucket.companyId →
      (∀ g ∈ matchingGrants db now principal bucket (some path) objectId,
        g.subjectType ≠ .user) →
      evaluateAccess db now principal bucket (some path) objectId .read = true

/-- The most specific grants bear out what the summary gathers from all of them. -/
structure SummaryHolds : Prop where
  company : Restricts db now bucket path objectId →
    ∃ g ∈ top score (companyGrants db now bucket path objectId), DeniesRead g
  users : Restricts db now bucket path objectId → ∀ userId,
    ¬Named db now bucket path objectId userId → KeepsUp db now bucket path objectId userId →
    ∃ g ∈ top score (userGrants db now bucket path objectId userId), DeniesRead g
  opened : ¬Restricts db now bucket path objectId →
    ∀ g ∈ top score (companyGrants db now bucket path objectId), ¬DeniesRead g

variable {db now bucket path objectId}

/-! ## The decision about reading -/

theorem evaluateAccess_read_iff {principal : StoragePrincipal}
    (hcompany : principal.companyId = some bucket.companyId) (hkind : bucket.kind = .company) :
    evaluateAccess db now principal bucket (some path) objectId .read = true ↔
      ∀ g ∈ topGrants db now principal bucket (some path) objectId, ¬DeniesRead g := by
  have hdefault : kindDefaultAllows principal bucket .read = true := by
    simp [kindDefaultAllows, hcompany, hkind]
  have hrefuse : ∀ g, grantVerdict .read g = .refuse ↔ DeniesRead g := by
    intro g
    rw [grantVerdict_eq_refuse, denyBlocks_read, DeniesRead]
  rw [evaluateAccess_eq_ruling _ _ _ _ _ hcompany, ruling_eq_true_iff, topGrants]
  simp only [ne_eq, hrefuse, hdefault, and_true]
  refine and_iff_left_of_imp fun hno => ?_
  -- every allow is strong enough to read
  by_cases hallow : ∃ g ∈ top grantSpecificity
      (matchingGrants db now principal bucket (some path) objectId), g.effect = .allow
  · obtain ⟨g, hg, heffect⟩ := hallow
    exact .inl ⟨g, hg, grantVerdict_eq_permit.mpr ⟨heffect, decide_eq_true (Nat.zero_le _)⟩⟩
  · refine .inr fun g hg => ?_
    have hdeny : g.effect = .deny := by
      cases heffect : g.effect with
      | deny => rfl
      | allow => exact absurd ⟨g, hg, heffect⟩ hallow
    refine grantVerdict_eq_silent.mpr ⟨hdeny, Bool.eq_false_iff.mpr fun hblocks => ?_⟩
    exact hno g hg ⟨hdeny, denyBlocks_read.mp hblocks⟩

theorem mem_matchingGrants_iff {principal : StoragePrincipal}
    (hcompany : principal.companyId = some bucket.companyId) (g : Grant) :
    g ∈ matchingGrants db now principal bucket (some path) objectId ↔
      g ∈ companyGrants db now bucket path objectId ∨
        g ∈ userGrants db now bucket path objectId principal.userId := by
  rw [mem_matchingGrants hcompany]
  simp only [companyGrants, userGrants, List.mem_filter, Bool.and_eq_true, decide_eq_true_eq,
    ← and_or_left, ← or_and_right]
  refine and_congr_right fun _ => and_congr_left fun _ => ?_
  cases htype : g.subjectType <;> simp [subjectMatches, hcompany, htype]

theorem subjectScore_companyGrants {g : Grant}
    (hg : g ∈ companyGrants db now bucket path objectId) : subjectScore g.subjectType = 1 := by
  simp only [companyGrants, List.mem_filter, Bool.and_eq_true, decide_eq_true_eq] at hg
  rw [hg.2.1.1]
  rfl

theorem subjectScore_userGrants {userId : Nat} {g : Grant}
    (hg : g ∈ userGrants db now bucket path objectId userId) : subjectScore g.subjectType = 3 := by
  simp only [userGrants, List.mem_filter, Bool.and_eq_true, decide_eq_true_eq] at hg
  rw [hg.2.1.1]
  rfl

theorem mem_topGrants_of_keepsUp {principal : StoragePrincipal}
    (hcompany : principal.companyId = some bucket.companyId)
    (hkeeps : KeepsUp db now bucket path objectId principal.userId) {g : Grant} :
    g ∈ topGrants db now principal bucket (some path) objectId ↔
      g ∈ top score (userGrants db now bucket path objectId principal.userId) := by
  obtain ⟨s, hs, habove⟩ := hkeeps
  exact mem_top_upper (by decide : (1 : Nat) < 3) (fun _ => subjectScore_companyGrants)
    (fun _ => subjectScore_userGrants) (mem_matchingGrants_iff hcompany) hs habove

theorem mem_topGrants_of_not_keepsUp {principal : StoragePrincipal}
    (hcompany : principal.companyId = some bucket.companyId)
    (hkeeps : ¬KeepsUp db now bucket path objectId principal.userId) {g : Grant} :
    g ∈ topGrants db now principal bucket (some path) objectId ↔
      g ∈ top score (companyGrants db now bucket path objectId) := by
  refine mem_top_lower (fun _ => subjectScore_companyGrants) (mem_matchingGrants_iff hcompany)
    fun s hs => ?_
  by_contra hnone
  push Not at hnone
  exact hkeeps ⟨s, hs, hnone⟩

/-! ## What the summary says -/

theorem summaryOf_restricted (hkind : bucket.kind = .company) :
    Restricts db now bucket path objectId ∧
        (summaryOf db now bucket path objectId).audience = .restricted ∧
        (summaryOf db now bucket path objectId).allowedUserIds =
          some (allowedSubjects .user (summarised db now bucket path objectId)) ∨
      ¬Restricts db now bucket path objectId ∧
        ((summaryOf db now bucket path objectId).audience = .company ∨
          (summaryOf db now bucket path objectId).audience = .limited) := by
  have hbase : (accessSummary bucket).grantsEnabled = true ∧
      (accessSummary bucket).audience = .company := by
    simp [accessSummary, hkind]
  have hrestricts : Restricts db now bucket path objectId ↔
      (normalizePath path ≠ [] ∨ objectId ≠ none) ∧
      ((summarised db now bucket path objectId).any fun g => decide (g.effect = .deny ∧
        g.subjectType = .company ∧ denyBlocks g.permission .read)) = true := by
    simp only [Restricts, DeniesRead, List.any_eq_true, decide_eq_true_eq, denyBlocks_read]
    refine and_congr_right fun _ => exists_congr fun g => ?_
    tauto
  rw [hrestricts]
  simp only [summaryOf, pathAccessSummary, hbase.1, not_true_eq_false, if_false]
  split
  · rename_i hroot
    refine .inr ⟨fun h => ?_, .inl hbase.2⟩
    exact h.1.elim (fun hne => hne hroot.1) fun hne => hne hroot.2
  · rename_i hroot
    have hpath : normalizePath path ≠ [] ∨ objectId ≠ none := by
      rwa [not_and_or] at hroot
    split
    · rename_i hnil
      refine .inr ⟨fun h => ?_, .inl hbase.2⟩
      have hany := h.2
      rw [summarised, hnil] at hany
      contradiction
    · split
      · rename_i hany
        exact .inl ⟨⟨hpath, hany⟩, rfl, rfl⟩
      · rename_i hany
        refine .inr ⟨fun h => hany h.2, ?_⟩
        split
        · exact .inr rfl
        · exact .inl hbase.2

theorem exists_fresh_user (ids : List Text) : ∃ userId, decimal userId ∉ ids := by
  obtain ⟨_, ⟨userId, rfl⟩, hfresh⟩ :=
    (Set.infinite_range_of_injective decimal_injective).exists_notMem_finset ids.toFinset
  exact ⟨userId, fun hmem => hfresh (List.mem_toFinset.mpr hmem)⟩

theorem exists_stranger (db : Database) (now : Time) (bucket : Bucket) (path : Text)
    (objectId : Option UUID) : ∃ userId, ¬Named db now bucket path objectId userId ∧
      userGrants db now bucket path objectId userId = [] := by
  obtain ⟨userId, hfresh⟩ := exists_fresh_user
    (allowedSubjects .user (summarised db now bucket path objectId) ++
      (activeGrants db now bucket.companyId).map StorageAccessGrant.subjectId)
  rw [List.mem_append, not_or] at hfresh
  refine ⟨userId, hfresh.1, ?_⟩
  rw [userGrants, List.filter_eq_nil_iff]
  intro g hg hmatch
  simp only [Bool.and_eq_true, decide_eq_true_eq] at hmatch
  exact hfresh.2 (List.mem_map.mpr ⟨g, hg, hmatch.1.2⟩)

def ordinary (bucket : Bucket) (userId : Nat) : StoragePrincipal where
  userId := userId
  companyId := some bucket.companyId
  isStaff := false
  isCompanyOwner := false

/--
The summary of a path in a company bucket tells the truth about its readers if
and only if `SummaryHolds`.
-/
theorem summaryTruthful_iff (db : Database) (now : Time) (bucket : Bucket) (path : Text)
    (objectId : Option UUID) (hkind : bucket.kind = .company) :
    SummaryTruthful db now bucket path objectId ↔ SummaryHolds db now bucket path objectId := by
  obtain ⟨stranger, hunnamed, hnone⟩ := exists_stranger db now bucket path objectId
  have hbehind : ¬KeepsUp db now bucket path objectId stranger := by
    rintro ⟨g, hg, -⟩
    have hmem := (mem_top.mp hg).1
    rw [hnone] at hmem
    contradiction
  rcases @summaryOf_restricted db now bucket path objectId hkind
    with ⟨hrestricts, haudience, hallowed⟩ | ⟨hrestricts, haudience⟩
  · constructor
    · intro htruthful
      have hrefused : ∀ userId, ¬Named db now bucket path objectId userId →
          ∃ g ∈ topGrants db now (ordinary bucket userId) bucket (some path) objectId,
            DeniesRead g := by
        intro userId hnamed
        have hno := htruthful.restricted haudience (ordinary bucket userId) rfl rfl rfl
          fun ids hids => by
            rw [hallowed, Option.some.injEq] at hids
            exact hids ▸ hnamed
        rw [← Bool.not_eq_true, evaluateAccess_read_iff rfl hkind] at hno
        push Not at hno
        exact hno
      refine ⟨fun _ => ?_, fun _ userId hnamed hkeeps => ?_, fun hnot => absurd hrestricts hnot⟩
      · obtain ⟨g, hg, hdenies⟩ := hrefused stranger hunnamed
        exact ⟨g, (mem_topGrants_of_not_keepsUp rfl hbehind).mp hg, hdenies⟩
      · obtain ⟨g, hg, hdenies⟩ := hrefused userId hnamed
        exact ⟨g, (mem_topGrants_of_keepsUp rfl hkeeps).mp hg, hdenies⟩
    · intro hholds
      constructor
      · intro _ principal hcompany _ _ hunlisted
        have hnamed : ¬Named db now bucket path objectId principal.userId :=
          hunlisted _ hallowed
        rw [← Bool.not_eq_true, evaluateAccess_read_iff hcompany hkind]
        push Not
        by_cases hkeeps : KeepsUp db now bucket path objectId principal.userId
        · obtain ⟨g, hg, hdenies⟩ := hholds.users hrestricts _ hnamed hkeeps
          exact ⟨g, (mem_topGrants_of_keepsUp hcompany hkeeps).mpr hg, hdenies⟩
        · obtain ⟨g, hg, hdenies⟩ := hholds.company hrestricts
          exact ⟨g, (mem_topGrants_of_not_keepsUp hcompany hkeeps).mpr hg, hdenies⟩
      · rw [haudience]
        rintro (h | h) <;> cases h
  · constructor
    · intro htruthful
      refine ⟨fun h => absurd h hrestricts, fun h => absurd h hrestricts, fun _ g hg hdenies => ?_⟩
      have hpermitted := htruthful.opened haudience (ordinary bucket stranger) rfl
        fun d hd huser => by
          rcases (mem_matchingGrants_iff rfl d).mp hd with hmem | hmem
          · have hscore := subjectScore_companyGrants hmem
            rw [huser] at hscore
            exact absurd hscore (by decide)
          · have hmem' : d ∈ userGrants db now bucket path objectId stranger := hmem
            rw [hnone] at hmem'
            contradiction
      rw [evaluateAccess_read_iff rfl hkind] at hpermitted
      exact hpermitted g ((mem_topGrants_of_not_keepsUp rfl hbehind).mpr hg) hdenies
    · intro hholds
      constructor
      · intro h
        rw [h] at haudience
        rcases haudience with h | h <;> cases h
      · intro _ principal hcompany hnouser
        rw [evaluateAccess_read_iff hcompany hkind]
        intro g hg
        have hkeeps : ¬KeepsUp db now bucket path objectId principal.userId := by
          rintro ⟨d, hd, -⟩
          have hmem := (mem_top.mp hd).1
          refine hnouser d ((mem_matchingGrants_iff hcompany d).mpr (.inr hmem)) ?_
          simp only [userGrants, List.mem_filter, Bool.and_eq_true, decide_eq_true_eq] at hmem
          exact hmem.2.1.1
        exact hholds.opened hrestricts g ((mem_topGrants_of_not_keepsUp hcompany hkeeps).mp hg)

def reopenedFile : World :=
  play (sampleEnv false)
    [.companyBucket 1, .upload (sampleUpload ['b', '/', 'x'] [97] 1),
      .deleteGrant (member 1) ((sampleEnv false).uuid4 2),
      .createGrant (staffMember 9)
        (sampleRequest ['a', 'l', 'l', 'o', 'w'] ['c', 'o', 'm', 'p', 'a', 'n', 'y'] ['1']
          ['o', 'b', 'j', 'e', 'c', 't'] (uuidText ((sampleEnv false).uuid4 1))
          ['r', 'e', 'a', 'd']),
      .createGrant (staffMember 9)
        (denyRequest ['b', 'u', 'c', 'k', 'e', 't'] companyBucketName ['r', 'e', 'a', 'd'])]
    .initial

theorem reopenedFile_reachable : Reachable (sampleEnv false) reopenedFile :=
  Reachable.play .refl (by decide +kernel)

theorem summaryTruthful_iff_privateFolder :
    SummaryTruthful privateFolder.db 0 sampleBucket ['a', '/', 'x'] none := by
  refine (summaryTruthful_iff _ _ _ _ _ rfl).mpr ⟨fun _ => ?_, fun _ userId hnamed hkeeps => ?_,
    fun hnot => absurd ⟨?_, ?_⟩ hnot⟩
  · decide +kernel
  · -- the only user with a grant is named
    obtain ⟨g, hg, -⟩ := hkeeps
    have hmem := (mem_top.mp hg).1
    simp only [userGrants, List.mem_filter, Bool.and_eq_true, decide_eq_true_eq] at hmem
    have hall : ∀ g ∈ activeGrants privateFolder.db 0 1, g.subjectType = .user →
        g.subjectId ∈ allowedSubjects .user
          (summarised privateFolder.db 0 sampleBucket ['a', '/', 'x'] none) := by
      decide +kernel
    have hid := hall g hmem.1 hmem.2.1.1
    rw [hmem.2.1.2] at hid
    exact absurd hid hnamed
  · exact .inl (by decide +kernel)
  · decide +kernel

/-- `b/x` is summarised as restricted, and member 2, who is not named, may read it. -/
theorem not_summaryTruthful :
    ¬∀ w, Reachable (sampleEnv false) w → ∀ bucket ∈ w.db.buckets.rows, bucket.kind = .company →
      ∀ path objectId, SummaryTruthful w.db w.out.now bucket path objectId := by
  intro h
  have htruthful := h reopenedFile reopenedFile_reachable sampleBucket (by decide +kernel) rfl
    ['b', '/', 'x'] none
  have hrestricted : (summaryOf reopenedFile.db reopenedFile.out.now sampleBucket
      ['b', '/', 'x'] none).audience = .restricted ∧
      (∀ ids, (summaryOf reopenedFile.db reopenedFile.out.now sampleBucket
        ['b', '/', 'x'] none).allowedUserIds = some ids → decimal 2 ∉ ids) ∧
      evaluateAccess reopenedFile.db reopenedFile.out.now (member 2) sampleBucket
        (some ['b', '/', 'x']) none .read = true := by
    refine ⟨by decide +kernel, ?_, by decide +kernel⟩
    intro ids hids
    have hids' : (summaryOf reopenedFile.db reopenedFile.out.now sampleBucket
        ['b', '/', 'x'] none).allowedUserIds = some [['1']] := by
      decide +kernel
    rw [hids', Option.some.injEq] at hids
    rw [← hids]
    decide
  obtain ⟨haudience, hunnamed, hpermitted⟩ := hrestricted
  have hrefused := htruthful.restricted haudience (member 2) rfl rfl rfl hunnamed
  rw [hpermitted] at hrefused
  exact Bool.noConfusion hrefused

end Summary

end StorageService.Results
