import StorageService.Results.Usage
import StorageService.Storage.Changes
import StorageService.Storage.Charges

/-!
# Usage by user

In a company with a default limit for its users, the row of a user counts the
bytes the user owns, as long as nobody overwrites what somebody else owns: the
object changes hands, and only the difference in size is charged, to the new
owner.
-/

namespace StorageService.Results

open StorageService.Foundation
open StorageService.Foundation.Action
open StorageService.Storage

variable {env : Env} {s s' w w' : World}

/-! ## Exact counters -/

def ownedBytes (db : Database) (companyId userId : Nat) : Nat :=
  ((db.objects.rows.filter fun o => decide (o.companyId = companyId ∧ o.ownerId = some userId)).map
    StorageObject.size).sum

def ownedShare (companyId userId : Nat) (o : StorageObject) : Nat :=
  if o.companyId = companyId ∧ o.ownerId = some userId then o.size else 0

theorem ownedBytes_eq_sum (db : Database) (companyId userId : Nat) :
    ownedBytes db companyId userId =
      (db.objects.rows.map (ownedShare companyId userId)).sum := by
  unfold ownedBytes
  induction db.objects.rows with
  | nil => rfl
  | cons o rows ih =>
      by_cases ho : o.companyId = companyId ∧ o.ownerId = some userId
      · rw [List.filter_cons_of_pos (by simpa using ho), List.map_cons, List.sum_cons, ih,
          List.map_cons, List.sum_cons, ownedShare, if_pos ho]
      · rw [List.filter_cons_of_neg (by simpa using ho), ih, List.map_cons, List.sum_cons,
          ownedShare, if_neg ho, zero_add]

structure ExactUsers (env : Env) (companyId : Nat) (limit : Int) (db : Database) : Prop where
  capped : Capped env companyId limit db
  exact : ∀ userId, userUsage db companyId userId = ownedBytes db companyId userId

namespace ExactUsers

variable {companyId : Nat} {limit : Int}

theorem nonneg {db : Database} (h : ExactUsers env companyId limit db) (userId : Nat) :
    0 ≤ userUsage db companyId userId := by
  rw [h.exact]
  exact Int.natCast_nonneg _

theorem of_charged (h : ExactUsers env companyId limit s.db) (hpos : 0 < limit) {c : Nat}
    {owner : Option Nat} {delta : Int} (hcharged : Charged env c owner delta s s')
    (hrows : ∀ userId, (ownedBytes s'.db companyId userId : Int) =
      ownedBytes s.db companyId userId +
        if c = companyId ∧ owner = some userId then delta else 0) :
    ExactUsers env companyId limit s'.db := by
  obtain ⟨hcapped, husage⟩ := hcharged.users h.capped hpos h.nonneg
  refine ⟨hcapped, fun userId => ?_⟩
  rw [husage, h.exact]
  have hsum := hrows userId
  split
  · rename_i hcharged
    rw [if_pos hcharged] at hsum
    omega
  · rename_i hcharged
    rw [if_neg hcharged] at hsum
    omega

theorem of_created (h : ExactUsers env companyId limit s.db) (hpos : 0 < limit)
    {obj : StorageObject} {data : Bytes} (hcreated : Created env s obj data s')
    (hcharged : Charged env obj.companyId obj.ownerId obj.size s s') :
    ExactUsers env companyId limit s'.db := by
  refine h.of_charged hpos hcharged fun userId => ?_
  rw [ownedBytes_eq_sum, ownedBytes_eq_sum, hcreated.objects]
  by_cases howned : obj.companyId = companyId ∧ obj.ownerId = some userId <;>
    simp [ownedShare, howned]

theorem of_overwrote (h : ExactUsers env companyId limit s.db) (hpos : 0 < limit)
    {bucket : Bucket} {existing obj : StorageObject} {data : Bytes} {owner : Option Nat}
    (hmem : existing ∈ s.db.objects.rows) (hcompany : existing.companyId = bucket.companyId)
    (hobj : obj.companyId = existing.companyId ∧ obj.ownerId = owner ∧ obj.size = data.length)
    (hkept : existing.size ≠ 0 → existing.ownerId = owner)
    (hoverwrote : Overwrote env s bucket existing obj data s')
    (hcharged : Charged env bucket.companyId owner ((data.length : Int) - existing.size) s s') :
    ExactUsers env companyId limit s'.db := by
  refine h.of_charged hpos hcharged fun userId => ?_
  have hsum := hoverwrote.sum_eq hmem (ownedShare companyId userId)
  have hafter : ownedShare companyId userId obj =
      if bucket.companyId = companyId ∧ owner = some userId then data.length else 0 := by
    rw [ownedShare, hobj.1, hobj.2.1, hobj.2.2, hcompany]
  have hbefore : ownedShare companyId userId existing =
      if bucket.companyId = companyId ∧ owner = some userId then existing.size else 0 := by
    by_cases hsize : existing.size = 0
    · simp [ownedShare, hsize]
    · rw [ownedShare, hkept hsize, hcompany]
  rw [hafter, hbefore] at hsum
  rw [ownedBytes_eq_sum, ownedBytes_eq_sum]
  by_cases hcharged : bucket.companyId = companyId ∧ owner = some userId
  · rw [if_pos hcharged, if_pos hcharged] at hsum
    rw [if_pos hcharged]
    omega
  · rw [if_neg hcharged, if_neg hcharged] at hsum
    rw [if_neg hcharged]
    omega

theorem of_deleted (h : ExactUsers env companyId limit s.db) (hpos : 0 < limit)
    {obj : StorageObject} (hsame : ∀ o ∈ s.db.objects.rows, o.id = obj.id → o = obj)
    (hthere : obj.size ≠ 0 → obj ∈ s.db.objects.rows)
    (hrun : (deleteObject env obj).Runs s () s') : ExactUsers env companyId limit s'.db := by
  refine h.of_charged hpos (deleteObject_charged hrun) fun userId => ?_
  have hsum := (deleteObject_removed hrun).sum_eq hsame (ownedShare companyId userId)
    fun hshare => hthere fun hsize => hshare (by simp [ownedShare, hsize])
  rw [ownedBytes_eq_sum, ownedBytes_eq_sum]
  by_cases howned : obj.companyId = companyId ∧ obj.ownerId = some userId
  · rw [ownedShare, if_pos howned] at hsum
    rw [if_pos howned]
    omega
  · rw [ownedShare, if_neg howned] at hsum
    rw [if_neg howned]
    omega

end ExactUsers

/-! ## Uploads, copies and deletions by the users -/

def ByUsers : Operation → Prop
  | .upload u => u.ownerId ≠ none
  | .copy _ _ _ _ ownerId => ownerId ≠ none
  | .delete _ => True
  | _ => False

/-- What is overwritten stays with its owner, or has no size. -/
def OwnersKept (db : Database) : Operation → Prop
  | .upload u => ∀ existing, u.existing db = some existing → existing.size ≠ 0 →
      existing.ownerId = u.ownerId
  | _ => True

def StoresFor (companyId userId : Nat) : Operation → Prop
  | .upload u => u.bucket.companyId = companyId ∧ u.ownerId = some userId
  | .copy _ _ destBucket _ ownerId => destBucket.companyId = companyId ∧ ownerId = some userId
  | _ => False

section Steps

variable {companyId : Nat} {limit : Int}

theorem ExactUsers.of_check (h : ExactUsers env companyId limit s.db) {c : Nat}
    {userId : Option Nat} {additional replacing : Nat}
    (hrun : (assertCanStore env c userId additional replacing).Runs s () s') :
    ExactUsers env companyId limit s'.db where
  capped := h.capped.of_sameLimits ((assertCanStore_sameLimits env _ _ _ _).runs hrun)
  exact user := by
    rw [((assertCanStore_sameLimits env _ _ _ _).runs hrun).userUsage, h.exact, ownedBytes,
      ownedBytes, ((assertCanStore_quotasOnly env _ _ _ _).runs hrun).objects]

theorem ExactUsers.of_createFile (h : ExactUsers env companyId limit s.db) (hpos : 0 < limit)
    {bucket : Bucket} {name : Text} {data : Bytes} {ownerId : Option Nat} {size : Nat}
    {etag mimeType : Text} {obj : StorageObject}
    (hrun : (createFile env bucket name data ownerId size etag mimeType).Runs s obj s') :
    ExactUsers env companyId limit s'.db := by
  obtain ⟨hcreated, -, -, hcompany, howner, hsize, -⟩ := createFile_created hrun
  refine h.of_created hpos hcreated ?_
  rw [hcompany, howner, hsize]
  exact createFile_charged hrun

theorem ExactUsers.upload (h : ExactUsers env companyId limit s.db) (hpos : 0 < limit)
    (hs : Sound env s) {u : Upload} (loaded : u.bucket ∈ s.db.buckets.rows)
    (hby : u.ownerId ≠ none) (hkept : OwnersKept s.db (.upload u)) {obj : StorageObject}
    (hrun : (u.run env).Runs s obj s') : ExactUsers env companyId limit s'.db := by
  obtain ⟨name, mimeType, s₁, hname, hquota, hcases⟩ := runs_uploadObject hrun
  have hq := (assertCanStore_quotasOnly env _ _ _ _).runs hquota
  have hchecked := h.of_check hquota
  rcases hcases with ⟨existing, hfound, hwrite⟩ | ⟨-, hcreate⟩
  · obtain ⟨hmem, hbucketId, -⟩ := Database.objectNamed_eq_some hfound
    have hexisting : u.existing s.db = some existing := by
      rwa [Upload.existing_eq hname]
    have hover := overwriteObject_overwrote hwrite
    obtain ⟨_, _, hrow⟩ := hover.row
    obtain ⟨userId, huser⟩ := Option.ne_none_iff_exists'.mp hby
    refine hchecked.of_overwrote hpos (by rwa [hq.objects])
      (hs.company_of_known hmem (known_of_mem loaded) hbucketId) ⟨?_, ?_, ?_⟩
      (hkept existing hexisting) hover (overwriteObject_charged hwrite)
    · rw [hrow]
      rfl
    · rw [overwriteObject_owner hwrite, huser]
      rfl
    · rw [hrow]
      rfl
  · exact hchecked.of_createFile hpos hcreate

theorem ExactUsers.copy (h : ExactUsers env companyId limit s.db) (hpos : 0 < limit)
    {bucket destBucket : Bucket} {source dest : Text} {ownerId : Option Nat}
    {obj : StorageObject}
    (hrun : (copyObject env bucket source destBucket dest ownerId).Runs s obj s') :
    ExactUsers env companyId limit s'.db := by
  obtain ⟨_, _, _, _, s₁, -, -, -, -, -, hquota, -, hcreate⟩ := runs_copyObject hrun
  exact (h.of_check hquota).of_createFile hpos hcreate

theorem ExactUsers.delete (h : ExactUsers env companyId limit s.db) (hpos : 0 < limit)
    {d : Deletion} (loaded : d.Loaded s.db) (honce : NamesOnce s.db (.delete d))
    (hrun : (d.run env).Runs s () s') : ExactUsers env companyId limit s'.db := by
  have hmem := Deletion.objects_subset loaded
  refine runs_deletions_invariant (P := fun s => ExactUsers env companyId limit s.db) ?_ ?_
    (objects_once honce) ?_ h (Deletion.runs_iff.mp hrun).2
  · intro obj hobj o ho hid
    exact Database.object_eq_of_id ho (hmem obj hobj) hid
  · exact fun obj hobj _ => hmem obj hobj
  · exact fun hs hsame hthere hdelete => hs.of_deleted hpos hsame hthere hdelete

def KeepsOwners (db : Database) (op : Operation) : Prop :=
  ByUsers op ∧ OwnersKept db op ∧ NamesOnce db op

theorem fails_upload {u : Upload} (h : (u.run env).Fails s s') : s'.db = s.db := by
  rw [Upload.run, uploadObject, fails_atomic] at h
  obtain ⟨s₁, -, rfl⟩ := h
  rfl

theorem fails_copyObject {bucket destBucket : Bucket} {source dest : Text}
    {ownerId : Option Nat}
    (h : (copyObject env bucket source destBucket dest ownerId).Fails s s') :
    s'.db = s.db := by
  rw [copyObject, fails_atomic] at h
  obtain ⟨s₁, -, rfl⟩ := h
  rfl

theorem fails_deletion {d : Deletion} (h : (d.run env).Fails s s') : s'.db = s.db := by
  rcases Deletion.fails_iff.mp h with ⟨-, heq⟩ | ⟨-, s₁, -, heq⟩
  · rw [heq]
  · rw [heq]

theorem ExactUsers.of_runs (h : ExactUsers env companyId limit s.db) (hpos : 0 < limit)
    (hs : Sound env s) {op : Operation} (loaded : op.Loaded s.db) (ok : KeepsOwners s.db op)
    (hrun : (op.run env).Runs s () s') : ExactUsers env companyId limit s'.db := by
  obtain ⟨hby, hkept, honce⟩ := ok
  cases op with
  | upload u =>
      simp only [Operation.run, runs_bind, runs_pure] at hrun
      obtain ⟨obj, s₁, hupload, -, rfl⟩ := hrun
      exact h.upload hpos hs loaded hby hkept hupload
  | copy bucket source destBucket dest ownerId =>
      simp only [Operation.run, runs_bind, runs_pure] at hrun
      obtain ⟨obj, s₁, hcopy, -, rfl⟩ := hrun
      exact h.copy hpos hcopy
  | delete d => exact h.delete hpos loaded honce hrun
  | rename | move | folderMarker | createGrant | deleteGrant | companyBucket | addBucket
  | companyLimit | userLimit => exact hby.elim

theorem db_of_fails {op : Operation} (hby : ByUsers op) (h : (op.run env).Fails s s') :
    s'.db = s.db := by
  cases op with
  | upload u =>
      simp only [Operation.run, fails_bind, fails_pure, and_false, exists_false, or_false] at h
      exact fails_upload h
  | copy bucket source destBucket dest ownerId =>
      simp only [Operation.run, fails_bind, fails_pure, and_false, exists_false, or_false] at h
      exact fails_copyObject h
  | delete d => exact fails_deletion h
  | rename | move | folderMarker | createGrant | deleteGrant | companyBucket | addBucket
  | companyLimit | userLimit => exact hby.elim

theorem ExactUsers.operation (h : ExactUsers env companyId limit s.db) (hpos : 0 < limit)
    (hs : Sound env s) {op : Operation} (loaded : op.Loaded s.db) (ok : KeepsOwners s.db op) :
    ExactUsers env companyId limit (op.run env s).2.db := by
  rcases runs_or_fails (op.run env) s with ⟨_, hrun⟩ | hfail
  · exact h.of_runs hpos hs loaded ok hrun
  · rw [db_of_fails ok.1 hfail]
    exact h

theorem exactUsers_of_guardedRun (henv : env.Lawful) (hpos : 0 < limit)
    (hw : Sound env w) (hstart : ExactUsers env companyId limit w.db)
    (h : GuardedRun env KeepsOwners w w') : ExactUsers env companyId limit w'.db := by
  have hboth : Sound env w' ∧ ExactUsers env companyId limit w'.db := by
    induction h with
    | refl => exact ⟨hw, hstart⟩
    | @tail w₁ w₂ _ hstep ih =>
        refine ⟨hstep.step.sound henv ih.1, ?_⟩
        cases hstep with
        | operation op fault loaded ok =>
            exact ExactUsers.operation (s := w₁.withFault fault) ih.2 hpos
              (((keeps_lenient env).fault w₁ fault).sound ih.1) loaded ok
        | clock t _ => exact ih.2
  exact hboth.2

theorem userUsage_le_of_checked {userId : Nat} {additional replacing : Nat} {s₁ : World}
    (hcapped : Capped env companyId limit s.db) (hpos : 0 < limit)
    (hfloor : ∀ user, 0 ≤ userUsage s.db companyId user)
    (hcheck : (assertCanStore env companyId (some userId) additional replacing).Runs s () s₁)
    (hcharged : Charged env companyId (some userId) ((additional : Int) - replacing) s₁ s')
    (hmore : userUsage s.db companyId userId < userUsage s'.db companyId userId) :
    userUsage s'.db companyId userId ≤ limit := by
  have hsame := (assertCanStore_sameLimits env _ _ _ _).runs hcheck
  have hfloor₁ : ∀ user, 0 ≤ userUsage s₁.db companyId user := fun user => by
    rw [hsame.userUsage]
    exact hfloor user
  obtain ⟨-, husage⟩ := hcharged.users (hcapped.of_sameLimits hsame) hpos hfloor₁
  have hafter : userUsage s'.db companyId userId =
      max 0 (userUsage s.db companyId userId + ((additional : Int) - replacing)) := by
    rw [husage, hsame.userUsage]
    simp
  have hnot := (runs_assertCanStore hcheck).1
  have hstart := hfloor userId
  by_contra hover
  exact hnot ((hcapped.quotaExceeded_iff hpos userId additional replacing).mpr
    ⟨by omega, .inr (by omega)⟩)

theorem userUsage_le_of_stores {op : Operation} {userId : Nat}
    (h : ExactUsers env companyId limit s.db) (hpos : 0 < limit)
    (hstores : StoresFor companyId userId op) (hrun : (op.run env).Runs s () s')
    (hmore : userUsage s.db companyId userId < userUsage s'.db companyId userId) :
    userUsage s'.db companyId userId ≤ limit := by
  cases op with
  | upload u =>
      obtain ⟨rfl, howner⟩ := hstores
      simp only [Operation.run, Upload.run, runs_bind, runs_pure, howner] at hrun
      obtain ⟨obj, s₂, hupload, -, rfl⟩ := hrun
      obtain ⟨name, mimeType, s₁, -, hcheck, ⟨existing, hfound, hwrite⟩ | ⟨hfree, hcreate⟩⟩ :=
        runs_uploadObject hupload
      · rw [hfound] at hcheck
        exact userUsage_le_of_checked h.capped hpos h.nonneg hcheck
          (overwriteObject_charged hwrite) hmore
      · rw [hfree] at hcheck
        refine userUsage_le_of_checked h.capped hpos h.nonneg hcheck ?_ hmore
        simpa using createFile_charged hcreate
  | copy bucket source destBucket dest ownerId =>
      obtain ⟨rfl, rfl⟩ := hstores
      simp only [Operation.run, runs_bind, runs_pure] at hrun
      obtain ⟨obj, s₂, hcopy, -, rfl⟩ := hrun
      obtain ⟨_, _, src, _, s₁, -, -, -, -, -, hcheck, -, hcreate⟩ := runs_copyObject hcopy
      refine userUsage_le_of_checked h.capped hpos h.nonneg hcheck ?_ hmore
      simpa using createFile_charged hcreate
  | delete | rename | move | folderMarker | createGrant | deleteGrant | companyBucket | addBucket
  | companyLimit | userLimit => exact hstores.elim

end Steps

/--
Starting from a company whose users own nothing, have no rows and are under a
default limit, every row counts what its user owns, users without a row own
nothing, and storing more never brings a user over the limit.
-/
theorem userUsage_of_run (henv : env.Lawful) (hw : Reachable env w) {companyId : Nat}
    {limit : Int} (hpos : 0 < limit) (hlimit : perUserLimit env w.db companyId = some limit)
    (hrows : ∀ userId, w.db.userQuotas companyId userId = none)
    (hempty : ∀ userId, ownedBytes w.db companyId userId = 0)
    (h : GuardedRun env KeepsOwners w w') :
    (∀ userId row, w'.db.userQuotas companyId userId = some row →
        row.usedBytes = ownedBytes w'.db companyId userId) ∧
      (∀ userId, w'.db.userQuotas companyId userId = none →
        ownedBytes w'.db companyId userId = 0) ∧
      ∀ userId op w'', StoresFor companyId userId op → Succeeds env op w' w'' →
        userUsage w'.db companyId userId < userUsage w''.db companyId userId →
        userUsage w''.db companyId userId ≤ limit := by
  have hstart : ExactUsers env companyId limit w.db := by
    refine ⟨⟨hlimit, fun userId row hrow => ?_⟩, fun userId => ?_⟩
    · rw [hrows] at hrow
      contradiction
    · rw [userUsage, hrows, hempty]
      rfl
  have hend := exactUsers_of_guardedRun henv hpos (hw.sound henv) hstart h
  refine ⟨fun userId row hrow => ?_, fun userId hnone => ?_, ?_⟩
  · rw [← hend.exact, userUsage, hrow]
    rfl
  · have hexact := hend.exact userId
    rw [userUsage, hnone] at hexact
    exact Int.natCast_eq_zero.mp hexact.symm
  · rintro userId op w'' hstores ⟨-, fault, hrun⟩ hmore
    exact userUsage_le_of_stores (s := w'.withFault fault) hend hpos hstores hrun hmore

def limitedCompany : World :=
  play (sampleEnv false) [.companyBucket 1, .companyLimit 1 100000 (some 100)] .initial

theorem limitedCompany_reachable : Reachable (sampleEnv false) limitedCompany :=
  Reachable.play .refl (by decide +kernel)

def uploadByFirst : Operation := .upload (sampleUpload ['a'] [97] 1)

def uploadBySecond : Operation := .upload (sampleUpload ['a'] [98] 2)

theorem userUsage_of_run_oneFile :
    userUsage (uploadByFirst.after (sampleEnv false) limitedCompany).db 1 1 =
      ownedBytes (uploadByFirst.after (sampleEnv false) limitedCompany).db 1 1 := by
  have hrun : GuardedRun (sampleEnv false) KeepsOwners limitedCompany
      (uploadByFirst.after (sampleEnv false) limitedCompany) := by
    refine GuardedRun.after .refl ⟨by simp [ByUsers, uploadByFirst, sampleUpload], ?_, trivial⟩
      (by decide +kernel)
    intro existing hexisting
    have hnone : (sampleUpload ['a'] [97] 1).existing limitedCompany.db = none := by
      decide +kernel
    rw [hnone] at hexisting
    contradiction
  have hrow : ∃ row, (uploadByFirst.after (sampleEnv false) limitedCompany).db.userQuotas 1 1 =
      some row := by
    rw [← Option.isSome_iff_exists]
    decide +kernel
  obtain ⟨row, hrow⟩ := hrow
  have hlimit : perUserLimit (sampleEnv false) limitedCompany.db 1 = some 100 := by
    decide +kernel
  obtain ⟨hexact, -, -⟩ := userUsage_of_run (sampleEnv_lawful false) limitedCompany_reachable
    (by decide) hlimit (fun _ => rfl) (fun _ => rfl) hrun
  rw [userUsage, hrow, Option.map_some, Option.getD_some]
  exact hexact 1 row hrow

/-- The second user overwrites the file and owns it, and the first user is still charged. -/
theorem not_userUsage_of_run :
    ¬∀ (w w' : World) (companyId : Nat) (limit : Int), Reachable (sampleEnv false) w →
      0 < limit → perUserLimit (sampleEnv false) w.db companyId = some limit →
      (∀ userId, w.db.userQuotas companyId userId = none) →
      (∀ userId, ownedBytes w.db companyId userId = 0) →
      GuardedRun (sampleEnv false) (fun _ op => ByUsers op) w w' →
      (∀ userId row, w'.db.userQuotas companyId userId = some row →
          row.usedBytes = ownedBytes w'.db companyId userId) ∧
        (∀ userId, w'.db.userQuotas companyId userId = none →
          ownedBytes w'.db companyId userId = 0) ∧
        ∀ userId op w'', StoresFor companyId userId op → Succeeds (sampleEnv false) op w' w'' →
          userUsage w'.db companyId userId < userUsage w''.db companyId userId →
          userUsage w''.db companyId userId ≤ limit := by
  intro h
  have hrun : GuardedRun (sampleEnv false) (fun _ op => ByUsers op) limitedCompany
      (uploadBySecond.after (sampleEnv false)
        (uploadByFirst.after (sampleEnv false) limitedCompany)) :=
    GuardedRun.after (GuardedRun.after .refl (by simp [ByUsers, uploadByFirst, sampleUpload])
      (by decide +kernel)) (by simp [ByUsers, uploadBySecond, sampleUpload]) (by decide +kernel)
  obtain ⟨-, hnone, -⟩ := h limitedCompany _ 1 100 limitedCompany_reachable (by decide)
    (by decide +kernel) (fun _ => rfl) (fun _ => rfl) hrun
  have howned := hnone 2 (by decide +kernel)
  revert howned
  decide +kernel

end StorageService.Results
