import StorageService.Storage.Effects
import StorageService.Storage.System

/-!
# The limits of a bucket

`file_size_limit` and `allowed_mime_types` are checked by uploads alone: copies
and moves bring into a bucket what its own limits would turn away.
-/

namespace StorageService.Results

open StorageService.Foundation
open StorageService.Foundation.Action
open StorageService.Storage

variable {env : Env} {w w' s s' : World}

structure Fits (env : Env) (bucket : Bucket) (obj : StorageObject) : Prop where
  size : ∀ limit, bucket.fileSizeLimit = some limit → obj.size ≤ limit
  mimeType : mimeAllowed env obj.mimeType bucket.allowedMimeTypes = true

/-! ## Placing objects -/

inductive Placing where
  | upload (u : Upload)
  | copy (bucket : Bucket) (source : Text) (destBucket : Bucket) (dest : Text)
      (ownerId : Option Nat)
  | move (bucket : Bucket) (source : Text) (destBucket : Bucket) (dest : Text)

namespace Placing

def run (env : Env) : Placing → Act StorageObject
  | upload u => u.run env
  | copy bucket source destBucket dest ownerId =>
      copyObject env bucket source destBucket dest ownerId
  | move bucket source destBucket dest => moveObject bucket source destBucket dest

def operation : Placing → Operation
  | upload u => .upload u
  | copy bucket source destBucket dest ownerId => .copy bucket source destBucket dest ownerId
  | move bucket source destBucket dest => .move bucket source destBucket dest

def bucket : Placing → Bucket
  | upload u => u.bucket
  | copy _ _ destBucket _ _ | move _ _ destBucket _ => destBucket

/--
What is copied or moved is within the limits of the bucket it goes to.  A limit
of zero bytes is no limit to an upload.
-/
def Permitted (env : Env) (db : Database) : Placing → Prop
  | upload u => u.bucket.fileSizeLimit = some 0 → u.data = []
  | copy bucket source destBucket _ _ | move bucket source destBucket _ =>
      ∀ name src, safeObjectPath source = .ok name → db.objectNamed bucket.id name = some src →
        Fits env destBucket src

end Placing

theorem bucket_loaded {p : Placing} {db : Database} (h : p.operation.Loaded db) :
    p.bucket ∈ db.buckets.rows := by
  cases p with
  | upload u => exact h
  | copy | move => exact h.2

structure PutInto (bucket : Bucket) (s : World) (obj : StorageObject) (s' : World) : Prop where
  buckets : s'.db.buckets = s.db.buckets
  bucketId : obj.bucketId = bucket.id
  mem : obj ∈ s'.db.objects.rows
  others : ∀ o ∈ s'.db.objects.rows, o.id ≠ obj.id → o ∈ s.db.objects.rows

theorem PutInto.of_created {bucket : Bucket} {obj : StorageObject} {data : Bytes}
    (h : Created env s obj data s') (hbucketId : obj.bucketId = bucket.id) :
    PutInto bucket s obj s' := by
  refine ⟨h.buckets, hbucketId, ?_, fun o ho hne => ?_⟩
  · rw [h.objects]
    exact List.mem_append_right _ (List.mem_singleton_self obj)
  · rw [h.objects, List.mem_append, List.mem_singleton] at ho
    exact ho.resolve_right fun heq => hne (congrArg StorageObject.id heq)

theorem PutInto.of_changed {bucket : Bucket} {old obj : StorageObject}
    {f : StorageObject → StorageObject} (hbuckets : s'.db.buckets = s.db.buckets)
    (hbucketId : obj.bucketId = bucket.id) (hold : old ∈ s.db.objects.rows)
    (hobj : Database.changed old.id f old = obj)
    (hobjects : s'.db.objects.rows = s.db.objects.rows.map (Database.changed old.id f)) :
    PutInto bucket s obj s' := by
  have hid : obj.id = old.id := by rw [← hobj, Database.changed_id]
  refine ⟨hbuckets, hbucketId, ?_, fun o ho hne => ?_⟩
  · rw [hobjects, ← hobj]
    exact List.mem_map_of_mem hold
  · rw [hobjects] at ho
    obtain ⟨p, hp, rfl⟩ := List.mem_map.mp ho
    rw [Database.changed_id, hid] at hne
    rwa [Database.changed_of_ne hne]

theorem uploadObject_putInto {u : Upload} {obj : StorageObject}
    (h : (u.run env).Runs s obj s') : PutInto u.bucket s obj s' := by
  obtain ⟨name, -, ⟨existing, hexisting, hwrote⟩ | ⟨-, hcreated, hbucketId, -⟩⟩ :=
    uploadObject_cases h
  · obtain ⟨hmem, hbucketId, -⟩ := Database.objectNamed_eq_some hexisting
    obtain ⟨mimeType, ownerId, rfl⟩ := hwrote.row
    refine PutInto.of_changed hwrote.buckets hbucketId hmem ?_ hwrote.objects
    simp [Database.changed, overwritten]
  · exact PutInto.of_created hcreated hbucketId

theorem placing_putInto {p : Placing} {obj : StorageObject} (h : (p.run env).Runs s obj s') :
    PutInto p.bucket s obj s' := by
  cases p with
  | upload u => exact uploadObject_putInto h
  | copy bucket source destBucket dest ownerId =>
      obtain ⟨_, _, _, data, -, -, -, -, -, hcreated, hbucketId, -⟩ := copyObject_created h
      exact PutInto.of_created hcreated hbucketId
  | move bucket source destBucket dest =>
      obtain ⟨_, name, src, -, -, hsrc, -, hmoved, hrewrote, -⟩ := moveObject_rewrote h
      obtain ⟨hmem, -⟩ := Database.objectNamed_eq_some hsrc
      refine PutInto.of_changed hrewrote.buckets (by rw [hmoved]; rfl) hmem ?_ hrewrote.objects
      rw [hmoved]
      simp [Database.changed, relocated]

theorem uploadObject_fits_iff {u : Upload} {obj : StorageObject}
    (h : (u.run env).Runs s obj s') :
    Fits env u.bucket obj ↔ (u.bucket.fileSizeLimit = some 0 → u.data = []) := by
  obtain ⟨name, s₁, -, hmime, hlength, -, hcases⟩ := runs_uploadObject_checked h
  have hobj : obj.size = u.data.length ∧
      obj.mimeType = normalizeMimeType env u.contentType name := by
    rcases hcases with ⟨existing, -, hwrite⟩ | ⟨-, hcreate⟩
    · rw [runs_overwriteObject_row hwrite]
      exact ⟨rfl, rfl⟩
    · obtain ⟨-, -, -, -, -, hsize, -, hmimeType⟩ := createFile_created hcreate
      exact ⟨hsize, hmimeType⟩
  constructor
  · rintro ⟨hsize, -⟩ hzero
    have hle := hsize 0 hzero
    rw [hobj.1] at hle
    exact List.length_eq_zero_iff.mp (Nat.le_zero.mp hle)
  · intro hempty
    refine ⟨fun limit hlimit => ?_, by rwa [hobj.2]⟩
    rw [hobj.1]
    cases limit with
    | zero => simp [hempty hlimit]
    | succ limit =>
        simp only [uploadLimit, hlimit] at hlength
        exact hlength.trans (Nat.min_le_left _ _)

theorem fits_congr {bucket : Bucket} {obj src : StorageObject} (hsize : obj.size = src.size)
    (hmimeType : obj.mimeType = src.mimeType) : Fits env bucket obj ↔ Fits env bucket src := by
  constructor
  · rintro ⟨hfits, hallowed⟩
    exact ⟨by rwa [← hsize], by rwa [← hmimeType]⟩
  · rintro ⟨hfits, hallowed⟩
    exact ⟨by rwa [hsize], by rwa [hmimeType]⟩

/-- What is placed is within the limits just when the call was permitted. -/
theorem placing_fits_iff {p : Placing} {obj : StorageObject} (h : (p.run env).Runs s obj s') :
    Fits env p.bucket obj ↔ p.Permitted env s.db := by
  have hsource : ∀ {destBucket bucket : Bucket} {source name : Text} {src : StorageObject},
      safeObjectPath source = .ok name → s.db.objectNamed bucket.id name = some src →
      (Fits env destBucket src ↔ ∀ n o, safeObjectPath source = .ok n →
        s.db.objectNamed bucket.id n = some o → Fits env destBucket o) := by
    intro destBucket bucket source name src hname hsrc
    constructor
    · intro hfits n o hn ho
      obtain rfl : name = n := Except.ok.inj (hname.symm.trans hn)
      rwa [← Option.some.inj (hsrc.symm.trans ho)]
    · exact fun hall => hall name src hname hsrc
  cases p with
  | upload u => exact uploadObject_fits_iff h
  | copy bucket source destBucket dest ownerId =>
      obtain ⟨name, _, src, _, _, hname, -, hsrc, -, -, -, -, hcreate⟩ := runs_copyObject h
      obtain ⟨-, -, -, -, -, hsize, -, hmimeType⟩ := createFile_created hcreate
      exact (fits_congr hsize hmimeType).trans (hsource hname hsrc)
  | move bucket source destBucket dest =>
      obtain ⟨name, _, src, hname, -, hsrc, -, hmoved, -⟩ := moveObject_rewrote h
      have hsame : Fits env destBucket obj ↔ Fits env destBucket src :=
        fits_congr (by rw [hmoved]; rfl) (by rw [hmoved]; rfl)
      exact hsame.trans (hsource hname hsrc)

/-! ## Runs -/

/-- Objects are placed from `w₀` on, each call permitted by `ok`; `placed` are their ids. -/
inductive PlacingRun (env : Env) (ok : Database → Placing → Prop) (w₀ : World) :
    World → List UUID → Prop where
  | start : PlacingRun env ok w₀ w₀ []
  | placed {w w' : World} {ids : List UUID} {p : Placing} {fault : Option (Point × Nat)}
      {obj : StorageObject} (run : PlacingRun env ok w₀ w ids)
      (loaded : p.operation.Loaded w.db) (permitted : ok w.db p)
      (h : (p.run env).Runs (w.withFault fault) obj w') :
      PlacingRun env ok w₀ w' (obj.id :: ids)
  | failed {w w' : World} {ids : List UUID} {p : Placing} {fault : Option (Point × Nat)}
      (run : PlacingRun env ok w₀ w ids) (loaded : p.operation.Loaded w.db)
      (h : (p.run env).Fails (w.withFault fault) w') : PlacingRun env ok w₀ w' ids
  | clock {w : World} {ids : List UUID} (run : PlacingRun env ok w₀ w ids) (t : Time)
      (later : w.out.now ≤ t) :
      PlacingRun env ok w₀ { w with out := { w.out with now := t } } ids

def WithinLimits (env : Env) (db : Database) (ids : List UUID) : Prop :=
  ∀ o ∈ db.objects.rows, o.id ∈ ids → ∀ b ∈ db.buckets.rows, b.id = o.bucketId → Fits env b o

theorem placing_fails {p : Placing} (h : (p.run env).Fails s s') : s'.db = s.db := by
  cases p with
  | upload | copy | move =>
      obtain ⟨s₁, -, rfl⟩ := fails_atomic.mp h
      rfl

theorem WithinLimits.placed {p : Placing} {obj : StorageObject} {ids : List UUID}
    (hids : WithinLimits env s.db ids) (loaded : p.operation.Loaded s.db)
    (hpermitted : p.Permitted env s.db) (h : (p.run env).Runs s obj s') :
    WithinLimits env s'.db (obj.id :: ids) := by
  have hput := placing_putInto h
  intro o ho hid b hb hbucket
  rw [hput.buckets] at hb
  by_cases hown : o.id = obj.id
  · obtain rfl := Database.object_eq_of_id ho hput.mem hown
    obtain rfl : b = p.bucket := Database.bucket_eq_of_id hb (bucket_loaded loaded)
      (hbucket.trans hput.bucketId)
    exact (placing_fits_iff h).mpr hpermitted
  · rw [List.mem_cons, or_iff_right hown] at hid
    exact hids o (hput.others o ho hown) hid b hb hbucket

/--
As long as nothing is copied or moved into a bucket whose limits it exceeds, all
that uploads, copies and moves have placed is within the limits.
-/
theorem placingRun_withinLimits {w₀ : World} {ids : List UUID}
    (h : PlacingRun env (Placing.Permitted env) w₀ w ids) : WithinLimits env w.db ids := by
  induction h with
  | start =>
      intro o ho hid
      contradiction
  | @placed w w' ids p fault obj run loaded permitted h ih =>
      exact WithinLimits.placed (s := w.withFault fault) ih loaded permitted h
  | failed run loaded h ih => rwa [placing_fails h]
  | clock run t later ih => exact ih

def smallBucket : Bucket :=
  { newCompanyBucket 1 ((sampleEnv false).uuid4 1) with name := ['s'], fileSizeLimit := some 1 }

def twoBuckets : World :=
  play (sampleEnv false)
    [.companyBucket 1, .addBucket fun id => { smallBucket with id := id }] .initial

def uploadedBeside (data : Bytes) : World :=
  ((sampleUpload ['a'] data 1).run (sampleEnv false) (twoBuckets.withFault none)).2

def copyToSmall : Placing := .copy sampleBucket ['a'] smallBucket ['b'] (some 1)

def copiedToSmall (data : Bytes) : World :=
  (copyToSmall.run (sampleEnv false) ((uploadedBeside data).withFault none)).2

theorem copiedToSmall_run (ok : Database → Placing → Prop) (data : Bytes)
    {p : StorageObject → Bool} (hloaded : sampleBucket ∈ (uploadedBeside data).db.buckets.rows ∧
      smallBucket ∈ (uploadedBeside data).db.buckets.rows)
    (hupload : ((sampleUpload ['a'] data 1).run (sampleEnv false)
      (twoBuckets.withFault none)).1.toOption.any (fun _ => true) = true)
    (hcopy : (copyToSmall.run (sampleEnv false)
      ((uploadedBeside data).withFault none)).1.toOption.any p = true)
    (hfirst : ok twoBuckets.db (.upload (sampleUpload ['a'] data 1)))
    (hsecond : ok (uploadedBeside data).db copyToSmall) :
    ∃ obj id, p obj = true ∧
      PlacingRun (sampleEnv false) ok twoBuckets (copiedToSmall data) [obj.id, id] := by
  obtain ⟨first, hrun, -⟩ := runs_of_any hupload
  obtain ⟨obj, hrun', hobj⟩ := runs_of_any hcopy
  have hbucket : sampleBucket ∈ twoBuckets.db.buckets.rows := by decide +kernel
  have hone : PlacingRun (sampleEnv false) ok twoBuckets (uploadedBeside data) [first.id] :=
    .placed (p := .upload (sampleUpload ['a'] data 1)) .start hbucket hfirst hrun
  exact ⟨obj, first.id, hobj, .placed (p := copyToSmall) hone hloaded hsecond hrun'⟩

theorem placingRun_withinLimits_copiedToSmall : ∃ id id',
    WithinLimits (sampleEnv false) (copiedToSmall [97]).db [id, id'] := by
  have hfits : ∀ o ∈ (uploadedBeside [97]).db.objects.rows, o.size ≤ 1 := by decide +kernel
  have hpermitted : copyToSmall.Permitted (sampleEnv false) (uploadedBeside [97]).db := by
    intro name src hname hsrc
    refine ⟨fun limit hlimit => ?_, rfl⟩
    rw [← Option.some.inj hlimit]
    exact hfits src (Database.objectNamed_eq_some hsrc).1
  obtain ⟨obj, id, -, hrun⟩ := copiedToSmall_run (Placing.Permitted (sampleEnv false)) [97]
    (p := fun _ => true) (by decide +kernel) (by decide +kernel) (by decide +kernel)
    (fun hzero => absurd hzero (by decide)) hpermitted
  exact ⟨obj.id, id, placingRun_withinLimits hrun⟩

/-- A file of two bytes is copied into a bucket for files of one. -/
theorem not_placingRun_withinLimits :
    ¬∀ (env : Env) (w₀ w : World) (ids : List UUID),
      PlacingRun env (fun _ _ => True) w₀ w ids → WithinLimits env w.db ids := by
  intro h
  obtain ⟨obj, id, hobj, hrun⟩ := copiedToSmall_run (fun _ _ => True) [97, 98]
    (p := fun o => decide (o ∈ (copiedToSmall [97, 98]).db.objects.rows ∧
      o.bucketId = smallBucket.id ∧ o.size = 2))
    (by decide +kernel) (by decide +kernel) (by decide +kernel) trivial trivial
  obtain ⟨hmem, hbucketId, hsize⟩ := of_decide_eq_true hobj
  have hbucket : smallBucket ∈ (copiedToSmall [97, 98]).db.buckets.rows := by decide +kernel
  have hfits := (h _ _ _ _ hrun obj hmem (List.mem_cons_self ..) smallBucket hbucket
    hbucketId.symm).size 1 rfl
  rw [hsize] at hfits
  exact absurd hfits (by decide)

end StorageService.Results
