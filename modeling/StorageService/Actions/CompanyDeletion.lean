import Mathlib.Logic.Function.Basic
import StorageService.Actions.Delivery
import StorageService.Foundation.StateMachine
import StorageService.Foundation.Table

/-!
# Deleting a company

`company_deletion.py` of the actions app, the blob hook of the storage app and
the view behind identity-service: calls flag a company, runs read the flags and
purge, mark or release one after the other, and meanwhile rows of the company
are written and files uploaded.  Every database statement, every blob that is
saved or deleted, and every commit is one step.
-/

namespace StorageService.Actions

open StorageService.Foundation

def sweepWindow : Nat := 3600 * second

def purgeBatch : Nat := 500

/-! ## Rows and blobs -/

structure CompanyDeletion where
  pk : Nat
  companyId : Nat
  completedAt : Option Nat
  deriving DecidableEq, Repr

structure CompanyRow where
  id : Nat
  model : Nat
  companyId : Nat
  storageKey : Option Text
  writtenAt : Nat
  deriving DecidableEq, Repr

structure PurgeEnv where
  companyScopedModels : List Nat
  storageObject : Nat
  below : Nat → List Nat
  blobHook : Bool
  files_scoped : storageObject ∈ companyScopedModels

/-- `locked` are rows under `SELECT ... FOR UPDATE`. -/
structure CompanyData where
  rows : List CompanyRow
  blobs : List Text
  locked : List Nat
  ids : List Nat
  keys : List Text
  /-- Keys still in the backend when a purge deleted their row. -/
  orphaned : List Text

namespace CompanyData

def empty : CompanyData := ⟨[], [], [], [], [], []⟩

def deleteRows (data : CompanyData) (gone : CompanyRow → Bool) : Option CompanyData :=
  if data.rows.any fun row => gone row && data.locked.contains row.id then none
  else some
    { data with
      rows := data.rows.filter fun row => !gone row
      orphaned :=
        ((data.rows.filter gone).filterMap CompanyRow.storageKey).filter data.blobs.contains ++
          data.orphaned }

def insertRow (data : CompanyData) (row : CompanyRow) : CompanyData :=
  { data with rows := data.rows ++ [row], ids := row.id :: data.ids }

def saveBlob (data : CompanyData) (key : Text) : CompanyData :=
  { data with blobs := key :: data.blobs, keys := key :: data.keys }

def deleteStorageKey (data : CompanyData) (key : Text) : CompanyData :=
  { data with blobs := data.blobs.filter fun k => k != key }

end CompanyData

/-! ## `purge_company` -/

inductive PurgePhase where
  /-- `delete_company_files` asks for the next batch. -/
  | looking
  | deletingBlobs (batch left : List (Nat × Text))
  /-- `delete_company_rows`, with the attempts that remain after this one. -/
  | deletingRows (left blocked : List Nat) (again : Nat)
  | purged
  deriving DecidableEq, Repr

/-- `seen` are the rows that were there at the start, `covers` the calls that had ended. -/
structure Purge (ι : Type) where
  companyId : Nat
  phase : PurgePhase
  seen : List CompanyRow
  covers : List ι

def deleteCompanyRows (env : PurgeEnv) : PurgePhase :=
  .deletingRows env.companyScopedModels [] env.companyScopedModels.length

def CompanyRow.isFile (env : PurgeEnv) (companyId : Nat) (row : CompanyRow) : Bool :=
  decide (row.model = env.storageObject) && decide (row.companyId = companyId)

def nextBatch (env : PurgeEnv) (data : CompanyData) (companyId : Nat) : List (Nat × Text) :=
  ((data.rows.filter (CompanyRow.isFile env companyId)).take purgeBatch).map fun row =>
    (row.id, row.storageKey.getD [])

def CompanyRow.goesWith (env : PurgeEnv) (companyId model : Nat) (row : CompanyRow) : Bool :=
  decide (row.companyId = companyId) && decide (row.model = model ∨ row.model ∈ env.below model)

/-- One step; `blocked` is a `ProtectedError`. -/
def purgeStep (env : PurgeEnv) (companyId : Nat) (blocked : Bool) (data : CompanyData) :
    PurgePhase → Option (CompanyData × PurgePhase)
  | .looking =>
      match nextBatch env data companyId with
      | [] => some (data, deleteCompanyRows env)
      | batch => some (data, .deletingBlobs batch batch)
  | .deletingBlobs batch (e :: left) =>
      some (data.deleteStorageKey e.2, .deletingBlobs batch left)
  | .deletingBlobs batch [] =>
      (data.deleteRows fun row => decide (row.id ∈ batch.map Prod.fst)).map (·, .looking)
  | .deletingRows (model :: left) stuck again =>
      if blocked then some (data, .deletingRows left (stuck ++ [model]) again)
      else
        (data.deleteRows (CompanyRow.goesWith env companyId model)).map
          (·, .deletingRows left stuck again)
  | .deletingRows [] [] _ => some (data, .purged)
  | .deletingRows [] stuck (again + 1) => some (data, .deletingRows stuck [] again)
  | .deletingRows [] _ 0 => none
  | .purged => none

/-! ## Runs, calls and uploads -/

inductive SweepPhase (ι : Type) where
  | idle
  | looping (left : List CompanyDeletion)
  | releasing (row : CompanyDeletion) (left : List CompanyDeletion)
  | purging (row : CompanyDeletion) (left : List CompanyDeletion) (purge : Purge ι)
  /-- `ended` is when the purge ended. -/
  | marking (row : CompanyDeletion) (left : List CompanyDeletion) (covers : List ι) (ended : Nat)
  | stopped

def SweepPhase.rows {ι : Type} : SweepPhase ι → List CompanyDeletion
  | .idle | .stopped => []
  | .looping left => left
  | .releasing row left | .purging row left _ | .marking row left _ _ => row :: left

structure SweepRun (ι : Type) where
  phase : SweepPhase ι
  now : Nat
  deadline : Nat

inductive FlagCall where
  | idle
  | found (pk companyId : Nat)
  | returned (companyId : Nat)
  | raised
  deriving DecidableEq, Repr

inductive FileUpload where
  | idle
  /-- The blob of a new object is saved. -/
  | creating (companyId : Nat) (key : Text)
  /-- The row of an object to be overwritten is locked. -/
  | overwriting (id : Nat) (key : Text)
  | ended
  deriving DecidableEq, Repr

/--
`acknowledged` are the calls that have done their last write, `served` those
for whose company a purge that started afterwards has ended; `written` are all
rows ever, `swept` the rows that were there when a purge that has ended began;
`marked` are the keys of flags and the ends of the purges that completed them,
`released` the companies whose flags were removed and the ends of these purges.
-/
structure DeletionState (ι ρ υ : Type) where
  now : Nat
  data : CompanyData
  flags : List CompanyDeletion
  flagIds : List Nat
  runs : ρ → SweepRun ι
  calls : ι → FlagCall
  uploads : υ → FileUpload
  acknowledged : List (ι × Nat)
  served : List ι
  written : List CompanyRow
  swept : List CompanyRow
  marked : List (Nat × Nat)
  released : List (Nat × List Nat)

def DeletionState.initial (ι ρ υ : Type) (now : Nat) : DeletionState ι ρ υ where
  now := now
  data := .empty
  flags := []
  flagIds := []
  runs := fun _ => ⟨.idle, 0, 0⟩
  calls := fun _ => .idle
  uploads := fun _ => .idle
  acknowledged := []
  served := []
  written := []
  swept := []
  marked := []
  released := []

inductive DeletionAction (ι ρ υ : Type) where
  | start (r : ρ) (maxMicroseconds : Nat)
  | visit (r : ρ)
  | purge (r : ρ) (blocked : Bool)
  | purged (r : ρ)
  | failed (r : ρ)
  | mark (r : ρ)
  | release (r : ρ)
  /-- The process ends, or an exception leaves the loop. -/
  | stop (r : ρ)
  /-- `get_or_create`, which gives a new row this key. -/
  | flag (i : ι) (companyId pk : Nat)
  | reset (i : ι)
  | raise (i : ι)
  /-- A row of another model than that of files. -/
  | write (id model companyId : Nat)
  | saveNew (u : υ) (companyId : Nat) (key : Text)
  | commitNew (u : υ) (id : Nat)
  | lock (u : υ) (id : Nat)
  | overwrite (u : υ)
  | commit (u : υ)
  /-- The transaction of an upload is rolled back; its blob stays. -/
  | abort (u : υ)
  | wait (time : Nat)

section Machine

variable {ι ρ υ : Type} [DecidableEq ι] [DecidableEq ρ] [DecidableEq υ]

namespace DeletionState

def setPhase (s : DeletionState ι ρ υ) (r : ρ) (phase : SweepPhase ι) : DeletionState ι ρ υ :=
  { s with runs := Function.update s.runs r { s.runs r with phase := phase } }

def setUpload (s : DeletionState ι ρ υ) (u : υ) (upload : FileUpload) : DeletionState ι ρ υ :=
  { s with uploads := Function.update s.uploads u upload }

def acknowledge (s : DeletionState ι ρ υ) (i : ι) (companyId : Nat) : DeletionState ι ρ υ :=
  { s with
    calls := Function.update s.calls i (.returned companyId)
    acknowledged := (i, companyId) :: s.acknowledged }

def acknowledgedFor (s : DeletionState ι ρ υ) (companyId : Nat) : List ι :=
  (s.acknowledged.filter fun call => decide (call.2 = companyId)).map Prod.fst

/-- When the purges ended that have set `completed_at` of the flag. -/
def endsOf (s : DeletionState ι ρ υ) (pk : Nat) : List Nat :=
  (s.marked.filter fun mark => decide (mark.1 = pk)).map Prod.snd

def beginPurge (env : PurgeEnv) (s : DeletionState ι ρ υ) (companyId : Nat) : Purge ι where
  companyId := companyId
  phase := if env.blobHook then .looking else deleteCompanyRows env
  seen := s.data.rows.filter fun row => decide (row.companyId = companyId)
  covers := s.acknowledgedFor companyId

def insertRow (s : DeletionState ι ρ υ) (row : CompanyRow) : DeletionState ι ρ υ :=
  { s with data := s.data.insertRow row, written := row :: s.written }

end DeletionState

def CompanyDeletion.expired (row : CompanyDeletion) (now : Nat) : Bool :=
  row.completedAt.any fun completedAt => decide (completedAt + sweepWindow < now)

def CompanyDeletion.updateIf (pk : Nat) (completedAt : Option Nat) (row : CompanyDeletion) :
    CompanyDeletion :=
  if row.pk = pk then { row with completedAt := completedAt } else row

@[simp] theorem CompanyDeletion.updateIf_pk (pk : Nat) (completedAt : Option Nat)
    (row : CompanyDeletion) : (row.updateIf pk completedAt).pk = row.pk := by
  unfold CompanyDeletion.updateIf
  split <;> rfl

@[simp] theorem CompanyDeletion.updateIf_companyId (pk : Nat) (completedAt : Option Nat)
    (row : CompanyDeletion) : (row.updateIf pk completedAt).companyId = row.companyId := by
  unfold CompanyDeletion.updateIf
  split <;> rfl

def deletionStep (env : PurgeEnv) (s : DeletionState ι ρ υ) :
    DeletionAction ι ρ υ → Option (DeletionState ι ρ υ)
  | .start r maxMicroseconds =>
      match (s.runs r).phase with
      | .idle =>
          some { s with
            runs := Function.update s.runs r ⟨.looping s.flags, s.now, s.now + maxMicroseconds⟩ }
      | _ => none
  | .visit r =>
      match (s.runs r).phase with
      | .looping [] => some (s.setPhase r .stopped)
      | .looping (row :: left) =>
          if (s.runs r).deadline < s.now then some (s.setPhase r .stopped)
          else if row.expired (s.runs r).now then some (s.setPhase r (.releasing row left))
          else some (s.setPhase r (.purging row left (s.beginPurge env row.companyId)))
      | _ => none
  | .purge r blocked =>
      match (s.runs r).phase with
      | .purging row left purge =>
          (purgeStep env purge.companyId blocked s.data purge.phase).map fun (data, phase) =>
            { s with data := data }.setPhase r
              (.purging row left { purge with phase := phase })
      | _ => none
  | .purged r =>
      match (s.runs r).phase with
      | .purging row left purge =>
          if purge.phase = .purged then
            some { s.setPhase r
                (if row.completedAt = none then .marking row left purge.covers s.now
                  else .looping left) with
              served := purge.covers ++ s.served
              swept := purge.seen ++ s.swept }
          else none
      | _ => none
  | .failed r =>
      match (s.runs r).phase with
      | .purging _ left _ => some (s.setPhase r (.looping left))
      | _ => none
  | .mark r =>
      match (s.runs r).phase with
      | .marking row left _ ended =>
          some { s.setPhase r (.looping left) with
            flags := s.flags.map (CompanyDeletion.updateIf row.pk (some (s.runs r).now))
            marked := (row.pk, ended) :: s.marked }
      | _ => none
  | .release r =>
      match (s.runs r).phase with
      | .releasing row left =>
          some { s.setPhase r (.looping left) with
            flags := s.flags.filter fun flag => decide (flag.pk ≠ row.pk)
            released := (row.companyId, s.endsOf row.pk) :: s.released }
      | _ => none
  | .stop r => some (s.setPhase r .stopped)
  | .flag i companyId pk =>
      match s.calls i, s.flags.find? fun flag => decide (flag.companyId = companyId) with
      | .idle, some flag =>
          match flag.completedAt with
          | none => some (s.acknowledge i companyId)
          | some _ =>
              some { s with calls := Function.update s.calls i (.found flag.pk companyId) }
      | .idle, none =>
          if pk ∈ s.flagIds then none
          else some { s.acknowledge i companyId with
            flags := s.flags ++ [⟨pk, companyId, none⟩]
            flagIds := pk :: s.flagIds }
      | _, _ => none
  | .reset i =>
      match s.calls i with
      | .found pk companyId =>
          some { s.acknowledge i companyId with
            flags := s.flags.map (CompanyDeletion.updateIf pk none) }
      | _ => none
  | .raise i =>
      match s.calls i with
      | .returned _ => none
      | _ => some { s with calls := Function.update s.calls i .raised }
  | .write id model companyId =>
      if model ∈ env.companyScopedModels ∧ model ≠ env.storageObject ∧ id ∉ s.data.ids then
        some (s.insertRow ⟨id, model, companyId, none, s.now⟩)
      else none
  | .saveNew u companyId key =>
      match s.uploads u with
      | .idle =>
          if s.data.keys.contains key then none
          else some ({ s with data := s.data.saveBlob key }.setUpload u
            (.creating companyId key))
      | _ => none
  | .commitNew u id =>
      match s.uploads u with
      | .creating companyId key =>
          if id ∈ s.data.ids then none
          else some ((s.insertRow ⟨id, env.storageObject, companyId, some key, s.now⟩).setUpload
            u .ended)
      | _ => none
  | .lock u id =>
      match s.uploads u, s.data.rows.find? fun row => decide (row.id = id) with
      | .idle, some row =>
          match row.storageKey with
          | some key =>
              if id ∈ s.data.locked then none
              else some ({ s with
                data := { s.data with locked := id :: s.data.locked } }.setUpload u
                  (.overwriting id key))
          | none => none
      | _, _ => none
  | .overwrite u =>
      match s.uploads u with
      | .overwriting _ key => some { s with data := s.data.saveBlob key }
      | _ => none
  | .commit u =>
      match s.uploads u with
      | .overwriting id _ =>
          some ({ s with data := { s.data with locked := s.data.locked.erase id } }.setUpload u
            .ended)
      | _ => none
  | .abort u =>
      match s.uploads u with
      | .overwriting id _ =>
          some ({ s with data := { s.data with locked := s.data.locked.erase id } }.setUpload u
            .ended)
      | .creating _ _ => some (s.setUpload u .ended)
      | _ => none
  | .wait time => some { s with now := s.now + time }

def companyDeletion (env : PurgeEnv) :
    Machine (DeletionState ι ρ υ) (DeletionAction ι ρ υ) := ⟨deletionStep env⟩

end Machine

/-! ## What a purge does to the rows -/

section Purges

variable {env : PurgeEnv} {companyId : Nat} {blocked : Bool} {data data' : CompanyData}
  {phase phase' : PurgePhase}

theorem CompanyData.deleteRows_eq_some {gone : CompanyRow → Bool}
    (h : data.deleteRows gone = some data') :
    data'.rows = data.rows.filter (fun row => !gone row) ∧ data'.ids = data.ids ∧
      data'.keys = data.keys ∧ data'.blobs = data.blobs ∧
      data'.orphaned =
        ((data.rows.filter gone).filterMap CompanyRow.storageKey).filter data.blobs.contains ++
          data.orphaned := by
  simp only [CompanyData.deleteRows] at h
  split at h
  · contradiction
  · cases h
    exact ⟨rfl, rfl, rfl, rfl, rfl⟩

inductive PurgeChange (env : PurgeEnv) (companyId : Nat) (data data' : CompanyData) :
    PurgePhase → PurgePhase → Prop where
  | looked (e : Nat × Text) (batch : List (Nat × Text))
      (hbatch : nextBatch env data companyId = e :: batch) (h : data' = data) :
      PurgeChange env companyId data data' .looking (.deletingBlobs (e :: batch) (e :: batch))
  | foundNothing (hbatch : nextBatch env data companyId = []) (h : data' = data) :
      PurgeChange env companyId data data' .looking (deleteCompanyRows env)
  | deletedBlob (batch : List (Nat × Text)) (e : Nat × Text) (left : List (Nat × Text))
      (h : data' = data.deleteStorageKey e.2) :
      PurgeChange env companyId data data' (.deletingBlobs batch (e :: left))
        (.deletingBlobs batch left)
  | deletedBatch (batch : List (Nat × Text))
      (h : data.deleteRows (fun row => decide (row.id ∈ batch.map Prod.fst)) = some data') :
      PurgeChange env companyId data data' (.deletingBlobs batch []) .looking
  | deletedModel (model : Nat) (left stuck : List Nat) (again : Nat)
      (h : data.deleteRows (CompanyRow.goesWith env companyId model) = some data') :
      PurgeChange env companyId data data' (.deletingRows (model :: left) stuck again)
        (.deletingRows left stuck again)
  | stuck (model : Nat) (left stuck : List Nat) (again : Nat) (h : data' = data) :
      PurgeChange env companyId data data' (.deletingRows (model :: left) stuck again)
        (.deletingRows left (stuck ++ [model]) again)
  | again (stuck : List Nat) (again : Nat) (h : data' = data) :
      PurgeChange env companyId data data' (.deletingRows [] stuck (again + 1))
        (.deletingRows stuck [] again)
  | ended (again : Nat) (h : data' = data) :
      PurgeChange env companyId data data' (.deletingRows [] [] again) .purged

theorem purgeChange_of_step
    (h : purgeStep env companyId blocked data phase = some (data', phase')) :
    PurgeChange env companyId data data' phase phase' := by
  cases phase with
  | looking =>
      simp only [purgeStep] at h
      split at h
      · rename_i hbatch
        cases h
        exact .foundNothing hbatch rfl
      · rename_i batch hne
        cases h
        cases hbatch : nextBatch env data companyId with
        | nil => exact absurd hbatch hne
        | cons e batch => exact .looked e batch hbatch rfl
  | deletingBlobs batch left =>
      cases left with
      | nil =>
          obtain ⟨data₁, hdata, heq⟩ := Option.map_eq_some_iff.mp h
          cases heq
          exact .deletedBatch batch hdata
      | cons e left =>
          cases h
          exact .deletedBlob batch e left rfl
  | deletingRows left stuck again =>
      cases left with
      | cons model left =>
          simp only [purgeStep] at h
          split at h
          · cases h
            exact .stuck model left stuck again rfl
          · obtain ⟨data₁, hdata, heq⟩ := Option.map_eq_some_iff.mp h
            cases heq
            exact .deletedModel model left stuck again hdata
      | nil =>
          cases stuck with
          | nil =>
              cases h
              exact .ended again rfl
          | cons model stuck =>
              cases again with
              | zero => contradiction
              | succ again =>
                  cases h
                  exact .again (model :: stuck) again rfl
  | purged => contradiction

theorem PurgeChange.rows_subset (h : PurgeChange env companyId data data' phase phase') :
    data'.ids = data.ids ∧ data'.keys = data.keys ∧ ∀ row ∈ data'.rows, row ∈ data.rows := by
  have hdelete : ∀ gone, data.deleteRows gone = some data' →
      data'.ids = data.ids ∧ data'.keys = data.keys ∧ ∀ row ∈ data'.rows, row ∈ data.rows := by
    intro gone hgone
    obtain ⟨hrows, hids, hkeys, -, -⟩ := CompanyData.deleteRows_eq_some hgone
    refine ⟨hids, hkeys, fun row hrow => ?_⟩
    rw [hrows] at hrow
    exact (List.mem_filter.mp hrow).1
  cases h with
  | looked e batch hbatch h | foundNothing hbatch h | stuck model left stuck again h
    | again stuck again h | ended again h =>
      rw [h]
      exact ⟨rfl, rfl, fun _ hrow => hrow⟩
  | deletedBlob batch e left h =>
      rw [h]
      exact ⟨rfl, rfl, fun _ hrow => hrow⟩
  | deletedBatch batch h => exact hdelete _ h
  | deletedModel model left stuck again h => exact hdelete _ h

theorem PurgeChange.blobs_subset (h : PurgeChange env companyId data data' phase phase') :
    ∀ key ∈ data'.blobs, key ∈ data.blobs := by
  cases h with
  | looked e batch hbatch h | foundNothing hbatch h | stuck model left stuck again h
    | again stuck again h | ended again h =>
      rw [h]
      exact fun _ hkey => hkey
  | deletedBlob batch e left h =>
      rw [h]
      exact fun key hkey => (List.mem_filter.mp hkey).1
  | deletedBatch batch h | deletedModel model left stuck again h =>
      rw [(CompanyData.deleteRows_eq_some h).2.2.2.1]
      exact fun _ hkey => hkey

end Purges

/-! ## What a step does -/

section Steps

variable {ι ρ υ : Type} [DecidableEq ι] [DecidableEq ρ] [DecidableEq υ]

/-- What a step of the machine is, with what it has checked. -/
inductive DeletionChange (env : PurgeEnv) (s : DeletionState ι ρ υ) :
    DeletionAction ι ρ υ → DeletionState ι ρ υ → Prop where
  | started (r : ρ) (maxMicroseconds : Nat) (hidle : (s.runs r).phase = .idle) :
      DeletionChange env s (.start r maxMicroseconds)
        { s with
          runs := Function.update s.runs r ⟨.looping s.flags, s.now, s.now + maxMicroseconds⟩ }
  | ranThrough (r : ρ) (hphase : (s.runs r).phase = .looping []) :
      DeletionChange env s (.visit r) (s.setPhase r .stopped)
  | ranOut (r : ρ) (row : CompanyDeletion) (left : List CompanyDeletion)
      (hphase : (s.runs r).phase = .looping (row :: left)) (hlate : (s.runs r).deadline < s.now) :
      DeletionChange env s (.visit r) (s.setPhase r .stopped)
  | foundExpired (r : ρ) (row : CompanyDeletion) (left : List CompanyDeletion)
      (hphase : (s.runs r).phase = .looping (row :: left))
      (hintime : s.now ≤ (s.runs r).deadline) (hexpired : row.expired (s.runs r).now = true) :
      DeletionChange env s (.visit r) (s.setPhase r (.releasing row left))
  | foundFlagged (r : ρ) (row : CompanyDeletion) (left : List CompanyDeletion)
      (hphase : (s.runs r).phase = .looping (row :: left))
      (hintime : s.now ≤ (s.runs r).deadline) (hkept : row.expired (s.runs r).now = false) :
      DeletionChange env s (.visit r)
        (s.setPhase r (.purging row left (s.beginPurge env row.companyId)))
  | purging (r : ρ) (blocked : Bool) (row : CompanyDeletion) (left : List CompanyDeletion)
      (purge : Purge ι) (data : CompanyData) (phase : PurgePhase)
      (hphase : (s.runs r).phase = .purging row left purge)
      (hchange : PurgeChange env purge.companyId s.data data purge.phase phase) :
      DeletionChange env s (.purge r blocked)
        ({ s with data := data }.setPhase r (.purging row left { purge with phase := phase }))
  | purged (r : ρ) (row : CompanyDeletion) (left : List CompanyDeletion) (purge : Purge ι)
      (hphase : (s.runs r).phase = .purging row left purge) (hended : purge.phase = .purged) :
      DeletionChange env s (.purged r)
        { s.setPhase r
            (if row.completedAt = none then .marking row left purge.covers s.now
              else .looping left) with
          served := purge.covers ++ s.served
          swept := purge.seen ++ s.swept }
  | failed (r : ρ) (row : CompanyDeletion) (left : List CompanyDeletion) (purge : Purge ι)
      (hphase : (s.runs r).phase = .purging row left purge) :
      DeletionChange env s (.failed r) (s.setPhase r (.looping left))
  | marked (r : ρ) (row : CompanyDeletion) (left : List CompanyDeletion) (covers : List ι)
      (ended : Nat) (hphase : (s.runs r).phase = .marking row left covers ended) :
      DeletionChange env s (.mark r)
        { s.setPhase r (.looping left) with
          flags := s.flags.map (CompanyDeletion.updateIf row.pk (some (s.runs r).now))
          marked := (row.pk, ended) :: s.marked }
  | released (r : ρ) (row : CompanyDeletion) (left : List CompanyDeletion)
      (hphase : (s.runs r).phase = .releasing row left) :
      DeletionChange env s (.release r)
        { s.setPhase r (.looping left) with
          flags := s.flags.filter fun flag => decide (flag.pk ≠ row.pk)
          released := (row.companyId, s.endsOf row.pk) :: s.released }
  | stopped (r : ρ) : DeletionChange env s (.stop r) (s.setPhase r .stopped)
  | flaggedBefore (i : ι) (flag : CompanyDeletion) (pk : Nat) (hidle : s.calls i = .idle)
      (hflag : flag ∈ s.flags) (hnone : flag.completedAt = none) :
      DeletionChange env s (.flag i flag.companyId pk) (s.acknowledge i flag.companyId)
  | foundCompleted (i : ι) (flag : CompanyDeletion) (pk completedAt : Nat)
      (hidle : s.calls i = .idle) (hflag : flag ∈ s.flags)
      (hcompleted : flag.completedAt = some completedAt) :
      DeletionChange env s (.flag i flag.companyId pk)
        { s with calls := Function.update s.calls i (.found flag.pk flag.companyId) }
  | flagged (i : ι) (companyId pk : Nat) (hidle : s.calls i = .idle) (hfresh : pk ∉ s.flagIds)
      (hnone : ∀ flag ∈ s.flags, flag.companyId ≠ companyId) :
      DeletionChange env s (.flag i companyId pk)
        { s.acknowledge i companyId with
          flags := s.flags ++ [⟨pk, companyId, none⟩]
          flagIds := pk :: s.flagIds }
  | reset (i : ι) (pk companyId : Nat) (hcall : s.calls i = .found pk companyId) :
      DeletionChange env s (.reset i)
        { s.acknowledge i companyId with
          flags := s.flags.map (CompanyDeletion.updateIf pk none) }
  | raised (i : ι) (hcall : ∀ companyId, s.calls i ≠ .returned companyId) :
      DeletionChange env s (.raise i) { s with calls := Function.update s.calls i .raised }
  | written (id model companyId : Nat) (hscoped : model ∈ env.companyScopedModels)
      (hother : model ≠ env.storageObject) (hfresh : id ∉ s.data.ids) :
      DeletionChange env s (.write id model companyId)
        (s.insertRow ⟨id, model, companyId, none, s.now⟩)
  | savedNew (u : υ) (companyId : Nat) (key : Text) (hidle : s.uploads u = .idle)
      (hfresh : key ∉ s.data.keys) :
      DeletionChange env s (.saveNew u companyId key)
        ({ s with data := s.data.saveBlob key }.setUpload u (.creating companyId key))
  | committedNew (u : υ) (id companyId : Nat) (key : Text)
      (hupload : s.uploads u = .creating companyId key) (hfresh : id ∉ s.data.ids) :
      DeletionChange env s (.commitNew u id)
        ((s.insertRow ⟨id, env.storageObject, companyId, some key, s.now⟩).setUpload u .ended)
  | locked (u : υ) (row : CompanyRow) (key : Text) (hidle : s.uploads u = .idle)
      (hrow : row ∈ s.data.rows) (hkey : row.storageKey = some key)
      (hfree : row.id ∉ s.data.locked) :
      DeletionChange env s (.lock u row.id)
        ({ s with data := { s.data with locked := row.id :: s.data.locked } }.setUpload u
          (.overwriting row.id key))
  | overwrote (u : υ) (id : Nat) (key : Text) (hupload : s.uploads u = .overwriting id key) :
      DeletionChange env s (.overwrite u) { s with data := s.data.saveBlob key }
  | committed (u : υ) (id : Nat) (key : Text) (hupload : s.uploads u = .overwriting id key) :
      DeletionChange env s (.commit u)
        ({ s with data := { s.data with locked := s.data.locked.erase id } }.setUpload u .ended)
  | aborted (u : υ) (id : Nat) (key : Text) (hupload : s.uploads u = .overwriting id key) :
      DeletionChange env s (.abort u)
        ({ s with data := { s.data with locked := s.data.locked.erase id } }.setUpload u .ended)
  | abortedNew (u : υ) (companyId : Nat) (key : Text)
      (hupload : s.uploads u = .creating companyId key) :
      DeletionChange env s (.abort u) (s.setUpload u .ended)
  | waited (time : Nat) : DeletionChange env s (.wait time) { s with now := s.now + time }

variable {env : PurgeEnv} {s s' : DeletionState ι ρ υ}

theorem deletionChange_of_flag {i : ι} {companyId pk : Nat}
    (h : deletionStep env s (.flag i companyId pk) = some s') :
    DeletionChange env s (.flag i companyId pk) s' := by
  unfold deletionStep at h
  simp only at h
  split at h
  · rename_i flag hidle hfind
    have hflag : flag ∈ s.flags := List.mem_of_find?_eq_some hfind
    have hcompany : flag.companyId = companyId := by
      simpa using List.find?_some hfind
    subst hcompany
    split at h
    · rename_i hnone
      cases h
      exact .flaggedBefore i flag pk hidle hflag hnone
    · rename_i completedAt hcompleted
      cases h
      exact .foundCompleted i flag pk completedAt hidle hflag hcompleted
  · rename_i hidle hfind
    split at h
    · contradiction
    · rename_i hfresh
      cases h
      refine .flagged i companyId pk hidle hfresh fun flag hflag => ?_
      simpa using List.find?_eq_none.mp hfind flag hflag
  · contradiction

theorem deletionChange_of_visit {r : ρ} (h : deletionStep env s (.visit r) = some s') :
    DeletionChange env s (.visit r) s' := by
  unfold deletionStep at h
  simp only at h
  split at h
  · rename_i hphase
    cases h
    exact .ranThrough r hphase
  · rename_i row left hphase
    split at h
    · rename_i hlate
      cases h
      exact .ranOut r row left hphase hlate
    · rename_i hintime
      split at h
      · rename_i hexpired
        cases h
        exact .foundExpired r row left hphase (Nat.le_of_not_lt hintime) hexpired
      · rename_i hkept
        cases h
        exact .foundFlagged r row left hphase (Nat.le_of_not_lt hintime)
          (Bool.eq_false_of_not_eq_true hkept)
  · contradiction

theorem deletionChange_of_purged {r : ρ} (h : deletionStep env s (.purged r) = some s') :
    DeletionChange env s (.purged r) s' := by
  unfold deletionStep at h
  simp only at h
  split at h
  · rename_i row left purge hphase
    split at h
    · rename_i hended
      cases h
      exact .purged r row left purge hphase hended
    · contradiction
  · contradiction

theorem deletionChange_of_saveNew {u : υ} {companyId : Nat} {key : Text}
    (h : deletionStep env s (.saveNew u companyId key) = some s') :
    DeletionChange env s (.saveNew u companyId key) s' := by
  unfold deletionStep at h
  simp only at h
  split at h
  · rename_i hidle
    split at h
    · contradiction
    · rename_i hfresh
      cases h
      exact .savedNew u companyId key hidle (by simpa using hfresh)
  · contradiction

theorem deletionChange_of_commitNew {u : υ} {id : Nat}
    (h : deletionStep env s (.commitNew u id) = some s') :
    DeletionChange env s (.commitNew u id) s' := by
  unfold deletionStep at h
  simp only at h
  split at h
  · rename_i companyId key hupload
    split at h
    · contradiction
    · rename_i hfresh
      cases h
      exact .committedNew u id companyId key hupload hfresh
  · contradiction

theorem deletionChange_of_lock {u : υ} {id : Nat} (h : deletionStep env s (.lock u id) = some s') :
    DeletionChange env s (.lock u id) s' := by
  unfold deletionStep at h
  simp only at h
  split at h
  · rename_i row hidle hfind
    split at h
    · rename_i key hkey
      have hrow : row ∈ s.data.rows := List.mem_of_find?_eq_some hfind
      have hid : row.id = id := by
        simpa using List.find?_some hfind
      subst hid
      split at h
      · contradiction
      · rename_i hfree
        cases h
        exact .locked u row key hidle hrow hkey hfree
    · contradiction
  · contradiction

theorem deletionChange_of_abort {u : υ} (h : deletionStep env s (.abort u) = some s') :
    DeletionChange env s (.abort u) s' := by
  unfold deletionStep at h
  simp only at h
  split at h
  · rename_i id key hupload
    cases h
    exact .aborted u id key hupload
  · rename_i companyId key hupload
    cases h
    exact .abortedNew u companyId key hupload
  · contradiction

theorem deletionChange_of_step {a : DeletionAction ι ρ υ} (h : deletionStep env s a = some s') :
    DeletionChange env s a s' := by
  cases a with
  | start r maxMicroseconds =>
      simp only [deletionStep] at h
      split at h
      · rename_i hidle
        cases h
        exact .started r maxMicroseconds hidle
      · contradiction
  | visit r => exact deletionChange_of_visit h
  | purge r blocked =>
      simp only [deletionStep] at h
      split at h
      · rename_i row left purge hphase
        obtain ⟨⟨data, phase⟩, hpurge, rfl⟩ := Option.map_eq_some_iff.mp h
        exact .purging r blocked row left purge data phase hphase (purgeChange_of_step hpurge)
      · contradiction
  | purged r => exact deletionChange_of_purged h
  | failed r =>
      simp only [deletionStep] at h
      split at h
      · rename_i row left purge hphase
        cases h
        exact .failed r row left purge hphase
      · contradiction
  | mark r =>
      simp only [deletionStep] at h
      split at h
      · rename_i row left covers ended hphase
        cases h
        exact .marked r row left covers ended hphase
      · contradiction
  | release r =>
      simp only [deletionStep] at h
      split at h
      · rename_i row left hphase
        cases h
        exact .released r row left hphase
      · contradiction
  | stop r =>
      cases h
      exact .stopped r
  | flag i companyId pk => exact deletionChange_of_flag h
  | reset i =>
      simp only [deletionStep] at h
      split at h
      · rename_i pk companyId hcall
        cases h
        exact .reset i pk companyId hcall
      · contradiction
  | raise i =>
      simp only [deletionStep] at h
      split at h
      · contradiction
      · rename_i hcall
        cases h
        exact .raised i hcall
  | write id model companyId =>
      simp only [deletionStep] at h
      split at h
      · rename_i hnew
        cases h
        exact .written id model companyId hnew.1 hnew.2.1 hnew.2.2
      · contradiction
  | saveNew u companyId key => exact deletionChange_of_saveNew h
  | commitNew u id => exact deletionChange_of_commitNew h
  | lock u id => exact deletionChange_of_lock h
  | overwrite u =>
      simp only [deletionStep] at h
      split at h
      · rename_i id key hupload
        cases h
        exact .overwrote u id key hupload
      · contradiction
  | commit u =>
      simp only [deletionStep] at h
      split at h
      · rename_i id key hupload
        cases h
        exact .committed u id key hupload
      · contradiction
  | abort u => exact deletionChange_of_abort h
  | wait time =>
      cases h
      exact .waited time

end Steps

end StorageService.Actions
