import Mathlib.Data.List.AList
import StorageService.Foundation.Text

/-!
# Settings, library functions and failures

`Env` gathers what the storage code reads but does not compute itself: the
Django settings, the functions of the standard library and of the storage
backends that only pass a value along, and the sources of fresh ids and names.
The theorems hold for every environment; what is relied on of the last two is
`Env.Lawful`.
-/

namespace StorageService.Storage

open StorageService.Foundation

abbrev Bytes := List UInt8

abbrev Time := Nat

abbrev UUID := Nat

abbrev Blobs := AList fun _ : Text => Bytes

inductive Engine where
  | postgresql
  | sqlite
  deriving DecidableEq, Repr

namespace Engine

/-- `LIKE` of SQLite takes the ASCII letters for one another in either case. -/
def fold : Engine → Char → Char
  | .postgresql => id
  | .sqlite => Char.toLower

def StartsWith (engine : Engine) (pre name : Text) : Prop :=
  pre.map engine.fold <+: name.map engine.fold

instance (engine : Engine) (pre name : Text) : Decidable (engine.StartsWith pre name) :=
  inferInstanceAs (Decidable (_ <+: _))

variable {engine : Engine} {pre name : Text}

theorem StartsWith.of_isPrefix (engine : Engine) (h : pre <+: name) :
    engine.StartsWith pre name :=
  h.map engine.fold

@[simp] theorem startsWith_postgresql :
    postgresql.StartsWith pre name ↔ pre <+: name := by
  simp [StartsWith, fold]

theorem toLower_eq_slash {c : Char} (h : c.toLower = '/') : c = '/' := by
  unfold Char.toLower at h
  split at h
  · rename_i hupper
    have hval := congrArg (fun d : Char => d.val.toNat) h
    have hlow : 65 ≤ c.toNat := hupper.1
    have hhigh : c.toNat ≤ 90 := hupper.2
    simp at hval
    omega
  · exact h

theorem fold_eq_slash {c : Char} (h : engine.fold c = '/') : c = '/' := by
  cases engine with
  | postgresql => exact h
  | sqlite => exact toLower_eq_slash h

theorem StartsWith.slash (h : engine.StartsWith (pre ++ ['/']) name) :
    ∃ front rest, name = front ++ '/' :: rest ∧ front.length = pre.length := by
  obtain ⟨rest, hrest⟩ := h
  rw [List.map_append, List.append_assoc] at hrest
  obtain ⟨front, back, rfl, hfront, hback⟩ := List.map_eq_append_iff.mp hrest.symm
  have hfold : engine.fold '/' = '/' := by cases engine <;> rfl
  rw [List.map_singleton, hfold, List.singleton_append, List.map_eq_cons_iff] at hback
  obtain ⟨c, tail, rfl, hc, -⟩ := hback
  rw [fold_eq_slash hc]
  exact ⟨front, tail, rfl, by simpa using congrArg List.length hfront⟩

@[simp] theorem startsWith_nil : engine.StartsWith [] name := List.nil_prefix

/-- What is found differs from the prefix it was asked for in the case of letters only. -/
theorem StartsWith.map_eq (h : engine.StartsWith pre name) :
    name.map engine.fold = (pre ++ name.drop pre.length).map engine.fold := by
  obtain ⟨tail, htail⟩ := h
  rw [List.map_append, List.map_drop, ← htail, List.drop_left' (by simp)]

end Engine

structure Env where
  engine : Engine
  storageKeyPrefix : Text
  /-- `STORAGE_BACKEND == 's3'`; otherwise the filesystem backend is configured. -/
  s3Backend : Bool
  /-- `repr` of `AWS_STORAGE_BUCKET_NAME` and the endpoint, as error texts show them. -/
  awsBucketRepr : String
  awsEndpoint : String
  /-- Error code and text of the exception a failing write raises. -/
  writeErrorCode : String
  writeErrorText : String
  maxUploadBytes : Nat
  defaultCompanyQuotaBytes : Int
  defaultUserQuotaBytes : Int
  md5 : Bytes → Text
  guessType : Text → Option Text
  lower : Text → Text
  repr : Text → String
  parseDatetime : Text → Except String (Option Time)
  unquote : Text → Text
  urlPath : Text → Text
  /-- The result of the n-th call of `uuid.uuid4`. -/
  uuid4 : Nat → UUID
  /-- The name the filesystem backend falls back to when the key is taken. -/
  availableName : Nat → Blobs → Text → Text

/--
What is assumed of the parts outside this repository: `uuid4` never repeats
itself, and the alternative name of the filesystem backend is free and lies in
the directory of the key it stands for.
-/
structure Env.Lawful (env : Env) : Prop where
  uuid4_injective : Function.Injective env.uuid4
  availableName_free : ∀ n (blobs : Blobs) key,
    blobs.lookup (env.availableName n blobs key) = none
  availableName_parent : ∀ n blobs key,
    parent '/' (env.availableName n blobs key) = parent '/' key

inductive Point where
  | quotaCheck
  | blobWrite
  | blobWritten
  | rowWrite
  | rowDelete
  | blobDelete
  | blobDeleted
  | quotaUpdate
  | signal
  deriving DecidableEq, Repr

inductive Failure where
  | storageError (message : String) (status : Nat) (code : String)
  | valueError (message : String)
  | integrityError
  | fileNotFound
  | interrupted (point : Point)
  deriving DecidableEq, Repr

end StorageService.Storage
