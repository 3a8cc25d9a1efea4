import Mathlib.Data.Rat.Defs
import StorageService.Foundation.Text

/-!
# JSON values as Python reads them

Values of a decoded token or request body.  A float is given by the rational it
denotes; the decoder of the standard library also accepts `NaN` and `Infinity`.
-/

namespace StorageService.Foundation

inductive Json where
  | null
  | bool (b : Bool)
  | int (n : ℤ)
  | float (q : ℚ)
  | nan
  | infinity (negative : Bool)
  | text (s : Text)
  | list (items : List Json)
  | dict (fields : List (Text × Json))

namespace Json

def truthy : Json → Bool
  | null => false
  | bool b => b
  | int n => n ≠ 0
  | float q => q ≠ 0
  | nan | infinity _ => true
  | text s => !s.isEmpty
  | list items => !items.isEmpty
  | dict fields => !fields.isEmpty

def absent : Json → Bool
  | null => true
  | text s => s.isEmpty
  | _ => false

/-- `fields.get(key)`, where a missing key is told apart from `None`. -/
def get? (fields : List (Text × Json)) (key : Text) : Option Json :=
  (fields.find? fun field => decide (field.1 = key)).map Prod.snd

def get (fields : List (Text × Json)) (key : Text) : Json :=
  (get? fields key).getD null

def set (fields : List (Text × Json)) (key : Text) (value : Json) : List (Text × Json) :=
  if fields.any fun field => decide (field.1 = key) then
    fields.map fun field => if field.1 = key then (key, value) else field
  else fields ++ [(key, value)]

/-- `w` is the value or stands somewhere in it, at whatever depth. -/
inductive Within (w : Json) : Json → Prop where
  | self : Within w w
  | item {items : List Json} {v : Json} (hv : v ∈ items) (h : Within w v) :
      Within w (.list items)
  | value {fields : List (Text × Json)} {field : Text × Json} (hfield : field ∈ fields)
      (h : Within w field.2) : Within w (.dict fields)

def isAtom : Json → Bool
  | text _ | list _ | dict _ => false
  | _ => true

theorem induction {P : Json → Prop} (atom : ∀ v, v.isAtom = true → P v)
    (text : ∀ s, P (.text s)) (list : ∀ items, (∀ v ∈ items, P v) → P (.list items))
    (dict : ∀ fields, (∀ field ∈ fields, P field.2) → P (.dict fields)) (v : Json) : P v := by
  refine @Json.rec P (fun items => ∀ v ∈ items, P v) (fun fields => ∀ field ∈ fields, P field.2)
    (fun field => P field.2) (atom _ rfl) (fun _ => atom _ rfl) (fun _ => atom _ rfl)
    (fun _ => atom _ rfl) (atom _ rfl) (fun _ => atom _ rfl) text list dict ?_ ?_ ?_ ?_ ?_ v
  · intro v hv
    cases hv
  · intro v items hv hitems
    exact List.forall_mem_cons.mpr ⟨hv, hitems⟩
  · intro field hfield
    cases hfield
  · intro field fields hfield hfields
    exact List.forall_mem_cons.mpr ⟨hfield, hfields⟩
  · intro key v hv
    exact hv

theorem Within.eq_of_isAtom {v w : Json} (hv : v.isAtom = true) (h : Within w v) : w = v := by
  cases h with
  | self => rfl
  | item | value => contradiction

theorem Within.eq_of_text {w : Json} {s : Text} (h : Within w (.text s)) : w = .text s := by
  cases h
  rfl

end Json

end StorageService.Foundation
