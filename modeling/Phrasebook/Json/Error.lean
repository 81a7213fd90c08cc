import Phrasebook.Decimal.Layout
import Phrasebook.Text.Quoted

/-!
# What is wrong with a JSON text

A text is read from left to right and the first problem met decides. Either the
text itself has a defect, or it is sound up to there and holds something other
than what was asked for.
-/

namespace Phrasebook.Json

inductive Defect
  | ended
  | malformed
  deriving DecidableEq

theorem bind_eq_ok {x : Except ε α} {f : α → Except ε β} {b : β} :
    (x >>= f) = .ok b ↔ ∃ a, x = .ok a ∧ f a = .ok b := by
  cases x <;> simp [bind, Except.bind]

inductive Expected
  | map
  | sequence
  | string
  | record (name : String)
  deriving DecidableEq

def Expected.text : Expected → String
  | .map => "a map"
  | .sequence => "a sequence"
  | .string => "a string"
  | .record name => "struct " ++ name

inductive Found
  | null
  | bool (b : Bool)
  | integer (n : Int)
  | floating (x : Float)
  | string (s : String)
  | sequence
  | map

def Found.text : Found → String
  | .null => "null"
  | .bool b => "boolean `" ++ (if b then "true" else "false") ++ "`"
  | .integer n => "integer `" ++ Decimal.ofInt n ++ "`"
  | .floating x => "floating point `" ++ Decimal.Layout.exact.text x ++ "`"
  | .string s => "string " ++ Text.quoted s
  | .sequence => "sequence"
  | .map => "map"

/-- How the content of a sound text differs from what was asked for. -/
inductive Misfit
  | wrongType (found : Found) (expected : Expected)
  | missingField (name : String)
  | duplicateField (name : String)
  /-- A list that stands for `expected` has `length` items instead of `size`. -/
  | tooShort (length : Nat) (expected : Expected) (size : Nat)

def Misfit.message : Misfit → String
  | .wrongType found expected =>
    "invalid type: " ++ found.text ++ ", expected " ++ expected.text
  | .missingField name => "missing field `" ++ name ++ "`"
  | .duplicateField name => "duplicate field `" ++ name ++ "`"
  | .tooShort length expected size =>
    "invalid length " ++ Decimal.ofInt length ++ ", expected " ++ expected.text ++ " with " ++
      Decimal.ofInt size ++ " elements"

inductive Error
  | defect (d : Defect)
  | misfit (m : Misfit)

end Phrasebook.Json
