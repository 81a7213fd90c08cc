import Phrasebook.Json.Tree

/-!
# Reading from JSON trees

Readers that ask a tree for something: a string, a list, an object, or only that
it be sound. Each walks the tree from left to right and stops at the first
problem.
-/

namespace Phrasebook.Json

def Error.malformed : Error := .defect .malformed

def sound : Except Defect α → Except Error α
  | .ok a => .ok a
  | .error d => .error (.defect d)

def atEnd : Option Defect → Except Defect Unit
  | none => .ok ()
  | some d => .error d

namespace Tree

/-- What a tree holds, for a report that it is not what was asked for. A list or object
is named as soon as it opens, anything else once it has been read. -/
def found : Tree → Except Defect Found
  | .null => .ok .null
  | .bool b => .ok (.bool b)
  | .number (.error d) => .error d
  | .number (.ok n) => n.number.map fun
    | .integer n => .integer n
    | .floating x => .floating x
  | .string q => q.text.map .string
  | .list .. => .ok .sequence
  | .object .. => .ok .map
  | .broken d => .error d

def unlike (expected : Expected) (t : Tree) : Error :=
  match t.found with
  | .ok found => .misfit (.wrongType found expected)
  | .error d => .defect d

def text : Tree → Except Error String
  | .string q => sound q.text
  | t => .error (t.unlike .string)

def texts : Tree → Except Error (List String)
  | .list items stop => do
    let texts ← items.mapM text
    sound (atEnd stop)
    .ok texts
  | t => .error (t.unlike .sequence)

mutual

/-- Passes over a value that nobody asks for. Whatever is wrong with a numeral counts as
malformed here, and a string need not spell a text. -/
def skip : Tree → Except Defect Unit
  | .null => .ok ()
  | .bool _ => .ok ()
  | .number (.ok _) => .ok ()
  | .number (.error _) => .error .malformed
  | .string q => atEnd q.defect
  | .list items stop => do
    skipItems items
    atEnd stop
  | .object fields stop => do
    skipFields fields
    atEnd stop
  | .broken d => .error d

def skipItems : List Tree → Except Defect Unit
  | [] => .ok ()
  | t :: ts => do
    skip t
    skipItems ts

def skipFields : List (Quotation × Tree) → Except Defect Unit
  | [] => .ok ()
  | (key, t) :: fields => do
    atEnd key.defect
    skip t
    skipFields fields

end

end Tree

/-- Reads a text that holds one value and nothing else. -/
def readText (read : Tree → Except Error α) (s : String) : Except Error α := do
  let (tree, rest) := readValue [] (Token.scan s.toList)
  let a ← read tree
  if rest.isEmpty then .ok a else .error .malformed

end Phrasebook.Json
