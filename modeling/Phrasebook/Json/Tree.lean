import Phrasebook.Json.Token

/-!
# JSON trees

What a text holds, as far as it goes. A text that breaks off or goes wrong still
has a tree: the defect stands in it at the place where it was met, with nothing
after it. So a reader that walks the tree from left to right meets the problems
of the text and those of its content in the order in which they are written.
-/

namespace Phrasebook.Json

inductive Tree
  | null
  | bool (b : Bool)
  | number (n : Except Defect Numeral)
  | string (q : Quotation)
  /-- Items, and what is wrong where the next comma or the end should be. A comma always
  has an item after it, which may be `broken`. -/
  | list (items : List Tree) (stop : Option Defect)
  | object (fields : List (Quotation × Tree)) (stop : Option Defect)
  | broken (d : Defect)
  deriving Inhabited

/-- An open list or object: what it holds before the value that is being read. -/
inductive Frame
  | list (items : List Tree)
  | object (fields : List (Quotation × Tree)) (key : Quotation)

/-- The list or object with one more value in it, at which nothing more is read. -/
def Frame.close (inner : Tree) : Frame → Tree
  | .list items => .list (items ++ [inner]) none
  | .object fields key => .object (fields ++ [(key, inner)]) none

def unwind (up : List Frame) (inner : Tree) : Tree := up.foldl Frame.close inner

def giveUp (up : List Frame) (inner : Tree) : Tree × List Token := (unwind up inner, [])

mutual

def readValue (up : List Frame) : List Token → Tree × List Token
  | [] => giveUp up (.broken .ended)
  | .null :: rest => readMore up .null rest
  | .bool b :: rest => readMore up (.bool b) rest
  | .number n :: rest => readMore up (.number n) rest
  | .string q :: rest => readMore up (.string q) rest
  | .beginList :: .endList :: rest => readMore up (.list [] none) rest
  | .beginList :: rest => readValue (.list [] :: up) rest
  | .beginObject :: .endObject :: rest => readMore up (.object [] none) rest
  | .beginObject :: rest => readField up [] rest
  | .broken d :: _ => giveUp up (.broken d)
  | .endList :: _ | .endObject :: _ | .comma :: _ | .colon :: _ => giveUp up (.broken .malformed)

def readField (up : List Frame) (fields : List (Quotation × Tree)) :
    List Token → Tree × List Token
  | [] => giveUp up (.object fields (some .ended))
  | .string key :: .colon :: rest => readValue (.object fields key :: up) rest
  | [.string key] => giveUp up (.object (fields ++ [(key, .broken .ended)]) none)
  | .string key :: _ => giveUp up (.object (fields ++ [(key, .broken .malformed)]) none)
  | _ => giveUp up (.object fields (some .malformed))

def readMore (up : List Frame) (inner : Tree) (ts : List Token) : Tree × List Token :=
  match up, ts with
  | [], rest => (inner, rest)
  | .list items :: up, .comma :: rest => readValue (.list (items ++ [inner]) :: up) rest
  | .list items :: up, .endList :: rest => readMore up (.list (items ++ [inner]) none) rest
  | .list items :: up, ts =>
    giveUp up (.list (items ++ [inner]) (some (if ts.isEmpty then .ended else .malformed)))
  | .object fields key :: up, .comma :: rest => readField up (fields ++ [(key, inner)]) rest
  | .object fields key :: up, .endObject :: rest =>
    readMore up (.object (fields ++ [(key, inner)]) none) rest
  | .object fields key :: up, ts =>
    giveUp up
      (.object (fields ++ [(key, inner)]) (some (if ts.isEmpty then .ended else .malformed)))

end

end Phrasebook.Json
