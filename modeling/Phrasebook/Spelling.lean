/-!
# Spelling

How far two texts are apart, counted in insertions, deletions and replacements
of single characters, and which of some candidates may have been meant by a name
that is not among them.
-/

namespace Phrasebook.Spelling

/-- From the distances of a text to all the ends of `target`, longest first, makes those of
the text with `c` before it. -/
def nextRow (c : Char) : (target : List Char) → (row : List Nat) → List Nat
  | [], row => [row.headD 0 + 1]
  | d :: target, row =>
    let rest := nextRow c target row.tail
    let replaced := row.tail.headD 0 + if c = d then 0 else 1
    min (min (row.headD 0 + 1) (rest.headD 0 + 1)) replaced :: rest

def lengths : (target : List Char) → List Nat
  | [] => [0]
  | _ :: target => (target.length + 1) :: lengths target

/-- The distances of a text to all the ends of `target`, from `target` to the empty one. -/
def distanceRow : (text target : List Char) → List Nat
  | [], target => lengths target
  | c :: text, target => nextRow c target (distanceRow text target)

def distance (a b : String) : Nat := (distanceRow a.toList b.toList).headD 0

/-- How far off a candidate for a name may be: one edit for a name of up to three bytes,
two for a longer one. -/
def reach (name : String) : Nat := if name.utf8ByteSize ≤ 3 then 1 else 2

def candidatesAt (name : String) (available : List String) (edits : Nat) : List String :=
  available.filter fun candidate => distance name candidate == edits

def suggestions (name : String) (available : List String) : List String :=
  ((List.range' 1 (reach name)).flatMap (candidatesAt name available)).take 3

end Phrasebook.Spelling
