import Phrasebook.Decimal.Integer
import Phrasebook.Decimal.Shortest

/-!
# Decimal text of doubles

A double is taken apart into its sign and its magnitude; the shortest decimal
of the magnitude is laid out as a `Layout` says. Two layouts are in use: `plain`
for text that people read, `exact` for text that names a number in a report
about data.
-/

namespace Phrasebook.Decimal

/-- What is left of a double without its sign. A finite one is `m · 2 ^ q`; it is
`narrow` if its neighbour below is nearer than the one above. -/
inductive Magnitude
  | notANumber
  | infinite
  | finite (m : Nat) (q : Int) (narrow : Bool)

/-- The weight of the lowest bit of the exponent in the 64 bits of a double: 52 bits of
fraction stand below it. -/
def exponentUnit : Nat := 0x10000000000000

def Magnitude.ofBits (bits : Nat) : Magnitude :=
  let exponent : Nat := bits / exponentUnit % 0x800
  let fraction : Nat := bits % exponentUnit
  if exponent = 0x7ff then if fraction = 0 then .infinite else .notANumber
  else if exponent = 0 then .finite fraction (-1074) false
  else .finite (exponentUnit + fraction) ((exponent : Int) - 1075)
    (fraction == 0 && exponent != 1)

def isNegative (bits : Nat) : Bool := 0x8000000000000000 ≤ bits

structure Layout where
  tie : Tie
  /-- Whether a number is written without an exponent, by the number of digits that stand
  before its point: `3` for `123.4`, `-1` for `0.0123`. -/
  positional : Int → Bool
  pointZero : Bool

namespace Layout

/-- Never an exponent, no point on whole numbers; a tie goes away from zero. -/
def plain : Layout := ⟨.away, fun _ => true, false⟩

/-- An exponent for very large and very small numbers, a point on whole numbers; a tie
goes to the even digit. -/
def exact : Layout := ⟨.toEven, fun point => -5 < point && point ≤ 16, true⟩

def zeros (n : Nat) : List Char := List.replicate n '0'

def positionalChars (layout : Layout) (digits : List Char) (point : Int) : List Char :=
  if digits.length ≤ point then
    digits ++ zeros (point.toNat - digits.length) ++ (if layout.pointZero then ['.', '0'] else [])
  else if 0 < point then digits.take point.toNat ++ '.' :: digits.drop point.toNat
  else '0' :: '.' :: (zeros (-point).toNat ++ digits)

def exponentChars (digits : List Char) (point : Int) : List Char :=
  let fraction := digits.drop 1
  let exponent := point - 1
  digits.take 1 ++ (if fraction.isEmpty then [] else '.' :: fraction) ++
    'e' :: ((if exponent < 0 then [] else ['+']) ++ signedDigits exponent)

def finiteChars (layout : Layout) (m : Nat) (q : Int) (narrow : Bool) : List Char :=
  if m = 0 then if layout.pointZero then ['0', '.', '0'] else ['0']
  else
    let decimal := shortest layout.tie (.ofBinary m q narrow)
    let digits := digits decimal.coefficient
    let point := digits.length + decimal.exponent
    if layout.positional point then layout.positionalChars digits point
    else exponentChars digits point

def chars (layout : Layout) (x : Float) : List Char :=
  let bits := x.toBits.toNat
  let sign := if isNegative bits then ['-'] else []
  match Magnitude.ofBits bits with
  | .notANumber => ['N', 'a', 'N']
  | .infinite => sign ++ ['i', 'n', 'f']
  | .finite m q narrow => sign ++ layout.finiteChars m q narrow

def text (layout : Layout) (x : Float) : String := String.ofList (layout.chars x)

end Layout

end Phrasebook.Decimal
