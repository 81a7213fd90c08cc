import Phrasebook.Decimal.Layout

/-!
# Values

What an argument can be: a signed 64-bit number, a double, a truth value or
text. Every integer that a caller holds has a value whose text is its decimal
text; one that 64 signed bits cannot hold is kept as that text.
-/

namespace Phrasebook

inductive Integer
  | int32 (n : Int32)
  | int64 (n : Int64)
  | uint32 (n : UInt32)
  | uint64 (n : UInt64)
  | size (n : UInt64)
  deriving DecidableEq

def Integer.toInt : Integer → Int
  | .int32 n => n.toInt
  | .int64 n => n.toInt
  | .uint32 n => n.toNat
  | .uint64 n => n.toNat
  | .size n => n.toNat

inductive Value
  | number (n : Int64)
  | float (x : Float)
  | bool (b : Bool)
  | string (s : String)
  deriving Inhabited

namespace Value

/-- An unsigned number is kept as its text if 64 signed bits do not hold it. -/
def ofUnsigned (n : UInt64) : Value :=
  if n ≤ Int64.maxValue.toUInt64 then .number n.toInt64 else .string (Decimal.ofInt n.toNat)

def ofInteger : Integer → Value
  | .int32 n => .number n.toInt64
  | .int64 n => .number n
  | .uint32 n => .number n.toUInt64.toInt64
  | .uint64 n => ofUnsigned n
  | .size n => ofUnsigned n

def text : Value → String
  | .number n => Decimal.ofInt n.toInt
  | .float x => Decimal.Layout.plain.text x
  | .bool b => if b then "true" else "false"
  | .string s => s

def asNumber : Value → Option Int64
  | .number n => some n
  | _ => none

/-- Numbers count as doubles: the nearest one. -/
def asFloat : Value → Option Float
  | .float x => some x
  | .number n => some n.toFloat
  | _ => none

def asBool : Value → Option Bool
  | .bool b => some b
  | _ => none

def asString : Value → Option String
  | .string s => some s
  | _ => none

/-- Values are equal if they are of one kind and equal there; doubles compare as
numbers, so that no NaN equals itself and the two zeros are equal. -/
def beq : Value → Value → Bool
  | .number m, .number n => m == n
  | .float x, .float y => x == y
  | .bool a, .bool b => a == b
  | .string s, .string t => s == t
  | _, _ => false

instance : BEq Value := ⟨beq⟩

def isText (value : Value) (text : String) : Bool := value.asString == some text

end Value

end Phrasebook
