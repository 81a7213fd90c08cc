import Phrasebook.Json.Error

/-!
# JSON numerals

A numeral is kept as it is written: sign, digits of the whole part, and the
digits of the fraction and of the exponent if there are any. Its value is taken
only where a report names it. An integer that 64 bits hold is named exactly. Of
any other numeral the leading digits that 64 bits hold make a significand; a
double nearest to it is scaled by a power of ten.
-/

namespace Phrasebook.Json

/-- A numeral as it is written. The exponent is negative if its flag is set. -/
structure Numeral where
  negative : Bool
  whole : List Char
  fraction : Option (List Char)
  exponent : Option (Bool × List Char)
  deriving DecidableEq

namespace Numeral

def readDigits (s : List Char) : Except Defect (List Char × List Char) :=
  if s.takeWhile Char.isDigit = [] then .error (if s = [] then .ended else .malformed)
  else .ok (s.takeWhile Char.isDigit, s.dropWhile Char.isDigit)

theorem readDigits_length {s digits rest : List Char} (h : readDigits s = .ok (digits, rest)) :
    rest.length < s.length := by
  unfold readDigits at h
  split at h
  · cases h
  · next some_digit =>
    cases h
    have whole := congrArg List.length
      (List.takeWhile_append_dropWhile (p := Char.isDigit) (l := s))
    have := List.length_pos_iff.mpr some_digit
    rw [List.length_append] at whole
    omega

/-- Reads the digits before the point. A zero stands there alone. -/
def readWhole (s : List Char) : Except Defect (List Char × List Char) := do
  let (digits, rest) ← readDigits s
  if digits.head? = some '0' ∧ 1 < digits.length then .error .malformed
  else .ok (digits, rest)

theorem readWhole_length {s digits rest : List Char} (h : readWhole s = .ok (digits, rest)) :
    rest.length < s.length := by
  obtain ⟨⟨first, after⟩, h_read, h⟩ := bind_eq_ok.mp h
  dsimp only at h
  split at h
  · cases h
  · cases h; exact readDigits_length h_read

def readFraction : List Char → Except Defect (Option (List Char) × List Char)
  | '.' :: s => do
    let (digits, rest) ← readDigits s
    .ok (some digits, rest)
  | s => .ok (none, s)

theorem readFraction_length {s rest : List Char} {fraction : Option (List Char)}
    (h : readFraction s = .ok (fraction, rest)) : rest.length ≤ s.length := by
  unfold readFraction at h
  split at h
  · obtain ⟨read, h_read, h⟩ := bind_eq_ok.mp h
    cases h
    exact Nat.le_succ_of_le (Nat.le_of_lt (readDigits_length h_read))
  · cases h; exact Nat.le_refl _

def readSign : List Char → Bool × List Char
  | '-' :: s => (true, s)
  | '+' :: s => (false, s)
  | s => (false, s)

theorem readSign_length (s : List Char) : (readSign s).2.length ≤ s.length := by
  unfold readSign
  split <;> simp

def readExponent : List Char → Except Defect (Option (Bool × List Char) × List Char)
  | [] => .ok (none, [])
  | c :: s =>
    if c = 'e' ∨ c = 'E' then do
      let (digits, rest) ← readDigits (readSign s).2
      .ok (some ((readSign s).1, digits), rest)
    else .ok (none, c :: s)

theorem readExponent_length {s rest : List Char} {exponent : Option (Bool × List Char)}
    (h : readExponent s = .ok (exponent, rest)) : rest.length ≤ s.length := by
  unfold readExponent at h
  split at h
  · cases h; exact Nat.le_refl _
  · split at h
    · next s _ =>
      obtain ⟨read, h_read, h⟩ := bind_eq_ok.mp h
      cases h
      have := readDigits_length h_read
      have := readSign_length s
      simp only [List.length_cons]
      omega
    · cases h; exact Nat.le_refl _

def readUnsigned (negative : Bool) (s : List Char) : Except Defect (Numeral × List Char) := do
  let (whole, s) ← readWhole s
  let (fraction, s) ← readFraction s
  let (exponent, s) ← readExponent s
  .ok (⟨negative, whole, fraction, exponent⟩, s)

theorem readUnsigned_length {negative : Bool} {s rest : List Char} {n : Numeral}
    (h : readUnsigned negative s = .ok (n, rest)) : rest.length < s.length := by
  obtain ⟨whole, h_whole, h⟩ := bind_eq_ok.mp h
  obtain ⟨fraction, h_fraction, h⟩ := bind_eq_ok.mp h
  obtain ⟨exponent, h_exponent, h⟩ := bind_eq_ok.mp h
  cases h
  have := readWhole_length h_whole
  have := readFraction_length h_fraction
  have := readExponent_length h_exponent
  omega

inductive Number
  | integer (n : Int)
  | floating (x : Float)

def wordSize : Nat := 0x10000000000000000

def digitsValue (digits : List Char) : Nat := Nat.ofDigitChars 10 digits 0

/-- Appends digits to a significand as long as 64 bits hold it; what is left over. -/
def gather (significand : Nat) : List Char → Nat × List Char
  | [] => (significand, [])
  | digit :: digits =>
    let next := significand * 10 + (digit.toNat - '0'.toNat)
    if next < wordSize then gather next digits else (significand, digit :: digits)

def powerOfTen (n : Nat) : Float := Float.ofScientific 1 false n

/-- Multiplies by a power of ten, in steps of 308 places where it is very small. A number
beyond the doubles is refused. -/
def scale (x : Float) (exponent : Int) : Except Defect Float :=
  if exponent < -308 then
    if x == 0 then .ok x else scale (x / powerOfTen 308) (exponent + 308)
  else if exponent < 0 then .ok (x / powerOfTen (-exponent).toNat)
  else if exponent ≤ 308 then
    let scaled := x * powerOfTen exponent.toNat
    if scaled.isInf then .error .malformed else .ok scaled
  else if x == 0 then .ok x
  else .error .malformed
termination_by (-exponent).toNat
decreasing_by omega

/-- The double `significand · 10 ^ shift`, where `shift` goes by the written exponent. A
written exponent beyond 32 bits makes the number zero or is refused. -/
def scaled (significand : Nat) (shift : Int) : Option (Bool × List Char) → Except Defect Float
  | none => scale (UInt64.ofNat significand).toFloat shift
  | some (negative, digits) =>
    let exponent := digitsValue digits
    if exponent < 0x80000000 then
      scale (UInt64.ofNat significand).toFloat
        (if negative then shift - exponent else shift + exponent)
    else if significand = 0 ∨ negative then .ok 0
    else .error .malformed

def floating (n : Numeral) : Except Defect Float := do
  let (wholePart, beyond) := gather 0 n.whole
  let fraction := n.fraction.getD []
  let (significand, unread) := gather wholePart fraction
  let shift : Int := beyond.length - (fraction.length - unread.length)
  let magnitude ← scaled significand shift n.exponent
  .ok (if n.negative then -magnitude else magnitude)

def number (n : Numeral) : Except Defect Number :=
  let value := digitsValue n.whole
  let least := if n.negative then 1 else 0
  let most := if n.negative then wordSize / 2 else wordSize - 1
  if n.fraction.isNone ∧ n.exponent.isNone ∧ least ≤ value ∧ value ≤ most then
    .ok (.integer (if n.negative then -value else value))
  else n.floating.map .floating

end Numeral

end Phrasebook.Json
