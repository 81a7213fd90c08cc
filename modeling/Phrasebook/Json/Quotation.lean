import Phrasebook.Json.Error

/-!
# JSON strings

A string in a text is a row of parts: characters, which may be written by a
short escape, and 16-bit units written by four hex digits. Two units can make
one character. A unit that is half of such a pair and lacks the other half
spells no text; a reader that wants the text refuses it, a reader that skips the
string does not.
-/

namespace Phrasebook.Json

inductive Part
  | char (c : Char)
  | unit (n : Nat)
  deriving DecidableEq

/-- A string as far as it could be read, and what is wrong after that, if anything. -/
structure Quotation where
  parts : List Part
  defect : Option Defect
  deriving DecidableEq

/-! ## Reading -/

def escaped? : Char → Option Char
  | '"' => some '"'
  | '\\' => some '\\'
  | '/' => some '/'
  | 'b' => some '\x08'
  | 'f' => some '\x0c'
  | 'n' => some '\n'
  | 'r' => some '\r'
  | 't' => some '\t'
  | _ => none

def hexValue? (c : Char) : Option Nat :=
  if c.isDigit then some (c.toNat - '0'.toNat)
  else if 'a' ≤ c ∧ c ≤ 'f' then some (c.toNat - 'a'.toNat + 10)
  else if 'A' ≤ c ∧ c ≤ 'F' then some (c.toNat - 'A'.toNat + 10)
  else none

def byteLength (s : List Char) : Nat := s.foldl (fun n c => n + c.utf8Size) 0

/-- Reads four hex digits. The text ends too early if less than four bytes are left. -/
def readUnit (s : List Char) : Except Defect (Part × List Char) :=
  match (s.take 4).mapM hexValue? with
  | some [a, b, c, d] => .ok (.unit (((a * 16 + b) * 16 + c) * 16 + d), s.drop 4)
  | _ => .error (if byteLength (s.take 4) < 4 then .ended else .malformed)

def readEscape : List Char → Except Defect (Part × List Char)
  | [] => .error .ended
  | c :: s =>
    if c = 'u' then readUnit s
    else match escaped? c with
      | some d => .ok (.char d, s)
      | none => .error .malformed

theorem readUnit_length {s rest : List Char} {part : Part} (h : readUnit s = .ok (part, rest)) :
    rest.length ≤ s.length := by
  unfold readUnit at h
  split at h
  · cases h; simp
  · cases h

theorem readEscape_length {s rest : List Char} {part : Part}
    (h : readEscape s = .ok (part, rest)) : rest.length ≤ s.length := by
  cases s with
  | nil => cases h
  | cons c s =>
    simp only [readEscape] at h
    split at h
    · exact Nat.le_succ_of_le (readUnit_length h)
    · split at h
      · cases h; simp
      · cases h

namespace Quotation

def after (part : Part) (read : Quotation × List Char) : Quotation × List Char :=
  (⟨part :: read.1.parts, read.1.defect⟩, read.2)

/-- Reads a string after its opening quote, and the text after it. Control characters
cannot stand in it. -/
def read : List Char → Quotation × List Char
  | [] => (⟨[], some .ended⟩, [])
  | c :: s =>
    if c = '"' then (⟨[], none⟩, s)
    else if c = '\\' then
      match h : readEscape s with
      | .ok (part, rest) =>
        have := readEscape_length h
        after part (read rest)
      | .error d => (⟨[], some d⟩, [])
    else if c.toNat < 0x20 then (⟨[], some .malformed⟩, [])
    else after (.char c) (read s)
termination_by s => s.length
decreasing_by
  · exact Nat.lt_succ_of_le ‹_›
  · exact Nat.lt_succ_self _

theorem read_length (s : List Char) : (read s).2.length ≤ s.length := by
  fun_induction read s with
  | case1 => simp
  | case2 => simp
  | case3 s part rest h _ _ ih =>
    exact Nat.le_succ_of_le (Nat.le_trans ih (readEscape_length h))
  | case4 => simp
  | case5 => simp
  | case6 c s _ _ _ ih => exact Nat.le_succ_of_le ih

end Quotation

/-! ## The text -/

def isLead (n : Nat) : Bool := 0xd800 ≤ n && n < 0xdc00

def isTrail (n : Nat) : Bool := 0xdc00 ≤ n && n < 0xe000

def pair (lead trail : Nat) : Char :=
  Char.ofNat (0x10000 + (lead - 0xd800) * 0x400 + (trail - 0xdc00))

/-- The text of the parts of a string that has `defect` after them. The first problem
decides; half of a pair before the defect is no problem of its own. -/
def textOf (defect : Option Defect) : List Part → Except Defect (List Char)
  | [] => match defect with
    | none => .ok []
    | some d => .error d
  | .char c :: parts => (textOf defect parts).map (c :: ·)
  | .unit n :: parts =>
    if isTrail n then .error .malformed
    else if isLead n then
      match parts with
      | [] => .error (defect.getD .malformed)
      | .unit m :: parts =>
        if isTrail m then (textOf defect parts).map (pair n m :: ·) else .error .malformed
      | .char _ :: _ => .error .malformed
    else (textOf defect parts).map (Char.ofNat n :: ·)

def Quotation.text (q : Quotation) : Except Defect String :=
  (textOf q.defect q.parts).map String.ofList

/-! ## Writing -/

/-- The part that writes a character: control characters without a letter of their own
are written as units. -/
def Part.ofChar (c : Char) : Part :=
  if c.toNat < 0x20 ∧ c ∉ ['\x08', '\x0c', '\n', '\r', '\t'] then .unit c.toNat else .char c

def Quotation.ofText (s : String) : Quotation := ⟨s.toList.map Part.ofChar, none⟩

def hexDigits4 (n : Nat) : List Char :=
  [n / 0x1000 % 16, n / 0x100 % 16, n / 0x10 % 16, n % 16].map Nat.digitChar

def Part.chars : Part → List Char
  | .unit n => '\\' :: 'u' :: hexDigits4 n
  | .char '"' => ['\\', '"']
  | .char '\\' => ['\\', '\\']
  | .char '\x08' => ['\\', 'b']
  | .char '\x0c' => ['\\', 'f']
  | .char '\n' => ['\\', 'n']
  | .char '\r' => ['\\', 'r']
  | .char '\t' => ['\\', 't']
  | .char c => [c]

def Quotation.chars (q : Quotation) : List Char := '"' :: (q.parts.flatMap Part.chars ++ ['"'])

end Phrasebook.Json
