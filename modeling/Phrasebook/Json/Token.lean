import Phrasebook.Json.Numeral
import Phrasebook.Json.Quotation

/-!
# JSON tokens

The text cut into its smallest units, without the blanks between them. Cutting
never fails: a defect is kept in the token where it is met, and the text after
it is not looked at.
-/

namespace Phrasebook.Json

inductive Token
  | beginObject
  | endObject
  | beginList
  | endList
  | comma
  | colon
  | null
  | bool (b : Bool)
  | number (n : Except Defect Numeral)
  | string (q : Quotation)
  /-- The start of something that is no token. -/
  | broken (d : Defect)

namespace Token

def isBlank (c : Char) : Bool := c == ' ' || c == '\n' || c == '\t' || c == '\r'

/-- Reads the letters that have to come next. -/
def readWord (token : Token) : List Char → List Char → Token × List Char
  | [], s => (token, s)
  | _ :: _, [] => (.broken .ended, [])
  | letter :: letters, c :: s =>
    if c = letter then readWord token letters s else (.broken .malformed, [])

theorem readWord_length (token : Token) (letters s : List Char) :
    (readWord token letters s).2.length ≤ s.length := by
  fun_induction readWord token letters s with
  | case1 => simp
  | case2 => simp
  | case3 letters c s ih => exact Nat.le_succ_of_le ih
  | case4 => simp

def readNumber (negative : Bool) (s : List Char) : Token × List Char :=
  match Numeral.readUnsigned negative s with
  | .ok (n, rest) => (.number (.ok n), rest)
  | .error d => (.number (.error d), [])

theorem readNumber_length (negative : Bool) (s : List Char) :
    (readNumber negative s).2.length ≤ s.length - 1 := by
  unfold readNumber
  split
  · next h =>
    have := Numeral.readUnsigned_length h
    simp only
    omega
  · simp

def readOne (c : Char) (s : List Char) : Token × List Char :=
  match c with
  | '{' => (.beginObject, s)
  | '}' => (.endObject, s)
  | '[' => (.beginList, s)
  | ']' => (.endList, s)
  | ',' => (.comma, s)
  | ':' => (.colon, s)
  | 'n' => readWord .null ['u', 'l', 'l'] s
  | 't' => readWord (.bool true) ['r', 'u', 'e'] s
  | 'f' => readWord (.bool false) ['a', 'l', 's', 'e'] s
  | '"' => (.string (Quotation.read s).1, (Quotation.read s).2)
  | '-' => readNumber true s
  | c => if c.isDigit then readNumber false (c :: s) else (.broken .malformed, [])

theorem readOne_length (c : Char) (s : List Char) : (readOne c s).2.length ≤ s.length := by
  unfold readOne
  split
  case h_7 | h_8 | h_9 => exact readWord_length ..
  case h_10 => exact Quotation.read_length s
  case h_11 => exact Nat.le_trans (readNumber_length true s) (Nat.sub_le ..)
  case h_12 =>
    split
    · exact readNumber_length false _
    · simp
  all_goals exact Nat.le_refl _

def scan : List Char → List Token
  | [] => []
  | c :: s =>
    if isBlank c then scan s
    else
      have := readOne_length c s
      (readOne c s).1 :: scan (readOne c s).2
termination_by s => s.length
decreasing_by
  · exact Nat.lt_succ_self _
  · exact Nat.lt_succ_of_le ‹_›

end Token

end Phrasebook.Json
