import Mathlib.Data.List.Forall2
import Phrasebook.Json.RoundTrip

/-!
# What a JSON text is

The grammar of JSON, apart from how a text is read or written: the ways to write
a string, a numeral, a token, and a row of tokens with blanks between them. A
text writes a tree if it is a row of the tree's tokens (`Tree.WrittenAs`).

What a string says is a row of characters (`Quotation.Says`). A character beyond
16 bits takes two units, a lead and a trail.
-/

namespace Phrasebook.Json

-- ---------------------------------------------------------------------------
-- Strings
-- ---------------------------------------------------------------------------

def shortEscapes : List (Char × Char) :=
  [('"', '"'), ('\\', '\\'), ('/', '/'), ('b', '\x08'), ('f', '\x0c'), ('n', '\n'), ('r', '\r'),
    ('t', '\t')]

def lowerHex : List Char :=
  ['0', '1', '2', '3', '4', '5', '6', '7', '8', '9', 'a', 'b', 'c', 'd', 'e', 'f']

def upperHex : List Char :=
  ['0', '1', '2', '3', '4', '5', '6', '7', '8', '9', 'A', 'B', 'C', 'D', 'E', 'F']

def HexDigit (c : Char) (n : Nat) : Prop := lowerHex[n]? = some c ∨ upperHex[n]? = some c

inductive Part.WrittenAs : Part → List Char → Prop
  | raw {c : Char} (hquote : c ≠ '"') (hbackslash : c ≠ '\\') (hcontrol : 0x20 ≤ c.toNat) :
    WrittenAs (.char c) [c]
  | short {letter c : Char} (h : (letter, c) ∈ shortEscapes) :
    WrittenAs (.char c) ['\\', letter]
  | unit {a b c d : Char} {i j k l : Nat} (ha : HexDigit a i) (hb : HexDigit b j)
    (hc : HexDigit c k) (hd : HexDigit d l) :
    WrittenAs (.unit (i * 0x1000 + j * 0x100 + k * 0x10 + l)) ['\\', 'u', a, b, c, d]

inductive PartsWrittenAs : List Part → List Char → Prop
  | nil : PartsWrittenAs [] []
  | cons {part : Part} {parts : List Part} {w s : List Char} (h : part.WrittenAs w)
    (hs : PartsWrittenAs parts s) : PartsWrittenAs (part :: parts) (w ++ s)

inductive Spells : List Part → List Char → Prop
  | nil : Spells [] []
  | char {parts : List Part} {s : List Char} (c : Char) (h : Spells parts s) :
    Spells (.char c :: parts) (c :: s)
  | unit {parts : List Part} {s : List Char} (c : Char) (hc : c.toNat < 0x10000)
    (h : Spells parts s) : Spells (.unit c.toNat :: parts) (c :: s)
  | pair {parts : List Part} {s : List Char} (c : Char) (hc : 0x10000 ≤ c.toNat)
    (h : Spells parts s) :
    Spells (.unit (0xd800 + (c.toNat - 0x10000) / 0x400) ::
      .unit (0xdc00 + (c.toNat - 0x10000) % 0x400) :: parts) (c :: s)

def Quotation.Says (q : Quotation) (s : String) : Prop := q.defect = none ∧ Spells q.parts s.toList

-- ---------------------------------------------------------------------------
-- Numerals
-- ---------------------------------------------------------------------------

def IsDigits (s : List Char) : Prop := s ≠ [] ∧ ∀ c ∈ s, c.isDigit

namespace Numeral

inductive FractionWrittenAs : Option (List Char) → List Char → Prop
  | none : FractionWrittenAs none []
  | some {digits : List Char} (h : IsDigits digits) :
    FractionWrittenAs (some digits) ('.' :: digits)

inductive ExponentWrittenAs : Option (Bool × List Char) → List Char → Prop
  | none : ExponentWrittenAs none []
  | bare {mark : Char} {digits : List Char} (hmark : mark = 'e' ∨ mark = 'E')
    (h : IsDigits digits) : ExponentWrittenAs (some (false, digits)) (mark :: digits)
  | plus {mark : Char} {digits : List Char} (hmark : mark = 'e' ∨ mark = 'E')
    (h : IsDigits digits) : ExponentWrittenAs (some (false, digits)) (mark :: '+' :: digits)
  | minus {mark : Char} {digits : List Char} (hmark : mark = 'e' ∨ mark = 'E')
    (h : IsDigits digits) : ExponentWrittenAs (some (true, digits)) (mark :: '-' :: digits)

/-- The whole part has no zero before other digits. -/
inductive WrittenAs : Numeral → List Char → Prop
  | intro {negative : Bool} {whole f e : List Char} {fraction : Option (List Char)}
    {exponent : Option (Bool × List Char)} (hwhole : IsDigits whole)
    (hzero : whole.head? = some '0' → whole = ['0']) (hf : FractionWrittenAs fraction f)
    (he : ExponentWrittenAs exponent e) :
    WrittenAs ⟨negative, whole, fraction, exponent⟩
      ((if negative then ['-'] else []) ++ (whole ++ (f ++ e)))

end Numeral

-- ---------------------------------------------------------------------------
-- Tokens
-- ---------------------------------------------------------------------------

inductive Token.WrittenAs : Token → List Char → Prop
  | beginObject : WrittenAs .beginObject ['{']
  | endObject : WrittenAs .endObject ['}']
  | beginList : WrittenAs .beginList ['[']
  | endList : WrittenAs .endList [']']
  | comma : WrittenAs .comma [',']
  | colon : WrittenAs .colon [':']
  | null : WrittenAs .null ['n', 'u', 'l', 'l']
  | true : WrittenAs (.bool true) ['t', 'r', 'u', 'e']
  | false : WrittenAs (.bool false) ['f', 'a', 'l', 's', 'e']
  | number {n : Numeral} {s : List Char} (h : n.WrittenAs s) : WrittenAs (.number (.ok n)) s
  | string {parts : List Part} {s : List Char} (h : PartsWrittenAs parts s) :
    WrittenAs (.string ⟨parts, none⟩) ('"' :: (s ++ ['"']))

def Breaks (s : List Char) : Prop :=
  ∀ c ∈ s.head?, c.isDigit = false ∧ c ≠ '.' ∧ c ≠ 'e' ∧ c ≠ 'E'

def blanks : List Char := [' ', '\n', '\t', '\r']

/-- Tokens one after another, with any blanks before, between and after them. A numeral is as long
as it can be. -/
inductive Row : List Token → List Char → Prop
  | nil : Row [] []
  | blank {c : Char} {s : List Char} {ts : List Token} (hc : c ∈ blanks) (h : Row ts s) :
    Row ts (c :: s)
  | token {t : Token} {ts : List Token} {w s : List Char} (ht : t.WrittenAs w)
    (hnumber : ∀ n, t = .number n → Breaks s) (h : Row ts s) : Row (t :: ts) (w ++ s)

structure Tree.WrittenAs (t : Tree) (text : String) : Prop where
  sound : t.Sound
  row : Row t.tokens text.toList

def Tree.Says (t : Tree) (s : String) : Prop := ∃ q : Quotation, t = .string q ∧ q.Says s

def Tree.Lists (t : Tree) (texts : List String) : Prop :=
  ∃ items, t = .list items none ∧ List.Forall₂ Tree.Says items texts

end Phrasebook.Json
