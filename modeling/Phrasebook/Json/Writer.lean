import Phrasebook.Json.Tree

/-!
# Writing JSON

A tree is written as a row of tokens with nothing between them.
-/

namespace Phrasebook.Json

/-- A numeral as it is written, with a small `e` and no plus sign. -/
def Numeral.chars (n : Numeral) : List Char :=
  (if n.negative then ['-'] else []) ++ n.whole ++
    (match n.fraction with
      | none => []
      | some digits => '.' :: digits) ++
    match n.exponent with
      | none => []
      | some (negative, digits) => 'e' :: ((if negative then ['-'] else []) ++ digits)

/-- The text of a token. A token with a defect has none. -/
def Token.chars : Token → List Char
  | .beginObject => ['{']
  | .endObject => ['}']
  | .beginList => ['[']
  | .endList => [']']
  | .comma => [',']
  | .colon => [':']
  | .null => ['n', 'u', 'l', 'l']
  | .bool true => ['t', 'r', 'u', 'e']
  | .bool false => ['f', 'a', 'l', 's', 'e']
  | .number (.ok n) => n.chars
  | .number (.error _) => []
  | .string q => q.chars
  | .broken _ => []

namespace Tree

mutual

def tokens : Tree → List Token
  | .null => [.null]
  | .bool b => [.bool b]
  | .number n => [.number n]
  | .string q => [.string q]
  | .list [] _ => [.beginList, .endList]
  | .list (t :: ts) _ => .beginList :: (tokens t ++ itemTokens ts)
  | .object [] _ => [.beginObject, .endObject]
  | .object ((key, t) :: fields) _ =>
    .beginObject :: .string key :: .colon :: (tokens t ++ fieldTokens fields)
  | .broken d => [.broken d]

def itemTokens : List Tree → List Token
  | [] => [.endList]
  | t :: ts => .comma :: (tokens t ++ itemTokens ts)

def fieldTokens : List (Quotation × Tree) → List Token
  | [] => [.endObject]
  | (key, t) :: fields =>
    .comma :: .string key :: .colon :: (tokens t ++ fieldTokens fields)

end

def written (t : Tree) : String := String.ofList (t.tokens.flatMap Token.chars)

def ofText (s : String) : Tree := .string (.ofText s)

end Tree

end Phrasebook.Json
