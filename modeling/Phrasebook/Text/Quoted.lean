import Phrasebook.Text.Printable

/-!
# Quoted text

Text between double quotes, in which a reader can tell every character: quotes,
backslashes and what is not printable are escaped.
-/

namespace Phrasebook.Text

def quotedChar (c : Char) : List Char :=
  match c with
  | '\x00' => ['\\', '0']
  | '\t' => ['\\', 't']
  | '\n' => ['\\', 'n']
  | '\r' => ['\\', 'r']
  | '"' => ['\\', '"']
  | '\\' => ['\\', '\\']
  | c =>
    if isPrintable c then [c]
    else ['\\', 'u', '\x7b'] ++ Nat.toDigits 16 c.toNat ++ ['\x7d']

def quoted (s : String) : String :=
  String.ofList ('"' :: (s.toList.flatMap quotedChar ++ ['"']))

def commaSeparated : List String → String := String.intercalate ", "

def quotedList (texts : List String) : String :=
  "[" ++ commaSeparated (texts.map quoted) ++ "]"

end Phrasebook.Text
