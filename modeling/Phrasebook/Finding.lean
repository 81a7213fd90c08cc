import Phrasebook.Text.Quoted
import Phrasebook.Translations

/-!
# Findings

What an inspection of a phrase can bring to light. A finding never keeps a phrase
from being rendered; it names a template that will be missed, never be used, or
be filled in part only.
-/

namespace Phrasebook

inductive Origin
  | base
  | variant (index : Nat)
  deriving DecidableEq

def Origin.text : Origin → String
  | .base => "base message set"
  | .variant index => "variation #" ++ Decimal.ofInt index

inductive Finding
  | missing (locale : Locale)
  | unsupported (locale : Locale) (origin : Origin)
  /-- A base template names other arguments than the base template that counts as the
  example. -/
  | mismatch (locale : Locale) (expected found : List String)
  /-- A variant names an argument that the base template for the locale does not. -/
  | unknown (locale : Locale) (origin : Origin) (name : String)
  | repeated (locale : Locale) (origin : Origin) (name : String)
  deriving DecidableEq

namespace Finding

def quotedToken (name : String) : String :=
  "'" ++ String.ofList (token name.toList) ++ "'"

def message : Finding → String
  | .missing locale => "no base message for supported locale '" ++ locale ++ "'"
  | .unsupported locale origin =>
    origin.text ++ " defines locale '" ++ locale ++ "', which is not supported"
  | .mismatch locale expected found =>
    "base message for '" ++ locale ++ "' uses placeholders [" ++ Text.commaSeparated found ++
      "], expected [" ++ Text.commaSeparated expected ++ "]"
  | .unknown locale origin name =>
    origin.text ++ " uses placeholder " ++ quotedToken name ++ " in '" ++ locale ++
      "', which the base message lacks"
  | .repeated locale origin name =>
    origin.text ++ " repeats placeholder " ++ quotedToken name ++ " in '" ++ locale ++
      "'; only the first is filled"

end Finding

end Phrasebook
