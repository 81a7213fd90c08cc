import Phrasebook.Event
import Phrasebook.Spelling
import Phrasebook.Translations

/-!
# The choice of a locale

Which locales are supported, in the order of their declaration, and which one is
current. The current one starts as the caller says and from then on only moves
to supported ones.
-/

namespace Phrasebook

structure LocaleChoice where
  supported : List Locale
  current : Locale
  deriving DecidableEq, Inhabited

/-- A locale that was asked for and is not supported, and supported ones like it. -/
structure UnavailableLocale where
  locale : Locale
  suggestions : List Locale
  deriving DecidableEq

namespace UnavailableLocale

def hint : List Locale → String
  | [] => ""
  | [only] => ", did you mean '" ++ only ++ "'?"
  | many =>
    ", did you mean one of " ++ Text.commaSeparated (many.map fun s => "'" ++ s ++ "'") ++ "?"

def message (e : UnavailableLocale) : String :=
  "locale '" ++ e.locale ++ "' is not available" ++ hint e.suggestions

end UnavailableLocale

namespace LocaleChoice

def isAvailable (choice : LocaleChoice) (locale : Locale) : Bool :=
  choice.supported.contains locale

def opening (choice : LocaleChoice) : List Event :=
  (if choice.isAvailable choice.current then []
    else [.startUnsupported choice.current choice.supported]) ++
  [.opened choice.supported.length choice.current]

def change (choice : LocaleChoice) (locale : Locale) : Except UnavailableLocale LocaleChoice :=
  if choice.isAvailable locale then .ok { choice with current := locale }
  else .error ⟨locale, Spelling.suggestions locale choice.supported⟩

def changing (choice : LocaleChoice) (locale : Locale) : Event :=
  if choice.isAvailable locale then .changed choice.current locale else .refused locale

end LocaleChoice

end Phrasebook
