import Phrasebook.Text.Quoted
import Phrasebook.Translations

/-!
# Events

What is put on record while locales are chosen and messages are rendered.
-/

namespace Phrasebook

inductive Level
  | warn
  | debug
  | trace
  deriving DecidableEq

def Level.name : Level → String
  | .warn => "warn"
  | .debug => "debug"
  | .trace => "trace"

inductive Event
  | startUnsupported (current : Locale) (supported : List Locale)
  | opened (count : Nat) (current : Locale)
  | refused (locale : Locale)
  | changed (before after : Locale)
  | variantAdded (index : Nat) (locales : Nat)
  /-- The guard of a variant holds, but the variant has no template for the locale. -/
  | variantLacks (index : Nat) (locale : Locale)
  | variantApplies (index : Nat) (locale : Locale)
  | resolved (locale : Locale) (template : Template)
  deriving DecidableEq

namespace Event

def level : Event → Level
  | .startUnsupported .. | .refused _ => .warn
  | .opened .. | .changed .. | .variantAdded .. | .variantApplies .. => .debug
  | .variantLacks .. | .resolved .. => .trace

def text : Event → String
  | .startUnsupported current supported =>
    "initial locale '" ++ current ++ "' is not one of " ++ Text.quotedList supported
  | .opened count current =>
    "created locale registry with " ++ Decimal.ofInt count ++ " locale(s), current '" ++
      current ++ "'"
  | .refused locale => "rejected change to unsupported locale '" ++ locale ++ "'"
  | .changed before after => "changing locale from '" ++ before ++ "' to '" ++ after ++ "'"
  | .variantAdded index locales =>
    "registering variation #" ++ Decimal.ofInt index ++ " covering " ++ Decimal.ofInt locales ++
      " locale(s)"
  | .variantLacks index locale =>
    "variation #" ++ Decimal.ofInt index ++ " matched but has no '" ++ locale ++ "' message"
  | .variantApplies index locale =>
    "variation #" ++ Decimal.ofInt index ++ " applies for locale '" ++ locale ++ "'"
  | .resolved locale template =>
    "resolved template for '" ++ locale ++ "': " ++ Text.quoted template.source

end Event

end Phrasebook
