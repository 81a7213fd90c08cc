import Phrasebook.Condition
import Phrasebook.LocaleChoice

/-!
# Phrases

A phrase is one thing to say: base translations and variants that override them.
A variant counts where its guard holds and it has a template for the locale; the
first such variant is taken. The base decides which locales the phrase has at
all: where it has no template, no variant is asked.
-/

namespace Phrasebook

structure Variant where
  guard : Guard
  translations : Translations

/-- The text that names a variant in a report. Its guard cannot be shown. -/
def Variant.describe (v : Variant) : String :=
  "Variation \x7b messages: MessageSet \x7b templates: \x7b" ++
    Text.commaSeparated (v.translations.entries.map fun entry =>
      Text.quoted entry.1 ++ ": " ++ Text.quoted entry.2.source) ++
    "\x7d \x7d, .. \x7d"

/-- Base translations, and variants in the order of their precedence. -/
structure Phrase where
  base : Translations
  variants : List Variant

namespace Phrase

def addVariant (phrase : Phrase) (v : Variant) : Phrase :=
  { phrase with variants := phrase.variants ++ [v] }

def addingVariant (phrase : Phrase) (v : Variant) : Event :=
  .variantAdded phrase.variants.length v.translations.size

inductive Selection
  | base
  | variant (index : Nat) (template : Template)
  | aborted (reason : String)
  deriving DecidableEq

/-- The way through the variants: what it came to, the indexes of the variants whose
guards were asked, and what is on record of it. -/
structure Search where
  selection : Selection
  asked : List Nat
  events : List Event
  deriving DecidableEq

def Search.after (index : Nat) (events : List Event) (search : Search) : Search :=
  ⟨search.selection, index :: search.asked, events ++ search.events⟩

def search (locale : Locale) (arguments : Arguments) : (index : Nat) → List Variant → Search
  | _, [] => ⟨.base, [], []⟩
  | index, v :: rest =>
    match v.guard arguments with
    | .aborts reason => ⟨.aborted reason, [index], []⟩
    | .fails => (search locale arguments (index + 1) rest).after index []
    | .holds =>
      match v.translations.get? locale with
      | some template => ⟨.variant index template, [index], [.variantApplies index locale]⟩
      | none =>
        (search locale arguments (index + 1) rest).after index [.variantLacks index locale]

inductive Outcome
  | text (s : String)
  | noMessage (locale : Locale)
  | aborted (reason : String)
  deriving DecidableEq

structure Rendering where
  outcome : Outcome
  asked : List Nat
  events : List Event
  deriving DecidableEq

def noMessageText (locale : Locale) : String := "no message found for locale '" ++ locale ++ "'"

def finish (locale : Locale) (arguments : Arguments) (base : Template) (s : Search) : Rendering :=
  let filled (template : Template) : Rendering :=
    ⟨.text (template.fill arguments), s.asked, s.events ++ [.resolved locale template]⟩
  match s.selection with
  | .base => filled base
  | .variant _ template => filled template
  | .aborted reason => ⟨.aborted reason, s.asked, s.events⟩

def renderIn (phrase : Phrase) (locale : Locale) (arguments : Arguments) : Rendering :=
  match phrase.base.get? locale with
  | none => ⟨.noMessage locale, [], []⟩
  | some base => finish locale arguments base (search locale arguments 0 phrase.variants)

def render (phrase : Phrase) (choice : LocaleChoice) (arguments : Arguments) : Rendering :=
  phrase.renderIn choice.current arguments

end Phrase

end Phrasebook
