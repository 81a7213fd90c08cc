import Phrasebook.Finding
import Phrasebook.Phrase

/-!
# Inspecting a phrase

The findings on a phrase, kind by kind. Only templates are looked at: no guard is
asked, and the current locale does not matter. Each finding is listed once, where
it comes up first.
-/

namespace Phrasebook

def insertName (name : String) : List String → List String
  | [] => [name]
  | first :: rest =>
    if name < first then name :: first :: rest
    else if name = first then first :: rest
    else first :: insertName name rest

def ascendingNames (names : List String) : List String := names.foldr insertName []

/-- The names that have come up before, at each place where one comes up again. -/
def repeatsAfter (seen : List String) : List String → List String
  | [] => []
  | name :: names =>
    if name ∈ seen then name :: repeatsAfter seen names
    else repeatsAfter (name :: seen) names

namespace Template

def nameSet (t : Template) : List String := ascendingNames t.placeholders

end Template

namespace Phrase

def variantSources (phrase : Phrase) : List (Origin × Translations) :=
  phrase.variants.mapIdx fun index v => (.variant index, v.translations)

def sources (phrase : Phrase) : List (Origin × Translations) :=
  (.base, phrase.base) :: phrase.variantSources

def missing (supported : List Locale) (base : Translations) : List Finding :=
  (supported.filter fun locale => !base.contains locale).map .missing

def unsupported (supported : List Locale) (source : Origin × Translations) : List Finding :=
  (source.2.locales.filter fun locale => !supported.contains locale).map
    fun locale => .unsupported locale source.1

/-- The base template with which the others are compared: the one of the first supported
locale that has one. -/
def reference? (supported : List Locale) (base : Translations) : Option (Locale × Template) :=
  supported.findSome? fun locale => (base.get? locale).map fun template => (locale, template)

def mismatches (supported : List Locale) (base : Translations) : List Finding :=
  match reference? supported base with
  | none => []
  | some reference =>
    (base.entries.filter fun entry =>
        entry.1 != reference.1 && entry.2.nameSet != reference.2.nameSet).map
      fun entry => .mismatch entry.1 reference.2.nameSet entry.2.nameSet

def unknown (base : Translations) (source : Origin × Translations) : List Finding :=
  source.2.entries.flatMap fun entry =>
    match base.get? entry.1 with
    | none => []
    | some known =>
      (entry.2.placeholders.filter fun name => !known.placeholders.contains name).map
        fun name => .unknown entry.1 source.1 name

def repeated (source : Origin × Translations) : List Finding :=
  source.2.entries.flatMap fun entry =>
    (repeatsAfter [] entry.2.placeholders).map fun name => .repeated entry.1 source.1 name

def findings (phrase : Phrase) (supported : List Locale) : List Finding :=
  (missing supported phrase.base ++
    phrase.sources.flatMap (unsupported supported) ++
    mismatches supported phrase.base ++
    phrase.variantSources.flatMap (unknown phrase.base) ++
    phrase.sources.flatMap repeated).eraseDups

end Phrase

end Phrasebook
