import Phrasebook.Json.Reader
import Phrasebook.Json.Writer
import Phrasebook.Translations

/-!
# Translations as JSON

An object whose fields are the locales and whose values are the templates. In a
text that repeats a locale the last template counts.
-/

namespace Phrasebook.Translations

def tree (entries : List (Locale × Template)) : Json.Tree :=
  .object (entries.map fun entry => (.ofText entry.1, .ofText entry.2.source)) none

def toJson (translations : Translations) : String := (tree translations.entries).written

def readEntry (field : Json.Quotation × Json.Tree) : Except Json.Error (Locale × Template) := do
  let locale ← Json.sound field.1.text
  let template ← field.2.text
  .ok (locale, ⟨template⟩)

def ofTree : Json.Tree → Except Json.Error Translations
  | .object fields stop => do
    let entries ← fields.mapM readEntry
    Json.sound (Json.atEnd stop)
    .ok (ofList entries)
  | t => .error (t.unlike .map)

def ofJson (text : String) : Except Json.Error Translations := Json.readText ofTree text

end Phrasebook.Translations
