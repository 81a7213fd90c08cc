import Phrasebook.Json.Reader
import Phrasebook.Json.Writer
import Phrasebook.LocaleChoice

/-!
# The choice of a locale as JSON

An object with the fields `locales` and `current_locale`; other fields are
passed over. A list of exactly the two values in this order is read as well.
-/

namespace Phrasebook.LocaleChoice

inductive Field
  | locales
  | currentLocale
  deriving DecidableEq

def Field.name : Field → String
  | .locales => "locales"
  | .currentLocale => "current_locale"

def Field.ofName? (name : String) : Option Field :=
  if name = Field.locales.name then some .locales
  else if name = Field.currentLocale.name then some .currentLocale
  else none

def expected : Json.Expected := .record "RegistryOptions"

def tree (choice : LocaleChoice) : Json.Tree :=
  .object
    [(.ofText Field.locales.name, .list (choice.supported.map .ofText) none),
      (.ofText Field.currentLocale.name, .ofText choice.current)] none

def toJson (choice : LocaleChoice) : String := choice.tree.written

structure Draft where
  supported : Option (List Locale)
  current : Option Locale

namespace Draft

def empty : Draft := ⟨none, none⟩

/-- Reads one field. A field that counts stands at most once. -/
def readField (draft : Draft) (field : Json.Quotation × Json.Tree) :
    Except Json.Error Draft := do
  match Field.ofName? (← Json.sound field.1.text) with
  | some .locales =>
    if draft.supported.isSome then .error (.misfit (.duplicateField Field.locales.name))
    else .ok { draft with supported := some (← field.2.texts) }
  | some .currentLocale =>
    if draft.current.isSome then .error (.misfit (.duplicateField Field.currentLocale.name))
    else .ok { draft with current := some (← field.2.text) }
  | none =>
    Json.sound field.2.skip
    .ok draft

def finish : Draft → Except Json.Error LocaleChoice
  | ⟨some supported, some current⟩ => .ok ⟨supported, current⟩
  | ⟨none, _⟩ => .error (.misfit (.missingField Field.locales.name))
  | ⟨some _, none⟩ => .error (.misfit (.missingField Field.currentLocale.name))

end Draft

/-- Reads the two values of a list. A third one is out of place, whatever it is. -/
def ofItems (items : List Json.Tree) (stop : Option Json.Defect) :
    Except Json.Error LocaleChoice :=
  match items with
  | [] => do
    Json.sound (Json.atEnd stop)
    .error (.misfit (.tooShort 0 expected 2))
  | [first] => do
    let _ ← first.texts
    Json.sound (Json.atEnd stop)
    .error (.misfit (.tooShort 1 expected 2))
  | first :: second :: more => do
    let supported ← first.texts
    let current ← second.text
    if more.isEmpty then
      Json.sound (Json.atEnd stop)
      .ok ⟨supported, current⟩
    else .error .malformed

def ofTree : Json.Tree → Except Json.Error LocaleChoice
  | .list items stop => ofItems items stop
  | .object fields stop => do
    let draft ← fields.foldlM Draft.readField .empty
    Json.sound (Json.atEnd stop)
    draft.finish
  | t => .error (t.unlike expected)

def ofJson (text : String) : Except Json.Error LocaleChoice := Json.readText ofTree text

end Phrasebook.LocaleChoice
