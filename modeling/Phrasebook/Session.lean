import Phrasebook.LocaleChoice.Json
import Phrasebook.Phrase.Inspection
import Phrasebook.Translations.Json

/-!
# Sessions

A choice of locales and the phrases made with it, as a client uses them step by
step. Phrases are numbered from 0 in the order in which they are made. All
phrases follow the one choice: a change of the current locale shows in the next
rendering of each.
-/

namespace Phrasebook

inductive Source
  | entries (list : List (Locale × Template))
  | json (text : String)

def Source.read : Source → Except Json.Error Translations
  | .entries list => .ok (.ofList list)
  | .json text => Translations.ofJson text

inductive Step
  | changeLocale (locale : Locale)
  | currentLocale
  | supported
  | isAvailable (locale : Locale)
  | createPhrase (source : Source)
  | addVariant (phrase : Nat) (guard : Guard) (source : Source)
  | render (phrase : Nat) (arguments : Arguments)
  | renderIn (phrase : Nat) (locale : Locale) (arguments : Arguments)
  | ask (phrase index : Nat) (arguments : Arguments)
  | inspect (phrase : Nat)
  | base (phrase : Nat)
  | variants (phrase : Nat)
  | choice (phrase : Nat)
  | describe (phrase : Nat)

inductive Answer
  | done
  | locale (locale : Locale)
  | locales (locales : List Locale)
  | flag (b : Bool)
  | number (n : Nat)
  | outcome (outcome : Phrase.Outcome)
  | verdict (verdict : Verdict)
  | findings (findings : List Finding)
  | translations (translations : Translations)
  | translationsList (list : List Translations)
  | choice (choice : LocaleChoice)
  | texts (texts : List String)
  | unavailable (e : UnavailableLocale)
  | unreadable (e : Json.Error)
  | absent

/-- The answer to a step, the variants whose guards a rendering asked, and what is on
record of the step. -/
structure Reply where
  answer : Answer
  asked : List Nat
  events : List Event

def Reply.plain (answer : Answer) : Reply := ⟨answer, [], []⟩

def Reply.rendering (r : Phrase.Rendering) : Reply := ⟨.outcome r.outcome, r.asked, r.events⟩

structure Session where
  choice : LocaleChoice
  phrases : List Phrase

namespace Session

def start (choice : LocaleChoice) : Session := ⟨choice, []⟩

def about (session : Session) (phrase : Nat) (reply : Phrase → Reply) : Reply :=
  match session.phrases[phrase]? with
  | some phrase => reply phrase
  | none => .plain .absent

def changeLocale (session : Session) (locale : Locale) : Reply × Session :=
  let events := [session.choice.changing locale]
  match session.choice.change locale with
  | .ok choice => (⟨.done, [], events⟩, { session with choice })
  | .error e => (⟨.unavailable e, [], events⟩, session)

def createPhrase (session : Session) (source : Source) : Reply × Session :=
  match source.read with
  | .ok base =>
    (.plain (.number session.phrases.length),
      { session with phrases := session.phrases ++ [⟨base, []⟩] })
  | .error e => (.plain (.unreadable e), session)

def addVariant (session : Session) (number : Nat) (guard : Guard) (source : Source) :
    Reply × Session :=
  match session.phrases[number]?, source.read with
  | none, _ => (.plain .absent, session)
  | some _, .error e => (.plain (.unreadable e), session)
  | some phrase, .ok translations =>
    let v : Variant := ⟨guard, translations⟩
    (⟨.number (phrase.variants.length + 1), [], [phrase.addingVariant v]⟩,
      { session with phrases := session.phrases.set number (phrase.addVariant v) })

def ask (phrase : Phrase) (index : Nat) (arguments : Arguments) : Reply :=
  match phrase.variants[index]? with
  | some v => .plain (.verdict (v.guard arguments))
  | none => .plain .absent

def step (session : Session) : Step → Reply × Session
  | .changeLocale locale => session.changeLocale locale
  | .createPhrase source => session.createPhrase source
  | .addVariant phrase guard source => session.addVariant phrase guard source
  | .currentLocale => (.plain (.locale session.choice.current), session)
  | .supported => (.plain (.locales session.choice.supported), session)
  | .isAvailable locale => (.plain (.flag (session.choice.isAvailable locale)), session)
  | .render phrase arguments =>
    (session.about phrase fun p => .rendering (p.render session.choice arguments), session)
  | .renderIn phrase locale arguments =>
    (session.about phrase fun p => .rendering (p.renderIn locale arguments), session)
  | .ask phrase index arguments => (session.about phrase (ask · index arguments), session)
  | .inspect phrase =>
    (session.about phrase fun p => .plain (.findings (p.findings session.choice.supported)),
      session)
  | .base phrase => (session.about phrase fun p => .plain (.translations p.base), session)
  | .variants phrase =>
    (session.about phrase fun p => .plain (.translationsList (p.variants.map (·.translations))),
      session)
  | .choice phrase => (session.about phrase fun _ => .plain (.choice session.choice), session)
  | .describe phrase =>
    (session.about phrase fun p => .plain (.texts (p.variants.map Variant.describe)), session)

/-- The replies to some steps, each with the locale that is current after it, and the
session after all of them. -/
def run (session : Session) : List Step → List (Reply × Locale) × Session
  | [] => ([], session)
  | s :: steps =>
    let (reply, next) := session.step s
    let (replies, last) := next.run steps
    ((reply, next.choice.current) :: replies, last)

end Session

end Phrasebook
