import Phrasebook.Proofs.Requests

/-!
# What a rendering depends on

A step edits one phrase or none. What phrase stands under a number after a run is
decided by the edits of that phrase in their order (`run_phrases`), and the
current locale by the requests (`run_choice`), so neither notices how the two
kinds of steps are mixed. A rendering reads the phrase and a locale and nothing
else of a session (`rendering_depends`).
-/

namespace Phrasebook

inductive Edit
  | make (base : Translations)
  | extend (v : Variant)

def Edit.apply : Option Phrase → Edit → Option Phrase
  | _, .make base => some ⟨base, []⟩
  | phrase, .extend v => phrase.map (·.addVariant v)

/-- The number of the phrase that a step edits, where `made` phrases are there, and the edit. -/
def Step.edit? (made : Nat) : Step → Option (Nat × Edit)
  | .createPhrase source => source.read.toOption.map fun base => (made, .make base)
  | .addVariant number guard source =>
    if number < made then
      source.read.toOption.map fun translations => (number, .extend ⟨guard, translations⟩)
    else none
  | _ => none

/-- The edits of the phrase of a number in some steps, before which `made` phrases are there. -/
def edits (number : Nat) : (made : Nat) → List Step → List Edit
  | _, [] => []
  | made, s :: steps =>
    match s.edit? made with
    | none => edits number made steps
    | some (edited, edit) =>
      let rest := edits number (max made (edited + 1)) steps
      if edited = number then edit :: rest else rest

theorem getElem?_concat_of_ne {phrases : List Phrase} {phrase : Phrase} {number : Nat}
    (h : phrases.length ≠ number) : (phrases ++ [phrase])[number]? = phrases[number]? := by
  rcases Nat.lt_or_gt_of_ne h with hlt | hgt
  · have hshort : (phrases ++ [phrase]).length ≤ number := by rw [List.length_append]; exact hlt
    rw [List.getElem?_eq_none hshort, List.getElem?_eq_none (Nat.le_of_lt hlt)]
  · exact List.getElem?_append_left hgt

namespace Session

variable {session : Session} {s : Step} {number : Nat}

theorem step_phrases_of_none (h : s.edit? session.phrases.length = none) :
    (session.step s).2.phrases = session.phrases := by
  cases s with
  | changeLocale locale => exact step_changeLocale_phrases locale
  | createPhrase source =>
    simp only [step, createPhrase]
    cases hread : source.read with
    | ok base => simp [Step.edit?, hread, Except.toOption] at h
    | error e => rfl
  | addVariant phrase guard source =>
    simp only [step, addVariant]
    cases hread : source.read with
    | ok translations =>
      have hn : session.phrases.length ≤ phrase := by
        simpa [Step.edit?, hread, Except.toOption] using h
      rw [List.getElem?_eq_none hn]
    | error e => cases session.phrases[phrase]? <;> rfl
  | _ => rfl

theorem step_createPhrase_phrases {source : Source} {base : Translations}
    (h : source.read = .ok base) :
    (session.step (.createPhrase source)).2.phrases = session.phrases ++ [⟨base, []⟩] := by
  simp only [step, createPhrase, h]

theorem step_addVariant_phrases {guard : Guard} {source : Source} {translations : Translations}
    (h : source.read = .ok translations) (hn : number < session.phrases.length) :
    (session.step (.addVariant number guard source)).2.phrases =
      session.phrases.set number (session.phrases[number].addVariant ⟨guard, translations⟩) := by
  simp only [step, addVariant, h, List.getElem?_eq_getElem hn]

theorem step_phrases_of_some {edited : Nat} {edit : Edit}
    (h : s.edit? session.phrases.length = some (edited, edit)) (number : Nat) :
    (session.step s).2.phrases.length = max session.phrases.length (edited + 1) ∧
      (session.step s).2.phrases[number]? =
        if edited = number then edit.apply session.phrases[number]?
        else session.phrases[number]? := by
  cases s with
  | createPhrase source =>
    cases hread : source.read with
    | error e => simp [Step.edit?, hread, Except.toOption] at h
    | ok base =>
      obtain ⟨rfl, rfl⟩ : session.phrases.length = edited ∧ .make base = edit := by
        simpa [Step.edit?, hread, Except.toOption] using h
      rw [step_createPhrase_phrases hread]
      refine ⟨by simp, ?_⟩
      split
      · next hnumber => simp [← hnumber, Edit.apply]
      · next hnumber => exact getElem?_concat_of_ne hnumber
  | addVariant phrase guard source =>
    cases hread : source.read with
    | error e => simp [Step.edit?, hread, Except.toOption] at h
    | ok translations =>
      obtain ⟨hn, rfl, rfl⟩ : phrase < session.phrases.length ∧ phrase = edited ∧
          .extend ⟨guard, translations⟩ = edit := by
        simpa [Step.edit?, hread, Except.toOption] using h
      rw [step_addVariant_phrases hread hn]
      refine ⟨by simp; omega, ?_⟩
      rw [List.getElem?_set]
      split
      · next hnumber => simp [← hnumber, hn, Edit.apply]
      · rfl
  | _ => cases h

theorem run_phrases (session : Session) (steps : List Step) (number : Nat) :
    (session.run steps).2.phrases[number]? =
      (edits number session.phrases.length steps).foldl Edit.apply session.phrases[number]? := by
  induction steps generalizing session with
  | nil => rfl
  | cons s steps ih =>
    rw [run_cons_session, ih, edits]
    cases hs : s.edit? session.phrases.length with
    | none => rw [step_phrases_of_none hs]
    | some pair =>
      obtain ⟨edited, edit⟩ := pair
      obtain ⟨hlength, hphrase⟩ := step_phrases_of_some hs number
      rw [hlength, hphrase]
      by_cases h : edited = number
      · simp [h]
      · simp [h]

-- ---------------------------------------------------------------------------
-- Renderings
-- ---------------------------------------------------------------------------

theorem step_render_eq (session : Session) (number : Nat) (arguments : Arguments) :
    (session.step (.render number arguments)).1 =
      (session.step (.renderIn number session.choice.current arguments)).1 := rfl

theorem step_renderIn_congr {other : Session} {number' : Nat}
    (h : session.phrases[number]? = other.phrases[number']?) (locale : Locale)
    (arguments : Arguments) :
    (session.step (.renderIn number locale arguments)).1 =
      (other.step (.renderIn number' locale arguments)).1 := by
  simp only [step, about, h]

theorem render_eq_of_edits {choice : LocaleChoice} {steps steps' : List Step} {number' : Nat}
    (hrequests : steps.filterMap Step.request? = steps'.filterMap Step.request?)
    (hedits : edits number 0 steps = edits number' 0 steps') (arguments : Arguments) :
    (((start choice).run steps).2.step (.render number arguments)).1 =
      (((start choice).run steps').2.step (.render number' arguments)).1 := by
  have hcurrent : ((start choice).run steps).2.choice = ((start choice).run steps').2.choice := by
    rw [run_choice, run_choice, granted, granted, hrequests]
  have hphrase : ((start choice).run steps).2.phrases[number]? =
      ((start choice).run steps').2.phrases[number']? := by
    have hnone (n : Nat) : (start choice).phrases[n]? = none := rfl
    have hlength : (start choice).phrases.length = 0 := rfl
    rw [run_phrases, run_phrases, hlength, hnone, hnone, hedits]
  rw [step_render_eq, step_render_eq, hcurrent]
  exact step_renderIn_congr hphrase _ arguments

/-- A rendering is in the locale that was granted last. What was done when has no part in it, as
long as the requests keep their order and the edits of the phrase keep theirs. And a rendering in a
given locale has nothing to do with the choice of locales. -/
theorem rendering_depends (choice other : LocaleChoice) (steps steps' : List Step)
    (number number' : Nat) (arguments : Arguments) :
    let now := ((start choice).run steps).2
    let current := (granted choice.supported steps).getLastD choice.current
    (now.choice.current = current ∧
      (now.step (.render number arguments)).1 =
        (now.step (.renderIn number current arguments)).1) ∧
    (steps.filterMap Step.request? = steps'.filterMap Step.request? →
      edits number 0 steps = edits number' 0 steps' →
        (now.step (.render number arguments)).1 =
          (((start choice).run steps').2.step (.render number' arguments)).1) ∧
    (now.phrases[number]? = ((start other).run steps').2.phrases[number']? →
      ∀ locale,
        (now.step (.renderIn number locale arguments)).1 =
          (((start other).run steps').2.step (.renderIn number' locale arguments)).1) := by
  intro now current
  have hcurrent : now.choice.current = current := by
    rw [show now.choice = _ from (start choice).run_choice steps]
    rfl
  refine ⟨⟨hcurrent, ?_⟩, fun hrequests hedits => ?_, fun hphrase locale => ?_⟩
  · rw [← hcurrent]
    exact now.step_render_eq number arguments
  · exact render_eq_of_edits hrequests hedits arguments
  · exact step_renderIn_congr hphrase locale arguments

theorem rendering_depends_moved :
    let guard : Guard := (Condition.has "n").guard
    let mail : Source := .entries [("en", ⟨"Mail"⟩), ("fr", ⟨"Courrier"⟩)]
    let nothing : Source := .entries [("fr", ⟨"Rien"⟩)]
    let steps : List Step :=
      [.createPhrase mail, .addVariant 0 guard nothing, .changeLocale "de", .changeLocale "fr",
        .createPhrase nothing]
    let steps' : List Step :=
      [.createPhrase nothing, .changeLocale "de", .createPhrase mail, .render 1 .empty,
        .changeLocale "fr", .addVariant 1 guard nothing]
    let session := start ⟨["en", "fr"], "en"⟩
    let abroad := start ⟨["de"], "it"⟩
    let arguments : Arguments := .ofList [("n", .number 0)]
    steps.filterMap Step.request? = steps'.filterMap Step.request? ∧
      edits 0 0 steps = edits 1 0 steps' ∧
      ((session.run steps).2.step (.render 0 arguments)).1 =
        ((session.run steps').2.step (.render 1 arguments)).1 ∧
      ∀ locale,
        ((session.run steps).2.step (.renderIn 0 locale arguments)).1 =
          ((abroad.run steps').2.step (.renderIn 1 locale arguments)).1 := by
  intro guard mail nothing steps steps' session abroad arguments
  have hrequests : steps.filterMap Step.request? = steps'.filterMap Step.request? := rfl
  have hedits : edits 0 0 steps = edits 1 0 steps' := rfl
  have hphrase : (session.run steps).2.phrases[0]? = (abroad.run steps').2.phrases[1]? := rfl
  obtain ⟨-, hrender, hrenderIn⟩ :=
    rendering_depends ⟨["en", "fr"], "en"⟩ ⟨["de"], "it"⟩ steps steps' 0 1 arguments
  exact ⟨hrequests, hedits, hrender hrequests hedits, hrenderIn hphrase⟩

end Session

end Phrasebook
