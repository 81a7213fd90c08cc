import Phrasebook.Proofs.Findings
import Phrasebook.Proofs.Selection
import Phrasebook.Session

/-!
# Runs of a session

A step moves the current locale to a supported one or leaves the choice of
locales as it is (`step_changeLocale`, `step_choice`), so a current locale that
is supported stays so (`run_keeps`). Whether a rendering can fail for lack of a
template after some changes of the locale can therefore be read off the findings
(`render_text_iff`).
-/

namespace Phrasebook.Session

variable {session : Session}

-- ---------------------------------------------------------------------------
-- Steps
-- ---------------------------------------------------------------------------

theorem step_changeLocale (session : Session) (locale : Locale) :
    (session.step (.changeLocale locale)).2 =
      if locale ∈ session.choice.supported
        then { session with choice := { session.choice with current := locale } }
        else session := by
  simp only [step, changeLocale, LocaleChoice.change, LocaleChoice.isAvailable,
    List.contains_eq_mem, decide_eq_true_eq]
  by_cases h : locale ∈ session.choice.supported <;> simp [h]

theorem step_choice {s : Step} (h : ∀ locale, s ≠ .changeLocale locale) :
    (session.step s).2.choice = session.choice := by
  cases s with
  | changeLocale locale => exact (h locale rfl).elim
  | createPhrase source =>
    simp only [step, createPhrase]
    split <;> rfl
  | addVariant phrase guard source =>
    simp only [step, addVariant]
    split <;> rfl
  | _ => rfl

theorem step_keeps_choice (s : Step) :
    (session.step s).2.choice.supported = session.choice.supported ∧
      (session.choice.current ∈ session.choice.supported →
        (session.step s).2.choice.current ∈ session.choice.supported) := by
  by_cases hs : ∃ locale, s = .changeLocale locale
  · obtain ⟨locale, rfl⟩ := hs
    rw [step_changeLocale]
    split
    · next h => exact ⟨rfl, fun _ => h⟩
    · exact ⟨rfl, id⟩
  · rw [step_choice fun locale h => hs ⟨locale, h⟩]
    exact ⟨rfl, id⟩

theorem step_changeLocale_phrases (locale : Locale) :
    (session.step (.changeLocale locale)).2.phrases = session.phrases := by
  rw [step_changeLocale]
  split <;> rfl

theorem step_render {number : Nat} {phrase : Phrase} (h : session.phrases[number]? = some phrase)
    (arguments : Arguments) :
    (session.step (.render number arguments)).1.answer =
      .outcome (phrase.renderIn session.choice.current arguments).outcome := by
  simp only [step, about, h]
  rfl

-- ---------------------------------------------------------------------------
-- Runs
-- ---------------------------------------------------------------------------

theorem run_cons_session (session : Session) (s : Step) (steps : List Step) :
    (session.run (s :: steps)).2 = ((session.step s).2.run steps).2 := rfl

theorem run_keeps {motive : Session → Prop} {steps : List Step}
    (hstep : ∀ s ∈ steps, ∀ session : Session, motive session → motive (session.step s).2)
    (h : motive session) : motive (session.run steps).2 := by
  induction steps generalizing session with
  | nil => exact h
  | cons s steps ih =>
    obtain ⟨hs, hsteps⟩ := List.forall_mem_cons.mp hstep
    rw [run_cons_session]
    exact ih hsteps (hs session h)

/-- What is known of a session in which only the current locale has been asked to change. -/
structure Follows (start session : Session) : Prop where
  phrases : session.phrases = start.phrases
  supported : session.choice.supported = start.choice.supported
  current : session.choice.current ∈ start.choice.supported

theorem run_changeLocale_follows (h : session.choice.current ∈ session.choice.supported)
    (requests : List Locale) :
    Follows session (session.run (requests.map .changeLocale)).2 := by
  refine run_keeps ?_ ⟨rfl, rfl, h⟩
  intro s hs now hnow
  obtain ⟨locale, -, rfl⟩ := List.mem_map.mp hs
  obtain ⟨hsupported, hcurrent⟩ := now.step_keeps_choice (.changeLocale locale)
  rw [hnow.supported] at hsupported hcurrent
  exact ⟨(now.step_changeLocale_phrases locale).trans hnow.phrases, hsupported,
    hcurrent hnow.current⟩

/-- With guards that do not abort, no locale is missing exactly if every rendering gives a text,
whatever locales have been asked for. And no rendering is in a locale that is not supported. -/
theorem render_text_iff {number : Nat} {phrase : Phrase}
    (h : session.phrases[number]? = some phrase)
    (hcurrent : session.choice.current ∈ session.choice.supported)
    (hguards : ∀ v ∈ phrase.variants, ∀ arguments reason, v.guard arguments ≠ .aborts reason) :
    ((∀ locale, .missing locale ∉ phrase.findings session.choice.supported) ↔
      ∀ (requests : List Locale) (arguments : Arguments), ∃ s,
        ((session.run (requests.map .changeLocale)).2.step (.render number arguments)).1.answer =
          .outcome (.text s)) ∧
      ∀ (requests : List Locale) (origin : Origin),
        .unsupported (session.run (requests.map .changeLocale)).2.choice.current origin ∉
          phrase.findings session.choice.supported := by
  refine ⟨⟨fun hmissing requests arguments => ?_, fun htext locale hmem => ?_⟩, ?_⟩
  · have hnow := run_changeLocale_follows hcurrent requests
    obtain ⟨base, hb⟩ : ∃ base, phrase.base.get? _ = some base :=
      Option.ne_none_iff_exists'.mp fun hnone =>
        hmissing _ (Phrase.missing_mem_findings.mpr ⟨hnow.current, hnone⟩)
    obtain ⟨origin, template, -, hout⟩ :=
      Phrase.exists_selects hb fun v hv => hguards v hv arguments
    refine ⟨template.fill arguments, ?_⟩
    rw [step_render (hnow.phrases ▸ h), hout]
  · -- Asking for the locale that is missing makes it the current one.
    obtain ⟨hl, hb⟩ := Phrase.missing_mem_findings.mp hmem
    let moved : Session := { session with choice := { session.choice with current := locale } }
    have hmoved : moved.phrases[number]? = some phrase := h
    have hrun : (session.run [.changeLocale locale]).2 = moved :=
      (session.step_changeLocale locale).trans (if_pos hl)
    have hfails : phrase.Renders locale .empty (.noMessage locale) [] := .noMessage hb
    obtain ⟨s, hs⟩ := htext [locale] .empty
    rw [List.map_singleton, hrun, step_render hmoved, (Phrase.renderIn_of_renders hfails).1] at hs
    cases hs
  · intro requests origin hmem
    have hnow := run_changeLocale_follows hcurrent requests
    exact (Phrase.unsupported_mem_findings.mp hmem).1 hnow.current

theorem render_text_inbox :
    let phrase : Phrase :=
      ⟨.ofList [("en", ⟨"\x7bn\x7d new"⟩), ("fr", ⟨"\x7bn\x7d de plus"⟩), ("it", ⟨"\x7bn\x7d"⟩)],
        [⟨fun arguments => .ofBool (arguments.contains "n"), .ofList [("fr", ⟨"Rien"⟩)]⟩]⟩
    let session : Session := ⟨⟨["en", "fr"], "en"⟩, [phrase]⟩
    (∀ v ∈ phrase.variants, ∀ arguments reason, v.guard arguments ≠ .aborts reason) ∧
      .unsupported "it" .base ∈ phrase.findings session.choice.supported ∧
      ∀ (requests : List Locale) (arguments : Arguments),
        (session.run (requests.map .changeLocale)).2.choice.current ≠ "it" ∧ ∃ s,
          ((session.run (requests.map .changeLocale)).2.step (.render 0 arguments)).1.answer =
            .outcome (.text s) := by
  intro phrase session
  have hguards : ∀ v ∈ phrase.variants, ∀ arguments reason,
      v.guard arguments ≠ .aborts reason := by
    simp only [phrase, List.mem_singleton, forall_eq]
    intro arguments reason
    cases arguments.contains "n" <;> nofun
  have hunsupported : .unsupported "it" .base ∈ phrase.findings session.choice.supported := by
    decide +kernel
  have hmissing : ∀ locale, .missing locale ∉ phrase.findings session.choice.supported := by
    have hfindings : phrase.findings session.choice.supported = [.unsupported "it" .base] := by
      decide +kernel
    simp [hfindings]
  have hphrase : session.phrases[0]? = some phrase := rfl
  obtain ⟨htext, hlocale⟩ := render_text_iff hphrase List.mem_cons_self hguards
  refine ⟨hguards, hunsupported, fun requests arguments => ⟨fun hit => ?_, ?_⟩⟩
  · exact hlocale requests .base (hit ▸ hunsupported)
  · exact htext.mp hmissing requests arguments

end Phrasebook.Session
