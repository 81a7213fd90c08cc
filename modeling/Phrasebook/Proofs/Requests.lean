import Phrasebook.Proofs.Runs
import Phrasebook.Proofs.Suggestions

/-!
# Requests for a locale

Only a request for a supported locale has an effect on the choice of locales, and
it makes that locale the current one. After a run of steps the current locale is
therefore the one that was last granted (`run_choice`), whatever else the steps
do. A request that is refused leaves the session as it is and names locales that
the next request would be granted for (`run_follows_requests`).
-/

namespace Phrasebook

def Step.request? : Step → Option Locale
  | .changeLocale locale => some locale
  | _ => none

/-- The supported ones among the locales that some steps ask for, in order. -/
def granted (supported : List Locale) (steps : List Step) : List Locale :=
  (steps.filterMap Step.request?).filter (· ∈ supported)

theorem Step.request?_eq_some {s : Step} {locale : Locale} :
    s.request? = some locale ↔ s = .changeLocale locale := by
  cases s <;> simp [request?]

theorem mem_granted {supported : List Locale} {steps : List Step} {locale : Locale} :
    locale ∈ granted supported steps ↔ .changeLocale locale ∈ steps ∧ locale ∈ supported := by
  simp [granted, Step.request?_eq_some]

theorem granted_cons_none {supported : List Locale} {s : Step} (h : s.request? = none)
    (steps : List Step) : granted supported (s :: steps) = granted supported steps := by
  rw [granted, List.filterMap_cons_none h, granted]

theorem granted_changeLocale_cons (supported : List Locale) (locale : Locale)
    (steps : List Step) :
    granted supported (.changeLocale locale :: steps) =
      if locale ∈ supported then locale :: granted supported steps
      else granted supported steps := by
  have hrequest : (Step.changeLocale locale).request? = some locale := rfl
  simp only [granted, List.filterMap_cons_some hrequest, List.filter_cons, decide_eq_true_eq]

theorem getLastD_granted_mem {supported : List Locale} {steps : List Step} {first : Locale}
    (h : first ∈ supported ∨ ∃ locale ∈ supported, .changeLocale locale ∈ steps) :
    (granted supported steps).getLastD first ∈ supported := by
  have hgranted : ∀ locale ∈ granted supported steps, locale ∈ supported := fun _ hmem =>
    (mem_granted.mp hmem).2
  rcases h with hfirst | ⟨locale, hlocale, hstep⟩
  · rcases List.mem_cons.mp List.getLastD_mem_cons with h | h
    · rwa [h]
    · exact hgranted _ h
  · have hne : granted supported steps ≠ [] :=
      List.ne_nil_of_mem (mem_granted.mpr ⟨hstep, hlocale⟩)
    rw [List.getLastD_eq_getLast?, List.getLast?_eq_some_getLast hne, Option.getD_some]
    exact hgranted _ (List.getLast_mem hne)

namespace Session

variable {session : Session}

theorem step_changeLocale_answer (session : Session) (locale : Locale) :
    (session.step (.changeLocale locale)).1.answer =
      if locale ∈ session.choice.supported then .done
      else .unavailable ⟨locale, Spelling.suggestions locale session.choice.supported⟩ := by
  simp only [step, changeLocale, LocaleChoice.change, LocaleChoice.isAvailable,
    List.contains_eq_mem, decide_eq_true_eq]
  by_cases h : locale ∈ session.choice.supported <;> simp [h]

theorem step_changeLocale_done_iff {locale : Locale} :
    (session.step (.changeLocale locale)).1.answer = .done ↔
      locale ∈ session.choice.supported := by
  rw [step_changeLocale_answer]
  split
  · next h => exact iff_of_true rfl h
  · next h => exact iff_of_false nofun h

theorem step_changeLocale_refused {locale : Locale} (h : locale ∉ session.choice.supported) :
    let suggestions := Spelling.suggestions locale session.choice.supported
    (session.step (.changeLocale locale)).1.answer = .unavailable ⟨locale, suggestions⟩ ∧
      (session.step (.changeLocale locale)).2 = session ∧
      ∀ s ∈ suggestions, s ≠ locale ∧
        ((session.step (.changeLocale locale)).2.step (.changeLocale s)).1.answer = .done := by
  have hsame : (session.step (.changeLocale locale)).2 = session := by
    rw [step_changeLocale, if_neg h]
  refine ⟨(session.step_changeLocale_answer locale).trans (if_neg h), hsame, fun s hs => ?_⟩
  rw [hsame, step_changeLocale_done_iff]
  exact ⟨Spelling.ne_of_mem_suggestions hs, Spelling.mem_of_mem_suggestions hs⟩

theorem run_choice (session : Session) (steps : List Step) :
    (session.run steps).2.choice =
      { session.choice with
        current :=
          (granted session.choice.supported steps).getLastD session.choice.current } := by
  -- A granted request becomes the locale from which the rest of the run sets out.
  induction steps generalizing session with
  | nil => rfl
  | cons s steps ih =>
    rw [run_cons_session, ih]
    cases hs : s.request? with
    | none =>
      have hother : ∀ locale, s ≠ .changeLocale locale := by
        rintro locale rfl
        cases hs
      rw [step_choice hother, granted_cons_none hs]
    | some locale =>
      obtain rfl := Step.request?_eq_some.mp hs
      rw [step_changeLocale, granted_changeLocale_cons]
      by_cases h : locale ∈ session.choice.supported
      · rw [if_pos h, if_pos h, List.getLastD_cons]
      · rw [if_neg h, if_neg h]

/-- What a session knows of locales after some steps, and how it answers the next request. -/
theorem run_follows_requests (session : Session) (steps : List Step) :
    let supported := session.choice.supported
    let now := (session.run steps).2
    now.choice.supported = supported ∧
      now.choice.current = (granted supported steps).getLastD session.choice.current ∧
      ((session.choice.current ∈ supported ∨
          ∃ locale ∈ supported, .changeLocale locale ∈ steps) →
        now.choice.current ∈ supported) ∧
      ∀ locale,
        ((now.step (.changeLocale locale)).1.answer = .done ↔ locale ∈ supported) ∧
        (locale ∉ supported →
          let suggestions := Spelling.suggestions locale supported
          (now.step (.changeLocale locale)).1.answer = .unavailable ⟨locale, suggestions⟩ ∧
            (now.step (.changeLocale locale)).2 = now ∧
            ∀ s ∈ suggestions, s ≠ locale ∧
              ((now.step (.changeLocale locale)).2.step (.changeLocale s)).1.answer = .done) := by
  intro supported now
  have hchoice : now.choice = { session.choice with
      current := (granted supported steps).getLastD session.choice.current } :=
    session.run_choice steps
  have hsupported : now.choice.supported = supported := by rw [hchoice]
  have hcurrent : now.choice.current = (granted supported steps).getLastD session.choice.current :=
    by rw [hchoice]
  refine ⟨hsupported, hcurrent, fun h => hcurrent ▸ getLastD_granted_mem h, fun locale => ?_⟩
  rw [← hsupported]
  exact ⟨step_changeLocale_done_iff, step_changeLocale_refused⟩

theorem run_follows_requests_abroad :
    let session : Session := start ⟨["en", "fr", "en"], "de"⟩
    let steps : List Step :=
      [.changeLocale "pt", .createPhrase (.entries [("fr", ⟨"Oui"⟩)]), .changeLocale "fr",
        .addVariant 0 (fun _ => .aborts "stop") (.entries []), .render 0 .empty,
        .changeLocale "en-GB"]
    let now := (session.run steps).2
    session.choice.current ∉ session.choice.supported ∧ now.choice.current = "fr" ∧
      now.choice.current ∈ session.choice.supported ∧
      (now.step (.changeLocale "e")).1.answer = .unavailable ⟨"e", ["en", "en"]⟩ ∧
      (now.step (.changeLocale "e")).2 = now ∧
      ((now.step (.changeLocale "e")).2.step (.changeLocale "en")).1.answer = .done := by
  intro session steps now
  have hstart : session.choice.current ∉ session.choice.supported := by decide
  have hgranted : granted session.choice.supported steps = ["fr"] := by decide
  have hstep : .changeLocale "fr" ∈ steps := by simp [steps]
  have hrefused : "e" ∉ session.choice.supported := by decide
  have hsuggestions : Spelling.suggestions "e" session.choice.supported = ["en", "en"] := by
    decide +kernel
  obtain ⟨-, hcurrent, hmem, hrequest⟩ := run_follows_requests session steps
  obtain ⟨hanswer, hsame, hgrant⟩ := (hrequest "e").2 hrefused
  rw [hgranted] at hcurrent
  rw [hsuggestions] at hanswer hgrant
  exact ⟨hstart, hcurrent, hmem (.inr ⟨"fr", by decide, hstep⟩), hanswer, hsame,
    (hgrant "en" List.mem_cons_self).2⟩

end Session

end Phrasebook
