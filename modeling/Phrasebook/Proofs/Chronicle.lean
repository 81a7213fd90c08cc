import Phrasebook.Proofs.Records
import Phrasebook.Proofs.Requests

/-!
# The log of a session

A session warns where it starts with a locale that is not supported and where it
refuses a request for a locale, and nowhere else (`run_warnings`). Each request that
it grants is on record as a move from the locale that was current to the one that is
so from then on. One after another these moves lead from the first locale to the
current one (`run_leads`), so the log has the whole history of the choice of locales.
-/

namespace Phrasebook

/-- The locales before and after the change that an event is about. -/
def Event.move? : Event → Option (Locale × Locale)
  | .changed before after => some (before, after)
  | _ => none

def Event.Quiet (e : Event) : Prop := e.level ≠ .warn ∧ e.move? = none

def warnings (events : List Event) : List (Level × String) :=
  (events.filter (·.level = .warn)).map Event.record

def moves (events : List Event) : List (Locale × Locale) := events.filterMap Event.move?

def logged (replies : List (Reply × Locale)) : List Event := replies.flatMap (·.1.events)

def refused (supported : List Locale) (steps : List Step) : List Locale :=
  (steps.filterMap Step.request?).filter (· ∉ supported)

/-- Moves from one locale to another, each from where the one before it went. -/
inductive Leads : Locale → List (Locale × Locale) → Locale → Prop
  | nil (locale : Locale) : Leads locale [] locale
  | cons {first middle last : Locale} {rest : List (Locale × Locale)} (h : Leads middle rest last) :
    Leads first ((first, middle) :: rest) last

/-- What is on record of a step, and the choice of locales before and after it. -/
inductive Logs (choice : LocaleChoice) : Step → List Event → LocaleChoice → Prop
  | quiet {s : Step} {events : List Event} (hrequest : s.request? = none)
    (h : ∀ e ∈ events, e.Quiet) : Logs choice s events choice
  | grants {locale : Locale} (h : locale ∈ choice.supported) :
    Logs choice (.changeLocale locale) [.changed choice.current locale]
      { choice with current := locale }
  | refuses {locale : Locale} (h : locale ∉ choice.supported) :
    Logs choice (.changeLocale locale) [.refused locale] choice

namespace LocaleChoice

def starting (choice : LocaleChoice) : Level × String :=
  (.warn, "initial locale '" ++ choice.current ++ "' is not one of " ++
    Text.quotedList choice.supported)

def refusing (locale : Locale) : Level × String :=
  (.warn, "rejected change to unsupported locale '" ++ locale ++ "'")

def moving (move : Locale × Locale) : Level × String :=
  (.debug, "changing locale from '" ++ move.1 ++ "' to '" ++ move.2 ++ "'")

end LocaleChoice

open LocaleChoice

variable {choice : LocaleChoice} {first middle last locale : Locale} {supported : List Locale}

-- ---------------------------------------------------------------------------
-- Events one after another
-- ---------------------------------------------------------------------------

theorem Leads.append {a b : List (Locale × Locale)} (ha : Leads first a middle)
    (hb : Leads middle b last) : Leads first (a ++ b) last := by
  induction ha with
  | nil => exact hb
  | cons _ ih => exact .cons (ih hb)

@[simp] theorem warnings_append (a b : List Event) :
    warnings (a ++ b) = warnings a ++ warnings b := by
  simp [warnings]

@[simp] theorem moves_append (a b : List Event) : moves (a ++ b) = moves a ++ moves b := by
  simp [moves]

theorem warnings_of_quiet {events : List Event} (h : ∀ e ∈ events, e.Quiet) :
    warnings events = [] := by
  simpa [warnings] using fun e he => (h e he).1

theorem moves_of_quiet {events : List Event} (h : ∀ e ∈ events, e.Quiet) : moves events = [] := by
  simpa [moves] using fun e he => (h e he).2

theorem Event.record_of_move? {e : Event} {move : Locale × Locale} (h : e.move? = some move) :
    e.record = moving move := by
  cases e with
  | changed before after =>
    obtain rfl : (before, after) = move := by simpa [move?] using h
    rfl
  | _ => simp [move?] at h

theorem map_record_moves (events : List Event) :
    (events.filter (·.move?.isSome)).map Event.record = (moves events).map moving := by
  induction events with
  | nil => rfl
  | cons e events ih =>
    cases h : e.move? with
    | none => simpa [moves, h] using ih
    | some move => simpa [moves, h, Event.record_of_move? h] using ih

theorem granted_cons (supported : List Locale) (s : Step) (steps : List Step) :
    granted supported (s :: steps) = granted supported [s] ++ granted supported steps := by
  cases hs : s.request? with
  | none => simp [granted, hs]
  | some locale => by_cases h : locale ∈ supported <;> simp [granted, hs, h]

theorem refused_cons (supported : List Locale) (s : Step) (steps : List Step) :
    refused supported (s :: steps) = refused supported [s] ++ refused supported steps := by
  cases hs : s.request? with
  | none => simp [refused, hs]
  | some locale => by_cases h : locale ∈ supported <;> simp [refused, hs, h]

-- ---------------------------------------------------------------------------
-- The events of a step
-- ---------------------------------------------------------------------------

@[simp] theorem record_startUnsupported :
    (Event.startUnsupported choice.current choice.supported).record = starting choice := rfl

@[simp] theorem record_refused : (Event.refused locale).record = refusing locale := rfl

@[simp] theorem record_changed : (Event.changed first last).record = moving (first, last) := rfl

theorem LocaleChoice.warnings_opening (choice : LocaleChoice) :
    warnings choice.opening =
      if choice.current ∈ choice.supported then [] else [starting choice] := by
  by_cases h : choice.current ∈ choice.supported <;>
    simp [opening, isAvailable, warnings, Event.level, h]

theorem LocaleChoice.moves_opening (choice : LocaleChoice) : moves choice.opening = [] := by
  by_cases h : choice.current ∈ choice.supported <;>
    simp [opening, isAvailable, moves, Event.move?, h]

namespace Logs

variable {next : LocaleChoice} {s : Step} {events : List Event}

theorem warnings_eq (h : Logs choice s events next) :
    warnings events = (refused choice.supported [s]).map refusing := by
  cases h with
  | quiet hrequest h => simp [warnings_of_quiet h, refused, hrequest]
  | grants h => simp [warnings, Event.level, refused, Step.request?, h]
  | refuses h => simp [warnings, Event.level, refused, Step.request?, h]

theorem moves_eq (h : Logs choice s events next) :
    moves events = (granted choice.supported [s]).map (choice.current, ·) := by
  cases h with
  | quiet hrequest h => simp [moves_of_quiet h, granted, hrequest]
  | grants h => simp [moves, Event.move?, granted, Step.request?, h]
  | refuses h => simp [moves, Event.move?, granted, Step.request?, h]

theorem leads (h : Logs choice s events next) :
    Leads choice.current (moves events) next.current := by
  cases h with
  | quiet hrequest h =>
    rw [moves_of_quiet h]
    exact .nil _
  | grants h => exact .cons (.nil _)
  | refuses h => exact .nil _

theorem supported_eq (h : Logs choice s events next) : next.supported = choice.supported := by
  cases h <;> rfl

end Logs

theorem LocaleChoice.changing_of_mem (h : locale ∈ choice.supported) :
    choice.changing locale = .changed choice.current locale := by
  simp [changing, isAvailable, h]

theorem LocaleChoice.changing_of_notMem (h : locale ∉ choice.supported) :
    choice.changing locale = .refused locale := by
  simp [changing, isAvailable, h]

namespace Phrase

variable {phrase : Phrase} {arguments : Arguments}

theorem quiet_search :
    ∀ e ∈ (search locale arguments 0 phrase.variants).events, e.Quiet := by
  have hevents := @search_events phrase locale arguments [] phrase.variants rfl
  rw [List.length_nil] at hevents
  intro e he
  rw [hevents, List.mem_append] at he
  rcases he with he | he
  · obtain ⟨index, -, rfl⟩ := List.mem_map.mp he
    simp [Event.Quiet, Event.level, Event.move?]
  · cases hs : (search locale arguments 0 phrase.variants).selection with
    | variant index template =>
      obtain rfl : e = .variantApplies index locale := by simpa [hs, Selection.events] using he
      simp [Event.Quiet, Event.level, Event.move?]
    | _ => simp [hs, Selection.events] at he

theorem quiet_resolved (template : Template) : (Event.resolved locale template).Quiet := by
  simp [Event.Quiet, Event.level, Event.move?]

theorem quiet_renderIn : ∀ e ∈ (phrase.renderIn locale arguments).events, e.Quiet := by
  intro e he
  cases hb : phrase.base.get? locale with
  | none => simp [renderIn, hb] at he
  | some base =>
    cases hs : (search locale arguments 0 phrase.variants).selection with
    | aborted reason => exact quiet_search e (by simpa [renderIn, hb, finish, hs] using he)
    | _ =>
      simp only [renderIn, hb, finish, hs, List.mem_append, List.mem_singleton] at he
      rcases he with he | rfl
      · exact quiet_search e he
      · exact quiet_resolved _

end Phrase

namespace Session

variable {session : Session}

theorem step_changeLocale_events (session : Session) (locale : Locale) :
    (session.step (.changeLocale locale)).1.events = [session.choice.changing locale] := by
  simp only [step, changeLocale]
  split <;> rfl

theorem quiet_plain {answer : Answer} : ∀ e ∈ (Reply.plain answer).events, e.Quiet := by
  simp [Reply.plain]

theorem quiet_about {number : Nat} {reply : Phrase → Reply}
    (h : ∀ phrase, ∀ e ∈ (reply phrase).events, e.Quiet) :
    ∀ e ∈ (session.about number reply).events, e.Quiet := by
  cases hphrase : session.phrases[number]? with
  | none => simpa [about, hphrase] using quiet_plain
  | some phrase => simpa [about, hphrase] using h phrase

theorem quiet_step {s : Step} (h : s.request? = none) :
    ∀ e ∈ (session.step s).1.events, e.Quiet := by
  cases s with
  | changeLocale locale => simp [Step.request?] at h
  | createPhrase source =>
    cases hread : source.read <;> simp [step, createPhrase, hread, Reply.plain]
  | addVariant number guard source =>
    cases hphrase : session.phrases[number]? with
    | none => simp [step, addVariant, hphrase, Reply.plain]
    | some phrase =>
      cases hread : source.read <;>
        simp [step, addVariant, hphrase, hread, Reply.plain, Phrase.addingVariant, Event.Quiet,
          Event.level, Event.move?]
  | render | renderIn => exact quiet_about fun _ => Phrase.quiet_renderIn
  | ask number index arguments =>
    refine quiet_about fun phrase => ?_
    cases hv : phrase.variants[index]? <;> simp [ask, hv, Reply.plain]
  | inspect | base | variants | choice | describe => exact quiet_about fun _ => quiet_plain
  | currentLocale | supported | isAvailable => exact quiet_plain

theorem step_logs (session : Session) (s : Step) :
    Logs session.choice s (session.step s).1.events (session.step s).2.choice := by
  cases hs : s.request? with
  | none =>
    have hother : ∀ locale, s ≠ .changeLocale locale := by
      rintro locale rfl
      simp [Step.request?] at hs
    rw [step_choice hother]
    exact .quiet hs (quiet_step hs)
  | some locale =>
    obtain rfl := Step.request?_eq_some.mp hs
    by_cases h : locale ∈ session.choice.supported
    · simpa [step_changeLocale_events, changing_of_mem h, step_changeLocale, h] using
        Logs.grants h
    · simpa [step_changeLocale_events, changing_of_notMem h, step_changeLocale, h] using
        Logs.refuses h

-- ---------------------------------------------------------------------------
-- The log of a run
-- ---------------------------------------------------------------------------

theorem logged_run_cons (session : Session) (s : Step) (steps : List Step) :
    logged (session.run (s :: steps)).1 =
      (session.step s).1.events ++ logged ((session.step s).2.run steps).1 := by
  simp [run, logged]

theorem run_warnings (session : Session) (steps : List Step) :
    warnings (logged (session.run steps).1) =
      (refused session.choice.supported steps).map refusing := by
  -- What is supported stays the same, so the rest of a run refuses by the same list.
  induction steps generalizing session with
  | nil => simp [run, logged, warnings, refused]
  | cons s steps ih =>
    have hlogs := session.step_logs s
    simp [logged_run_cons, hlogs.warnings_eq, ih, hlogs.supported_eq, refused_cons _ s steps]

theorem run_leads (session : Session) (steps : List Step) :
    Leads session.choice.current (moves (logged (session.run steps).1))
      (session.run steps).2.choice.current := by
  induction steps generalizing session with
  | nil => exact .nil _
  | cons s steps ih =>
    rw [logged_run_cons, moves_append, run_cons_session]
    exact (session.step_logs s).leads.append (ih _)

theorem run_moves (session : Session) (steps : List Step) :
    (moves (logged (session.run steps).1)).map Prod.snd =
      granted session.choice.supported steps := by
  induction steps generalizing session with
  | nil => simp [run, logged, moves, granted]
  | cons s steps ih =>
    have hlogs := session.step_logs s
    simp [logged_run_cons, hlogs.moves_eq, ih, hlogs.supported_eq, granted_cons _ s steps,
      Function.comp_def]

/-- What the log of a session says of the requests for locales after some steps, and what is on
record of each next step. -/
theorem log_of_run (choice : LocaleChoice) (steps : List Step) :
    let now := ((start choice).run steps).2
    let log := choice.opening ++ logged ((start choice).run steps).1
    warnings log =
        (if choice.current ∈ choice.supported then [] else [starting choice]) ++
          (refused choice.supported steps).map refusing ∧
      (log.filter (·.move?.isSome)).map Event.record = (moves log).map moving ∧
      Leads choice.current (moves log) now.choice.current ∧
      (moves log).map Prod.snd = granted choice.supported steps ∧
      (∀ move ∈ moves log, move.2 ∈ choice.supported) ∧
      (∀ s,
        warnings (now.step s).1.events = (refused choice.supported [s]).map refusing ∧
          moves (now.step s).1.events =
            (granted choice.supported [s]).map (now.choice.current, ·)) ∧
      ∀ locale,
        let reply := (now.step (.changeLocale locale)).1
        (reply.answer = .done →
            reply.events.map Event.record = [moving (now.choice.current, locale)]) ∧
          (reply.answer ≠ .done → reply.events.map Event.record = [refusing locale]) := by
  intro now log
  have hsupported : now.choice.supported = choice.supported := by
    rw [(start choice).run_choice steps]
    rfl
  have hmoves : moves log = moves (logged ((start choice).run steps).1) := by
    simp [log, choice.moves_opening]
  have hgranted : (moves log).map Prod.snd = granted choice.supported steps := by
    rw [hmoves]
    exact (start choice).run_moves steps
  refine ⟨?_, map_record_moves log, ?_, hgranted, fun move hmove => ?_, fun s => ?_,
    fun locale => ⟨fun h => ?_, fun h => ?_⟩⟩
  · rw [warnings_append, choice.warnings_opening, run_warnings]
    rfl
  · rw [hmoves]
    exact (start choice).run_leads steps
  · have hmem : move.2 ∈ granted choice.supported steps :=
      hgranted ▸ List.mem_map_of_mem hmove
    exact (mem_granted.mp hmem).2
  · rw [← hsupported]
    exact ⟨(now.step_logs s).warnings_eq, (now.step_logs s).moves_eq⟩
  · simp [step_changeLocale_events, changing_of_mem (step_changeLocale_done_iff.mp h)]
  · simp [step_changeLocale_events, changing_of_notMem (mt step_changeLocale_done_iff.mpr h)]

example :
    let choice : LocaleChoice := ⟨["en", "fr"], "de"⟩
    let steps : List Step :=
      [.changeLocale "fr", .createPhrase (.entries [("fr", ⟨"Oui"⟩)]), .changeLocale "pt",
        .render 0 .empty, .changeLocale "fr", .changeLocale "en"]
    let log := choice.opening ++ logged ((start choice).run steps).1
    warnings log =
        [(.warn, "initial locale 'de' is not one of [\"en\", \"fr\"]"),
          (.warn, "rejected change to unsupported locale 'pt'")] ∧
      moves log = [("de", "fr"), ("fr", "fr"), ("fr", "en")] := by
  decide +kernel

end Session

end Phrasebook
