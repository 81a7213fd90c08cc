import Phrasebook.Proofs.Dependence
import Phrasebook.Proofs.Quoting

/-!
# What is on record of a rendering

On its way through the variants a search puts on record each one whose guard holds
and that lacks the locale, and at last the one that applies (`search_events`). A
rendering that comes to a text adds the template from which it is made.
`Phrase.Reports` has all that is on record of a rendering, one rule for each way it
can go.

A variant is named by its index. It was announced under this index when it was added
to its phrase, after whatever steps (`run_announcements`). A template is quoted, which
loses nothing of it (`resolving_inj`).
-/

namespace Phrasebook

def Event.record (e : Event) : Level × String := (e.level, e.text)

def Variant.Lacks (v : Variant) (locale : Locale) (arguments : Arguments) : Prop :=
  v.guard arguments = .holds ∧ v.translations.get? locale = none

instance (v : Variant) (locale : Locale) (arguments : Arguments) :
    Decidable (v.Lacks locale arguments) :=
  inferInstanceAs (Decidable (_ ∧ _))

namespace Phrase

def LacksAt (phrase : Phrase) (locale : Locale) (arguments : Arguments) (index : Nat) : Prop :=
  ∃ v ∈ phrase.variants[index]?, v.Lacks locale arguments

instance (phrase : Phrase) (locale : Locale) (arguments : Arguments) :
    DecidablePred (phrase.LacksAt locale arguments) := fun index =>
  inferInstanceAs (Decidable (∃ v ∈ phrase.variants[index]?, v.Lacks locale arguments))

def skipping (locale : Locale) (index : Nat) : Level × String :=
  (.trace, "variation #" ++ Decimal.ofInt index ++ " matched but has no '" ++ locale ++
    "' message")

def applying (locale : Locale) (index : Nat) : Level × String :=
  (.debug, "variation #" ++ Decimal.ofInt index ++ " applies for locale '" ++ locale ++ "'")

def resolving (locale : Locale) (template : Template) : Level × String :=
  (.trace, "resolved template for '" ++ locale ++ "': " ++ Text.quoted template.source)

def lacking (phrase : Phrase) (locale : Locale) (arguments : Arguments) (indexes : List Nat) :
    List (Level × String) :=
  (indexes.filter (phrase.LacksAt locale arguments)).map (skipping locale)

/-- The ways a rendering can go: its outcome, the variants whose guards are asked, and what is on
record of it. -/
inductive Reports (phrase : Phrase) (locale : Locale) (arguments : Arguments) :
    Outcome → (asked : List Nat) → (log : List (Level × String)) → Prop
  | noMessage :
      phrase.base.get? locale = none →
      Reports phrase locale arguments (.noMessage locale) [] []
  | base {template} :
      phrase.Selects locale arguments .base template →
      Reports phrase locale arguments (.text (template.fill arguments))
        (List.range phrase.variants.length)
        (phrase.lacking locale arguments (List.range phrase.variants.length) ++
          [resolving locale template])
  | variant {index template} :
      phrase.Selects locale arguments (.variant index) template →
      Reports phrase locale arguments (.text (template.fill arguments)) (List.range (index + 1))
        (phrase.lacking locale arguments (List.range (index + 1)) ++
          [applying locale index, resolving locale template])
  | aborted {base before v after reason} :
      phrase.base.get? locale = some base →
      phrase.variants = before ++ v :: after →
      (∀ u ∈ before, u.PassedOver locale arguments) →
      v.guard arguments = .aborts reason →
      Reports phrase locale arguments (.aborted reason) (List.range (before.length + 1))
        (phrase.lacking locale arguments (List.range before.length))

variable {phrase : Phrase} {locale : Locale} {arguments : Arguments}

-- ---------------------------------------------------------------------------
-- Searches
-- ---------------------------------------------------------------------------

def Selection.events (locale : Locale) : Selection → List Event
  | .variant index _ => [.variantApplies index locale]
  | .base | .aborted _ => []

theorem lacksAt_length {before after : List Variant} {v : Variant}
    (h : phrase.variants = before ++ v :: after) :
    phrase.LacksAt locale arguments before.length ↔ v.Lacks locale arguments := by
  simp [LacksAt, h]

/-- On record of a search are those among the variants it asks that lack the locale, and then the
one that applies. -/
theorem search_events {before rest : List Variant} (h : phrase.variants = before ++ rest) :
    (search locale arguments before.length rest).events =
      ((search locale arguments before.length rest).asked.filter
        (phrase.LacksAt locale arguments)).map (.variantLacks · locale) ++
      (search locale arguments before.length rest).selection.events locale := by
  induction rest generalizing before with
  | nil => rfl
  | cons v rest ih =>
    have hlacks : phrase.LacksAt locale arguments before.length ↔ v.Lacks locale arguments :=
      lacksAt_length h
    have hrest := @ih (before ++ [v]) (by simp [h])
    rw [List.length_append, List.length_singleton] at hrest
    cases hg : v.guard arguments with
    | aborts reason => simp [search, hg, hlacks, Variant.Lacks, Selection.events]
    | fails => simp [search, hg, hlacks, Variant.Lacks, Search.after, hrest]
    | holds =>
      cases ht : v.translations.get? locale with
      | some template => simp [search, hg, ht, hlacks, Variant.Lacks, Selection.events]
      | none => simp [search, hg, ht, hlacks, Variant.Lacks, Search.after, hrest]

@[simp] theorem record_variantLacks :
    (Event.variantLacks index locale).record = skipping locale index := rfl

@[simp] theorem record_variantApplies :
    (Event.variantApplies index locale).record = applying locale index := rfl

@[simp] theorem record_resolved :
    (Event.resolved locale template).record = resolving locale template := rfl

theorem resolving_inj {template' : Template} :
    resolving locale template = resolving locale template' ↔ template = template' := by
  refine ⟨fun h => ?_, congrArg _⟩
  have hquoted := (String.append_right_inj _).mp (congrArg Prod.snd h)
  cases template
  cases template'
  exact congrArg Template.mk (Text.quoted_inj.mp hquoted)

theorem map_record_search (phrase : Phrase) (locale : Locale) (arguments : Arguments) :
    (search locale arguments 0 phrase.variants).events.map Event.record =
      phrase.lacking locale arguments (search locale arguments 0 phrase.variants).asked ++
      ((search locale arguments 0 phrase.variants).selection.events locale).map Event.record := by
  have hevents := @search_events phrase locale arguments [] phrase.variants rfl
  rw [List.length_nil] at hevents
  simp [hevents, lacking]

-- ---------------------------------------------------------------------------
-- Renderings
-- ---------------------------------------------------------------------------

theorem lacking_stop {before after : List Variant} {v : Variant}
    (h : phrase.variants = before ++ v :: after) (hv : ¬ v.Lacks locale arguments) :
    phrase.lacking locale arguments (List.range (before.length + 1)) =
      phrase.lacking locale arguments (List.range before.length) := by
  simp [lacking, List.range_succ, lacksAt_length h, hv]

theorem Reports.renders {outcome : Outcome} {asked : List Nat} {log : List (Level × String)}
    (h : phrase.Reports locale arguments outcome asked log) :
    phrase.Renders locale arguments outcome asked := by
  cases h with
  | noMessage hb => exact .noMessage hb
  | base hs => exact .base hs
  | variant hs => exact .variant hs
  | aborted hb hvariants hpassed hg => exact .aborted hb hvariants hpassed hg

theorem Renders.reports {outcome : Outcome} {asked : List Nat}
    (h : phrase.Renders locale arguments outcome asked) :
    ∃ log, phrase.Reports locale arguments outcome asked log := by
  cases h with
  | noMessage hb => exact ⟨_, .noMessage hb⟩
  | base hs => exact ⟨_, .base hs⟩
  | variant hs => exact ⟨_, .variant hs⟩
  | aborted hb hvariants hpassed hg => exact ⟨_, .aborted hb hvariants hpassed hg⟩

theorem log_of_reports {outcome : Outcome} {asked : List Nat} {log : List (Level × String)}
    (h : phrase.Reports locale arguments outcome asked log) :
    (phrase.renderIn locale arguments).events.map Event.record = log := by
  have hsearch := phrase.map_record_search locale arguments
  cases h with
  | noMessage hb => simp [renderIn, hb]
  | base hs =>
    cases hs with
    | base hb hpassed =>
      obtain ⟨hselection, hask⟩ := search_base hpassed
      rw [hselection, hask] at hsearch
      simp [renderIn, hb, finish, hselection, hsearch, Selection.events]
  | variant hs =>
    cases hs with
    | @variant base before v after template hb hvariants hpassed ha =>
      obtain ⟨hselection, hask⟩ := search_stop hpassed (search_applies ha _ after)
      rw [← hvariants] at hselection hask
      rw [hselection, hask] at hsearch
      simp [renderIn, hb, finish, hselection, hsearch, Selection.events]
  | @aborted base before v after reason hb hvariants hpassed hg =>
    obtain ⟨hselection, hask⟩ := search_stop hpassed (search_aborts hg _ after)
    have hlacks : ¬ v.Lacks locale arguments := by simp [Variant.Lacks, hg]
    rw [← hvariants] at hselection hask
    rw [hselection, hask, lacking_stop hvariants hlacks] at hsearch
    simp [renderIn, hb, finish, hselection, hsearch, Selection.events]

theorem exists_reports (phrase : Phrase) (locale : Locale) (arguments : Arguments) :
    ∃ outcome asked log, phrase.Reports locale arguments outcome asked log := by
  obtain ⟨outcome, asked, h⟩ := exists_renders phrase locale arguments
  exact ⟨outcome, asked, h.reports⟩

theorem reports_renderIn (phrase : Phrase) (locale : Locale) (arguments : Arguments) :
    phrase.Reports locale arguments (phrase.renderIn locale arguments).outcome
      (phrase.renderIn locale arguments).asked
      ((phrase.renderIn locale arguments).events.map Event.record) := by
  obtain ⟨outcome, asked, log, h⟩ := exists_reports phrase locale arguments
  obtain ⟨rfl, rfl⟩ := renderIn_of_renders h.renders
  exact log_of_reports h ▸ h

end Phrase

-- ---------------------------------------------------------------------------
-- Announcements
-- ---------------------------------------------------------------------------

def Step.addsTo (number : Nat) : Step → Bool
  | .addVariant phrase .. => phrase == number
  | _ => false

/-- What is on record of the steps that add a variant to the phrase of a number. -/
def announcements (number : Nat) (steps : List Step) (replies : List (Reply × Locale)) :
    List (Level × String) :=
  (steps.zip replies).flatMap fun (s, reply, _) =>
    if s.addsTo number then reply.events.map Event.record else []

def announcing (index : Nat) (v : Variant) : Level × String :=
  (.debug, "registering variation #" ++ Decimal.ofInt index ++ " covering " ++
    Decimal.ofInt v.translations.size ++ " locale(s)")

@[simp] theorem record_addingVariant (phrase : Phrase) (v : Variant) :
    (phrase.addingVariant v).record = announcing phrase.variants.length v := rfl

def announced (phrase? : Option Phrase) : List (Level × String) :=
  phrase?.elim [] fun phrase => phrase.variants.mapIdx announcing

namespace Session

theorem step_announced (session : Session) (s : Step) (number : Nat) :
    announced (session.step s).2.phrases[number]? =
      announced session.phrases[number]? ++
        if s.addsTo number then (session.step s).1.events.map Event.record else [] := by
  cases s with
  | changeLocale locale => simp [step_changeLocale_phrases, Step.addsTo]
  | createPhrase source =>
    cases hread : source.read with
    | error e => simp [step, createPhrase, hread, Step.addsTo]
    | ok base =>
      rw [step_createPhrase_phrases hread]
      by_cases hnumber : session.phrases.length = number
      · simp [← hnumber, announced, Step.addsTo]
      · simp [getElem?_concat_of_ne hnumber, Step.addsTo]
  | addVariant other guard source =>
    cases hphrase : session.phrases[other]? with
    | none => simp [step, addVariant, hphrase, Reply.plain]
    | some phrase =>
      cases hread : source.read with
      | error e => simp [step, addVariant, hphrase, hread, Reply.plain]
      | ok translations =>
        by_cases hnumber : other = number
        · subst hnumber
          have hlt := (List.getElem?_eq_some_iff.mp hphrase).1
          simp [step, addVariant, hread, hlt, announced, Phrase.addVariant, Step.addsTo]
        · simp [step, addVariant, hphrase, hread, hnumber, Step.addsTo]
  | _ => simp [step, Step.addsTo]

theorem run_announcements (session : Session) (steps : List Step) (number : Nat) :
    announced (session.run steps).2.phrases[number]? =
      announced session.phrases[number]? ++ announcements number steps (session.run steps).1 := by
  induction steps generalizing session with
  | nil => simp [run, announcements]
  | cons s steps ih =>
    have hrest := ih (session.step s).2
    rw [step_announced, List.append_assoc] at hrest
    exact hrest

/-- What is on record of a rendering, whichever way it goes. The indexes in it are those under which
the variants were announced, one after another, when they were added. -/
theorem rendering_on_record (phrase : Phrase) (locale : Locale) (arguments : Arguments)
    (choice : LocaleChoice) (steps : List Step) (number : Nat) :
    (∀ outcome asked log,
      phrase.Reports locale arguments outcome asked log ↔
        (phrase.renderIn locale arguments).outcome = outcome ∧
        (phrase.renderIn locale arguments).asked = asked ∧
        (phrase.renderIn locale arguments).events.map Event.record = log) ∧
    (((start choice).run steps).2.phrases[number]? = some phrase →
      announcements number steps ((start choice).run steps).1 =
        phrase.variants.mapIdx announcing) := by
  refine ⟨fun outcome asked log => ⟨fun h => ?_, ?_⟩, fun hphrase => ?_⟩
  · obtain ⟨houtcome, hasked⟩ := Phrase.renderIn_of_renders h.renders
    exact ⟨houtcome, hasked, Phrase.log_of_reports h⟩
  · rintro ⟨rfl, rfl, rfl⟩
    exact phrase.reports_renderIn locale arguments
  · have hrun := (start choice).run_announcements steps number
    rw [hphrase] at hrun
    exact hrun.symm

theorem rendering_on_record_quoted :
    let choice : LocaleChoice := ⟨["en", "fr"], "en"⟩
    let holds : Guard := fun _ => .holds
    let fails : Guard := fun _ => .fails
    let base : List (Locale × Template) := [("en", ⟨"Hello"⟩)]
    let quoted : List (Locale × Template) := [("en", ⟨"\"Hi\""⟩)]
    let abroad : List (Locale × Template) := [("fr", ⟨"Salut"⟩), ("de", ⟨"Hallo"⟩)]
    let steps : List Step :=
      [.addVariant 0 holds (.entries quoted), .createPhrase (.entries base),
        .addVariant 0 holds (.entries abroad), .changeLocale "fr",
        .addVariant 0 fails (.entries quoted), .addVariant 0 holds (.entries quoted)]
    let phrase : Phrase :=
      ⟨.ofList base, [⟨holds, .ofList abroad⟩, ⟨fails, .ofList quoted⟩, ⟨holds, .ofList quoted⟩]⟩
    ((start choice).run steps).2.phrases[0]? = some phrase ∧
      announcements 0 steps ((start choice).run steps).1 =
        [(.debug, "registering variation #0 covering 2 locale(s)"),
          (.debug, "registering variation #1 covering 1 locale(s)"),
          (.debug, "registering variation #2 covering 1 locale(s)")] ∧
      (phrase.renderIn "en" .empty).events.map Event.record =
        [(.trace, "variation #0 matched but has no 'en' message"),
          (.debug, "variation #2 applies for locale 'en'"),
          (.trace, "resolved template for 'en': \"\\\"Hi\\\"\"")] := by
  intro choice holds fails base quoted abroad steps phrase
  have hphrase : ((start choice).run steps).2.phrases[0]? = some phrase := rfl
  obtain ⟨hreports, hannounced⟩ := rendering_on_record phrase "en" .empty choice steps 0
  have hselects : phrase.Selects "en" .empty (.variant 2) ⟨"\"Hi\""⟩ := by
    have hbase : phrase.base.get? "en" = some ⟨"Hello"⟩ := by decide +kernel
    have hlacks : (Translations.ofList abroad).get? "en" = none := by decide +kernel
    have hpassed : ∀ u ∈ phrase.variants.take 2, u.PassedOver "en" .empty := by
      simp [phrase, Variant.PassedOver, holds, fails, hlacks]
    exact .variant hbase rfl hpassed ⟨rfl, by decide +kernel⟩
  obtain ⟨-, -, hlog⟩ := (hreports _ _ _).mp (.variant hselects)
  refine ⟨hphrase, (hannounced hphrase).trans ?_, hlog.trans ?_⟩
  · decide +kernel
  · decide +kernel

end Session

end Phrasebook
