import Phrasebook.Proofs.Dependence

/-!
# Steps that others do not notice

A step that only asks, or that is refused, leaves the session as it is, so the
other steps have the same replies without it (`run_without`). A phrase keeps the
base it was made with and has the variants that were added to it, in their order
(`run_phrases_iff`). What is done to one phrase shows in no reply about another:
two sessions that differ in one phrase only still do so after the same step
(`Apart.step`).
-/

namespace Phrasebook

def without : (deleted : Nat → Bool) → List α → List α
  | _, [] => []
  | deleted, a :: as =>
    let rest := without (fun i => deleted (i + 1)) as
    if deleted 0 then rest else a :: rest

namespace Step

def asks : Step → Bool
  | .changeLocale _ | .createPhrase _ | .addVariant .. => false
  | _ => true

def subject? : Step → Option Nat
  | .addVariant phrase .. | .render phrase _ | .renderIn phrase .. | .ask phrase .. => some phrase
  | .inspect phrase | .base phrase | .variants phrase | .choice phrase => some phrase
  | .describe phrase => some phrase
  | .changeLocale _ | .currentLocale | .supported | .isAvailable _ | .createPhrase _ => none

/-- A step without effect where `supported` are the supported locales: it only asks, or it is
refused. -/
inductive Idle (supported : List Locale) : Step → Prop
  | asks {s : Step} (h : s.asks) : Idle supported s
  | refused {locale : Locale} (h : locale ∉ supported) : Idle supported (.changeLocale locale)
  | unreadable {source : Source} {e : Json.Error} (h : source.read = .error e) :
    Idle supported (.createPhrase source)

def base? : Step → Option Translations
  | .createPhrase source => source.read.toOption
  | _ => none

theorem base?_eq_some {s : Step} {base : Translations} :
    s.base? = some base ↔ ∃ source, s = .createPhrase source ∧ source.read = .ok base := by
  cases s with
  | createPhrase source => cases h : source.read <;> simp [base?, h, Except.toOption]
  | _ => simp [base?]

def extension? (number : Nat) : Step → Option Variant
  | .addVariant phrase guard source =>
    if phrase = number then source.read.toOption.map fun translations => ⟨guard, translations⟩
    else none
  | _ => none

end Step

def bases (steps : List Step) : List Translations := steps.filterMap Step.base?

def extensions (number : Nat) (steps : List Step) : List Variant :=
  steps.filterMap (Step.extension? number)

-- ---------------------------------------------------------------------------
-- Edits of one phrase
-- ---------------------------------------------------------------------------

theorem Step.edit?_of_lt {number made : Nat} (h : number < made) (s : Step) :
    (s.edit? made).bind (fun e => if e.1 = number then some e.2 else none) =
      (s.extension? number).map .extend := by
  cases s with
  | createPhrase source =>
    have hne : made ≠ number := by omega
    cases hread : source.read <;> simp [edit?, extension?, hread, Except.toOption, hne]
  | addVariant phrase guard source =>
    by_cases hphrase : phrase = number
    · cases hread : source.read <;> simp [edit?, extension?, hread, Except.toOption, hphrase, h]
    · cases hread : source.read with
      | error e => simp [edit?, extension?, hread, Except.toOption, hphrase]
      | ok translations =>
        by_cases hn : phrase < made <;>
          simp [edit?, extension?, hread, Except.toOption, hphrase, hn]
  | _ => rfl

/-- Once a phrase is there, it is only ever extended. -/
theorem edits_of_lt {number made : Nat} (h : number < made) (steps : List Step) :
    edits number made steps = (extensions number steps).map .extend := by
  induction steps generalizing made with
  | nil => rfl
  | cons s steps ih =>
    have hedit := s.edit?_of_lt h
    have hextensions : extensions number (s :: steps) =
        (s.extension? number).toList ++ extensions number steps := by
      rw [extensions, List.filterMap_cons]
      cases s.extension? number <;> rfl
    rw [edits, hextensions, List.map_append]
    cases hs : s.edit? made with
    | none =>
      have hnone : s.extension? number = none := by simpa [hs] using hedit.symm
      simp [hnone, ih h]
    | some pair =>
      obtain ⟨edited, edit⟩ := pair
      have hlater : number < max made (edited + 1) := by omega
      have hrest := ih hlater
      by_cases hnumber : edited = number
      · have hsome : some edit = (s.extension? number).map .extend := by
          simpa [hs, hnumber] using hedit
        obtain ⟨v, hv, rfl⟩ := Option.map_eq_some_iff.mp hsome.symm
        simp [hnumber, hv, hnumber ▸ hrest]
      · have hnone : s.extension? number = none := by simpa [hs, hnumber] using hedit.symm
        simp [hnumber, hnone, hrest]

theorem foldl_extend (variants : List Variant) (phrase : Phrase) :
    (variants.map .extend).foldl Edit.apply (some phrase) =
      some { phrase with variants := phrase.variants ++ variants } := by
  induction variants generalizing phrase with
  | nil => simp
  | cons v variants ih =>
    rw [List.map_cons, List.foldl_cons, Edit.apply, Option.map_some, ih]
    simp [Phrase.addVariant]

namespace Session

variable {session : Session} {number : Nat}

-- ---------------------------------------------------------------------------
-- What a phrase is after a run
-- ---------------------------------------------------------------------------

theorem run_append_session (session : Session) (before after : List Step) :
    (session.run (before ++ after)).2 = ((session.run before).2.run after).2 := by
  induction before generalizing session with
  | nil => rfl
  | cons s before ih => exact ih (session.step s).2

theorem run_phrases_of_some {phrase : Phrase} (h : session.phrases[number]? = some phrase)
    (steps : List Step) :
    (session.run steps).2.phrases[number]? =
      some { phrase with variants := phrase.variants ++ extensions number steps } := by
  have hlt : number < session.phrases.length := (List.getElem?_eq_some_iff.mp h).1
  rw [run_phrases, edits_of_lt hlt, h, foldl_extend]

theorem step_phrases_length (session : Session) (s : Step) :
    (session.step s).2.phrases.length = session.phrases.length + s.base?.toList.length := by
  cases s with
  | changeLocale locale => simp [step_changeLocale_phrases, Step.base?]
  | createPhrase source =>
    cases hread : source.read <;> simp [step, createPhrase, Step.base?, hread, Except.toOption]
  | addVariant phrase guard source =>
    simp only [step, addVariant, Step.base?]
    split <;> simp
  | _ => rfl

theorem run_phrases_length (session : Session) (steps : List Step) :
    (session.run steps).2.phrases.length = session.phrases.length + (bases steps).length := by
  induction steps generalizing session with
  | nil => rfl
  | cons s steps ih =>
    rw [run_cons_session, ih, step_phrases_length, bases, bases, List.filterMap_cons]
    cases s.base? with
    | none => simp
    | some base => simp; omega

theorem run_createPhrase {choice : LocaleChoice} {before after : List Step} {source : Source}
    {base : Translations} (h : source.read = .ok base) :
    ((start choice).run (before ++ .createPhrase source :: after)).2.phrases[
        (bases before).length]? =
      some ⟨base, extensions (bases before).length after⟩ := by
  have hlength : ((start choice).run before).2.phrases.length = (bases before).length := by
    simp [run_phrases_length, start]
  have hcreated : (((start choice).run before).2.step (.createPhrase source)).2.phrases[
      (bases before).length]? = some ⟨base, []⟩ := by
    simp [step_createPhrase_phrases h, ← hlength]
  rw [run_append_session, run_cons_session]
  exact run_phrases_of_some hcreated after

theorem run_phrases_iff {choice : LocaleChoice} {steps : List Step} {phrase : Phrase} :
    ((start choice).run steps).2.phrases[number]? = some phrase ↔
      ∃ before source after base,
        steps = before ++ .createPhrase source :: after ∧ source.read = .ok base ∧
          (bases before).length = number ∧ phrase = ⟨base, extensions number after⟩ := by
  constructor
  · intro h
    have hlt : number < (bases steps).length := by
      simpa [run_phrases_length, start] using (List.getElem?_eq_some_iff.mp h).1
    obtain ⟨before, rest, rfl, hbefore, hrest⟩ :=
      List.filterMap_eq_append_iff.mp (List.take_append_drop number (bases steps)).symm
    rw [List.drop_eq_getElem_cons hlt] at hrest
    obtain ⟨between, s, after, rfl, hbetween, hs, -⟩ := List.filterMap_eq_cons_iff.mp hrest
    obtain ⟨source, rfl, hread⟩ := Step.base?_eq_some.mp hs
    have hnumber : (bases (before ++ between)).length = number := by
      rw [bases, List.filterMap_append, hbefore, List.filterMap_eq_nil_iff.mpr hbetween,
        List.append_nil, List.length_take, Nat.min_eq_left (Nat.le_of_lt hlt)]
    have hsplit : before ++ (between ++ .createPhrase source :: after) =
        before ++ between ++ .createPhrase source :: after := (List.append_assoc ..).symm
    rw [hsplit, ← hnumber, run_createPhrase hread, hnumber] at h
    exact ⟨before ++ between, source, after, _, hsplit, hread, hnumber, (Option.some.inj h).symm⟩
  · rintro ⟨before, source, after, base, rfl, hread, rfl, rfl⟩
    exact run_createPhrase hread

-- ---------------------------------------------------------------------------
-- Steps without effect
-- ---------------------------------------------------------------------------

theorem run_cons (session : Session) (s : Step) (steps : List Step) :
    session.run (s :: steps) =
      (((session.step s).1, (session.step s).2.choice.current) ::
        ((session.step s).2.run steps).1, ((session.step s).2.run steps).2) := rfl

theorem step_idle {s : Step} (h : s.Idle session.choice.supported) :
    (session.step s).2 = session := by
  cases h with
  | asks h =>
    cases s with
    | changeLocale | createPhrase | addVariant => cases h
    | _ => rfl
  | refused h => rw [step_changeLocale, if_neg h]
  | unreadable h => simp only [step, createPhrase, h]

theorem run_without (session : Session) (steps : List Step) (deleted : Nat → Bool)
    (h : ∀ i s, steps[i]? = some s → deleted i → s.Idle session.choice.supported) :
    session.run (without deleted steps) =
      (without deleted (session.run steps).1, (session.run steps).2) := by
  induction steps generalizing session deleted with
  | nil => rfl
  | cons s steps ih =>
    have hrest := ih (session.step s).2 (fun i => deleted (i + 1)) (by
      rw [(session.step_keeps_choice s).1]
      exact fun i => h (i + 1))
    rw [run_cons, without, without]
    by_cases hs : deleted 0
    · rw [if_pos hs, if_pos hs]
      rwa [step_idle (h 0 s rfl hs)] at hrest ⊢
    · rw [if_neg hs, if_neg hs, run_cons, hrest]

-- ---------------------------------------------------------------------------
-- Sessions that differ in one phrase
-- ---------------------------------------------------------------------------

/-- The same session but for the phrase of a number. -/
structure Apart (number : Nat) (a b : Session) : Prop where
  choice : a.choice = b.choice
  length : a.phrases.length = b.phrases.length
  phrases : ∀ n ≠ number, a.phrases[n]? = b.phrases[n]?

variable {a b : Session}

theorem Apart.step_choice (h : Apart number a b) (s : Step) :
    (a.step s).2.choice = (b.step s).2.choice := by
  cases s with
  | changeLocale locale =>
    rw [step_changeLocale, step_changeLocale, h.choice]
    split
    · rfl
    · exact h.choice
  | _ => rw [Session.step_choice (by simp), Session.step_choice (by simp), h.choice]

theorem Apart.step (h : Apart number a b) (s : Step) : Apart number (a.step s).2 (b.step s).2 := by
  refine ⟨h.step_choice s, by rw [step_phrases_length, step_phrases_length, h.length], ?_⟩
  intro n hn
  cases hs : s.edit? a.phrases.length with
  | none =>
    rw [step_phrases_of_none hs, step_phrases_of_none (h.length ▸ hs), h.phrases n hn]
  | some pair =>
    rw [(step_phrases_of_some hs n).2, (step_phrases_of_some (h.length ▸ hs) n).2, h.phrases n hn]

theorem Apart.step_reply (h : Apart number a b) {s : Step} (hs : s.subject? ≠ some number) :
    (a.step s).1 = (b.step s).1 := by
  have habout (n : Nat) (hn : n ≠ number) (reply : Phrase → Reply) :
      a.about n reply = b.about n reply := by
    rw [about, about, h.phrases n hn]
  have hother (n : Nat) (hn : some n ≠ some number) : n ≠ number := fun heq => hn (heq ▸ rfl)
  cases s with
  | changeLocale locale =>
    simp only [Session.step, changeLocale, h.choice]
    split <;> rfl
  | createPhrase source =>
    simp only [Session.step, createPhrase, h.length]
    split <;> rfl
  | addVariant phrase guard source =>
    simp only [Session.step, addVariant, h.phrases phrase (hother phrase hs)]
    split <;> rfl
  | currentLocale | supported | isAvailable => simp only [Session.step, h.choice]
  | _ => simp only [Session.step, h.choice, habout _ (hother _ hs)]

theorem apart_addVariant (session : Session) (number : Nat) (guard : Guard) (source : Source) :
    Apart number (session.step (.addVariant number guard source)).2 session := by
  refine ⟨Session.step_choice nofun, ?_, fun n hn => ?_⟩
  · rw [step_phrases_length]
    rfl
  · cases hs : (Step.addVariant number guard source).edit? session.phrases.length with
    | none => rw [step_phrases_of_none hs]
    | some pair =>
      have hedited : pair.1 = number := by
        simp only [Step.edit?, Option.ite_none_right_eq_some] at hs
        obtain ⟨-, h⟩ := hs
        obtain ⟨_, _, rfl⟩ := Option.map_eq_some_iff.mp h
        rfl
      rw [(step_phrases_of_some hs n).2, if_neg (hedited ▸ hn.symm)]

theorem Apart.trans {c : Session} (hab : Apart number a b) (hbc : Apart number b c) :
    Apart number a c :=
  ⟨hab.choice.trans hbc.choice, hab.length.trans hbc.length,
    fun n hn => (hab.phrases n hn).trans (hbc.phrases n hn)⟩

theorem Apart.run_without (h : Apart number a b) (steps : List Step) (deleted : Nat → Bool)
    (hdeleted : ∀ i s, steps[i]? = some s → deleted i →
      ∃ guard source, s = .addVariant number guard source)
    {i : Nat} {s : Step} (hkept : (without deleted steps)[i]? = some s)
    (hs : s.subject? ≠ some number) :
    (b.run (without deleted steps)).1[i]? = (without deleted (a.run steps).1)[i]? := by
  induction steps generalizing a b deleted i with
  | nil => rfl
  | cons head steps ih =>
    have hrest := fun i => hdeleted (i + 1)
    rw [without] at hkept
    rw [Session.run_cons, without, without]
    by_cases hhead : deleted 0
    · rw [if_pos hhead] at hkept ⊢
      rw [if_pos hhead]
      obtain ⟨guard, source, rfl⟩ := hdeleted 0 head rfl hhead
      exact ih ((apart_addVariant a number guard source).trans h) _ hrest hkept
    · rw [if_neg hhead] at hkept ⊢
      rw [if_neg hhead, Session.run_cons]
      cases i with
      | zero =>
        obtain rfl : head = s := Option.some.inj hkept
        simp [h.step_reply hs, h.step_choice head]
      | succ i => exact ih (h.step head) _ hrest hkept

/-- Steps without effect are not noticed by the others. A phrase is made by one step and is
changed by those alone that add variants to it, and these are not noticed by the steps that are not
about it. -/
theorem steps_unnoticed (choice : LocaleChoice) (steps : List Step) (deleted : Nat → Bool)
    (number : Nat) :
    let replies := ((start choice).run steps).1
    let others := ((start choice).run (without deleted steps)).1
    ((∀ i s, steps[i]? = some s → deleted i → s.Idle choice.supported) →
      others = without deleted replies) ∧
    (∀ phrase, ((start choice).run steps).2.phrases[number]? = some phrase ↔
      ∃ before source after base,
        steps = before ++ .createPhrase source :: after ∧ source.read = .ok base ∧
          (bases before).length = number ∧ phrase = ⟨base, extensions number after⟩) ∧
    ((∀ i s, steps[i]? = some s → deleted i →
        ∃ guard source, s = .addVariant number guard source) →
      ∀ (i : Nat) (s : Step), (without deleted steps)[i]? = some s → s.subject? ≠ some number →
        others[i]? = (without deleted replies)[i]?) := by
  intro replies others
  refine ⟨fun h => ?_, fun phrase => run_phrases_iff, fun h i s hkept hs => ?_⟩
  · exact congrArg Prod.fst ((start choice).run_without steps deleted h)
  · exact Apart.run_without ⟨rfl, rfl, fun _ _ => rfl⟩ steps deleted h hkept hs

theorem steps_unnoticed_mail :
    let choice : LocaleChoice := ⟨["en", "fr"], "en"⟩
    let mail : List (Locale × Template) := [("en", ⟨"Mail"⟩), ("fr", ⟨"Courrier"⟩)]
    let stop : Guard := fun _ => .aborts "stop"
    let steps : List Step :=
      [.createPhrase (.entries mail), .changeLocale "de", .createPhrase (.json "[]"),
        .addVariant 0 stop (.entries mail), .render 0 .empty,
        .createPhrase (.entries [("fr", ⟨"Rien"⟩)]), .changeLocale "fr", .render 1 .empty]
    let idle : Nat → Bool := fun i => [1, 2, 4].contains i
    let adds : Nat → Bool := fun i => i == 3
    let run := (start choice).run
    (run (without idle steps)).1 = without idle (run steps).1 ∧
      (run steps).2.phrases[0]? = some ⟨.ofList mail, [⟨stop, .ofList mail⟩]⟩ ∧
      (run (without adds steps)).1[6]? = (without adds (run steps).1)[6]? := by
  intro choice mail stop steps idle adds run
  have hscan : Json.Token.scan "[]".toList = [.beginList, .endList] := by
    simp [Json.Token.scan, Json.Token.isBlank, Json.Token.readOne]
  have hunreadable : Translations.ofJson "[]" =
      .error (.misfit (.wrongType .sequence .map)) := by
    rw [Translations.ofJson, Json.readText, hscan]
    rfl
  obtain ⟨hidle, hphrase, -⟩ := steps_unnoticed choice steps idle 0
  obtain ⟨-, -, hadds⟩ := steps_unnoticed choice steps adds 0
  refine ⟨hidle ?_, (hphrase _).mpr ?_, hadds ?_ 6 (.render 1 .empty) rfl (by decide)⟩
  · intro i s hs hi
    have hi : i = 1 ∨ i = 2 ∨ i = 4 := by simpa [idle] using hi
    rcases hi with rfl | rfl | rfl
    · obtain rfl := Option.some.inj hs
      exact .refused (by decide)
    · obtain rfl := Option.some.inj hs
      exact .unreadable hunreadable
    · obtain rfl := Option.some.inj hs
      exact .asks rfl
  · exact ⟨[], .entries mail, steps.tail, .ofList mail, rfl, rfl, rfl, rfl⟩
  · intro i s hs hi
    obtain rfl : i = 3 := by simpa [adds] using hi
    obtain rfl := Option.some.inj hs
    exact ⟨stop, .entries mail, rfl⟩

end Session

end Phrasebook
