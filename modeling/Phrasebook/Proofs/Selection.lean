import Phrasebook.Finding
import Phrasebook.Phrase

/-!
# Which template is rendered

`Phrase.Selects` says which template of a phrase counts, and `Phrase.Renders`
how a rendering can go; both name every variant that is passed over on the way.
A rendering goes in exactly one of these ways (`renderIn_of_renders`,
`exists_renders`).
-/

namespace Phrasebook

namespace Variant

def Applies (v : Variant) (locale : Locale) (arguments : Arguments) (template : Template) : Prop :=
  v.guard arguments = .holds ∧ v.translations.get? locale = some template

def PassedOver (v : Variant) (locale : Locale) (arguments : Arguments) : Prop :=
  v.guard arguments = .fails ∨ v.guard arguments = .holds ∧ v.translations.get? locale = none

theorem cases_asked (v : Variant) (locale : Locale) (arguments : Arguments) :
    v.PassedOver locale arguments ∨ (∃ template, v.Applies locale arguments template) ∨
      ∃ reason, v.guard arguments = .aborts reason := by
  cases hg : v.guard arguments with
  | fails => exact .inl (.inl hg)
  | aborts reason => exact .inr (.inr ⟨reason, rfl⟩)
  | holds =>
    cases ht : v.translations.get? locale with
    | none => exact .inl (.inr ⟨hg, ht⟩)
    | some template => exact .inr (.inl ⟨template, hg, ht⟩)

end Variant

namespace Phrase

/-- The template that counts, with its origin. The base must have the locale even where a
variant counts. -/
inductive Selects (phrase : Phrase) (locale : Locale) (arguments : Arguments) :
    Origin → Template → Prop
  | base {template} :
      phrase.base.get? locale = some template →
      (∀ u ∈ phrase.variants, u.PassedOver locale arguments) →
      Selects phrase locale arguments .base template
  | variant {base before v after template} :
      phrase.base.get? locale = some base →
      phrase.variants = before ++ v :: after →
      (∀ u ∈ before, u.PassedOver locale arguments) →
      v.Applies locale arguments template →
      Selects phrase locale arguments (.variant before.length) template

/-- The ways a rendering can go: its outcome, and the variants whose guards are asked. -/
inductive Renders (phrase : Phrase) (locale : Locale) (arguments : Arguments) :
    Outcome → (asked : List Nat) → Prop
  | noMessage :
      phrase.base.get? locale = none →
      Renders phrase locale arguments (.noMessage locale) []
  | base {template} :
      phrase.Selects locale arguments .base template →
      Renders phrase locale arguments (.text (template.fill arguments))
        (List.range phrase.variants.length)
  | variant {index template} :
      phrase.Selects locale arguments (.variant index) template →
      Renders phrase locale arguments (.text (template.fill arguments)) (List.range (index + 1))
  | aborted {base before v after reason} :
      phrase.base.get? locale = some base →
      phrase.variants = before ++ v :: after →
      (∀ u ∈ before, u.PassedOver locale arguments) →
      v.guard arguments = .aborts reason →
      Renders phrase locale arguments (.aborted reason) (List.range (before.length + 1))

variable {phrase : Phrase} {locale : Locale} {arguments : Arguments}

theorem search_append {before : List Variant} (rest : List Variant)
    (h : ∀ u ∈ before, u.PassedOver locale arguments) (index : Nat) :
    (search locale arguments index (before ++ rest)).selection =
        (search locale arguments (index + before.length) rest).selection ∧
      (search locale arguments index (before ++ rest)).asked =
        List.range' index before.length ++
          (search locale arguments (index + before.length) rest).asked := by
  induction before generalizing index with
  | nil => exact ⟨rfl, rfl⟩
  | cons u before ih =>
    obtain ⟨hu, hbefore⟩ := List.forall_mem_cons.mp h
    obtain ⟨hselection, hasked⟩ := ih hbefore (index + 1)
    have hlength : index + (u :: before).length = index + 1 + before.length := by
      rw [List.length_cons]; omega
    rw [hlength, List.length_cons, List.range'_succ, List.cons_append, ← hselection,
      List.cons_append, ← hasked, search]
    rcases hu with hg | ⟨hg, ht⟩
    · rw [hg]; exact ⟨rfl, rfl⟩
    · rw [hg, ht]; exact ⟨rfl, rfl⟩

theorem search_base (h : ∀ u ∈ phrase.variants, u.PassedOver locale arguments) :
    (search locale arguments 0 phrase.variants).selection = .base ∧
      (search locale arguments 0 phrase.variants).asked = List.range phrase.variants.length := by
  obtain ⟨hselection, hasked⟩ := search_append [] h 0
  rw [List.append_nil] at hselection hasked
  refine ⟨hselection, hasked.trans ?_⟩
  rw [List.range_eq_range']
  exact List.append_nil _

theorem search_applies {v : Variant} {template : Template}
    (h : v.Applies locale arguments template) (index : Nat) (after : List Variant) :
    search locale arguments index (v :: after) =
      ⟨.variant index template, [index], [.variantApplies index locale]⟩ := by
  rw [search, h.1, h.2]

theorem search_aborts {v : Variant} {reason : String} (h : v.guard arguments = .aborts reason)
    (index : Nat) (after : List Variant) :
    search locale arguments index (v :: after) = ⟨.aborted reason, [index], []⟩ := by
  rw [search, h]

theorem search_stop {before after : List Variant} {v : Variant} {selection : Selection}
    {events : List Event} (h : ∀ u ∈ before, u.PassedOver locale arguments)
    (hv : search locale arguments before.length (v :: after) =
      ⟨selection, [before.length], events⟩) :
    (search locale arguments 0 (before ++ v :: after)).selection = selection ∧
      (search locale arguments 0 (before ++ v :: after)).asked =
        List.range (before.length + 1) := by
  obtain ⟨hselection, hasked⟩ := search_append (v :: after) h 0
  rw [Nat.zero_add, hv] at hselection hasked
  refine ⟨hselection, hasked.trans ?_⟩
  rw [List.range_succ, List.range_eq_range']

theorem renderIn_of_renders {outcome : Outcome} {asked : List Nat}
    (h : phrase.Renders locale arguments outcome asked) :
    (phrase.renderIn locale arguments).outcome = outcome ∧
      (phrase.renderIn locale arguments).asked = asked := by
  cases h with
  | noMessage hb => rw [renderIn, hb]; exact ⟨rfl, rfl⟩
  | base hs =>
    cases hs with
    | base hb hpassed =>
      obtain ⟨hselection, hasked⟩ := search_base hpassed
      simp only [renderIn, hb, finish, hselection, hasked, and_self]
  | variant hs =>
    cases hs with
    | @variant base before v after template hb hvariants hpassed ha =>
      obtain ⟨hselection, hasked⟩ := search_stop hpassed (search_applies ha _ after)
      simp only [renderIn, hb, finish, hvariants, hselection, hasked, and_self]
  | @aborted base before v after reason hb hvariants hpassed hg =>
    obtain ⟨hselection, hasked⟩ := search_stop hpassed (search_aborts hg _ after)
    simp only [renderIn, hb, finish, hvariants, hselection, hasked, and_self]

theorem passed_or_stop (variants : List Variant) (locale : Locale) (arguments : Arguments) :
    (∀ u ∈ variants, u.PassedOver locale arguments) ∨
      ∃ before v after, variants = before ++ v :: after ∧
        (∀ u ∈ before, u.PassedOver locale arguments) ∧ ¬ v.PassedOver locale arguments := by
  induction variants with
  | nil => exact .inl (by simp)
  | cons u rest ih =>
    by_cases hu : u.PassedOver locale arguments
    · rcases ih with hrest | ⟨before, v, after, rfl, hbefore, hv⟩
      · exact .inl (List.forall_mem_cons.mpr ⟨hu, hrest⟩)
      · exact .inr ⟨u :: before, v, after, rfl, List.forall_mem_cons.mpr ⟨hu, hbefore⟩, hv⟩
    · exact .inr ⟨[], u, rest, rfl, by simp, hu⟩

theorem selects_or_aborts {base : Template} (hb : phrase.base.get? locale = some base) :
    (∃ origin template, phrase.Selects locale arguments origin template) ∨
      ∃ before v after reason, phrase.variants = before ++ v :: after ∧
        (∀ u ∈ before, u.PassedOver locale arguments) ∧ v.guard arguments = .aborts reason := by
  rcases passed_or_stop phrase.variants locale arguments with
    hpassed | ⟨before, v, after, hvariants, hbefore, hv⟩
  · exact .inl ⟨_, _, .base hb hpassed⟩
  · rcases v.cases_asked locale arguments with hpassed | ⟨template, ha⟩ | ⟨reason, hg⟩
    · exact absurd hpassed hv
    · exact .inl ⟨_, _, .variant hb hvariants hbefore ha⟩
    · exact .inr ⟨before, v, after, reason, hvariants, hbefore, hg⟩

theorem Selects.renders {origin : Origin} {template : Template}
    (h : phrase.Selects locale arguments origin template) :
    ∃ asked, phrase.Renders locale arguments (.text (template.fill arguments)) asked := by
  cases origin with
  | base => exact ⟨_, .base h⟩
  | variant index => exact ⟨_, .variant h⟩

theorem exists_selects {base : Template} (hb : phrase.base.get? locale = some base)
    (hguards : ∀ v ∈ phrase.variants, ∀ reason, v.guard arguments ≠ .aborts reason) :
    ∃ origin template, phrase.Selects locale arguments origin template ∧
      (phrase.renderIn locale arguments).outcome = .text (template.fill arguments) := by
  rcases selects_or_aborts hb with
    ⟨origin, template, hs⟩ | ⟨before, v, after, reason, hvariants, -, hg⟩
  · obtain ⟨asked, hrenders⟩ := hs.renders
    exact ⟨origin, template, hs, (renderIn_of_renders hrenders).1⟩
  · exact absurd hg (hguards v (by simp [hvariants]) reason)

theorem exists_renders (phrase : Phrase) (locale : Locale) (arguments : Arguments) :
    ∃ outcome asked, phrase.Renders locale arguments outcome asked := by
  cases hb : phrase.base.get? locale with
  | none => exact ⟨_, _, .noMessage hb⟩
  | some base =>
    rcases selects_or_aborts hb with
      ⟨origin, template, hs⟩ | ⟨before, v, after, reason, hvariants, hbefore, hg⟩
    · exact ⟨_, hs.renders⟩
    · exact ⟨_, _, .aborted hb hvariants hbefore hg⟩

/-- A rendering comes to an outcome and asks certain guards exactly if it can go that way. -/
theorem renders_iff {outcome : Outcome} {asked : List Nat} :
    phrase.Renders locale arguments outcome asked ↔
      (phrase.renderIn locale arguments).outcome = outcome ∧
        (phrase.renderIn locale arguments).asked = asked := by
  constructor
  · exact renderIn_of_renders
  · rintro ⟨rfl, rfl⟩
    obtain ⟨outcome, asked, h⟩ := exists_renders phrase locale arguments
    obtain ⟨hout, hask⟩ := renderIn_of_renders h
    rw [hout, hask]
    exact h

end Phrase

end Phrasebook
