import Mathlib.Data.List.Sort
import Phrasebook.Proofs.Findings

/-!
# Faults

`Phrase.Fault` says of each finding what must be true of the templates of a
phrase for the finding to be justified, without a word on how findings are
made. An inspection lists the faults of a phrase, all of them and nothing else
(`mem_findings_iff_fault`).
-/

namespace Phrasebook

structure Template.Names (t : Template) (names : List String) : Prop where
  ascending : Ascending names
  mem_iff : ∀ name, name ∈ names ↔ name ∈ t.placeholders

theorem Template.names_nameSet (t : Template) : t.Names t.nameSet :=
  ⟨ascending_ascendingNames _, fun _ => mem_nameSet⟩

theorem Template.Names.eq_nameSet {t : Template} {names : List String} (h : t.Names names) :
    names = t.nameSet :=
  List.Pairwise.eq_of_mem_iff h.ascending (ascending_ascendingNames _) fun name =>
    (h.mem_iff name).trans mem_nameSet.symm

theorem Template.nameSet_eq_iff {t u : Template} :
    t.nameSet = u.nameSet ↔ ∀ name, name ∈ t.placeholders ↔ name ∈ u.placeholders := by
  constructor
  · intro h name
    rw [← mem_nameSet, h, mem_nameSet]
  · intro h
    have hu : u.Names t.nameSet := ⟨ascending_ascendingNames _, fun name => by
      rw [mem_nameSet, h name]⟩
    exact hu.eq_nameSet

namespace Phrase

variable {phrase : Phrase} {supported : List Locale} {f : Finding}

def Defines (phrase : Phrase) (origin : Origin) (locale : Locale) (template : Template) : Prop :=
  ∃ translations, phrase.source? origin = some translations ∧
    translations.get? locale = some template

/-- A locale is the first supported one that has a base template, and this is the template. -/
def Leads (phrase : Phrase) (supported : List Locale) (first : Locale) (template : Template) :
    Prop :=
  phrase.base.get? first = some template ∧ ∃ before after,
    supported = before ++ first :: after ∧ ∀ other ∈ before, phrase.base.get? other = none

inductive Fault (phrase : Phrase) (supported : List Locale) : Finding → Prop
  | missing {locale} :
      locale ∈ supported → phrase.base.get? locale = none →
      Fault phrase supported (.missing locale)
  | unsupported {locale origin template} :
      phrase.Defines origin locale template → locale ∉ supported →
      Fault phrase supported (.unsupported locale origin)
  | mismatch {first locale reference template expected found} :
      phrase.Leads supported first reference →
      phrase.base.get? locale = some template → locale ≠ first →
      (∃ name, ¬ (name ∈ template.placeholders ↔ name ∈ reference.placeholders)) →
      reference.Names expected → template.Names found →
      Fault phrase supported (.mismatch locale expected found)
  | unknown {locale index template base name} :
      phrase.Defines (.variant index) locale template → phrase.base.get? locale = some base →
      name ∈ template.placeholders → name ∉ base.placeholders →
      Fault phrase supported (.unknown locale (.variant index) name)
  | repeated {locale origin template name} :
      phrase.Defines origin locale template → 2 ≤ template.placeholders.count name →
      Fault phrase supported (.repeated locale origin name)

theorem leads_iff {first : Locale} {template : Template} :
    phrase.Leads supported first template ↔
      reference? supported phrase.base = some (first, template) := by
  rw [reference?, List.findSome?_eq_some_iff]
  constructor
  · rintro ⟨hfirst, before, after, hsupported, hbefore⟩
    refine ⟨before, first, after, hsupported, by rw [hfirst]; rfl, fun other hother => ?_⟩
    rw [hbefore other hother]
    rfl
  · rintro ⟨before, locale, after, hsupported, hlocale, hbefore⟩
    obtain ⟨_, hget, heq⟩ := Option.map_eq_some_iff.mp hlocale
    cases heq
    refine ⟨hget, before, after, hsupported, fun other hother => ?_⟩
    exact Option.map_eq_none_iff.mp (hbefore other hother)

theorem mismatch_mem_iff_fault {locale : Locale} {expected found : List String} :
    .mismatch locale expected found ∈ phrase.findings supported ↔
      phrase.Fault supported (.mismatch locale expected found) := by
  rw [mismatch_mem_findings]
  constructor
  · rintro ⟨first, reference, template, hr, ht, hne, hset, rfl, rfl⟩
    rw [Ne, Template.nameSet_eq_iff, Classical.not_forall] at hset
    exact .mismatch (leads_iff.mpr hr) ht hne hset reference.names_nameSet template.names_nameSet
  · intro h
    cases h with
    | @mismatch first _ reference template _ _ hr ht hne hset he hf =>
      rw [← Classical.not_forall, ← Template.nameSet_eq_iff] at hset
      exact ⟨first, reference, template, leads_iff.mp hr, ht, hne, hset, he.eq_nameSet,
        hf.eq_nameSet⟩

theorem unknown_mem_iff_fault {locale : Locale} {origin : Origin} {name : String} :
    .unknown locale origin name ∈ phrase.findings supported ↔
      phrase.Fault supported (.unknown locale origin name) := by
  rw [unknown_mem_findings]
  constructor
  · rintro ⟨horigin, translations, template, base, hs, ht, hb, hname, hnew⟩
    cases origin with
    | base => exact absurd rfl horigin
    | variant index => exact .unknown ⟨translations, hs, ht⟩ hb hname hnew
  · intro h
    cases h with
    | unknown hd hb hname hnew =>
      obtain ⟨translations, hs, ht⟩ := hd
      exact ⟨nofun, translations, _, _, hs, ht, hb, hname, hnew⟩

/-- The findings on a phrase are its faults: none is missed, hidden by another one or made up. -/
theorem mem_findings_iff_fault : f ∈ phrase.findings supported ↔ phrase.Fault supported f := by
  cases f with
  | missing locale =>
    rw [missing_mem_findings]
    constructor
    · rintro ⟨hl, hb⟩
      exact .missing hl hb
    · intro h
      cases h with
      | missing hl hb => exact ⟨hl, hb⟩
  | unsupported locale origin =>
    rw [unsupported_mem_findings]
    constructor
    · rintro ⟨hl, translations, template, hs, ht⟩
      exact .unsupported ⟨translations, hs, ht⟩ hl
    · intro h
      cases h with
      | unsupported hd hl =>
        obtain ⟨translations, hs, ht⟩ := hd
        exact ⟨hl, translations, _, hs, ht⟩
  | mismatch locale expected found => exact mismatch_mem_iff_fault
  | unknown locale origin name => exact unknown_mem_iff_fault
  | repeated locale origin name =>
    rw [repeated_mem_findings]
    constructor
    · rintro ⟨translations, template, hs, ht, hcount⟩
      exact .repeated ⟨translations, hs, ht⟩ hcount
    · intro h
      cases h with
      | repeated hd hcount =>
        obtain ⟨translations, hs, ht⟩ := hd
        exact ⟨translations, _, hs, ht, hcount⟩

end Phrase

end Phrasebook
