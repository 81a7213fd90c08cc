import Phrasebook.Proofs.Faults
import Phrasebook.Proofs.Kinds

/-!
# How the supported locales are listed

An inspection reads the supported locales in their order, but which ones they are
is nearly all that matters. The order decides in which order missing locales are
reported and which base template the others are compared with; whether any base
template differs does not depend on that choice (`exists_mismatch_iff`), because
to be equal to one of them is to be equal to each other.
-/

namespace Phrasebook.Phrase

open Finding (ofKind)

variable {phrase : Phrase} {supported supported' : List Locale} {f : Finding}
  {kind : Finding.Kind}

-- ---------------------------------------------------------------------------
-- Base templates that differ
-- ---------------------------------------------------------------------------

def Referable (phrase : Phrase) (supported : List Locale) : Prop :=
  ∃ locale ∈ supported, ∃ template, phrase.base.get? locale = some template

def Divided (phrase : Phrase) : Prop :=
  ∃ l m t u, phrase.base.get? l = some t ∧ phrase.base.get? m = some u ∧ t.nameSet ≠ u.nameSet

theorem referable_iff_leads :
    phrase.Referable supported ↔ ∃ first reference, phrase.Leads supported first reference := by
  constructor
  · rintro ⟨locale, hl, template, ht⟩
    cases hr : reference? supported phrase.base with
    | none =>
      have hnone := List.findSome?_eq_none_iff.mp hr locale hl
      simp [ht] at hnone
    | some pair => exact ⟨pair.1, pair.2, leads_iff.mpr hr⟩
  · rintro ⟨first, reference, hfirst, before, after, rfl, -⟩
    exact ⟨first, by simp, reference, hfirst⟩

theorem exists_mismatch_iff :
    (∃ f, f ∈ mismatches supported phrase.base) ↔ phrase.Referable supported ∧ phrase.Divided := by
  rw [referable_iff_leads]
  constructor
  · rintro ⟨f, hf⟩
    obtain ⟨r, reference, locale, template, hr, ht, -, hset, -⟩ := mem_mismatches.mp hf
    have hleads := leads_iff.mpr hr
    exact ⟨⟨r, reference, hleads⟩, locale, r, template, reference, ht, hleads.1, hset⟩
  · rintro ⟨⟨first, reference, hleads⟩, l, m, t, u, ht, hu, hset⟩
    have hdiffers {locale : Locale} {template : Template}
        (htemplate : phrase.base.get? locale = some template)
        (hne : template.nameSet ≠ reference.nameSet) :
        ∃ f, f ∈ mismatches supported phrase.base := by
      refine ⟨_, mem_mismatches.mpr
        ⟨first, reference, locale, template, leads_iff.mp hleads, htemplate, ?_, hne, rfl⟩⟩
      rintro rfl
      cases htemplate.symm.trans hleads.1
      exact hne rfl
    -- The reference cannot be equal to both of two templates that differ.
    by_cases heq : t.nameSet = reference.nameSet
    · exact hdiffers hu (heq ▸ hset.symm)
    · exact hdiffers ht heq

-- ---------------------------------------------------------------------------
-- Lists with the same members
-- ---------------------------------------------------------------------------

theorem findings_eq_nil_iff :
    phrase.findings supported = [] ↔ ∀ kind, ¬ ∃ f, f ∈ phrase.listed supported kind := by
  rw [List.eq_nil_iff_forall_not_mem]
  constructor
  · rintro h kind ⟨f, hf⟩
    exact h f (Finding.mem_ofKind.mp (mem_ofKind_findings.mpr hf)).1
  · intro h f hf
    exact h f.kind ⟨f, mem_ofKind_findings.mp (Finding.mem_ofKind.mpr ⟨hf, rfl⟩)⟩

section

variable (hsame : ∀ locale, locale ∈ supported ↔ locale ∈ supported')

include hsame

theorem unsupported_congr (source : Origin × Translations) :
    unsupported supported source = unsupported supported' source := by
  simp [unsupported, hsame]

theorem mem_missing_congr (base : Translations) :
    f ∈ missing supported base ↔ f ∈ missing supported' base := by
  simp [mem_missing, hsame]

theorem exists_mismatch_congr :
    (∃ f, f ∈ mismatches supported phrase.base) ↔ ∃ f, f ∈ mismatches supported' phrase.base := by
  simp [exists_mismatch_iff, Referable, hsame]

/-- For all kinds of findings but two, supported locales are asked for one by one only. -/
theorem listed_congr (kind : Finding.Kind) (hmissing : kind ≠ .missing)
    (hmismatch : kind ≠ .mismatch) :
    phrase.listed supported kind = phrase.listed supported' kind := by
  cases kind with
  | missing => exact absurd rfl hmissing
  | mismatch => exact absurd rfl hmismatch
  | unsupported => exact congrArg phrase.sources.flatMap (funext (unsupported_congr hsame))
  | unknown => rfl
  | repeated => rfl

theorem exists_listed_congr (kind : Finding.Kind) :
    (∃ f, f ∈ phrase.listed supported kind) ↔ ∃ f, f ∈ phrase.listed supported' kind := by
  cases kind with
  | missing => exact exists_congr fun _ => mem_missing_congr hsame phrase.base
  | mismatch => exact exists_mismatch_congr hsame
  | unsupported => rw [listed_congr hsame .unsupported (by decide) (by decide)]
  | unknown => rfl
  | repeated => rfl

end

/-- Supported locales may be listed in any order and any number of times: this changes neither
whether there are findings nor whether base templates differ, neither which locales are missing
nor any list of findings of another kind. -/
theorem findings_of_same_locales (phrase : Phrase)
    (hsame : ∀ locale, locale ∈ supported ↔ locale ∈ supported') :
    (phrase.findings supported = [] ↔ phrase.findings supported' = []) ∧
      (∀ kind ∈ [Finding.Kind.unsupported, .unknown, .repeated],
        ofKind kind (phrase.findings supported) = ofKind kind (phrase.findings supported')) ∧
      (∀ f, f ∈ ofKind .missing (phrase.findings supported) ↔
        f ∈ ofKind .missing (phrase.findings supported')) ∧
      ((∃ f, f ∈ ofKind .mismatch (phrase.findings supported)) ↔
        ∃ f, f ∈ ofKind .mismatch (phrase.findings supported')) := by
  simp only [mem_ofKind_findings]
  refine ⟨?_, fun kind hkind => ?_, fun f => ?_, exists_mismatch_congr hsame⟩
  · rw [findings_eq_nil_iff, findings_eq_nil_iff]
    exact forall_congr' fun kind => not_congr (exists_listed_congr hsame kind)
  · have hmissing : kind ≠ .missing := by rintro rfl; simp at hkind
    have hmismatch : kind ≠ .mismatch := by rintro rfl; simp at hkind
    rw [ofKind_findings, ofKind_findings, listed_congr hsame kind hmissing hmismatch]
  · exact mem_missing_congr hsame phrase.base

theorem findings_of_same_locales_reversed :
    let phrase : Phrase :=
      ⟨.ofList [("de", ⟨"\x7bn\x7d neu"⟩), ("en", ⟨"\x7bm\x7d new, \x7bm\x7d"⟩),
        ("nl", ⟨"\x7bn\x7d"⟩)], []⟩
    let supported : List Locale := ["fr", "de", "en", "it"]
    let reversed : List Locale := ["it", "en", "it", "de", "fr"]
    (∀ locale, locale ∈ supported ↔ locale ∈ reversed) ∧
      ofKind .mismatch (phrase.findings supported) ≠ ofKind .mismatch (phrase.findings reversed) ∧
      ofKind .repeated (phrase.findings supported) = ofKind .repeated (phrase.findings reversed) ∧
      (∀ f, f ∈ ofKind .missing (phrase.findings supported) ↔
        f ∈ ofKind .missing (phrase.findings reversed)) := by
  intro phrase supported reversed
  have hsame (locale : Locale) : locale ∈ supported ↔ locale ∈ reversed := by grind
  have hmismatch : ofKind .mismatch (phrase.findings supported) ≠
      ofKind .mismatch (phrase.findings reversed) := by decide +kernel
  obtain ⟨-, hkinds, hmissing, -⟩ := findings_of_same_locales phrase hsame
  exact ⟨hsame, hmismatch, hkinds .repeated (by simp), hmissing⟩

end Phrasebook.Phrase
