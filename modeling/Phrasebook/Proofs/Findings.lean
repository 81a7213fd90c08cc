import Phrasebook.Phrase.Inspection

/-!
# What a finding says

One lemma for each kind of finding, from `missing_mem_findings` to
`repeated_mem_findings`: it is listed exactly if the phrase has the fault that it
names. `Phrase.source?` gives the translations that an origin stands for.
-/

namespace Phrasebook

-- ---------------------------------------------------------------------------
-- Names
-- ---------------------------------------------------------------------------

theorem mem_insertName : x ∈ insertName name names ↔ x = name ∨ x ∈ names := by
  induction names with
  | nil => simp [insertName]
  | cons first rest ih =>
    unfold insertName
    split
    · exact List.mem_cons
    · split
      · next h => simp [h]
      · rw [List.mem_cons, ih, List.mem_cons]
        exact or_left_comm

theorem mem_ascendingNames : x ∈ ascendingNames names ↔ x ∈ names := by
  induction names with
  | nil => rfl
  | cons name names ih =>
    rw [ascendingNames, List.foldr_cons, ← ascendingNames, mem_insertName, ih, List.mem_cons]

theorem ascending_insertName (h : Ascending names) : Ascending (insertName name names) := by
  induction names with
  | nil => exact List.pairwise_singleton ..
  | cons first rest ih =>
    unfold insertName
    split
    · next hlt => exact Ascending.cons_of_lt h hlt
    · split
      · exact h
      · next hnot hne =>
        have hrest := ih (List.pairwise_cons.mp h).2
        exact Ascending.cons_of_mem h hrest (locale_lt_of_not hnot hne) fun _ => mem_insertName.mp

theorem ascending_ascendingNames (names : List String) : Ascending (ascendingNames names) := by
  induction names with
  | nil => exact .nil
  | cons name names ih => exact ascending_insertName ih

theorem Template.mem_nameSet {t : Template} : x ∈ t.nameSet ↔ x ∈ t.placeholders :=
  mem_ascendingNames

theorem mem_repeatsAfter {seen names : List String} :
    x ∈ repeatsAfter seen names ↔ x ∈ seen ∧ x ∈ names ∨ 2 ≤ names.count x := by
  induction names generalizing seen with
  | nil => simp [repeatsAfter]
  | cons name names ih =>
    unfold repeatsAfter
    by_cases hx : x = name
    · subst hx
      have hcount : 1 ≤ names.count x ↔ x ∈ names := List.count_pos_iff
      rw [List.count_cons_self, Nat.succ_le_succ_iff, hcount]
      split
      · next hseen => simp [hseen]
      · next hseen =>
        rw [ih]
        simp only [List.mem_cons_self, true_and, hseen, false_and, false_or, or_iff_left_iff_imp]
        exact fun h => hcount.mp (Nat.le_of_succ_le h)
    · have hcount : (name :: names).count x = names.count x := List.count_cons_of_ne (Ne.symm hx)
      split <;> simp [ih, hx, hcount]

-- ---------------------------------------------------------------------------
-- Origins
-- ---------------------------------------------------------------------------

namespace Phrase

variable {phrase : Phrase} {supported : List Locale} {base : Translations}
  {source : Origin × Translations} {f : Finding}

/-- The translations that an origin stands for. -/
def source? (phrase : Phrase) : Origin → Option Translations
  | .base => some phrase.base
  | .variant index => phrase.variants[index]?.map (·.translations)

theorem mem_variantSources :
    (origin, translations) ∈ phrase.variantSources ↔
      phrase.source? origin = some translations ∧ origin ≠ .base := by
  rw [variantSources, List.mem_mapIdx]
  cases origin with
  | base => simp [source?]
  | variant index =>
    simp only [source?, Option.map_eq_some_iff, List.getElem?_eq_some_iff]
    constructor
    · rintro ⟨i, hi, h⟩
      cases h
      exact ⟨⟨_, ⟨hi, rfl⟩, rfl⟩, nofun⟩
    · rintro ⟨⟨_, ⟨hi, rfl⟩, rfl⟩, -⟩
      exact ⟨index, hi, rfl⟩

theorem mem_sources :
    (origin, translations) ∈ phrase.sources ↔ phrase.source? origin = some translations := by
  rw [sources, List.mem_cons, mem_variantSources]
  cases origin with
  | base => simp [source?, eq_comm]
  | variant index => simp

-- ---------------------------------------------------------------------------
-- The lists of findings
-- ---------------------------------------------------------------------------

theorem mem_missing :
    f ∈ missing supported base ↔
      ∃ locale ∈ supported, base.get? locale = none ∧ f = .missing locale := by
  simp only [missing, List.mem_map, List.mem_filter, Translations.contains, Bool.not_eq_true',
    Option.isSome_eq_false_iff, Option.isNone_iff_eq_none, and_assoc, eq_comm (a := f)]

theorem mem_unsupported :
    f ∈ unsupported supported source ↔
      ∃ locale ∈ source.2.locales, locale ∉ supported ∧ f = .unsupported locale source.1 := by
  simp only [unsupported, List.mem_map, List.mem_filter, Bool.not_eq_true', and_assoc,
    List.contains_eq_mem, decide_eq_false_iff_not, eq_comm (a := f)]

theorem mem_mismatches :
    f ∈ mismatches supported base ↔ ∃ (r : Locale) (reference : Template) (locale : Locale)
      (template : Template), reference? supported base = some (r, reference) ∧
        base.get? locale = some template ∧ locale ≠ r ∧ template.nameSet ≠ reference.nameSet ∧
        f = .mismatch locale reference.nameSet template.nameSet := by
  unfold mismatches
  split
  · next h => simp [h]
  · next reference h =>
    simp only [List.mem_map, List.mem_filter, Bool.and_eq_true, bne_iff_ne]
    constructor
    · rintro ⟨⟨locale, template⟩, ⟨hmem, hne, hset⟩, rfl⟩
      exact ⟨_, _, locale, template, h, Translations.mem_entries_iff.mp hmem, hne, hset, rfl⟩
    · rintro ⟨r, reference, locale, template, hr, hget, hne, hset, rfl⟩
      cases h.symm.trans hr
      exact ⟨_, ⟨Translations.mem_entries_iff.mpr hget, hne, hset⟩, rfl⟩

theorem mem_unknown :
    f ∈ unknown base source ↔ ∃ (locale : Locale) (template known : Template) (name : String),
      source.2.get? locale = some template ∧ base.get? locale = some known ∧
        name ∈ template.placeholders ∧ name ∉ known.placeholders ∧
        f = .unknown locale source.1 name := by
  rw [unknown, List.mem_flatMap]
  constructor
  · rintro ⟨⟨locale, template⟩, hmem, hf⟩
    split at hf
    · cases hf
    · next known hknown =>
      obtain ⟨name, hname, rfl⟩ := List.mem_map.mp hf
      obtain ⟨hname, hnew⟩ := List.mem_filter.mp hname
      exact ⟨locale, template, known, name, Translations.mem_entries_iff.mp hmem, hknown, hname,
        by simpa using hnew, rfl⟩
  · rintro ⟨locale, template, known, name, hget, hknown, hname, hnew, rfl⟩
    refine ⟨_, Translations.mem_entries_iff.mpr hget, ?_⟩
    simp only [hknown]
    exact List.mem_map.mpr ⟨name, List.mem_filter.mpr ⟨hname, by simpa using hnew⟩, rfl⟩

theorem mem_repeated :
    f ∈ repeated source ↔ ∃ (locale : Locale) (template : Template) (name : String),
      source.2.get? locale = some template ∧ 2 ≤ template.placeholders.count name ∧
        f = .repeated locale source.1 name := by
  rw [repeated, List.mem_flatMap]
  constructor
  · rintro ⟨⟨locale, template⟩, hmem, hf⟩
    obtain ⟨name, hname, rfl⟩ := List.mem_map.mp hf
    refine ⟨locale, template, name, Translations.mem_entries_iff.mp hmem, ?_, rfl⟩
    simpa [mem_repeatsAfter] using hname
  · rintro ⟨locale, template, name, hget, hcount, rfl⟩
    refine ⟨_, Translations.mem_entries_iff.mpr hget, List.mem_map.mpr ⟨name, ?_, rfl⟩⟩
    exact mem_repeatsAfter.mpr (.inr hcount)

theorem mem_findings :
    f ∈ phrase.findings supported ↔
      f ∈ missing supported phrase.base ∨
      (∃ source ∈ phrase.sources, f ∈ unsupported supported source) ∨
      f ∈ mismatches supported phrase.base ∨
      (∃ source ∈ phrase.variantSources, f ∈ unknown phrase.base source) ∨
      ∃ source ∈ phrase.sources, f ∈ repeated source := by
  simp only [findings, List.mem_eraseDups, List.mem_append, List.mem_flatMap, or_assoc]

-- ---------------------------------------------------------------------------
-- The kinds of findings
-- ---------------------------------------------------------------------------

theorem missing_mem_findings :
    .missing locale ∈ phrase.findings supported ↔
      locale ∈ supported ∧ phrase.base.get? locale = none := by
  simp [mem_findings, mem_missing, mem_unsupported, mem_mismatches, mem_unknown, mem_repeated]

theorem unsupported_mem_findings :
    .unsupported locale origin ∈ phrase.findings supported ↔
      locale ∉ supported ∧ ∃ translations template,
        phrase.source? origin = some translations ∧ translations.get? locale = some template := by
  simp only [mem_findings, mem_missing, mem_unsupported, mem_mismatches, mem_unknown, mem_repeated,
    Prod.exists, mem_sources, Translations.mem_locales_iff, reduceCtorEq, and_false, exists_false,
    false_or, or_false, Finding.unsupported.injEq]
  constructor
  · rintro ⟨_, translations, hs, _, ⟨template, ht⟩, hl, rfl, rfl⟩
    exact ⟨hl, translations, template, hs, ht⟩
  · rintro ⟨hl, translations, template, hs, ht⟩
    exact ⟨origin, translations, hs, locale, ⟨template, ht⟩, hl, rfl, rfl⟩

theorem mismatch_mem_findings :
    .mismatch locale expected found ∈ phrase.findings supported ↔ ∃ r reference template,
      reference? supported phrase.base = some (r, reference) ∧
        phrase.base.get? locale = some template ∧ locale ≠ r ∧
        template.nameSet ≠ reference.nameSet ∧
        expected = reference.nameSet ∧ found = template.nameSet := by
  simp only [mem_findings, mem_missing, mem_unsupported, mem_mismatches, mem_unknown, mem_repeated,
    reduceCtorEq, and_false, exists_false, false_or, or_false, Finding.mismatch.injEq]
  constructor
  · rintro ⟨r, reference, _, template, hr, ht, hne, hset, rfl, rfl, rfl⟩
    exact ⟨r, reference, template, hr, ht, hne, hset, rfl, rfl⟩
  · rintro ⟨r, reference, template, hr, ht, hne, hset, rfl, rfl⟩
    exact ⟨r, reference, locale, template, hr, ht, hne, hset, rfl, rfl, rfl⟩

theorem unknown_mem_findings :
    .unknown locale origin name ∈ phrase.findings supported ↔
      origin ≠ .base ∧ ∃ translations template known,
        phrase.source? origin = some translations ∧ translations.get? locale = some template ∧
          phrase.base.get? locale = some known ∧ name ∈ template.placeholders ∧
          name ∉ known.placeholders := by
  simp only [mem_findings, mem_missing, mem_unsupported, mem_mismatches, mem_unknown, mem_repeated,
    Prod.exists, mem_variantSources, reduceCtorEq, and_false, exists_false, false_or, or_false,
    Finding.unknown.injEq]
  constructor
  · rintro ⟨_, translations, ⟨hs, ho⟩, _, template, known, _, ht, hk, hname, hnew, rfl, rfl, rfl⟩
    exact ⟨ho, translations, template, known, hs, ht, hk, hname, hnew⟩
  · rintro ⟨ho, translations, template, known, hs, ht, hk, hname, hnew⟩
    exact ⟨origin, translations, ⟨hs, ho⟩, locale, template, known, name, ht, hk, hname, hnew,
      rfl, rfl, rfl⟩

theorem repeated_mem_findings :
    .repeated locale origin name ∈ phrase.findings supported ↔ ∃ translations template,
      phrase.source? origin = some translations ∧ translations.get? locale = some template ∧
        2 ≤ template.placeholders.count name := by
  simp only [mem_findings, mem_missing, mem_unsupported, mem_mismatches, mem_unknown, mem_repeated,
    Prod.exists, mem_sources, reduceCtorEq, and_false, exists_false, false_or,
    Finding.repeated.injEq]
  constructor
  · rintro ⟨_, translations, hs, _, template, _, ht, hcount, rfl, rfl, rfl⟩
    exact ⟨translations, template, hs, ht, hcount⟩
  · rintro ⟨translations, template, hs, ht, hcount⟩
    exact ⟨origin, translations, hs, locale, template, name, ht, hcount, rfl, rfl, rfl⟩

end Phrase

end Phrasebook
