import Phrasebook.Proofs.Filling
import Phrasebook.Proofs.Findings
import Phrasebook.Proofs.Selection

/-!
# What the findings say about renderings

A phrase without findings is rendered completely in every supported locale
(`renders_completely`): whichever template counts, it names no more arguments than
the base template of the first supported locale, and each of them once.
-/

namespace Phrasebook.Phrase

variable {phrase : Phrase} {supported : List Locale} {locale : Locale} {arguments : Arguments}
  {origin : Origin} {translations : Translations} {template base reference : Template}
  {first : Locale} {name : String}

theorem Selects.source (h : phrase.Selects locale arguments origin template) :
    ∃ translations, phrase.source? origin = some translations ∧
      translations.get? locale = some template := by
  cases h with
  | base hb _ => exact ⟨_, rfl, hb⟩
  | variant _ hvariants _ ha => exact ⟨_, by simp [source?, hvariants], ha.2⟩

-- ---------------------------------------------------------------------------
-- A phrase without findings
-- ---------------------------------------------------------------------------

theorem exists_base (h : ∀ f, f ∉ phrase.findings supported) (hl : locale ∈ supported) :
    ∃ base, phrase.base.get? locale = some base := by
  refine Option.ne_none_iff_exists'.mp fun hnone => ?_
  exact h _ (missing_mem_findings.mpr ⟨hl, hnone⟩)

theorem nodup_placeholders (h : ∀ f, f ∉ phrase.findings supported)
    (hs : phrase.source? origin = some translations)
    (ht : translations.get? locale = some template) : template.placeholders.Nodup := by
  refine List.nodup_iff_count.mpr fun name => Nat.le_of_not_lt fun hcount => ?_
  exact h _ (repeated_mem_findings.mpr ⟨_, _, hs, ht, hcount⟩)

theorem mem_base_placeholders (h : ∀ f, f ∉ phrase.findings supported)
    (hb : phrase.base.get? locale = some base) (hs : phrase.source? origin = some translations)
    (ht : translations.get? locale = some template) (hname : name ∈ template.placeholders) :
    name ∈ base.placeholders := by
  cases origin with
  | base =>
    cases hs
    cases hb.symm.trans ht
    exact hname
  | variant index =>
    refine Decidable.byContradiction fun hnew => ?_
    have horigin : Origin.variant index ≠ .base := nofun
    exact h _ (unknown_mem_findings.mpr ⟨horigin, _, _, _, hs, ht, hb, hname, hnew⟩)

/-- All base templates name the arguments that the one of the first supported locale names. -/
theorem mem_reference_placeholders (h : ∀ f, f ∉ phrase.findings supported)
    (hfirst : supported.head? = some first) (hr : phrase.base.get? first = some reference)
    (hb : phrase.base.get? locale = some base) (hname : name ∈ base.placeholders) :
    name ∈ reference.placeholders := by
  by_cases hl : locale = first
  · subst hl
    cases hb.symm.trans hr
    exact hname
  · have hreference : reference? supported phrase.base = some (first, reference) := by
      obtain ⟨rest, rfl⟩ := List.head?_eq_some_iff.mp hfirst
      simp [reference?, hr]
    have hset : base.nameSet = reference.nameSet := by
      refine Decidable.byContradiction fun hset => ?_
      exact h _ (mismatch_mem_findings.mpr ⟨_, _, _, hreference, hb, hl, hset, rfl, rfl⟩)
    rw [← Template.mem_nameSet, ← hset, Template.mem_nameSet]
    exact hname

theorem Selects.named (h : ∀ f, f ∉ phrase.findings supported) (hl : locale ∈ supported)
    (hs : phrase.Selects locale arguments origin template)
    (hgiven : ∀ first ∈ supported.head?, ∀ reference ∈ phrase.base.get? first,
      ∀ name ∈ reference.placeholders, arguments.contains name) :
    ∀ name ∈ template.placeholders, arguments.contains name := by
  intro name hname
  obtain ⟨base, hb⟩ := exists_base h hl
  obtain ⟨translations, hsource, ht⟩ := hs.source
  obtain ⟨first, hfirst⟩ : ∃ first, supported.head? = some first :=
    ⟨_, List.head?_eq_some_head (List.ne_nil_of_mem hl)⟩
  obtain ⟨reference, hr⟩ := exists_base h (List.mem_of_mem_head? hfirst)
  exact hgiven first hfirst reference hr name
    (mem_reference_placeholders h hfirst hr hb (mem_base_placeholders h hb hsource ht hname))

/-- A phrase without findings leaves no placeholder in a rendering, if the arguments of its
first base template are given. -/
theorem renders_completely (h : phrase.findings supported = []) (hl : locale ∈ supported)
    (hp : arguments.Plain)
    (hgiven : ∀ first ∈ supported.head?, ∀ reference ∈ phrase.base.get? first,
      ∀ name ∈ reference.placeholders, arguments.contains name)
    (hopened : ∀ source ∈ phrase.sources, ∀ template ∈ source.2.get? locale, template.Opened)
    (hguards : ∀ v ∈ phrase.variants, ∀ reason, v.guard arguments ≠ .aborts reason) :
    ∃ origin template, phrase.Selects locale arguments origin template ∧
      (∀ name ∈ template.placeholders, arguments.contains name) ∧
      (phrase.renderIn locale arguments).outcome = .text (template.fillEvery arguments) ∧
      (Template.mk (template.fillEvery arguments)).placeholders = [] := by
  replace h := List.eq_nil_iff_forall_not_mem.mp h
  obtain ⟨base, hb⟩ := exists_base h hl
  obtain ⟨origin, template, hs, hout⟩ := exists_selects hb hguards
  obtain ⟨translations, hsource, ht⟩ := hs.source
  have hnamed := hs.named h hl hgiven
  have ho := hopened _ (mem_sources.mpr hsource) template ht
  obtain ⟨hfill, hnone⟩ := Template.fill_eq_fillEvery (.inl ho) hp
    (nodup_placeholders h hsource ht) hnamed
  exact ⟨origin, template, hs, hnamed, hfill ▸ hout, hnone⟩

theorem renders_completely_inbox :
    let phrase : Phrase :=
      ⟨.ofList [("en", ⟨"\x7bname\x7d: \x7bn\x7d new"⟩), ("fr", ⟨"\x7bn\x7d pour \x7bname\x7d"⟩)],
        [⟨(Condition.numberIs "n" 0).guard, .ofList [("en", ⟨"Nothing, \x7bname\x7d\x7d"⟩)]⟩]⟩
    let arguments : Arguments := .ofList [("n", .number 0), ("name", .string "Ann")]
    phrase.findings ["en", "fr"] = [] ∧ arguments.Plain ∧
      (∀ source ∈ phrase.sources, ∀ template ∈ source.2.get? "en", template.Opened) ∧
      ∃ origin template, phrase.Selects "en" arguments origin template ∧
        (phrase.renderIn "en" arguments).outcome = .text (template.fillEvery arguments) ∧
        (Template.mk (template.fillEvery arguments)).placeholders = [] := by
  intro phrase arguments
  have h : phrase.findings ["en", "fr"] = [] := by decide +kernel
  have hp : arguments.Plain := by decide +kernel
  have hopened : ∀ source ∈ phrase.sources, ∀ template ∈ source.2.get? "en", template.Opened := by
    decide +kernel
  have hguard : (Condition.numberIs "n" 0).guard arguments = .holds := by decide +kernel
  have hguards : ∀ v ∈ phrase.variants, ∀ reason, v.guard arguments ≠ .aborts reason := by
    simp [phrase, hguard]
  obtain ⟨origin, template, hs, -, hout, hnone⟩ :=
    renders_completely h List.mem_cons_self hp (by decide +kernel) hopened hguards
  exact ⟨h, hp, hopened, origin, template, hs, hout, hnone⟩

end Phrasebook.Phrase
