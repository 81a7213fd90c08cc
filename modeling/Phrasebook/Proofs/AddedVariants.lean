import Phrasebook.Proofs.Kinds
import Phrasebook.Session

/-!
# Findings on a phrase that gets more variants

A variant that is added has findings of its own and leaves the others as they
were: those that do not come from it are the findings on the phrase without it, in
the same order (`filter_findings_addVariant`). Of a variant only its translations
are looked at (`findings_congr`).
-/

namespace Phrasebook

namespace Phrase

variable {phrase other : Phrase} {supported : List Locale} {v : Variant} {f : Finding}

-- ---------------------------------------------------------------------------
-- Without the variant that was added last
-- ---------------------------------------------------------------------------

theorem variantSources_addVariant :
    (phrase.addVariant v).variantSources =
      phrase.variantSources ++ [(.variant phrase.variants.length, v.translations)] := by
  simp [variantSources, addVariant]

theorem sources_addVariant :
    (phrase.addVariant v).sources =
      phrase.sources ++ [(.variant phrase.variants.length, v.translations)] :=
  congrArg (List.cons _) variantSources_addVariant

theorem origin_ne_of_mem_sources {source : Origin × Translations} (h : source ∈ phrase.sources) :
    source.1 ≠ .variant phrase.variants.length := by
  intro horigin
  have hsource := mem_sources.mp h
  simp [horigin, source?] at hsource

theorem filter_flatMap_concat {rule : Origin × Translations → List Finding}
    (hrule : ∀ {source f}, f ∈ rule source → f.origin? = some source.1)
    {sources : List (Origin × Translations)} {last : Origin} {translations : Translations}
    (hsources : ∀ source ∈ sources, source.1 ≠ last) :
    ((sources ++ [(last, translations)]).flatMap rule).filter (fun f => f.origin? ≠ some last) =
      sources.flatMap rule := by
  have hkept : (sources.flatMap rule).filter (fun f => f.origin? ≠ some last) =
      sources.flatMap rule := by
    refine List.filter_eq_self.mpr fun f hf => ?_
    obtain ⟨source, hsource, hf⟩ := List.mem_flatMap.mp hf
    simpa [hrule hf] using hsources source hsource
  have hgone : (rule (last, translations)).filter (fun f => f.origin? ≠ some last) = [] := by
    refine List.filter_eq_nil_iff.mpr fun f hf => ?_
    simp [hrule hf]
  rw [List.flatMap_append, List.filter_append, hkept, List.flatMap_singleton, hgone,
    List.append_nil]

theorem filter_listed_addVariant (kind : Finding.Kind) :
    ((phrase.addVariant v).listed supported kind).filter
        (fun f => f.origin? ≠ some (.variant phrase.variants.length)) =
      phrase.listed supported kind := by
  have hsources (source) (h : source ∈ phrase.sources) :
      source.1 ≠ .variant phrase.variants.length := origin_ne_of_mem_sources h
  cases kind with
  | missing =>
    refine List.filter_eq_self.mpr fun f hf => ?_
    simp [(missing_source hf).2]
  | mismatch =>
    refine List.filter_eq_self.mpr fun f hf => ?_
    simp [(mismatches_source hf).2]
  | unsupported =>
    rw [listed, sources_addVariant]
    exact filter_flatMap_concat (fun hf => (unsupported_source hf).2) hsources
  | unknown =>
    rw [listed, variantSources_addVariant]
    exact filter_flatMap_concat (fun hf => (unknown_source hf).2) fun source h =>
      hsources source (List.mem_cons_of_mem _ h)
  | repeated =>
    rw [listed, sources_addVariant]
    exact filter_flatMap_concat (fun hf => (repeated_source hf).2) hsources

theorem filter_findings_addVariant (phrase : Phrase) (v : Variant) (supported : List Locale) :
    ((phrase.addVariant v).findings supported).filter
        (fun f => f.origin? ≠ some (.variant phrase.variants.length)) =
      phrase.findings supported := by
  rw [findings_eq, findings_eq, filter_eraseDups, List.filter_flatMap]
  simp only [filter_listed_addVariant]

-- ---------------------------------------------------------------------------
-- Without a look at the guards
-- ---------------------------------------------------------------------------

theorem variantSources_eq_mapIdx (phrase : Phrase) :
    phrase.variantSources =
      (phrase.variants.map (·.translations)).mapIdx fun index translations =>
        (.variant index, translations) := by
  refine List.ext_getElem (by simp [variantSources]) fun index _ _ => ?_
  simp [variantSources]

theorem findings_congr (hbase : other.base = phrase.base)
    (hvariants : other.variants.map (·.translations) = phrase.variants.map (·.translations))
    (supported : List Locale) : other.findings supported = phrase.findings supported := by
  simp only [findings, sources, variantSources_eq_mapIdx, hbase, hvariants]

end Phrase

-- ---------------------------------------------------------------------------
-- Inspections in a session
-- ---------------------------------------------------------------------------

namespace Session

theorem step_inspect {session : Session} {number : Nat} {phrase : Phrase}
    (h : session.phrases[number]? = some phrase) :
    session.step (.inspect number) =
      (⟨.findings (phrase.findings session.choice.supported), [], []⟩, session) := by
  simp [step, about, h, Reply.plain]

/-- A variant that is added only adds findings of its own. Whatever the guards of a phrase and the
current locale are, an inspection asks no guard and gives the findings on any phrase with the
same translations. -/
theorem inspection_of_translations (phrase : Phrase) (supported : List Locale) :
    (∀ v : Variant,
      ((phrase.addVariant v).findings supported).filter
          (fun f => f.origin? ≠ some (.variant phrase.variants.length)) =
        phrase.findings supported) ∧
    ∀ (session : Session) (number : Nat) (other : Phrase),
      session.phrases[number]? = some other → session.choice.supported = supported →
      other.base = phrase.base →
      other.variants.map (·.translations) = phrase.variants.map (·.translations) →
      session.step (.inspect number) =
        (⟨.findings (phrase.findings supported), [], []⟩, session) := by
  refine ⟨fun v => phrase.filter_findings_addVariant v supported, ?_⟩
  rintro session number other hother rfl hbase hvariants
  rw [step_inspect hother, Phrase.findings_congr hbase hvariants]

/-- The one guard always holds and the other one aborts; the variant that is added repeats a
name and has a locale that is not supported. -/
theorem inspection_of_translations_guards :
    let base : Translations := .ofList [("en", ⟨"\x7bn\x7d of \x7bn\x7d"⟩)]
    let translations : Translations :=
      .ofList [("en", ⟨"\x7bm\x7d"⟩), ("fr", ⟨"\x7bm\x7d \x7bm\x7d"⟩)]
    let phrase : Phrase := ⟨base, [⟨fun _ => .holds, translations⟩]⟩
    let other : Phrase := ⟨base, [⟨fun _ => .aborts "stop", translations⟩]⟩
    let session : Session := ⟨⟨["en"], "de"⟩, [other]⟩
    let v : Variant := ⟨fun _ => .fails, translations⟩
    ((phrase.addVariant v).findings ["en"]).length = 7 ∧
      (phrase.findings ["en"]).length = 4 ∧
      ((phrase.addVariant v).findings ["en"]).filter (fun f => f.origin? ≠ some (.variant 1)) =
        phrase.findings ["en"] ∧
      session.step (.inspect 0) = (⟨.findings (phrase.findings ["en"]), [], []⟩, session) := by
  intro base translations phrase other session v
  obtain ⟨hadded, hother⟩ := inspection_of_translations phrase ["en"]
  refine ⟨?_, ?_, hadded v, hother session 0 other rfl rfl rfl rfl⟩
  · decide +kernel
  · decide +kernel

end Session

end Phrasebook
