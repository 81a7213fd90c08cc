import Phrasebook.Proofs.Repetitions

/-!
# Findings kind by kind

The findings on a phrase are what is listed for one kind after the other, each
finding once (`findings_eq`). Those of one kind are what is listed for this kind,
each once (`ofKind_findings`): no finding hides one of another kind. All findings
of a list have its kind (`kind_of_mem_listed`), and where they are made for one
source, its origin.
-/

namespace Phrasebook

-- ---------------------------------------------------------------------------
-- Kinds and origins
-- ---------------------------------------------------------------------------

namespace Finding

inductive Kind
  | missing
  | unsupported
  | mismatch
  | unknown
  | repeated
  deriving DecidableEq

/-- All kinds, in the order in which they are looked for. -/
def kinds : List Kind := [.missing, .unsupported, .mismatch, .unknown, .repeated]

def kind : Finding → Kind
  | .missing _ => .missing
  | .unsupported .. => .unsupported
  | .mismatch .. => .mismatch
  | .unknown .. => .unknown
  | .repeated .. => .repeated

def locale : Finding → Locale
  | .missing locale | .unsupported locale _ | .mismatch locale _ _ => locale
  | .unknown locale .. | .repeated locale .. => locale

def origin? : Finding → Option Origin
  | .missing _ | .mismatch .. => none
  | .unsupported _ origin | .unknown _ origin _ | .repeated _ origin _ => some origin

def ofKind (kind : Kind) (findings : List Finding) : List Finding :=
  findings.filter fun f => f.kind = kind

theorem mem_ofKind {k : Kind} : f ∈ ofKind k findings ↔ f ∈ findings ∧ f.kind = k := by
  simp [ofKind]

end Finding

namespace Phrase

open Finding (kinds ofKind)

variable {phrase : Phrase} {supported : List Locale} {base : Translations}
  {source : Origin × Translations} {f : Finding} {kind : Finding.Kind}

/-- What an inspection comes upon when it looks for one kind, repetitions included. -/
def listed (phrase : Phrase) (supported : List Locale) : Finding.Kind → List Finding
  | .missing => missing supported phrase.base
  | .unsupported => phrase.sources.flatMap (unsupported supported)
  | .mismatch => mismatches supported phrase.base
  | .unknown => phrase.variantSources.flatMap (unknown phrase.base)
  | .repeated => phrase.sources.flatMap repeated

theorem findings_eq :
    phrase.findings supported = (kinds.flatMap (phrase.listed supported)).eraseDups := by
  simp [findings, kinds, listed]

theorem unsupported_source (h : f ∈ unsupported supported source) :
    f.kind = .unsupported ∧ f.origin? = some source.1 := by
  obtain ⟨locale, -, -, rfl⟩ := mem_unsupported.mp h
  exact ⟨rfl, rfl⟩

theorem unknown_source (h : f ∈ unknown base source) :
    f.kind = .unknown ∧ f.origin? = some source.1 := by
  obtain ⟨locale, template, known, name, -, -, -, -, rfl⟩ := mem_unknown.mp h
  exact ⟨rfl, rfl⟩

theorem repeated_source (h : f ∈ repeated source) :
    f.kind = .repeated ∧ f.origin? = some source.1 := by
  obtain ⟨locale, template, name, -, -, rfl⟩ := mem_repeated.mp h
  exact ⟨rfl, rfl⟩

theorem missing_source (h : f ∈ missing supported base) :
    f.kind = .missing ∧ f.origin? = none := by
  obtain ⟨locale, -, -, rfl⟩ := mem_missing.mp h
  exact ⟨rfl, rfl⟩

theorem mismatches_source (h : f ∈ mismatches supported base) :
    f.kind = .mismatch ∧ f.origin? = none := by
  obtain ⟨r, reference, locale, template, -, -, -, -, rfl⟩ := mem_mismatches.mp h
  exact ⟨rfl, rfl⟩

theorem kind_of_mem_listed (h : f ∈ phrase.listed supported kind) : f.kind = kind := by
  cases kind with
  | missing => exact (missing_source h).1
  | mismatch => exact (mismatches_source h).1
  | unsupported =>
    obtain ⟨source, -, hf⟩ := List.mem_flatMap.mp h
    exact (unsupported_source hf).1
  | unknown =>
    obtain ⟨source, -, hf⟩ := List.mem_flatMap.mp h
    exact (unknown_source hf).1
  | repeated =>
    obtain ⟨source, -, hf⟩ := List.mem_flatMap.mp h
    exact (repeated_source hf).1

theorem ofKind_listed (kind other : Finding.Kind) :
    ofKind kind (phrase.listed supported other) =
      if other = kind then phrase.listed supported other else [] := by
  split
  · next heq =>
    refine List.filter_eq_self.mpr fun f hf => ?_
    simp [kind_of_mem_listed hf, heq]
  · next hne =>
    refine List.filter_eq_nil_iff.mpr fun f hf => ?_
    simp [kind_of_mem_listed hf, hne]

theorem ofKind_findings (kind : Finding.Kind) :
    ofKind kind (phrase.findings supported) = (phrase.listed supported kind).eraseDups := by
  have hparts : ofKind kind (kinds.flatMap (phrase.listed supported)) =
      kinds.flatMap fun other => ofKind kind (phrase.listed supported other) :=
    List.filter_flatMap ..
  rw [findings_eq, ofKind, filter_eraseDups, ← ofKind, hparts]
  simp only [ofKind_listed]
  cases kind <;> simp [kinds]

theorem mem_ofKind_findings :
    f ∈ ofKind kind (phrase.findings supported) ↔ f ∈ phrase.listed supported kind := by
  rw [ofKind_findings, List.mem_eraseDups]

end Phrase

end Phrasebook
