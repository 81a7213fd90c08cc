import Mathlib.Data.List.Sort
import Phrasebook.Proofs.Faults
import Phrasebook.Proofs.Kinds

/-!
# The order of findings

`Phrase.Precedes` says which of two findings comes first, without a word on how
findings are made: they are ordered by their kinds, then by their origins, then by
their locales, and in the end by the times at which names come up in a template.
The order is strict (`Precedes.asymm`), so the list of findings is the only one
that has these members in this order (`findings_in_order`).
-/

namespace Phrasebook

def Origin.place : Origin → Nat
  | .base => 0
  | .variant index => index + 1

def Finding.Kind.place : Finding.Kind → Nat
  | .missing => 0
  | .unsupported => 1
  | .mismatch => 2
  | .unknown => 3
  | .repeated => 4

namespace Phrase

open Finding (kinds)

/-- One finding comes before another. Only missing locales are in the order in which they are
supported; other findings of one kind and origin are in the order of their locales. -/
inductive Precedes (phrase : Phrase) (supported : List Locale) : Finding → Finding → Prop
  | kind {f g} :
      f.kind.place < g.kind.place → Precedes phrase supported f g
  | origin {f g o p} :
      f.kind = g.kind → f.origin? = some o → g.origin? = some p → o.place < p.place →
      Precedes phrase supported f g
  | locale {f g} :
      f.kind = g.kind → f.kind ≠ .missing → f.origin? = g.origin? → f.locale < g.locale →
      Precedes phrase supported f g
  | missing {l m} :
      Sooner 0 supported l m → Precedes phrase supported (.missing l) (.missing m)
  | unknown {locale origin template x y} :
      phrase.Defines origin locale template → Sooner 0 template.placeholders x y →
      Precedes phrase supported (.unknown locale origin x) (.unknown locale origin y)
  | repeated {locale origin template x y} :
      phrase.Defines origin locale template → Sooner 1 template.placeholders x y →
      Precedes phrase supported (.repeated locale origin x) (.repeated locale origin y)

variable {phrase : Phrase} {supported : List Locale} {f g : Finding} {kind : Finding.Kind}

-- ---------------------------------------------------------------------------
-- The order is strict
-- ---------------------------------------------------------------------------

theorem Defines.unique {template template' : Template} (h : phrase.Defines origin locale template)
    (h' : phrase.Defines origin locale template') : template = template' := by
  obtain ⟨translations, hs, ht⟩ := h
  obtain ⟨translations', hs', ht'⟩ := h'
  cases hs.symm.trans hs'
  exact Option.some.inj (ht.symm.trans ht')

theorem Precedes.kind_le (h : phrase.Precedes supported f g) : f.kind.place ≤ g.kind.place := by
  cases h with
  | kind hlt => exact Nat.le_of_lt hlt
  | origin hkind => exact Nat.le_of_eq (congrArg _ hkind)
  | locale hkind => exact Nat.le_of_eq (congrArg _ hkind)
  | missing => exact Nat.le_refl _
  | unknown => exact Nat.le_refl _
  | repeated => exact Nat.le_refl _

theorem Precedes.origin_le {o p : Origin} (h : phrase.Precedes supported f g)
    (hkind : f.kind = g.kind) (hf : f.origin? = some o) (hg : g.origin? = some p) :
    o.place ≤ p.place := by
  have hsame (heq : f.origin? = g.origin?) : o.place ≤ p.place := by
    cases hf.symm.trans (heq.trans hg)
    exact Nat.le_refl _
  cases h with
  | kind hlt => exact absurd (congrArg _ hkind) (Nat.ne_of_lt hlt)
  | origin _ hf' hg' hlt =>
    cases hf.symm.trans hf'
    cases hg.symm.trans hg'
    exact Nat.le_of_lt hlt
  | locale _ _ horigin => exact hsame horigin
  | missing => cases hf
  | unknown => exact hsame rfl
  | repeated => exact hsame rfl

theorem Precedes.locale_le (h : phrase.Precedes supported f g) (hkind : f.kind = g.kind)
    (hmissing : f.kind ≠ .missing) (horigin : f.origin? = g.origin?) : ¬ g.locale < f.locale := by
  cases h with
  | kind hlt => exact absurd (congrArg _ hkind) (Nat.ne_of_lt hlt)
  | origin _ hf hg hlt =>
    cases hf.symm.trans (horigin.trans hg)
    exact absurd hlt (Nat.lt_irrefl _)
  | locale _ _ _ hlt => exact String.lt_asymm hlt
  | missing => exact absurd rfl hmissing
  | unknown => exact String.lt_irrefl _
  | repeated => exact String.lt_irrefl _

theorem Precedes.asymm (h : phrase.Precedes supported f g) : ¬ phrase.Precedes supported g f := by
  intro h'
  cases h with
  | kind hlt => exact Nat.not_le_of_lt hlt h'.kind_le
  | origin hkind hf hg hlt => exact Nat.not_le_of_lt hlt (h'.origin_le hkind.symm hg hf)
  | locale hkind hmissing horigin hlt =>
    exact h'.locale_le hkind.symm (hkind ▸ hmissing) horigin.symm hlt
  | missing hsooner =>
    cases h' with
    | kind hlt => exact Nat.lt_irrefl _ hlt
    | origin _ hf => cases hf
    | locale _ hmissing => exact hmissing rfl
    | missing hsooner' => exact hsooner.asymm hsooner'
  | unknown hd hsooner =>
    cases h' with
    | kind hlt => exact Nat.lt_irrefl _ hlt
    | origin _ hf hg hlt =>
      cases hf.symm.trans hg
      exact Nat.lt_irrefl _ hlt
    | locale _ _ _ hlt => exact String.lt_irrefl _ hlt
    | unknown hd' hsooner' => exact hsooner.asymm (hd.unique hd' ▸ hsooner')
  | repeated hd hsooner =>
    cases h' with
    | kind hlt => exact Nat.lt_irrefl _ hlt
    | origin _ hf hg hlt =>
      cases hf.symm.trans hg
      exact Nat.lt_irrefl _ hlt
    | locale _ _ _ hlt => exact String.lt_irrefl _ hlt
    | repeated hd' hsooner' => exact hsooner.asymm (hd.unique hd' ▸ hsooner')

instance (phrase : Phrase) (supported : List Locale) : Std.Asymm (phrase.Precedes supported) :=
  ⟨fun _ _ => Precedes.asymm⟩

-- ---------------------------------------------------------------------------
-- Findings of one kind
-- ---------------------------------------------------------------------------

theorem pairwise_variantSources (phrase : Phrase) :
    phrase.variantSources.Pairwise fun s s' => s.1.place < s'.1.place := by
  rw [variantSources, List.pairwise_iff_getElem]
  intro i j hi hj hlt
  simpa [Origin.place] using hlt

theorem pairwise_sources (phrase : Phrase) :
    phrase.sources.Pairwise fun s s' => s.1.place < s'.1.place := by
  refine List.pairwise_cons.mpr ⟨?_, pairwise_variantSources phrase⟩
  rintro ⟨origin, translations⟩ hmem
  obtain ⟨-, horigin⟩ := mem_variantSources.mp hmem
  cases origin with
  | base => exact absurd rfl horigin
  | variant index => exact Nat.succ_pos index

theorem inOrder_sources {rule : Origin × Translations → List Finding}
    (hrule : ∀ {source f}, f ∈ rule source → f.kind = kind ∧ f.origin? = some source.1)
    {sources : List (Origin × Translations)}
    (hsources : sources.Pairwise fun s s' => s.1.place < s'.1.place)
    (hitems : ∀ source ∈ sources, InOrder (phrase.Precedes supported) (rule source)) :
    InOrder (phrase.Precedes supported) (sources.flatMap rule) := by
  refine InOrder.flatMap hitems (hsources.imp fun hlt f hf g hg => ?_)
  obtain ⟨hfkind, hforigin⟩ := hrule hf
  obtain ⟨hgkind, hgorigin⟩ := hrule hg
  exact .origin (hfkind.trans hgkind.symm) hforigin hgorigin hlt

theorem inOrder_entries {rule : Locale × Template → List Finding} {translations : Translations}
    (origin : Origin) (hkind : kind ≠ .missing)
    (hrule : ∀ {entry f}, f ∈ rule entry →
      f.kind = kind ∧ f.origin? = some origin ∧ f.locale = entry.1)
    (hitems : ∀ entry ∈ translations.entries, InOrder (phrase.Precedes supported) (rule entry)) :
    InOrder (phrase.Precedes supported) (translations.entries.flatMap rule) := by
  have hlocales := List.pairwise_map.mp translations.ascending
  refine InOrder.flatMap hitems (hlocales.imp fun hlt f hf g hg => ?_)
  obtain ⟨hfkind, hforigin, hflocale⟩ := hrule hf
  obtain ⟨hgkind, hgorigin, hglocale⟩ := hrule hg
  refine .locale (hfkind.trans hgkind.symm) (hfkind ▸ hkind) (hforigin.trans hgorigin.symm) ?_
  rwa [hflocale, hglocale]

theorem inOrder_missing (phrase : Phrase) (supported : List Locale) :
    InOrder (phrase.Precedes supported) (missing supported phrase.base) := by
  have hsooner := (inOrder_sooner supported).filter fun locale => !phrase.base.contains locale
  exact InOrder.map (fun _ _ => Finding.missing.inj) (hsooner.imp .missing)

theorem inOrder_unsupported (phrase : Phrase) (supported : List Locale)
    (source : Origin × Translations) :
    InOrder (phrase.Precedes supported) (unsupported supported source) := by
  refine inOrder_of_pairwise (List.pairwise_map.mpr ?_)
  exact (source.2.ascending.filter _).imp fun hlt => .locale rfl nofun rfl hlt

theorem inOrder_mismatches (phrase : Phrase) (supported : List Locale) :
    InOrder (phrase.Precedes supported) (mismatches supported phrase.base) := by
  unfold mismatches
  split
  · exact .nil
  · have hlocales := List.pairwise_map.mp phrase.base.ascending
    refine inOrder_of_pairwise (List.pairwise_map.mpr ?_)
    exact (hlocales.filter _).imp fun hlt => .locale rfl nofun rfl hlt

theorem inOrder_unknown {source : Origin × Translations} (hmem : source ∈ phrase.variantSources) :
    InOrder (phrase.Precedes supported) (unknown phrase.base source) := by
  obtain ⟨hsource, -⟩ := mem_variantSources.mp hmem
  have hkind : Finding.Kind.unknown ≠ .missing := by decide
  refine inOrder_entries source.1 hkind ?_ ?_
  · intro entry f hf
    split at hf
    · cases hf
    · obtain ⟨name, -, rfl⟩ := List.mem_map.mp hf
      exact ⟨rfl, rfl, rfl⟩
  · intro entry hentry
    have hdefines : phrase.Defines source.1 entry.1 entry.2 :=
      ⟨source.2, hsource, Translations.mem_entries_iff.mp hentry⟩
    split
    · exact .nil
    · next known hknown =>
      have hsooner := (inOrder_sooner entry.2.placeholders).filter
        fun name => !known.placeholders.contains name
      exact InOrder.map (fun _ _ h => (Finding.unknown.inj h).2.2) (hsooner.imp (.unknown hdefines))

theorem inOrder_repeated {source : Origin × Translations} (hmem : source ∈ phrase.sources) :
    InOrder (phrase.Precedes supported) (repeated source) := by
  have hkind : Finding.Kind.repeated ≠ .missing := by decide
  refine inOrder_entries source.1 hkind ?_ ?_
  · intro entry f hf
    obtain ⟨name, -, rfl⟩ := List.mem_map.mp hf
    exact ⟨rfl, rfl, rfl⟩
  · intro entry hentry
    have hdefines : phrase.Defines source.1 entry.1 entry.2 :=
      ⟨source.2, mem_sources.mp hmem, Translations.mem_entries_iff.mp hentry⟩
    have hsooner := inOrder_repeatsAfter entry.2.placeholders
    exact InOrder.map (fun _ _ h => (Finding.repeated.inj h).2.2) (hsooner.imp (.repeated hdefines))

theorem inOrder_listed (phrase : Phrase) (supported : List Locale) (kind : Finding.Kind) :
    InOrder (phrase.Precedes supported) (phrase.listed supported kind) := by
  cases kind with
  | missing => exact inOrder_missing phrase supported
  | mismatch => exact inOrder_mismatches phrase supported
  | unsupported =>
    exact inOrder_sources unsupported_source phrase.pairwise_sources fun source _ =>
      inOrder_unsupported phrase supported source
  | unknown =>
    exact inOrder_sources unknown_source phrase.pairwise_variantSources fun _ => inOrder_unknown
  | repeated =>
    exact inOrder_sources repeated_source phrase.pairwise_sources fun _ => inOrder_repeated

-- ---------------------------------------------------------------------------
-- All findings
-- ---------------------------------------------------------------------------

theorem pairwise_findings (phrase : Phrase) (supported : List Locale) :
    (phrase.findings supported).Pairwise (phrase.Precedes supported) := by
  have hplaces : kinds.Pairwise fun k l => k.place < l.place := by decide
  rw [findings_eq]
  refine InOrder.flatMap (fun kind _ => phrase.inOrder_listed supported kind) ?_
  refine hplaces.imp fun hlt f hf g hg => .kind ?_
  rwa [kind_of_mem_listed hf, kind_of_mem_listed hg]

/-- No finding is listed twice, each is listed before those that it precedes, and this leaves
one list only: there is no other one with the same members in this order. -/
theorem findings_in_order (phrase : Phrase) (supported : List Locale) :
    (phrase.findings supported).Nodup ∧
      (phrase.findings supported).Pairwise (phrase.Precedes supported) ∧
      ∀ list : List Finding, list.Pairwise (phrase.Precedes supported) →
        (∀ f, f ∈ list ↔ f ∈ phrase.findings supported) → list = phrase.findings supported := by
  have hordered := phrase.pairwise_findings supported
  exact ⟨hordered.nodup, hordered, fun list hlist hmem => hlist.eq_of_mem_iff hordered hmem⟩

/-- Of the names in `{a}{b}{b}{a}` it is `b` that comes up again first, and a locale that is
supported twice is missing once. -/
theorem findings_in_order_crossed :
    let phrase : Phrase := ⟨.ofList [("en", ⟨"\x7ba\x7d\x7bb\x7d\x7bb\x7d\x7ba\x7d"⟩)], []⟩
    let supported : List Locale := ["fr", "de", "fr", "en"]
    let list : List Finding :=
      [.missing "fr", .missing "de", .repeated "en" .base "b", .repeated "en" .base "a"]
    phrase.findings supported = list ∧ list.Nodup ∧ list.Pairwise (phrase.Precedes supported) := by
  intro phrase supported list
  have hlist : phrase.findings supported = list := by decide +kernel
  obtain ⟨hnodup, hordered, -⟩ := findings_in_order phrase supported
  rw [hlist] at hnodup hordered
  exact ⟨hlist, hnodup, hordered⟩

end Phrase

end Phrasebook
