import Mathlib.Data.List.Basic
import Mathlib.Data.List.Count
import Phrasebook.Proofs.Filling

/-!
# Filling a filled text

On clean segments the names that are left to fill can be followed as a list: to write
over the first placeholder of a name is to erase the name once (`names_overwrite`). So
a filled template has the names of the template less one of each argument
(`placeholders_fill`), and to fill it again with the same arguments changes it if and
only if one of them is still named (`fill_eq_source_iff`).
-/

namespace Phrasebook

namespace Segment

variable {segments : List Segment} {entries : List (String × Value)}

theorem names_overwrite :
    (overwrite name new segments).filterMap name? = (segments.filterMap name?).erase name := by
  induction segments with
  | nil => rfl
  | cons segment segments ih =>
    cases segment with
    | literal c => exact ih
    | placeholder other =>
      by_cases heq : other = name
      · simp [overwrite, heq, name?]
      · simp [overwrite, heq, name?, ih, List.erase_cons_tail]

theorem names_foldl_fillOne (entries : List (String × Value)) (segments : List Segment) :
    (entries.foldl fillOne segments).filterMap name? =
      (segments.filterMap name?).diff (entries.map fun entry => entry.1.toList) := by
  induction entries generalizing segments with
  | nil => rfl
  | cons entry entries ih => simp [ih, fillOne, names_overwrite]

/-- The arguments leave segments as they are only if none of them is named there: a name that
is given a value stands less often afterwards. -/
theorem foldl_fillOne_eq_self_iff :
    entries.foldl fillOne segments = segments ↔
      ∀ entry ∈ entries, entry.1.toList ∉ segments.filterMap name? := by
  constructor
  · intro h entry hentry hmem
    have hdiff := congrArg (List.count entry.1.toList) (names_foldl_fillOne entries segments)
    have hkey : 0 < (entries.map fun entry => entry.1.toList).count entry.1.toList :=
      List.count_pos_iff.mpr (List.mem_map_of_mem hentry)
    have hname : 0 < (segments.filterMap name?).count entry.1.toList :=
      List.count_pos_iff.mpr hmem
    rw [h, List.count_diff] at hdiff
    omega
  · intro h
    induction entries with
    | nil => rfl
    | cons entry entries ih =>
      obtain ⟨hentry, hrest⟩ := List.forall_mem_cons.mp h
      rw [mem_names] at hentry
      rw [List.foldl_cons, fillOne, overwrite_of_notMem hentry, ih hrest]

end Segment

-- ---------------------------------------------------------------------------
-- Templates
-- ---------------------------------------------------------------------------

namespace Template

variable {t : Template} {arguments : Arguments}

theorem clean_fill (h : Segment.Clean t.segments) (hp : arguments.Plain) :
    Segment.Clean (Template.mk (t.fill arguments)).segments := by
  rw [segments_fill h hp]
  exact (h.foldl_fillOne hp).1

theorem placeholders_fill (h : Segment.Clean t.segments) (hp : arguments.Plain) :
    (Template.mk (t.fill arguments)).placeholders = t.placeholders.diff arguments.names := by
  have hinj : Function.Injective String.ofList := fun a b hab => by
    simpa using congrArg String.toList hab
  rw [placeholders_eq_map, segments_fill h hp, Segment.names_foldl_fillOne, List.map_diff hinj,
    ← placeholders_eq_map]
  simp [Arguments.names, Function.comp_def]

theorem fill_eq_source_iff (h : Segment.Clean t.segments) (hp : arguments.Plain) :
    t.fill arguments = t.source ↔ ∀ name ∈ arguments.names, name ∉ t.placeholders := by
  have hsame : t.fill arguments = t.source ↔
      arguments.entries.foldl Segment.fillOne t.segments = t.segments := by
    constructor
    · intro hfill
      rw [← segments_fill h hp, hfill]
    · intro hsegments
      have htext := congrArg (List.flatMap Segment.text) (segments_fill h hp)
      rw [hsegments, segments, segments, Segment.text_scan, Segment.text_scan] at htext
      exact String.toList_inj.mp htext
  rw [hsame, Segment.foldl_fillOne_eq_self_iff]
  simp only [Arguments.names, List.forall_mem_map, mem_placeholders, Segment.mem_names, segments]

/-- A filled text names what the template names, less the first place of each argument. Filling
it once more changes nothing if and only if no argument is named twice in the template. -/
theorem placeholders_fill_and_refill_iff (ht : t.Opened ∨ t.Closed) (hp : arguments.Plain) :
    (Template.mk (t.fill arguments)).placeholders = t.placeholders.diff arguments.names ∧
      ((Template.mk (t.fill arguments)).fill arguments = t.fill arguments ↔
        ∀ name ∈ arguments.names, t.placeholders.count name ≤ 1) := by
  have hclean : Segment.Clean t.segments := Segment.clean_scan ht
  have hleft := placeholders_fill hclean hp
  refine ⟨hleft, (fill_eq_source_iff (clean_fill hclean hp) hp).trans ?_⟩
  -- The first filling has used up one place of each name.
  refine forall₂_congr fun name hname => ?_
  have honce : arguments.names.count name = 1 := by
    rw [Arguments.count_names, if_pos hname]
  rw [hleft, ← List.count_eq_zero, List.count_diff, honce]
  omega

theorem placeholders_fill_and_refill_iff_twice :
    let t : Template := ⟨"\x7ba\x7d\x7d \x7bb\x7d \x7ba\x7d \x7bc\x7d"⟩
    let arguments : Arguments := .ofList [("", .bool true), ("b", .string "x"), ("a", .number 1)]
    (t.Opened ∨ t.Closed) ∧ arguments.Plain ∧
      (Template.mk (t.fill arguments)).placeholders = ["a", "c"] ∧
      (Template.mk (t.fill arguments)).fill arguments ≠ t.fill arguments := by
  intro t arguments
  have ht : t.Opened := by decide +kernel
  have hp : arguments.Plain := by decide +kernel
  obtain ⟨hleft, hrefill⟩ := placeholders_fill_and_refill_iff (.inl ht) hp
  have hnames : t.placeholders.diff arguments.names = ["a", "c"] := by decide +kernel
  have hkey : "a" ∈ arguments.names := by decide +kernel
  have htwice : t.placeholders.count "a" = 2 := by decide +kernel
  refine ⟨.inl ht, hp, hleft.trans hnames, fun hsame => ?_⟩
  have honce := hrefill.mp hsame "a" hkey
  omega

end Template

end Phrasebook
