import Phrasebook.Proofs.Positions
import Phrasebook.Proofs.Splitting

/-!
# Texts put together

Two texts can meet at a seam: the one ends and the other begins with a part of
one placeholder. That placeholder then stands between those of the two texts
(`names_append_of_seam`). Where there is no seam, the second text completes nothing
that the first leaves open (`abandoned_of_no_seam`), and the placeholders of the
whole are those of its parts.
-/

namespace Phrasebook

/-- A placeholder whose name is `x ++ y` stands across the end of `a` and the beginning of `b`. -/
structure Seam (a b x y : List Char) : Prop where
  name : IsName (x ++ y)
  opens : '{' :: x <:+ a
  closes : y ++ ['}'] <+: b

theorem exists_append_of_append_close (hx : '}' ∉ x) (h : x ++ b = name ++ '}' :: rest) :
    ∃ y, name = x ++ y ∧ b = y ++ '}' :: rest := by
  rcases List.append_eq_append_iff.mp h with ⟨y, hname, hb⟩ | ⟨more, rfl, hclose⟩
  · exact ⟨y, hname, hb⟩
  · cases more with
    | nil => exact ⟨[], by simp, hclose.symm⟩
    | cons c more =>
      obtain ⟨rfl, -⟩ := List.cons.inj hclose
      simp at hx

namespace Segment

-- ---------------------------------------------------------------------------
-- The two sides of a seam
-- ---------------------------------------------------------------------------

theorem named_of_plain (h : Plain s) : named s = [] := by
  have hnamed := named_of_open_notMem h.open_notMem []
  rwa [List.append_nil] at hnamed

theorem opening?_plain (h : Plain x) : opening? ('{' :: x) = none := by
  refine Option.eq_none_iff_forall_ne_some.mpr ?_
  rintro ⟨name, rest⟩ hsome
  obtain ⟨-, heq⟩ := opening?_eq_some_iff.mp hsome
  have hclose : '}' ∈ '{' :: x := by simp [heq, token]
  simp [h.close_notMem] at hclose

theorem names_append_open (h : Plain x) (front : List Char) :
    (scan (front ++ '{' :: x)).filterMap name? = (scan front).filterMap name? := by
  have hnone : (scan ('{' :: x)).filterMap name? = [] := by
    simp [names_scan, named_cons, opening?_plain h, named_of_plain h]
  rw [scan_append (abandoned_open front x), List.filterMap_append, hnone, List.append_nil]

theorem names_close_append (h : Plain y) (rest : List Char) :
    (scan (y ++ ['}'] ++ rest)).filterMap name? = (scan rest).filterMap name? := by
  have hfront : '{' ∉ y ++ ['}'] := by simpa using h.open_notMem
  rw [names_scan, names_scan, named_of_open_notMem hfront]

theorem names_append_of_seam (h : Seam a b x y) :
    (scan (a ++ b)).filterMap name? =
      (scan a).filterMap name? ++ (x ++ y) :: (scan b).filterMap name? := by
  obtain ⟨hname, ⟨front, rfl⟩, ⟨rest, rfl⟩⟩ := h
  obtain ⟨hx, hy⟩ := plain_append.mp hname.2
  have htoken : front ++ '{' :: x ++ (y ++ ['}'] ++ rest) = front ++ (token (x ++ y) ++ rest) := by
    simp [token]
  rw [names_append_open hx, names_close_append hy, htoken, scan_append_token hname]
  simp [name?]

theorem abandoned_of_no_seam (h : ∀ x y, ¬ Seam a b x y) : Abandoned a b := by
  intro front x hx hfront
  refine Option.eq_none_iff_forall_ne_some.mpr ?_
  rintro ⟨name, rest⟩ hsome
  obtain ⟨hname, heq⟩ := opening?_eq_some_iff.mp hsome
  have heq : x ++ b = name ++ '}' :: rest := by simpa [token] using heq
  obtain ⟨y, rfl, rfl⟩ := exists_append_of_append_close hx.close_notMem heq
  exact h x y ⟨hname, ⟨front, hfront.symm⟩, ⟨rest, by simp⟩⟩

end Segment

-- ---------------------------------------------------------------------------
-- Templates
-- ---------------------------------------------------------------------------

namespace Template

/-- Between the names of two templates that are put together stands the name at their seam, if
there is one, and nothing else. -/
theorem placeholders_append (a b : Template) :
    (∀ x y : String, Seam a.source.toList b.source.toList x.toList y.toList →
      (Template.mk (a.source ++ b.source)).placeholders =
        a.placeholders ++ [x ++ y] ++ b.placeholders) ∧
    ((∀ x y : String, ¬ Seam a.source.toList b.source.toList x.toList y.toList) →
      (Template.mk (a.source ++ b.source)).placeholders = a.placeholders ++ b.placeholders) := by
  simp only [placeholders_eq_map, segments, String.toList_append]
  constructor
  · intro x y hseam
    simp [Segment.names_append_of_seam hseam]
  · intro hnone
    have hapart : Segment.Abandoned a.source.toList b.source.toList := by
      refine Segment.abandoned_of_no_seam fun x y hseam => ?_
      exact hnone (String.ofList x) (String.ofList y) (by simpa using hseam)
    simp [Segment.scan_append hapart]

theorem placeholders_append_stray :
    let a : Template := ⟨"\x7bp\x7d\x7d\x7b\x7bx"⟩
    let b : Template := ⟨" y\x7d\x7d\x7bq\x7d\x7b"⟩
    Seam a.source.toList b.source.toList "x".toList " y".toList ∧
      (Template.mk (a.source ++ b.source)).placeholders = ["p", "x y", "q"] ∧
      (Template.mk (b.source ++ "\x7d")).placeholders = ["q"] := by
  intro a b
  have hseam : Seam a.source.toList b.source.toList "x".toList " y".toList :=
    ⟨by decide, by decide, by decide⟩
  have hlast : b.source.toList = " y\x7d\x7d\x7bq\x7d".toList ++ ['{'] := by decide
  have hnone (x y : String) : ¬ Seam b.source.toList "\x7d".toList x.toList y.toList := by
    rintro ⟨hname, ⟨front, hopens⟩, hcloses⟩
    have hy : y.toList = [] := by simpa using hcloses.length_le
    rcases Segment.snoc_eq_append_cons (hlast.symm.trans hopens.symm) with ⟨hx, -⟩ | ⟨init, hx, -⟩
    · simp [hx, hy, IsName] at hname
    · simp [hx, IsName] at hname
  have hjoined := (placeholders_append a b).1 "x" " y" hseam
  have hapart := (placeholders_append b ⟨"\x7d"⟩).2 hnone
  have ha : a.placeholders = ["p"] := by decide +kernel
  have hb : b.placeholders = ["q"] := by decide +kernel
  have hclose : (Template.mk "\x7d").placeholders = [] := by decide +kernel
  rw [ha, hb] at hjoined
  rw [hb, hclose] at hapart
  exact ⟨hseam, hjoined, hapart⟩

end Template

end Phrasebook
