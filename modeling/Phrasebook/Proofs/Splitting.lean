import Mathlib.Logic.ExistsUnique
import Phrasebook.Proofs.Leftovers

/-!
# Splitting at a token

The scan of two texts put together is the scan of the one and then of the other,
unless the second completes a brace that the first leaves open (`scan_append`).
A token never does that, so it is found wherever it stands (`scan_append_token`),
and a search for the characters of a token finds what the scan finds
(`mem_scan_iff`). The first token of a name splits a text in one way, and it is
there that a single argument is written (`fill_single`).
-/

namespace Phrasebook

theorem append_cons_inj_of_first {α : Type} [DecidableEq α] {a b c d : List α} {x : α}
    (ha : x ∉ a) (hc : x ∉ c) (h : a ++ x :: b = c ++ x :: d) : a = c ∧ b = d := by
  have htake {front rest : List α} (hfront : x ∉ front) :
      (front ++ x :: rest).takeWhile (· != x) = front := by
    have hpos : ∀ y ∈ front, (y != x) = true := fun y hy => by
      simpa using ne_of_mem_of_not_mem hy hfront
    simp [List.takeWhile_append_of_pos hpos]
  have hac : a = c := by rw [← htake ha, h, htake hc]
  subst hac
  simpa using h

namespace Segment

-- ---------------------------------------------------------------------------
-- Two texts put together
-- ---------------------------------------------------------------------------

theorem opening?_append (h : opening? s = some (name, after)) (rest : List Char) :
    opening? (s ++ rest) = some (name, after ++ rest) := by
  obtain ⟨hname, rfl⟩ := opening?_eq_some_iff.mp h
  exact opening?_eq_some_iff.mpr ⟨hname, List.append_assoc ..⟩

theorem Abandoned.of_append (before : List Char) (h : Abandoned (before ++ front) s) :
    Abandoned front s := by
  intro f name hname hfront
  exact h (before ++ f) name hname (by rw [hfront, List.append_assoc])

theorem Abandoned.opening?_eq_none (h : Abandoned (c :: front) s)
    (hc : opening? (c :: front) = none) :
    Segment.opening? (c :: (front ++ s)) = none := by
  refine Option.eq_none_iff_forall_ne_some.mpr ?_
  rintro ⟨name, after⟩ hsome
  obtain ⟨hname, heq⟩ := opening?_eq_some_iff.mp hsome
  simp only [token, List.cons_append, List.append_assoc, List.nil_append, List.cons.injEq] at heq
  obtain ⟨rfl, heq⟩ := heq
  have hopen (hfront : Plain front) : False := by
    have hnone := h [] front hfront rfl
    cases hnone.symm.trans hsome
  rcases List.append_eq_append_iff.mp heq with ⟨more, rfl, -⟩ | ⟨more, rfl, hclose⟩
  · exact hopen (plain_append.mp hname.2).1
  · cases more with
    | nil => exact hopen (by simpa using hname.2)
    | cons d more =>
      obtain ⟨rfl, -⟩ := List.cons.inj hclose
      cases hc.symm.trans (opening?_name hname)

theorem scan_append (h : Abandoned a b) : scan (a ++ b) = scan a ++ scan b := by
  induction a using scan_induction with
  | nil => simp [scan]
  | token name rest hname ih =>
    simp [scan_token_append hname, ih (h.of_append _)]
  | literal c rest hc ih =>
    simp [scan_cons hc, scan_cons (h.opening?_eq_none hc), ih (Abandoned.of_append [c] h)]

theorem abandoned_open (front s : List Char) : Abandoned front ('{' :: s) := by
  intro f name hname _
  simp [opening?, closed?, List.dropWhile_append_of_pos hname]

theorem scan_append_token (h : IsName name) (a b : List Char) :
    scan (a ++ (token name ++ b)) = scan a ++ .placeholder name :: scan b := by
  have hseam : Abandoned a (token name ++ b) := abandoned_open a _
  rw [scan_append hseam, scan_token_append h]

-- ---------------------------------------------------------------------------
-- The first token of a name
-- ---------------------------------------------------------------------------

theorem exists_first_token (h : IsName name) (hmem : .placeholder name ∈ scan s) :
    ∃ a b, s = a ++ (token name ++ b) ∧ .placeholder name ∉ scan a := by
  induction s using scan_induction with
  | nil => simp [scan] at hmem
  | token other rest hother ih =>
    by_cases heq : other = name
    · subst heq
      exact ⟨[], rest, rfl, by simp [scan]⟩
    · simp only [scan_token_append hother, List.mem_cons, placeholder.injEq, Ne.symm heq,
        false_or] at hmem
      obtain ⟨a, b, rfl, ha⟩ := ih hmem
      refine ⟨token other ++ a, b, (List.append_assoc ..).symm, ?_⟩
      simpa [scan_token_append hother, Ne.symm heq] using ha
  | literal c rest hc ih =>
    simp only [scan_cons hc, List.mem_cons, reduceCtorEq, false_or] at hmem
    obtain ⟨a, b, rfl, ha⟩ := ih hmem
    -- A placeholder at the head of the shorter text would stand at the head of the whole.
    have hstart : opening? (c :: a) = none := by
      refine Option.eq_none_iff_forall_ne_some.mpr fun found hfound => ?_
      cases hc.symm.trans (opening?_append hfound _)
    exact ⟨c :: a, b, rfl, by simpa [scan_cons hstart] using ha⟩

theorem mem_scan_iff (h : IsName name) : .placeholder name ∈ scan s ↔ token name <:+: s := by
  constructor
  · intro hmem
    obtain ⟨a, b, rfl, -⟩ := exists_first_token h hmem
    exact ⟨a, b, List.append_assoc ..⟩
  · rintro ⟨a, b, rfl⟩
    simp [List.append_assoc, scan_append_token h]

theorem first_token_unique (h : IsName name) (ha : .placeholder name ∉ scan a)
    (hc : .placeholder name ∉ scan c) (heq : a ++ (token name ++ b) = c ++ (token name ++ d)) :
    a = c ∧ b = d := by
  -- As segments, the two splits are at the first place of one element.
  have hscan := congrArg scan heq
  rw [scan_append_token h, scan_append_token h] at hscan
  obtain ⟨hac, hbd⟩ := append_cons_inj_of_first ha hc hscan
  constructor
  · rw [← text_scan a, hac, text_scan]
  · rw [← text_scan b, hbd, text_scan]

theorem replaceFirst_first_token (h : IsName name) (ha : .placeholder name ∉ scan a) :
    replaceFirst (token name) new (a ++ (token name ++ b)) = a ++ (new ++ b) := by
  simp [replaceFirst_scan h, scan_append_token h, overwrite_append ha, overwrite,
    flatMap_text_literals, text_scan]

end Segment

-- ---------------------------------------------------------------------------
-- Templates
-- ---------------------------------------------------------------------------

namespace Template

variable {t before after : Template} {name : String}

/-- The first token of a name stands between two parts of a template. -/
structure SplitsAt (t : Template) (name : String) (before after : Template) : Prop where
  source : t.source.toList = before.source.toList ++ (token name.toList ++ after.source.toList)
  first : name ∉ before.placeholders

theorem SplitsAt.placeholders (h : t.SplitsAt name before after) (hname : IsName name.toList) :
    t.placeholders = before.placeholders ++ name :: after.placeholders := by
  have hname? : (Segment.placeholder name.toList).name?.map String.ofList = some name := by
    simp [Segment.name?]
  simp [Template.placeholders, segments, h.source, Segment.scan_append_token hname, hname?]

theorem existsUnique_splitsAt (hname : IsName name.toList) (hmem : name ∈ t.placeholders) :
    ∃! parts : Template × Template, t.SplitsAt name parts.1 parts.2 := by
  obtain ⟨a, b, hs, ha⟩ := Segment.exists_first_token hname (mem_placeholders.mp hmem)
  refine ⟨(⟨String.ofList a⟩, ⟨String.ofList b⟩), ⟨?_, ?_⟩, ?_⟩
  · simpa using hs
  · simpa [mem_placeholders, segments] using ha
  · rintro ⟨before, after⟩ ⟨hsource, hfirst⟩
    simp only [mem_placeholders, segments] at hfirst
    obtain ⟨rfl, rfl⟩ := Segment.first_token_unique hname ha hfirst (hs.symm.trans hsource)
    simp

theorem fill_ofList_single (t : Template) (name : String) (value : Value) :
    t.fill (.ofList [(name, value)]) =
      String.ofList (replaceFirst (token name.toList) value.text.toList t.source.toList) :=
  rfl

theorem SplitsAt.fill (h : t.SplitsAt name before after) (hname : IsName name.toList)
    (value : Value) :
    t.fill (.ofList [(name, value)]) = before.source ++ value.text ++ after.source := by
  have hfirst : .placeholder name.toList ∉ Segment.scan before.source.toList := by
    simpa [mem_placeholders, segments] using h.first
  rw [fill_ofList_single, h.source, Segment.replaceFirst_first_token hname hfirst]
  simp [← String.toList_inj]

/-- A single argument is written over the first token of its name, whatever stands around it;
without one, the text stays as it is. -/
theorem fill_single (t : Template) (hname : IsName name.toList) (value : Value) :
    (name ∉ t.placeholders → t.fill (.ofList [(name, value)]) = t.source) ∧
      (name ∈ t.placeholders → ∃! parts : Template × Template, t.SplitsAt name parts.1 parts.2) ∧
      (∀ before after : Template, t.SplitsAt name before after →
        t.fill (.ofList [(name, value)]) = before.source ++ value.text ++ after.source ∧
          t.placeholders = before.placeholders ++ [name] ++ after.placeholders) ∧
      occurrences (token name.toList) t.source.toList = t.placeholders.count name := by
  refine ⟨fun habsent => ?_, existsUnique_splitsAt hname, fun before after hsplit => ?_, ?_⟩
  · have hnone : .placeholder name.toList ∉ Segment.scan t.source.toList :=
      mt mem_placeholders.mpr habsent
    rw [fill_ofList_single, Segment.replaceFirst_scan hname, Segment.overwrite_of_notMem hnone,
      Segment.text_scan, String.ofList_toList]
  · exact ⟨hsplit.fill hname value, by simpa using hsplit.placeholders hname⟩
  · exact (count_placeholders hname).symm

/-- Braces that belong to nothing stand before and behind the first of two tokens. -/
theorem fill_single_stray :
    let t : Template := ⟨"\x7b\x7ba\x7d\x7b\x7d\x7ba\x7d\x7d"⟩
    IsName "a".toList ∧ t.SplitsAt "a" ⟨"\x7b"⟩ ⟨"\x7b\x7d\x7ba\x7d\x7d"⟩ ∧
      t.fill (.ofList [("a", .string "\x7d")]) = "\x7b\x7d\x7b\x7d\x7ba\x7d\x7d" ∧
      occurrences (token "a".toList) t.source.toList = 2 := by
  intro t
  have hname : IsName "a".toList := by decide
  have hsplit : t.SplitsAt "a" ⟨"\x7b"⟩ ⟨"\x7b\x7d\x7ba\x7d\x7d"⟩ :=
    ⟨by decide, by decide +kernel⟩
  obtain ⟨-, -, hparts, hcount⟩ := fill_single t hname (.string "\x7d")
  have hnames : t.placeholders.count "a" = 2 := by decide +kernel
  exact ⟨hname, hsplit, (hparts _ _ hsplit).1, hcount.trans hnames⟩

end Template

end Phrasebook
