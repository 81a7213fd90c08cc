import Mathlib.Data.List.Sort
import Phrasebook.Proofs.Scanning

/-!
# Placeholders by position

An opening and a closing brace with something between them, but no brace, make a
placeholder (`Spans`). Which pairs of positions do so is a matter of the text
alone, without any order of reading. The names that a scan finds are the pieces
between these pairs, from left to right (`names_scan`).
-/

namespace Phrasebook

/-- The braces at the positions `i` and `j` make a placeholder: an opening and a closing one with
something between them, but no brace. -/
def Spans (s : List Char) (i j : Nat) : Prop :=
  s[i]? = some '{' ∧ s[j]? = some '}' ∧ i + 1 < j ∧
    ∀ k < j, i < k → s[k]? ≠ some '{' ∧ s[k]? ≠ some '}'

instance (s : List Char) (i j : Nat) : Decidable (Spans s i j) := by
  unfold Spans; infer_instance

def spans (s : List Char) : List (Nat × Nat) :=
  (List.range s.length).flatMap fun i =>
    ((List.range s.length).filter fun j => Spans s i j).map fun j => (i, j)

def between (s : List Char) (i j : Nat) : List Char := (s.take j).drop (i + 1)

theorem Spans.unique (h : Spans s i j) (h' : Spans s i k) : j = k := by
  obtain ⟨-, hj, hij, hnone⟩ := h
  obtain ⟨-, hk, hik, hnone'⟩ := h'
  rcases Nat.lt_trichotomy j k with hlt | heq | hlt
  · exact absurd hj (hnone' j hlt (by omega)).2
  · exact heq
  · exact absurd hk (hnone k hlt (by omega)).2

theorem Spans.lt_length (h : Spans s i j) : i < s.length ∧ j < s.length :=
  ⟨(List.getElem?_eq_some_iff.mp h.1).1, (List.getElem?_eq_some_iff.mp h.2.1).1⟩

theorem mem_spans : (i, j) ∈ spans s ↔ Spans s i j := by
  simp only [spans, List.mem_flatMap, List.mem_map, List.mem_filter, List.mem_range,
    decide_eq_true_eq, Prod.mk.injEq]
  constructor
  · rintro ⟨_, _, _, ⟨_, h⟩, rfl, rfl⟩
    exact h
  · intro h
    exact ⟨i, h.lt_length.1, j, ⟨h.lt_length.2, h⟩, rfl, rfl⟩

theorem spans_cons_succ : Spans (c :: s) (i + 1) (j + 1) ↔ Spans s i j := by
  simp only [Spans, List.getElem?_cons_succ]
  refine and_congr_right fun _ => and_congr_right fun _ => and_congr (by omega) ?_
  refine ⟨fun h k hk hi => ?_, fun h k hk hi => ?_⟩
  · exact h (k + 1) (by omega) (by omega)
  · cases k with
    | zero => omega
    | succ k => exact h k (by omega) (by omega)

theorem spans_zero_iff :
    Spans s 0 j ↔ ∃ name rest, Segment.opening? s = some (name, rest) ∧ j = name.length + 1 := by
  constructor
  · rintro ⟨hopen, hclose, hlt, hnone⟩
    obtain ⟨m, rfl⟩ : ∃ m, j = m + 1 := ⟨j - 1, by omega⟩
    cases s with
    | nil => cases hopen
    | cons c s =>
      obtain rfl : c = '{' := Option.some.inj hopen
      have hclose : s[m]? = some '}' := hclose
      obtain ⟨hm, hclose⟩ := List.getElem?_eq_some_iff.mp hclose
      have hlength : (s.take m).length = m := by rw [List.length_take]; omega
      have hsplit : s = s.take m ++ '}' :: s.drop (m + 1) := by
        rw [← hclose, ← List.drop_eq_getElem_cons hm, List.take_append_drop]
      have hplain : Plain (s.take m) := by
        intro c hc
        obtain ⟨k, hk, rfl⟩ := List.mem_take_iff_getElem.mp hc
        have hkm : k + 1 < m + 1 := by omega
        have hks := hnone (k + 1) hkm (Nat.succ_pos k)
        simpa [show k < s.length by omega] using hks
      have hname : IsName (s.take m) := ⟨List.ne_nil_of_length_pos (by omega), hplain⟩
      refine ⟨s.take m, s.drop (m + 1), ?_, by rw [hlength]⟩
      rw [Segment.opening?_eq_some_iff]
      exact ⟨hname, by simpa [token] using hsplit⟩
  · rintro ⟨name, rest, h, rfl⟩
    obtain ⟨hname, rfl⟩ := Segment.opening?_eq_some_iff.mp h
    have hpos := List.length_pos_iff.mpr hname.1
    refine ⟨by simp [token], by simp [token], by omega, fun k hk hi => ?_⟩
    obtain ⟨k, rfl⟩ : ∃ k', k = k' + 1 := ⟨k - 1, by omega⟩
    have hlt : k < name.length := by omega
    have hc := hname.2 _ (List.getElem_mem hlt)
    simpa [token, List.getElem?_append_left hlt, hlt] using hc

/-- Each position begins at most one placeholder. -/
theorem pairwise_spans (s : List Char) : (spans s).Pairwise fun a b => a.1 < b.1 := by
  refine List.pairwise_flatMap.mpr ⟨fun i _ => ?_, ?_⟩
  · rw [List.pairwise_map]
    refine List.Pairwise.imp_of_mem ?_ ((List.pairwise_lt_range).filter _)
    intro j k hj hk hlt
    simp only [List.mem_filter, decide_eq_true_eq] at hj hk
    exact absurd (hj.2.unique hk.2) (Nat.ne_of_lt hlt)
  · refine List.pairwise_lt_range.imp ?_
    intro i k hlt a ha b hb
    obtain ⟨_, _, rfl⟩ := List.mem_map.mp ha
    obtain ⟨_, _, rfl⟩ := List.mem_map.mp hb
    exact hlt

theorem eq_spans {list : List (Nat × Nat)} (h : list.Pairwise fun a b => a.1 < b.1)
    (hmem : ∀ i j, (i, j) ∈ list ↔ Spans s i j) : list = spans s := by
  have hasymm : Std.Asymm fun a b : Nat × Nat => a.1 < b.1 := ⟨fun _ _ => Nat.lt_asymm⟩
  refine List.Pairwise.eq_of_mem_iff h (pairwise_spans s) ?_
  rintro ⟨i, j⟩
  rw [hmem, mem_spans]

theorem spans_cons (c : Char) (s : List Char) :
    spans (c :: s) =
      ((Segment.opening? (c :: s)).map fun found => (0, found.1.length + 1)).toList ++
        (spans s).map fun span => (span.1 + 1, span.2 + 1) := by
  refine (eq_spans ?_ ?_).symm
  · rw [List.pairwise_append, List.pairwise_map]
    refine ⟨?_, (pairwise_spans s).imp fun h => Nat.succ_lt_succ h, ?_⟩
    · cases Segment.opening? (c :: s) <;> simp
    · intro a ha b hb
      obtain ⟨_, _, rfl⟩ := Option.map_eq_some_iff.mp (Option.mem_toList.mp ha)
      obtain ⟨_, _, rfl⟩ := List.mem_map.mp hb
      exact Nat.succ_pos _
  · intro i j
    rw [List.mem_append]
    cases i with
    | zero =>
      rw [spans_zero_iff]
      rcases Segment.opening? (c :: s) with _ | ⟨name, rest⟩
      · simp
      · simp
    | succ i =>
      cases j with
      | zero => simp [Spans]
      | succ j => simp [spans_cons_succ, mem_spans]

def named (s : List Char) : List (List Char) := (spans s).map fun span => between s span.1 span.2

theorem named_cons (c : Char) (s : List Char) :
    named (c :: s) = ((Segment.opening? (c :: s)).map Prod.fst).toList ++ named s := by
  rw [named, spans_cons, List.map_append, List.map_map]
  congr 1
  cases h : Segment.opening? (c :: s) with
  | none => rfl
  | some found =>
    obtain ⟨hname, hs⟩ := Segment.opening?_eq_some_iff.mp h
    simp [between, hs, token]

theorem named_of_open_notMem (h : '{' ∉ front) (s : List Char) : named (front ++ s) = named s := by
  induction front with
  | nil => rfl
  | cons c front ih =>
    rw [List.mem_cons, not_or] at h
    have hc : Segment.opening? (c :: (front ++ s)) = none := by
      simp [Segment.opening?, Ne.symm h.1]
    rw [List.cons_append, named_cons, hc, ih h.2]
    rfl

/-- The pieces of a text between braces that make a placeholder are the names that a scan finds. -/
theorem names_scan (s : List Char) : (Segment.scan s).filterMap Segment.name? = named s := by
  induction s using Segment.scan_induction with
  | nil => simp [Segment.scan, named, spans]
  | token name rest hname ih =>
    have hopen : Segment.opening? (token name ++ rest) = some (name, rest) :=
      Segment.opening?_eq_some_iff.mpr ⟨hname, rfl⟩
    have hfront : '{' ∉ name ++ ['}'] := by simpa using hname.2.open_notMem
    have hfound : (Segment.placeholder name).name? = some name := rfl
    rw [Segment.scan_token_append hname, List.filterMap_cons_some hfound, ih]
    rw [token, List.cons_append] at hopen ⊢
    rw [named_cons, hopen, named_of_open_notMem hfront]
    rfl
  | literal c rest hc ih =>
    rw [Segment.scan_cons hc, List.filterMap_cons_none rfl, ih, named_cons, hc]
    rfl

end Phrasebook
