import Phrasebook.Spelling

/-!
# Suggestions

The distances to a text contain those to the text without its first character
(`tail_distanceRow`), so no edit leads from a text to itself (`distance_self`).
What is suggested for a name is therefore another one of the texts that are
available (`mem_of_mem_suggestions`, `ne_of_mem_suggestions`).
-/

namespace Phrasebook.Spelling

theorem tail_distanceRow (text : List Char) (d : Char) (target : List Char) :
    (distanceRow text (d :: target)).tail = distanceRow text target := by
  induction text with
  | nil => rfl
  | cons c text ih => rw [distanceRow, nextRow, List.tail_cons, ih, distanceRow]

theorem headD_distanceRow_cons_le (c : Char) (text target : List Char) :
    (distanceRow (c :: text) (c :: target)).headD 0 ≤ (distanceRow text target).headD 0 := by
  rw [distanceRow, nextRow, tail_distanceRow, if_pos rfl]
  exact Nat.min_le_right ..

theorem distance_self (s : String) : distance s s = 0 := by
  unfold distance
  induction s.toList with
  | nil => rfl
  | cons c text ih =>
    have hle := headD_distanceRow_cons_le c text text
    rw [ih] at hle
    exact Nat.eq_zero_of_le_zero hle

variable {s name : String} {available : List String}

theorem exists_candidatesAt (h : s ∈ suggestions name available) :
    ∃ edits, 1 ≤ edits ∧ s ∈ candidatesAt name available edits := by
  obtain ⟨edits, hedits, hs⟩ := List.mem_flatMap.mp (List.mem_of_mem_take h)
  exact ⟨edits, (List.mem_range'_1.mp hedits).1, hs⟩

theorem mem_of_mem_suggestions (h : s ∈ suggestions name available) : s ∈ available := by
  obtain ⟨edits, -, hs⟩ := exists_candidatesAt h
  exact (List.mem_filter.mp hs).1

theorem ne_of_mem_suggestions (h : s ∈ suggestions name available) : s ≠ name := by
  obtain ⟨edits, hedits, hs⟩ := exists_candidatesAt h
  have hdistance : distance name s = edits := by simpa using (List.mem_filter.mp hs).2
  rintro rfl
  rw [distance_self] at hdistance
  omega

end Phrasebook.Spelling
