import Mathlib.Order.Bounds.Basic
import Phrasebook.Proofs.Suggestions

/-!
# Edits

An edit puts one character into a text, takes one out or writes another one in
its place. The distance of two texts is the least number of edits, one after
another, that turn the first into the second (`isLeast_distance`): that many are
enough (`edits_gap`), and a single edit brings a text no more than one step nearer
to any other (`gap_le_of_edit`), so fewer are not.
-/

namespace Phrasebook.Spelling

inductive Edit : List Char → List Char → Prop
  | insert (before after : List Char) (c : Char) : Edit (before ++ after) (before ++ c :: after)
  | delete (before after : List Char) (c : Char) : Edit (before ++ c :: after) (before ++ after)
  | replace (before after : List Char) {c d : Char} (h : c ≠ d) :
    Edit (before ++ c :: after) (before ++ d :: after)

inductive Edits : Nat → List Char → List Char → Prop
  | none : Edits 0 s s
  | cons : Edit s t → Edits n t u → Edits (n + 1) s u

theorem Edit.cons (h : Edit s t) (c : Char) : Edit (c :: s) (c :: t) := by
  cases h with
  | insert before after d => exact .insert (c :: before) after d
  | delete before after d => exact .delete (c :: before) after d
  | replace before after hne => exact .replace (c :: before) after hne

theorem Edits.keep (h : Edits n s t) (c : Char) : Edits n (c :: s) (c :: t) := by
  induction h with
  | none => exact .none
  | cons hedit _ ih => exact .cons (hedit.cons c) ih

theorem Edits.min (h : Edits m s t) (h' : Edits n s t) : Edits (min m n) s t := by
  rcases Nat.le_total m n with hle | hle
  · rwa [Nat.min_eq_left hle]
  · rwa [Nat.min_eq_right hle]

theorem edits_zero_iff : Edits 0 s t ↔ s = t := by
  constructor
  · intro h
    cases h
    rfl
  · rintro rfl
    exact .none

theorem Edits.length_le {s t : List Char} (h : Edits n s t) : t.length ≤ s.length + n := by
  induction h with
  | none => exact Nat.le_refl _
  | cons hedit _ ih =>
    cases hedit <;> simp only [List.length_append, List.length_cons] at ih ⊢ <;> omega

-- ---------------------------------------------------------------------------
-- The distance, character by character
-- ---------------------------------------------------------------------------

/-- The distance of two texts as lists of characters. -/
def gap (s t : List Char) : Nat := (distanceRow s t).headD 0

theorem distance_eq_gap (a b : String) : distance a b = gap a.toList b.toList := rfl

@[simp] theorem gap_nil (t : List Char) : gap [] t = t.length := by
  cases t <;> rfl

@[simp] theorem gap_cons_nil (c : Char) (s : List Char) : gap (c :: s) [] = gap s [] + 1 := rfl

theorem gap_cons_cons (c d : Char) (s t : List Char) :
    gap (c :: s) (d :: t) =
      min (min (gap s (d :: t) + 1) (gap (c :: s) t + 1)) (gap s t + if c = d then 0 else 1) := by
  simp [gap, distanceRow, nextRow, tail_distanceRow]

-- ---------------------------------------------------------------------------
-- That many edits are enough
-- ---------------------------------------------------------------------------

theorem edits_of_nil (t : List Char) : Edits t.length [] t := by
  induction t with
  | nil => exact .none
  | cons d t ih => exact .cons (.insert [] [] d) (ih.keep d)

theorem edits_gap (s t : List Char) : Edits (gap s t) s t := by
  induction s generalizing t with
  | nil => simpa using edits_of_nil t
  | cons c s ih =>
    have hdelete (t : List Char) : Edits (gap s t + 1) (c :: s) t := .cons (.delete [] s c) (ih t)
    induction t with
    | nil => exact hdelete []
    | cons d t iht =>
      have hinsert : Edits (gap (c :: s) t + 1) (c :: s) (d :: t) :=
        .cons (.insert [] (c :: s) d) (iht.keep d)
      have hkeep : Edits (gap s t + if c = d then 0 else 1) (c :: s) (d :: t) := by
        split
        · next heq => exact heq ▸ (ih t).keep c
        · next hne => exact .cons (.replace [] s hne) ((ih t).keep d)
      rw [gap_cons_cons]
      exact ((hdelete (d :: t)).min hinsert).min hkeep

-- ---------------------------------------------------------------------------
-- Fewer edits are not enough
-- ---------------------------------------------------------------------------

theorem gap_cons_right_le (s t : List Char) (d : Char) : gap s (d :: t) ≤ gap s t + 1 := by
  cases s with
  | nil => simp
  | cons c s => rw [gap_cons_cons]; omega

theorem gap_cons_left_le (c : Char) (s u : List Char) : gap (c :: s) u ≤ gap s u + 1 := by
  cases u with
  | nil => simp
  | cons e u => rw [gap_cons_cons]; omega

theorem gap_le_cons_left (c : Char) (s u : List Char) : gap s u ≤ gap (c :: s) u + 1 := by
  induction u with
  | nil => simp; omega
  | cons e u ih =>
    have hright := gap_cons_right_le s u e
    rw [gap_cons_cons]
    split <;> omega

theorem gap_replace_le (c d : Char) (s u : List Char) : gap (c :: s) u ≤ gap (d :: s) u + 1 := by
  induction u with
  | nil => simp
  | cons e u ih =>
    rw [gap_cons_cons, gap_cons_cons]
    split <;> split <;> omega

theorem gap_append_le {s t : List Char} (h : ∀ u, gap s u ≤ gap t u + 1)
    (before u : List Char) : gap (before ++ s) u ≤ gap (before ++ t) u + 1 := by
  induction before generalizing u with
  | nil => exact h u
  | cons c before ih =>
    rw [List.cons_append, List.cons_append]
    induction u with
    | nil => simpa using ih []
    | cons e u ihu =>
      have htail := ih u
      have hwhole := ih (e :: u)
      rw [gap_cons_cons, gap_cons_cons]
      omega

/-- A single edit brings a text at most one step nearer to another one. -/
theorem gap_le_of_edit (h : Edit s t) (u : List Char) : gap s u ≤ gap t u + 1 := by
  cases h with
  | insert before after c => exact gap_append_le (gap_le_cons_left c after) before u
  | delete before after c => exact gap_append_le (gap_cons_left_le c after) before u
  | replace before after hne => exact gap_append_le (gap_replace_le _ _ after) before u

theorem gap_self (s : List Char) : gap s s = 0 := by
  simpa [distance_eq_gap] using distance_self (String.ofList s)

theorem gap_le_of_edits (h : Edits n s t) : gap s t ≤ n := by
  induction h with
  | none => exact Nat.le_of_eq (gap_self _)
  | cons hedit _ ih => exact (gap_le_of_edit hedit _).trans (Nat.succ_le_succ ih)

theorem isLeast_distance (a b : String) :
    IsLeast {n | Edits n a.toList b.toList} (distance a b) :=
  ⟨edits_gap _ _, fun _ h => gap_le_of_edits h⟩

end Phrasebook.Spelling
