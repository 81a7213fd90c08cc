import Mathlib.Data.List.Induction
import Phrasebook.Proofs.Findings

/-!
# Lists with repetitions

Without the items that have come up before, a list has each item where it comes
up for the first time; `repeatsAfter` has names where they come up again, and thus
first where they come up for the second time. Both follow the times of one number
(`ListsAt`), so both are in the order of these times (`ListsAt.pairwise`).

`InOrder` says that a list is in order as far as first times are concerned. Its
lemmas follow the ways in which lists are put together.
-/

namespace Phrasebook

section

variable {α β : Type} [DecidableEq α] {list as bs : List α} {a b : α} {i j k : Nat}
  {R S : α → α → Prop}

-- ---------------------------------------------------------------------------
-- Lists without what has come up before
-- ---------------------------------------------------------------------------

theorem eraseDups_concat (list : List α) (a : α) :
    (list ++ [a]).eraseDups = list.eraseDups ++ if a ∈ list then [] else [a] := by
  rw [List.eraseDups_append]
  by_cases h : a ∈ list <;> simp [List.removeAll, List.eraseDups_cons, h]

theorem eraseDups_sublist (list : List α) : list.eraseDups.Sublist list := by
  induction list using List.reverseRecOn with
  | nil => exact .slnil
  | append_singleton list a ih =>
    rw [eraseDups_concat]
    exact ih.append (by split <;> simp)

theorem filter_eraseDups (p : α → Bool) (list : List α) :
    list.eraseDups.filter p = (list.filter p).eraseDups := by
  induction list using List.reverseRecOn with
  | nil => rfl
  | append_singleton list a ih =>
    rw [eraseDups_concat, List.filter_append, List.filter_append, ih]
    cases hp : p a with
    | false => by_cases h : a ∈ list <;> simp [hp, h]
    | true => by_cases h : a ∈ list <;> simp [hp, h, eraseDups_concat]

theorem eraseDups_map [DecidableEq β] {g : β → α} (hg : Function.Injective g) (list : List β) :
    (list.map g).eraseDups = list.eraseDups.map g := by
  induction list using List.reverseRecOn with
  | nil => rfl
  | append_singleton list b ih =>
    by_cases h : b ∈ list <;> simp [eraseDups_concat, ih, h, hg.eq_iff]

-- ---------------------------------------------------------------------------
-- The times at which an item comes up
-- ---------------------------------------------------------------------------

def ComesUp (k : Nat) (list : List α) (a : α) (i : Nat) : Prop :=
  list[i]? = some a ∧ (list.take i).count a = k

/-- Once each has come up `k` times, `a` comes up again before `b` does. -/
def Sooner (k : Nat) (list : List α) (a b : α) : Prop :=
  ∃ i j, i < j ∧ ComesUp k list a i ∧ ComesUp k list b j

theorem ComesUp.lt_length (h : ComesUp k list a i) : i < list.length :=
  (List.getElem?_eq_some_iff.mp h.1).1

theorem ComesUp.lt_count (h : ComesUp k list a i) (hij : i < j) : k < (list.take j).count a := by
  obtain ⟨hi, rfl⟩ := h
  have hsucc : (list.take (i + 1)).count a = (list.take i).count a + 1 := by
    simp [List.take_add_one, hi]
  have hle : (list.take (i + 1)).count a ≤ (list.take j).count a :=
    (List.take_sublist_take_left hij).count_le a
  omega

theorem ComesUp.unique (h : ComesUp k list a i) (h' : ComesUp k list a j) : i = j := by
  rcases Nat.lt_trichotomy i j with hlt | heq | hlt
  · exact absurd h'.2 (Nat.ne_of_gt (h.lt_count hlt))
  · exact heq
  · exact absurd h.2 (Nat.ne_of_gt (h'.lt_count hlt))

theorem Sooner.asymm (h : Sooner k list a b) : ¬ Sooner k list b a := by
  obtain ⟨i, j, hij, ha, hb⟩ := h
  rintro ⟨i', j', hij', hb', ha'⟩
  have hi := ha.unique ha'
  have hj := hb.unique hb'
  omega

theorem ComesUp.append (h : ComesUp k list a i) (rest : List α) :
    ComesUp k (list ++ rest) a i := by
  constructor
  · rw [List.getElem?_append_left h.lt_length, h.1]
  · rw [List.take_append_of_le_length (Nat.le_of_lt h.lt_length), h.2]

theorem comesUp_concat (h : list.count a = k) : ComesUp k (list ++ [a]) a list.length := by
  simp [ComesUp, h]

/-- A function that lists each item where it has come up `k` times and comes up again. -/
structure ListsAt (k : Nat) (F : List α → List α) : Prop where
  nil : F [] = []
  concat : ∀ list a, F (list ++ [a]) = F list ++ if list.count a = k then [a] else []

theorem ListsAt.comesUp {F : List α → List α} (h : ListsAt k F) (hmem : a ∈ F list) :
    ∃ i, ComesUp k list a i := by
  induction list using List.reverseRecOn with
  | nil => simp [h.nil] at hmem
  | append_singleton list b ih =>
    rw [h.concat, List.mem_append] at hmem
    rcases hmem with hmem | hmem
    · obtain ⟨i, hi⟩ := ih hmem
      exact ⟨i, hi.append [b]⟩
    · obtain ⟨hcount, rfl⟩ : list.count b = k ∧ a = b := by simpa using hmem
      exact ⟨list.length, comesUp_concat hcount⟩

theorem ListsAt.pairwise {F : List α → List α} (h : ListsAt k F) (list : List α) :
    (F list).Pairwise (Sooner k list) := by
  induction list using List.reverseRecOn with
  | nil => simp [h.nil]
  | append_singleton list b ih =>
    rw [h.concat]
    refine List.pairwise_append.mpr ⟨?_, by split <;> simp, ?_⟩
    · refine ih.imp ?_
      rintro x y ⟨i, j, hij, hx, hy⟩
      exact ⟨i, j, hij, hx.append [b], hy.append [b]⟩
    · intro x hx y hy
      obtain ⟨hcount, rfl⟩ : list.count b = k ∧ y = b := by simpa using hy
      obtain ⟨i, hi⟩ := h.comesUp hx
      exact ⟨i, list.length, hi.lt_length, hi.append [y], comesUp_concat hcount⟩

theorem listsAt_eraseDups : ListsAt 0 (List.eraseDups (α := α)) where
  nil := List.eraseDups_nil
  concat list a := by
    rw [eraseDups_concat]
    by_cases h : a ∈ list <;> simp [h, List.count_eq_zero]

-- ---------------------------------------------------------------------------
-- Lists in order, but for repetitions
-- ---------------------------------------------------------------------------

/-- Of two items, `R` holds of the one that comes up first and the other. -/
def InOrder (R : α → α → Prop) (list : List α) : Prop := list.eraseDups.Pairwise R

theorem inOrder_sooner (list : List α) : InOrder (Sooner 0 list) list :=
  listsAt_eraseDups.pairwise list

theorem inOrder_of_pairwise (h : list.Pairwise R) : InOrder R list :=
  h.sublist (eraseDups_sublist list)

theorem InOrder.imp (h : InOrder R list) (hRS : ∀ {a b}, R a b → S a b) : InOrder S list :=
  List.Pairwise.imp hRS h

theorem InOrder.filter (h : InOrder R list) (p : α → Bool) : InOrder R (list.filter p) := by
  rw [InOrder, ← filter_eraseDups]
  exact List.Pairwise.filter p h

theorem InOrder.map [DecidableEq β] {list : List β} {g : β → α} (hg : Function.Injective g)
    (h : InOrder (fun a b => R (g a) (g b)) list) : InOrder R (list.map g) := by
  rw [InOrder, eraseDups_map hg, List.pairwise_map]
  exact h

theorem InOrder.append (ha : InOrder R as) (hb : InOrder R bs)
    (hab : ∀ a ∈ as, ∀ b ∈ bs, R a b) : InOrder R (as ++ bs) := by
  have hrest : (bs.removeAll as).eraseDups = bs.eraseDups.filter fun b => !as.elem b :=
    (filter_eraseDups ..).symm
  rw [InOrder, List.eraseDups_append, hrest]
  refine List.pairwise_append.mpr ⟨ha, List.Pairwise.filter _ hb, ?_⟩
  intro a hamem b hbmem
  have hbmem := (List.mem_filter.mp hbmem).1
  exact hab a (List.mem_eraseDups.mp hamem) b (List.mem_eraseDups.mp hbmem)

theorem InOrder.flatMap {F : β → List α} {items : List β} (hitems : ∀ b ∈ items, InOrder R (F b))
    (hpairs : items.Pairwise fun b c => ∀ x ∈ F b, ∀ y ∈ F c, R x y) :
    InOrder R (items.flatMap F) := by
  induction items with
  | nil => exact .nil
  | cons b items ih =>
    obtain ⟨hfirst, hrest⟩ := List.forall_mem_cons.mp hitems
    obtain ⟨hb, hpairs⟩ := List.pairwise_cons.mp hpairs
    rw [List.flatMap_cons]
    refine hfirst.append (ih hrest hpairs) fun x hx y hy => ?_
    obtain ⟨c, hc, hy⟩ := List.mem_flatMap.mp hy
    exact hb c hc x hx y hy

end

-- ---------------------------------------------------------------------------
-- Names that are repeated
-- ---------------------------------------------------------------------------

theorem repeatsAfter_concat (seen names : List String) (name : String) :
    repeatsAfter seen (names ++ [name]) =
      repeatsAfter seen names ++ if name ∈ seen ∨ name ∈ names then [name] else [] := by
  induction names generalizing seen with
  | nil => by_cases h : name ∈ seen <;> simp [repeatsAfter, h]
  | cons first names ih =>
    by_cases h : first ∈ seen
    · rcases eq_or_ne name first with rfl | hne
      · simp [repeatsAfter, h, ih]
      · simp [repeatsAfter, h, ih, hne]
    · simp [repeatsAfter, h, ih, or_assoc, or_left_comm]

theorem listsAt_repeatsAfter : ListsAt 1 fun names => (repeatsAfter [] names).eraseDups where
  nil := by simp [repeatsAfter]
  concat names name := by
    by_cases hmem : name ∈ names
    · have hpos : 0 < names.count name := List.count_pos_iff.mpr hmem
      have hagain : name ∈ repeatsAfter [] names ↔ names.count name ≠ 1 := by
        simp only [mem_repeatsAfter, List.not_mem_nil, false_and, false_or]
        omega
      by_cases hcount : names.count name = 1 <;>
        simp [repeatsAfter_concat, eraseDups_concat, hmem, hagain, hcount]
    · simp [repeatsAfter_concat, hmem, List.count_eq_zero.mpr hmem]

theorem inOrder_repeatsAfter (names : List String) :
    InOrder (Sooner 1 names) (repeatsAfter [] names) :=
  listsAt_repeatsAfter.pairwise names

end Phrasebook
