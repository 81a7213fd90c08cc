import Mathlib.Data.List.Basic
import Mathlib.Data.List.Count
import Phrasebook.Proofs.Filling
import Phrasebook.Text.Quoted

/-!
# Quoted text

Two texts that are quoted alike are the same (`quoted_inj`): a quoted character is
itself, or begins with a backslash that no other character brings, and what follows the
backslash names the character.

The code points of the table are in ascending order, so that one character is printable
and the next one is not, or the other way round, just where the table says
(`isPrintable_ne_iff`).
-/

namespace Phrasebook.Text

-- ---------------------------------------------------------------------------
-- Printable characters
-- ---------------------------------------------------------------------------

/-- One comparison for each number, where pairwise comparisons would be too many. -/
def ascends : Nat → List Nat → Bool
  | _, [] => true
  | n, m :: rest => n.blt m && ascends m rest

theorem pairwise_of_ascends {n : Nat} {rest : List Nat} (h : ascends n rest = true) :
    (n :: rest).Pairwise (· < ·) := by
  induction rest generalizing n with
  | nil => exact List.pairwise_singleton ..
  | cons m rest ih =>
    rw [ascends, Bool.and_eq_true, Nat.blt_eq] at h
    have hrest := ih h.2
    refine List.pairwise_cons.mpr ⟨fun k hk => ?_, hrest⟩
    rcases List.mem_cons.mp hk with rfl | hk
    · exact h.1
    · exact Nat.lt_trans h.1 ((List.pairwise_cons.mp hrest).1 k hk)

theorem pairwise_printabilityChanges : printabilityChanges.Pairwise (· < ·) :=
  @pairwise_of_ascends 0 printabilityChanges.tail (by decide +kernel)

theorem even_countP_ne_iff {changes : List Nat} (h : changes.Nodup) (n : Nat) :
    (changes.countP (· ≤ n) % 2 == 0) ≠ (changes.countP (· ≤ n + 1) % 2 == 0) ↔
      n + 1 ∈ changes := by
  have hcount : changes.countP (· ≤ n + 1) = changes.countP (· ≤ n) + changes.count (n + 1) := by
    clear h
    induction changes with
    | nil => rfl
    | cons change changes ih =>
      simp only [List.countP_cons, List.count_cons, ih, decide_eq_true_eq, beq_iff_eq]
      split_ifs <;> omega
  rw [hcount, h.count]
  generalize changes.countP (· ≤ n) = k
  by_cases hmem : n + 1 ∈ changes
  · simp [hmem]
    omega
  · simp [hmem]

theorem countP_of_lt {i j k n : Nat} {rest : List Nat}
    (h : (i :: j :: k :: rest).Pairwise (· < ·)) (hn : n < k) :
    (i :: j :: k :: rest).countP (· ≤ n) = (if i ≤ n then 1 else 0) + if j ≤ n then 1 else 0 := by
  have habove := (List.pairwise_cons.mp h.tail.tail).1
  have hrest : rest.countP (· ≤ n) = 0 := by
    refine List.countP_eq_zero.mpr fun m hm => ?_
    have hlt := habove m hm
    simp
    omega
  simp only [List.countP_cons, hrest, decide_eq_true_eq]
  split_ifs <;> omega

/-- The table covers the characters below U+7F as well. -/
theorem isPrintable_eq (c : Char) :
    isPrintable c = (printabilityChanges.countP (· ≤ c.toNat) % 2 == 0) := by
  unfold isPrintable
  split
  · next h =>
    have hcount : printabilityChanges.countP (· ≤ c.toNat) =
        (if 0 ≤ c.toNat then 1 else 0) + if 0x20 ≤ c.toNat then 1 else 0 :=
      countP_of_lt pairwise_printabilityChanges h
    rw [hcount]
    by_cases hspace : 0x20 ≤ c.toNat <;> simp [hspace]
  · rfl

theorem isPrintable_ne_iff {c d : Char} (h : d.toNat = c.toNat + 1) :
    isPrintable c ≠ isPrintable d ↔ d.toNat ∈ printabilityChanges := by
  rw [isPrintable_eq, isPrintable_eq, h]
  exact even_countP_ne_iff (pairwise_printabilityChanges.imp Nat.ne_of_lt) c.toNat

example : ¬isPrintable '\u115f' ∧ ¬isPrintable '\uffa0' ∧ isPrintable '\uff9e' := by decide +kernel

-- ---------------------------------------------------------------------------
-- Hexadecimal digits
-- ---------------------------------------------------------------------------

theorem plain_toDigits (n : Nat) : Plain (Nat.toDigits 16 n) := by
  have hdigit : ∀ k < 16, isNameChar (Nat.digitChar k) = true := by decide
  induction n using Nat.strongRecOn with
  | ind n ih =>
    rw [Nat.toDigits_eq_if (by decide)]
    split
    · next h => simp [hdigit n h]
    · simp [ih (n / 16) (by omega), hdigit (n % 16) (by omega)]

theorem toDigits_inj {m n : Nat} (h : Nat.toDigits 16 m = Nat.toDigits 16 n) : m = n := by
  have hdigit : ∀ j < 16, ∀ k < 16, Nat.digitChar j = Nat.digitChar k → j = k := by decide
  induction m using Nat.strongRecOn generalizing n with
  | ind m ih =>
    rw [@Nat.toDigits_eq_if 16 m (by decide), @Nat.toDigits_eq_if 16 n (by decide)] at h
    by_cases hm : m < 16 <;> by_cases hn : n < 16 <;> simp only [hm, hn, if_true, if_false] at h
    · exact hdigit m hm n hn (List.singleton_inj.mp h)
    · simp [List.singleton_eq_append_iff] at h
    · simp [List.append_eq_singleton_iff] at h
    · obtain ⟨hfront, hlast⟩ := List.append_inj' h rfl
      have hdiv := ih (m / 16) (by omega) hfront
      have hmod := hdigit (m % 16) (by omega) (n % 16) (by omega) (List.singleton_inj.mp hlast)
      omega

-- ---------------------------------------------------------------------------
-- Quoted characters
-- ---------------------------------------------------------------------------

def escaped? : Char → Option Char
  | '0' => some '\x00'
  | 't' => some '\t'
  | 'n' => some '\n'
  | 'r' => some '\r'
  | '"' => some '"'
  | '\\' => some '\\'
  | _ => none

inductive QuotedAs (c : Char) : List Char → Prop
  | self (h : c ≠ '\\') : QuotedAs c [c]
  | short {x : Char} (h : escaped? x = some c) : QuotedAs c ['\\', x]
  | code : QuotedAs c ('\\' :: 'u' :: '\x7b' :: (Nat.toDigits 16 c.toNat ++ ['\x7d']))

theorem quotedAs_quotedChar (c : Char) : QuotedAs c (quotedChar c) := by
  unfold quotedChar
  split
  case h_7 =>
    split
    · exact .self ‹_›
    · exact .code
  all_goals exact .short rfl

/-- A quoted character ends where the next one begins. -/
theorem QuotedAs.append_inj {c d : Char} {s t rest rest' : List Char} (hc : QuotedAs c s)
    (hd : QuotedAs d t) (h : s ++ rest = t ++ rest') : c = d ∧ rest = rest' := by
  cases hc with
  | self hc =>
    cases hd with
    | self hd => simpa using h
    | short hd => simp [hc] at h
    | code => simp [hc] at h
  | @short x hc =>
    cases hd with
    | self hd => simp [Ne.symm hd] at h
    | short hd =>
      obtain ⟨rfl, hrest⟩ : _ ∧ rest = rest' := by simpa using h
      exact ⟨Option.some.inj (hc.symm.trans hd), hrest⟩
    | code =>
      obtain ⟨rfl, -⟩ : x = 'u' ∧ _ := by simpa using h
      simp [escaped?] at hc
  | code =>
    cases hd with
    | self hd => simp [Ne.symm hd] at h
    | @short x hd =>
      obtain ⟨rfl, -⟩ : 'u' = x ∧ _ := by simpa using h
      simp [escaped?] at hd
    | code =>
      have hclose : Nat.toDigits 16 c.toNat ++ '\x7d' :: rest =
          Nat.toDigits 16 d.toNat ++ '\x7d' :: rest' := by simpa using h
      have hdigits := append_close_inj (plain_toDigits _) (plain_toDigits _) hclose
      rw [hdigits] at hclose
      exact ⟨Char.toNat_inj.mp (toDigits_inj hdigits), by simpa using hclose⟩

theorem flatMap_quotedChar_inj {s t : List Char}
    (h : s.flatMap quotedChar = t.flatMap quotedChar) : s = t := by
  have hne (c : Char) : quotedChar c ≠ [] := by
    intro hnil
    have hquoted := quotedAs_quotedChar c
    rw [hnil] at hquoted
    cases hquoted
  induction s generalizing t with
  | nil =>
    cases t with
    | nil => rfl
    | cons d t => simp [hne] at h
  | cons c s ih =>
    cases t with
    | nil => simp [hne] at h
    | cons d t =>
      rw [List.flatMap_cons, List.flatMap_cons] at h
      obtain ⟨rfl, hrest⟩ := (quotedAs_quotedChar c).append_inj (quotedAs_quotedChar d) h
      rw [ih hrest]

theorem quoted_inj {s t : String} : quoted s = quoted t ↔ s = t := by
  refine ⟨fun h => ?_, congrArg quoted⟩
  have hchars := String.ofList_injective h
  rw [List.cons.injEq] at hchars
  exact String.toList_inj.mp (flatMap_quotedChar_inj (List.append_cancel_right hchars.2))

end Phrasebook.Text
