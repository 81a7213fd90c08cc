import Phrasebook.Template

/-!
# Text without braces

A text without braces is plain. Decimal text is plain whatever its layout
(`Decimal.Layout.plain_text`), so the text of a value is plain unless the value
is itself a text with a brace in it (`Value.plain_text`).
-/

namespace Phrasebook

def Plain (s : List Char) : Prop := ∀ c ∈ s, isNameChar c

instance (s : List Char) : Decidable (Plain s) := List.decidableBAll _ s

def IsName (name : List Char) : Prop := name ≠ [] ∧ Plain name

instance (name : List Char) : Decidable (IsName name) :=
  inferInstanceAs (Decidable (name ≠ [] ∧ Plain name))

@[simp] theorem isNameChar_iff : isNameChar c = true ↔ c ≠ '{' ∧ c ≠ '}' := by
  simp [isNameChar]

theorem isNameChar_of_isDigit (h : c.isDigit = true) : isNameChar c = true := by
  rw [isNameChar_iff]
  constructor
  · rintro rfl; exact absurd h (by decide)
  · rintro rfl; exact absurd h (by decide)

@[simp] theorem plain_nil : Plain [] := fun _ h => nomatch h

@[simp] theorem plain_cons : Plain (c :: s) ↔ isNameChar c = true ∧ Plain s :=
  List.forall_mem_cons

@[simp] theorem plain_append : Plain (s ++ t) ↔ Plain s ∧ Plain t :=
  List.forall_mem_append

theorem Plain.take (h : Plain s) (n : Nat) : Plain (s.take n) :=
  fun c hc => h c (List.mem_of_mem_take hc)

theorem Plain.drop (h : Plain s) (n : Nat) : Plain (s.drop n) :=
  fun c hc => h c (List.mem_of_mem_drop hc)

theorem Plain.open_notMem (h : Plain s) : '{' ∉ s :=
  fun hc => by simpa using h _ hc

theorem Plain.close_notMem (h : Plain s) : '}' ∉ s :=
  fun hc => by simpa using h _ hc

theorem Plain.takeWhile_close (h : Plain s) : (s ++ '}' :: rest).takeWhile isNameChar = s := by
  simp [List.takeWhile_append_of_pos h]

theorem Plain.dropWhile_close (h : Plain s) :
    (s ++ '}' :: rest).dropWhile isNameChar = '}' :: rest := by
  simp [List.dropWhile_append_of_pos h]

-- ---------------------------------------------------------------------------
-- Decimal text
-- ---------------------------------------------------------------------------

namespace Decimal

theorem plain_digits (n : Nat) : Plain (digits n) :=
  fun _ hc => isNameChar_of_isDigit (isDigit_of_mem_digits hc)

theorem plain_signedDigits (n : Int) : Plain (signedDigits n) := by
  cases n with
  | ofNat n => exact plain_digits n
  | negSucc n => exact plain_cons.mpr ⟨by simp, plain_digits (n + 1)⟩

namespace Layout

theorem plain_zeros (n : Nat) : Plain (zeros n) := by
  intro c hc
  rw [List.eq_of_mem_replicate hc]
  simp

theorem plain_positionalChars (layout : Layout) (point : Int) (h : Plain ds) :
    Plain (layout.positionalChars ds point) := by
  unfold positionalChars
  split
  · have htail : Plain (if layout.pointZero then ['.', '0'] else []) := by split <;> simp
    simp [h, plain_zeros, htail]
  · split
    · simp [h.take, h.drop]
    · simp [h, plain_zeros]

theorem plain_exponentChars (point : Int) (h : Plain ds) : Plain (exponentChars ds point) := by
  have hfraction : Plain (if (ds.drop 1).isEmpty then [] else '.' :: ds.drop 1) := by
    split
    · exact plain_nil
    · exact plain_cons.mpr ⟨by simp, h.drop 1⟩
  have hsign : Plain (if point - 1 < 0 then [] else ['+']) := by split <;> simp
  simp only [exponentChars, plain_append, plain_cons]
  exact ⟨⟨h.take 1, hfraction⟩, by simp, hsign, plain_signedDigits _⟩

theorem plain_finiteChars (layout : Layout) (m : Nat) (q : Int) (narrow : Bool) :
    Plain (layout.finiteChars m q narrow) := by
  unfold finiteChars
  split
  · split <;> simp
  · simp only
    split
    · exact plain_positionalChars layout _ (plain_digits _)
    · exact plain_exponentChars _ (plain_digits _)

theorem plain_text (layout : Layout) (x : Float) : Plain (layout.text x).toList := by
  have hsign : Plain (if isNegative x.toBits.toNat then ['-'] else []) := by split <;> simp
  simp only [text, chars, String.toList_ofList]
  split
  · simp
  · simpa using hsign
  · exact plain_append.mpr ⟨hsign, plain_finiteChars layout _ _ _⟩

end Layout

end Decimal

-- ---------------------------------------------------------------------------
-- Values and arguments
-- ---------------------------------------------------------------------------

def Value.Plain : Value → Prop
  | .string s => Phrasebook.Plain s.toList
  | _ => True

instance : (v : Value) → Decidable v.Plain
  | .string s => inferInstanceAs (Decidable (Phrasebook.Plain s.toList))
  | .number _ | .float _ | .bool _ => .isTrue trivial

theorem Value.plain_text {v : Value} (h : v.Plain) : Phrasebook.Plain v.text.toList := by
  cases v with
  | number n => simpa [text, Decimal.ofInt] using Decimal.plain_signedDigits n.toInt
  | float x => exact Decimal.Layout.plain_text _ x
  | bool b => cases b <;> simp [text]
  | string s => exact h

/-- Neither in the names of the arguments nor in those values that are texts there is a brace. -/
def Arguments.Plain (arguments : Arguments) : Prop :=
  ∀ entry ∈ arguments.entries, Phrasebook.Plain entry.1.toList ∧ entry.2.Plain

instance (arguments : Arguments) : Decidable arguments.Plain :=
  List.decidableBAll _ arguments.entries

end Phrasebook
