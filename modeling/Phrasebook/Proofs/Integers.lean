import Mathlib.Data.List.Basic
import Mathlib.Data.List.Induction
import Phrasebook.Proofs.Literals

/-!
# Integers as values

The canonical decimal text of an integer is stated by the value of its digits, place by
place: no leading zero, and a minus sign before a positive numeral only. There is
exactly one such text for each integer, and it is the one that is written
(`canonical_iff`).

The value of an integer of any width is the number that 64 signed bits hold, or else
this text (`ofInteger_cases`). Both have the same text, and no number is equal to a
text, so the width does not show (`integers_exact`).
-/

namespace Phrasebook

namespace Decimal

/-- Digits that have a value, with no zero in front of others. -/
structure IsNumeral (n : Nat) (ds : List Char) : Prop where
  isDigit : ∀ c ∈ ds, c.isDigit
  ne_nil : ds ≠ []
  leading : ds.head? = some '0' → ds = ['0']
  value : Nat.ofDigitChars 10 ds 0 = n

inductive Canonical : Int → List Char → Prop
  | nonneg {n : Nat} {ds : List Char} (h : IsNumeral n ds) : Canonical n ds
  | neg {n : Nat} {ds : List Char} (hpos : 0 < n) (h : IsNumeral n ds) : Canonical (-n) ('-' :: ds)

-- ---------------------------------------------------------------------------
-- Numerals
-- ---------------------------------------------------------------------------

theorem digits_of_isDigit {c : Char} (h : c.isDigit) : digits (c.toNat - '0'.toNat) = [c] := by
  have hrange : 48 ≤ c.toNat ∧ c.toNat ≤ 57 := Char.isDigit_iff_toNat.mp h
  have hlt : c.toNat - '0'.toNat < 10 := by simp; omega
  have hchar : (c.toNat - '0'.toNat).digitChar = c := by
    apply Char.toNat_inj.mp
    rw [Nat.toNat_digitChar_of_lt_ten hlt]
    simp
    omega
  rw [digits, Nat.toDigits_of_lt_base hlt, hchar]

theorem digits_append {n : Nat} {c : Char} (hn : 0 < n) (h : c.isDigit) :
    digits n ++ [c] = digits (10 * n + (c.toNat - '0'.toNat)) := by
  have hrange : 48 ≤ c.toNat ∧ c.toNat ≤ 57 := Char.isDigit_iff_toNat.mp h
  rw [← digits_of_isDigit h]
  exact Nat.toDigits_append_toDigits (by omega) hn (by simp; omega)

theorem digits_leading {n : Nat} (h : (digits n).head? = some '0') : n = 0 := by
  induction n using Nat.strongRecOn with
  | ind n ih =>
    rw [digits, Nat.toDigits_eq_if (by omega)] at h
    split at h
    · simpa using h
    · next hn =>
      have hfront : (digits (n / 10)).head? = some '0' := by
        rwa [List.head?_append_of_ne_nil _ Nat.toDigits_ne_nil] at h
      have := ih (n / 10) (by omega) hfront
      omega

theorem isNumeral_digits (n : Nat) : IsNumeral n (digits n) where
  isDigit _ := isDigit_of_mem_digits
  ne_nil := Nat.toDigits_ne_nil
  leading h := by
    rw [digits_leading h]
    rfl
  value := Nat.ofDigitChars_toDigits (by decide) (by decide)

theorem IsNumeral.eq_digits {n : Nat} {ds : List Char} (h : IsNumeral n ds) : ds = digits n := by
  -- The digits before the last one are a numeral as well, and it does not stand for 0.
  obtain ⟨hdigit, hne, hleading, rfl⟩ := h
  induction ds using List.reverseRecOn with
  | nil => exact absurd rfl hne
  | append_singleton front c ih =>
    have hc : c.isDigit := hdigit c (by simp)
    by_cases hnil : front = []
    · rw [hnil, List.nil_append, Nat.ofDigitChars_cons, Nat.ofDigitChars_nil, Nat.mul_zero,
        Nat.zero_add, digits_of_isDigit hc]
    · have hhead : front.head? ≠ some '0' := by
        intro hzero
        have hone := hleading (by rwa [List.head?_append_of_ne_nil _ hnil])
        have hlength := congrArg List.length hone
        simp [hnil] at hlength
      have hfront : front = digits (Nat.ofDigitChars 10 front 0) :=
        ih (fun d hd => hdigit d (by simp [hd])) hnil fun hzero => absurd hzero hhead
      have hpos : 0 < Nat.ofDigitChars 10 front 0 := by
        refine Nat.pos_of_ne_zero fun hzero => ?_
        rw [hfront, hzero] at hhead
        exact hhead rfl
      rw [Nat.ofDigitChars_append, Nat.ofDigitChars_cons, Nat.ofDigitChars_nil,
        ← digits_append hpos hc, ← hfront]

theorem canonical_iff {n : Int} {s : List Char} : Canonical n s ↔ s = signedDigits n := by
  constructor
  · intro h
    cases h with
    | nonneg h => exact h.eq_digits
    | @neg k ds hpos h =>
      obtain ⟨k, rfl⟩ := Nat.exists_eq_add_one.mpr hpos
      exact congrArg (List.cons _) h.eq_digits
  · rintro rfl
    cases n with
    | ofNat n => exact .nonneg (isNumeral_digits n)
    | negSucc n => exact .neg n.succ_pos (isNumeral_digits (n + 1))

instance (n : Int) (s : List Char) : Decidable (Canonical n s) :=
  decidable_of_iff _ canonical_iff.symm

example : ¬Canonical 0 ['-', '0'] ∧ ¬Canonical 7 ['0', '7'] ∧ ¬Canonical 7 ['+', '7'] := by
  decide +kernel

theorem canonical_toList_iff {n : Int} {s : String} : Canonical n s.toList ↔ ofInt n = s := by
  rw [canonical_iff, ofInt, ← String.toList_inj, String.toList_ofList, eq_comm]

end Decimal

-- ---------------------------------------------------------------------------
-- Arguments one after another
-- ---------------------------------------------------------------------------

theorem Template.fill_of_entries {t : Template} {arguments : Arguments} {name : String}
    {value : Value} {earlier later : List (String × Value)}
    (h : arguments.entries = earlier ++ (name, value) :: later)
    (hmem : token name.toList <:+: earlier.foldl fillOne t.source.toList) :
    ∃ a b, earlier.foldl fillOne t.source.toList = a ++ (token name.toList ++ b) ∧
      t.fill arguments = String.ofList (later.foldl fillOne (a ++ (value.text.toList ++ b))) := by
  obtain ⟨a, b, htext, hreplace⟩ := exists_replaceFirst hmem (token_ne_nil _)
  refine ⟨a, b, htext, ?_⟩
  rw [fill, h, List.foldl_append, List.foldl_cons, fillOne, hreplace]

-- ---------------------------------------------------------------------------
-- Values
-- ---------------------------------------------------------------------------

namespace Value

variable {m n : Integer} {s : String}

@[simp] theorem number_beq {k l : Int64} : (number k == number l) = true ↔ k = l :=
  @beq_iff_eq Int64 _ _ k l

@[simp] theorem string_beq {s t : String} : (string s == string t) = true ↔ s = t :=
  @beq_iff_eq String _ _ s t

theorem toInt_toInt64 {n : UInt64} (h : n.toNat ≤ 0x7fffffffffffffff) :
    n.toInt64.toInt = n.toNat :=
  BitVec.toInt_eq_toNat_of_lt (by simp; omega)

theorem ofUnsigned_cases (n : UInt64) :
    (∃ k : Int64, k.toInt = n.toNat ∧ ofUnsigned n = .number k) ∨
      (0x7fffffffffffffff < (n.toNat : Int) ∧ ofUnsigned n = .string (Decimal.ofInt n.toNat)) := by
  have hle : n ≤ Int64.maxValue.toUInt64 ↔ n.toNat ≤ 0x7fffffffffffffff := UInt64.le_iff_toNat_le
  by_cases h : n ≤ Int64.maxValue.toUInt64
  · exact .inl ⟨n.toInt64, toInt_toInt64 (hle.mp h), if_pos h⟩
  · have hlarge := mt hle.mpr h
    exact .inr ⟨by omega, if_neg h⟩

/-- The value of an integer is a number that stands for it, or its text if no number does. -/
theorem ofInteger_cases (n : Integer) :
    (∃ k : Int64, k.toInt = n.toInt ∧ ofInteger n = .number k) ∨
      (0x7fffffffffffffff < n.toInt ∧ ofInteger n = .string (Decimal.ofInt n.toInt)) := by
  cases n with
  | int32 n => exact .inl ⟨n.toInt64, n.toInt_toInt64, rfl⟩
  | int64 n => exact .inl ⟨n, rfl, rfl⟩
  | uint32 n =>
    have hlt := n.toNat_lt
    exact .inl ⟨n.toUInt64.toInt64, toInt_toInt64 (by simp; omega), rfl⟩
  | uint64 n => exact ofUnsigned_cases n
  | size n => exact ofUnsigned_cases n

theorem text_ofInteger (n : Integer) : (ofInteger n).text = Decimal.ofInt n.toInt := by
  rcases ofInteger_cases n with ⟨k, hk, hvalue⟩ | ⟨-, hvalue⟩
  · rw [hvalue, text, hk]
  · rw [hvalue, text]

theorem isText_iff {value : Value} : value.isText s = true ↔ value = .string s := by
  cases value <;> simp [isText, asString]

theorem asNumber_ofInteger_iff {k : Int64} :
    (ofInteger n).asNumber = some k ↔ k.toInt = n.toInt := by
  rcases ofInteger_cases n with ⟨l, hl, hvalue⟩ | ⟨hlarge, hvalue⟩
  · rw [hvalue, ← hl, Int64.toInt_inj]
    simp [asNumber, eq_comm]
  · have hk := k.toInt_lt
    have hne : k.toInt ≠ n.toInt := by omega
    simp [hvalue, asNumber, hne]

theorem isSome_asNumber_ofInteger :
    (ofInteger n).asNumber.isSome ↔ n.toInt ≤ 0x7fffffffffffffff := by
  rcases ofInteger_cases n with ⟨k, hk, hvalue⟩ | ⟨hlarge, hvalue⟩
  · have hlt := k.toInt_lt
    exact iff_of_true (by simp [hvalue, asNumber]) (by omega)
  · exact iff_of_false (by simp [hvalue, asNumber]) (by omega)

theorem ofInteger_eq_string_iff :
    ofInteger n = .string s ↔ 0x7fffffffffffffff < n.toInt ∧ Decimal.ofInt n.toInt = s := by
  rcases ofInteger_cases n with ⟨k, hk, hvalue⟩ | ⟨hlarge, hvalue⟩
  · have hlt := k.toInt_lt
    exact iff_of_false (by simp [hvalue]) fun h => by omega
  · rw [hvalue, string.injEq]
    exact (and_iff_right hlarge).symm

theorem beq_ofInteger_iff : (ofInteger m == ofInteger n) = true ↔ m.toInt = n.toInt := by
  rcases ofInteger_cases m with ⟨k, hk, hm⟩ | ⟨hlarge, hm⟩ <;>
    rcases ofInteger_cases n with ⟨l, hl, hn⟩ | ⟨hlarge', hn⟩ <;> rw [hm, hn]
  · rw [number_beq, ← hk, ← hl, Int64.toInt_inj]
  · have hlt := k.toInt_lt
    exact iff_of_false nofun (by omega)
  · have hlt := l.toInt_lt
    exact iff_of_false nofun (by omega)
  · rw [string_beq]
    exact ⟨Decimal.ofInt_injective, congrArg Decimal.ofInt⟩

/-- Integers of all widths have their canonical text, wherever they are written, and are equal as
values only where they are the same integer. -/
theorem integers_exact (m n : Integer) :
    (∀ s : String, (ofInteger n).text = s ↔ Decimal.Canonical n.toInt s.toList) ∧
      (∀ (t : Template) (arguments : Arguments) (name : String)
          (earlier later : List (String × Value)),
        arguments.entries = earlier ++ (name, ofInteger n) :: later →
        token name.toList <:+: earlier.foldl Template.fillOne t.source.toList →
        ∃ a s b, Decimal.Canonical n.toInt s ∧
          earlier.foldl Template.fillOne t.source.toList = a ++ (token name.toList ++ b) ∧
          t.fill arguments = String.ofList (later.foldl Template.fillOne (a ++ (s ++ b)))) ∧
      (∀ k : Int64, (ofInteger n).asNumber = some k ↔ k.toInt = n.toInt) ∧
      ((ofInteger n).asNumber.isSome ↔ n.toInt ≤ 0x7fffffffffffffff) ∧
      (∀ s : String,
        let spelled := 0x7fffffffffffffff < n.toInt ∧ Decimal.Canonical n.toInt s.toList
        (ofInteger n = .string s ↔ spelled) ∧ ((ofInteger n).isText s ↔ spelled)) ∧
      ((ofInteger m == ofInteger n) = true ↔ m.toInt = n.toInt) := by
  have hstring (s : String) : ofInteger n = .string s ↔
      0x7fffffffffffffff < n.toInt ∧ Decimal.Canonical n.toInt s.toList := by
    rw [ofInteger_eq_string_iff, Decimal.canonical_toList_iff]
  refine ⟨fun s => ?_, fun t arguments name earlier later hentries hmem => ?_,
    fun k => asNumber_ofInteger_iff, isSome_asNumber_ofInteger,
    fun s => ⟨hstring s, isText_iff.trans (hstring s)⟩, beq_ofInteger_iff⟩
  · rw [text_ofInteger, Decimal.canonical_toList_iff]
  · obtain ⟨a, b, htext, hfill⟩ := Template.fill_of_entries hentries hmem
    refine ⟨a, _, b, ?_, htext, hfill⟩
    rw [text_ofInteger, Decimal.canonical_toList_iff]

theorem integers_exact_bounds :
    let large : Integer := .uint64 0x8000000000000000
    let least : Integer := .int64 Int64.minValue
    let t : Template := ⟨"\x7bn\x7d new"⟩
    let arguments : Arguments := .ofList [("n", ofInteger large)]
    ofInteger large = .string "9223372036854775808" ∧
      ¬(ofInteger large).asNumber.isSome ∧
      (∃ a s b, Decimal.Canonical 0x8000000000000000 s ∧ t.source.toList = a ++ (token ['n'] ++ b) ∧
        t.fill arguments = String.ofList (a ++ (s ++ b))) ∧
      (ofInteger (.size 0x8000000000000000) == ofInteger large) = true ∧
      (ofInteger least).text = "-9223372036854775808" ∧
      (ofInteger least).asNumber = some Int64.minValue ∧
      ¬(ofInteger least == ofInteger large) = true := by
  intro large least t arguments
  obtain ⟨-, hfill, -, hnumber, hstring, hdiffer⟩ := integers_exact least large
  obtain ⟨htext, -, hsigned, -⟩ := integers_exact large least
  obtain ⟨-, -, -, -, -, hequal⟩ := integers_exact (.size 0x8000000000000000) large
  have hlarge : Decimal.Canonical large.toInt "9223372036854775808".toList := by
    decide +kernel
  have hmin : Decimal.Canonical least.toInt "-9223372036854775808".toList := by
    decide +kernel
  have hentries : arguments.entries = [] ++ ("n", ofInteger large) :: [] := rfl
  have hmem : token ['n'] <:+: t.source.toList := ⟨[], " new".toList, by decide +kernel⟩
  refine ⟨((hstring _).1.mpr ⟨by decide, hlarge⟩), ?_, hfill t arguments "n" [] [] hentries hmem,
    hequal.mpr rfl, (htext _).mpr hmin, (hsigned _).mpr rfl, ?_⟩
  · rw [hnumber]
    decide
  · rw [hdiffer]
    decide

end Value

end Phrasebook
