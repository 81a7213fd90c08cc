/-!
# Decimal text of integers

The digits from the most significant on, without leading zeros, after a minus
sign if the integer is negative. No two integers share a text.
-/

namespace Phrasebook.Decimal

def digits (n : Nat) : List Char := Nat.toDigits 10 n

theorem isDigit_of_mem_digits {n : Nat} {c : Char} (h : c ∈ digits n) : c.isDigit :=
  Nat.isDigit_of_mem_toDigits (by decide) (by decide) h

theorem digits_injective {m n : Nat} (h : digits m = digits n) : m = n := by
  have same := congrArg (Nat.ofDigitChars 10 · 0) h
  simpa [digits, Nat.ofDigitChars_toDigits] using same

def signedDigits : Int → List Char
  | .ofNat n => digits n
  | .negSucc n => '-' :: digits (n + 1)

theorem signedDigits_injective {m n : Int} (h : signedDigits m = signedDigits n) : m = n := by
  have clash {k l : Nat} (h : digits k = '-' :: digits l) : False := by
    have := isDigit_of_mem_digits (n := k) (c := '-') (by simp [h])
    exact absurd this (by decide)
  cases m <;> cases n <;> simp only [signedDigits] at h
  · rw [digits_injective h]
  · exact (clash h).elim
  · exact (clash h.symm).elim
  · have := digits_injective (List.cons.inj h).2
    simp_all

def ofInt (n : Int) : String := String.ofList (signedDigits n)

theorem ofInt_injective {m n : Int} (h : ofInt m = ofInt n) : m = n :=
  signedDigits_injective (String.ofList_injective h)

end Phrasebook.Decimal
