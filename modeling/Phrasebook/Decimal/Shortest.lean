/-!
# The shortest decimal of a positive number

A binary number stands for all the numbers that are nearer to it than to its
neighbours. Of the decimals in that span the one with the fewest digits is
looked for, and of those the one nearest to the number.

The search walks grids of decimals `k · 10 ^ e`, from coarse to fine. On each
grid only the two points around the number need a test: if any point of the grid
lies in the span, so does one of these two (`Span.neighbour_of_mem`).
-/

namespace Phrasebook.Decimal

inductive Tie
  | toEven
  | away
  deriving DecidableEq

/-- The number `mid / den` and the ends of its span over the same denominator. The
span has its ends in it if `closed`. -/
structure Span where
  low : Nat
  mid : Nat
  high : Nat
  den : Nat
  closed : Bool

namespace Span

/-- The span of `m · 2 ^ q`. The neighbour below is at half distance if `narrow`.
Quarters of the last binary place make all three points whole. -/
def ofBinary (m : Nat) (q : Int) (narrow : Bool) : Span where
  low := (4 * m - if narrow then 1 else 2) * Nat.pow 2 (q - 2).toNat
  mid := 4 * m * Nat.pow 2 (q - 2).toNat
  high := (4 * m + 2) * Nat.pow 2 (q - 2).toNat
  den := Nat.pow 2 (2 - q).toNat
  closed := m % 2 == 0

def inUnits (s : Span) (e : Int) : Span :=
  let scale := Nat.pow 10 (-e).toNat
  { s with
    low := s.low * scale, mid := s.mid * scale, high := s.high * scale
    den := s.den * Nat.pow 10 e.toNat }

def Mem (s : Span) (k : Nat) : Prop :=
  if s.closed then s.low ≤ k * s.den ∧ k * s.den ≤ s.high
  else s.low < k * s.den ∧ k * s.den < s.high

instance (s : Span) (k : Nat) : Decidable (s.Mem k) := by unfold Mem; infer_instance

def floor (s : Span) : Nat := s.mid / s.den

theorem floor_le (s : Span) : s.floor * s.den ≤ s.mid := Nat.div_mul_le_self ..

theorem lt_next {s : Span} (den : 0 < s.den) : s.mid < (s.floor + 1) * s.den := by
  rw [Nat.mul_comm]
  exact Nat.lt_mul_div_succ s.mid den

theorem mem_floor {s : Span} (high : s.mid < s.high) {k : Nat} (h : s.Mem k)
    (le : k ≤ s.floor) : s.Mem s.floor := by
  have k_le : k * s.den ≤ s.floor * s.den := Nat.mul_le_mul_right _ le
  have floor_le := s.floor_le
  by_cases closed : s.closed = true
  · rw [Mem, if_pos closed] at h ⊢; omega
  · rw [Mem, if_neg closed] at h ⊢; omega

theorem mem_next {s : Span} (low : s.low < s.mid) (den : 0 < s.den) {k : Nat} (h : s.Mem k)
    (lt : s.floor < k) : s.Mem (s.floor + 1) := by
  have le_k : (s.floor + 1) * s.den ≤ k * s.den := Nat.mul_le_mul_right _ lt
  have lt_next := lt_next den
  by_cases closed : s.closed = true
  · rw [Mem, if_pos closed] at h ⊢; omega
  · rw [Mem, if_neg closed] at h ⊢; omega

theorem neighbour_of_mem {s : Span} (low : s.low < s.mid) (high : s.mid < s.high)
    (den : 0 < s.den) {k : Nat} (h : s.Mem k) : s.Mem s.floor ∨ s.Mem (s.floor + 1) := by
  rcases Nat.lt_or_ge s.floor k with lt | le
  · exact .inr (mem_next low den h lt)
  · exact .inl (mem_floor high h le)

def nearest (s : Span) (tie : Tie) : Nat :=
  match compare (2 * (s.mid % s.den)) s.den with
  | .lt => s.floor
  | .gt => s.floor + 1
  | .eq =>
    match tie with
    | .away => s.floor + 1
    | .toEven => if s.floor % 2 = 0 then s.floor else s.floor + 1

def whole? (s : Span) (tie : Tie) : Option Nat :=
  if s.Mem s.floor then some (if s.Mem (s.floor + 1) then s.nearest tie else s.floor)
  else if s.Mem (s.floor + 1) then some (s.floor + 1)
  else none

theorem mem_of_whole? {s : Span} {tie : Tie} {k : Nat} (h : s.whole? tie = some k) : s.Mem k := by
  unfold whole? at h
  split at h
  · next floor =>
    cases h
    split
    · next after =>
      unfold nearest
      split
      · exact floor
      · exact after
      · split
        · exact after
        · split
          · exact floor
          · exact after
    · exact floor
  · split at h
    · next after => cases h; exact after
    · cases h

/-- No power of ten beyond this exponent is at or below the number. -/
def topExponent (s : Span) : Int :=
  if s.den ≤ s.mid then (Nat.toDigits 10 s.floor).length
  else 1 - (Nat.toDigits 10 (s.den / s.mid)).length

end Span

structure Scientific where
  coefficient : Nat
  exponent : Int
  deriving DecidableEq

def shortestFrom (tie : Tie) (s : Span) : (fuel : Nat) → (e : Int) → Scientific
  | 0, e => ⟨(s.inUnits e).floor, e⟩
  | fuel + 1, e =>
    match (s.inUnits e).whole? tie with
    | some k => ⟨k, e⟩
    | none => shortestFrom tie s fuel (e - 1)

/-- The shortest decimal in the span of a double. Seventeen digits always tell a
double from its neighbours, so twenty grids from above the first digit suffice. -/
def shortest (tie : Tie) (s : Span) : Scientific := shortestFrom tie s 20 s.topExponent

end Phrasebook.Decimal
