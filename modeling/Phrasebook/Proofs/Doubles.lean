import Mathlib.Algebra.Order.Field.Power
import Mathlib.Data.Rat.Floor
import Mathlib.Tactic.Linarith
import Mathlib.Tactic.Positivity
import Mathlib.Tactic.Ring
import Phrasebook.Decimal.Layout

/-!
# The text of doubles

The search for a decimal has a bounded number of grids to try. For doubles these are
enough: it comes to a decimal in the span, none is on a coarser grid, and none on its
own grid is nearer to the double (`Span.shortest_spec`). So the text names the double,
whichever layout it is in: it is a numeral of that decimal, after a sign
(`Layout.chars_finite`).
-/

namespace Phrasebook.Decimal

def Scientific.value (d : Scientific) : ℚ := d.coefficient * 10 ^ d.exponent

namespace Span

def center (s : Span) : ℚ := s.mid / s.den

def Holds (s : Span) (x : ℚ) : Prop :=
  if s.closed then s.low ≤ x * s.den ∧ x * s.den ≤ s.high
  else s.low < x * s.den ∧ x * s.den < s.high

structure Proper (s : Span) : Prop where
  low_lt : s.low < s.mid
  lt_high : s.mid < s.high
  den_pos : 0 < s.den

/-- The ends are near enough to the number, but not so near that more than 18 digits are needed
between them. -/
structure Fine (s : Span) : Prop extends s.Proper where
  low_pos : 0 < s.low
  high_le : s.high ≤ 2 * s.mid
  mid_lt : s.mid < 10 ^ 18 * (s.high - s.mid)

/-- A decimal in the span. No coarser grid has one, and none on its grid is nearer. -/
structure Shortest (s : Span) (d : Scientific) : Prop where
  holds : s.Holds d.value
  coarsest : ∀ (k : ℕ) (e : ℤ), d.exponent < e → ¬ s.Holds (k * 10 ^ e)
  nearest : ∀ k : ℕ, s.Holds (k * 10 ^ d.exponent) →
    |d.value - s.center| ≤ |k * 10 ^ d.exponent - s.center|

variable {s : Span} {tie : Tie} {k : ℕ} {e : ℤ}

-- ---------------------------------------------------------------------------
-- Spans in other units
-- ---------------------------------------------------------------------------

theorem ten_pow_toNat (e : ℤ) : (10 : ℚ) ^ e.toNat = 10 ^ e * 10 ^ (-e).toNat := by
  rcases le_total 0 e with h | h
  · lift e to ℕ using h
    simp
  · obtain ⟨n, rfl⟩ := Int.exists_eq_neg_ofNat h
    simp

theorem mem_iff_holds : s.Mem k ↔ s.Holds k := by
  unfold Mem Holds
  split <;> norm_cast

theorem holds_inUnits {x : ℚ} : (s.inUnits e).Holds x ↔ s.Holds (x * 10 ^ e) := by
  have hscale : (0 : ℚ) < 10 ^ (-e).toNat := by positivity
  have hden : x * (s.inUnits e).den = x * 10 ^ e * s.den * 10 ^ (-e).toNat := by
    simp [inUnits, ten_pow_toNat e]
    ring
  have hlow : ((s.inUnits e).low : ℚ) = s.low * 10 ^ (-e).toNat := by simp [inUnits]
  have hhigh : ((s.inUnits e).high : ℚ) = s.high * 10 ^ (-e).toNat := by simp [inUnits]
  rw [Holds, Holds, hden, hlow, hhigh]
  simp only [mul_le_mul_iff_left₀ hscale, mul_lt_mul_iff_left₀ hscale]
  rfl

theorem center_inUnits (h : 0 < s.den) : (s.inUnits e).center * 10 ^ e = s.center := by
  have hscale : (10 : ℚ) ^ (-e).toNat ≠ 0 := by positivity
  have hunit : (10 : ℚ) ^ e ≠ 0 := by positivity
  have hden : (s.den : ℚ) ≠ 0 := by positivity
  simp only [center, inUnits, Nat.cast_mul, Nat.pow_eq, Nat.cast_pow, Nat.cast_ofNat,
    ten_pow_toNat e]
  field_simp

theorem Proper.inUnits (h : s.Proper) (e : ℤ) : (s.inUnits e).Proper where
  low_lt := Nat.mul_lt_mul_of_pos_right h.low_lt (Nat.pow_pos (by decide))
  lt_high := Nat.mul_lt_mul_of_pos_right h.lt_high (Nat.pow_pos (by decide))
  den_pos := Nat.mul_pos h.den_pos (Nat.pow_pos (by decide))

-- ---------------------------------------------------------------------------
-- Whole numbers in a span
-- ---------------------------------------------------------------------------

theorem floor_le_center (h : s.Proper) : (s.floor : ℚ) ≤ s.center := by
  have hden : (0 : ℚ) < s.den := by exact_mod_cast h.den_pos
  rw [center, le_div_iff₀ hden]
  exact_mod_cast s.floor_le

theorem center_lt_next (h : s.Proper) : s.center < s.floor + 1 := by
  have hden : (0 : ℚ) < s.den := by exact_mod_cast h.den_pos
  rw [center, div_lt_iff₀ hden]
  exact_mod_cast lt_next h.den_pos

theorem center_eq (h : s.Proper) : s.center = s.floor + (s.mid % s.den : ℕ) / s.den := by
  have hden : (s.den : ℚ) ≠ 0 := by exact_mod_cast h.den_pos.ne'
  rw [center, div_eq_iff hden, add_mul, div_mul_cancel₀ _ hden]
  exact_mod_cast (Nat.div_add_mod' s.mid s.den).symm

theorem nearest_cases (h : s.Proper) (tie : Tie) :
    s.nearest tie = s.floor ∧ s.center - s.floor ≤ s.floor + 1 - s.center ∨
      s.nearest tie = s.floor + 1 ∧ s.floor + 1 - s.center ≤ s.center - s.floor := by
  have hden : (0 : ℚ) < s.den := by exact_mod_cast h.den_pos
  have hcenter := center_eq h
  have hbelow (hle : 2 * (s.mid % s.den) ≤ s.den) :
      s.center - s.floor ≤ s.floor + 1 - s.center := by
    have hhalf : ((s.mid % s.den : ℕ) : ℚ) / s.den ≤ 1 / 2 := by
      rw [div_le_div_iff₀ hden two_pos]
      exact_mod_cast (by omega : s.mid % s.den * 2 ≤ 1 * s.den)
    linarith
  have habove (hle : s.den ≤ 2 * (s.mid % s.den)) :
      s.floor + 1 - s.center ≤ s.center - s.floor := by
    have hhalf : 1 / 2 ≤ ((s.mid % s.den : ℕ) : ℚ) / s.den := by
      rw [div_le_div_iff₀ two_pos hden]
      exact_mod_cast (by omega : 1 * s.den ≤ s.mid % s.den * 2)
    linarith
  cases hcompare : compare (2 * (s.mid % s.den)) s.den with
  | lt => exact .inl ⟨by simp [nearest, hcompare], hbelow (Nat.compare_eq_lt.mp hcompare).le⟩
  | gt => exact .inr ⟨by simp [nearest, hcompare], habove (Nat.compare_eq_gt.mp hcompare).le⟩
  | eq =>
    have heq := Nat.compare_eq_eq.mp hcompare
    cases tie with
    | away => exact .inr ⟨by simp [nearest, hcompare], habove heq.ge⟩
    | toEven =>
      by_cases heven : s.floor % 2 = 0
      · exact .inl ⟨by simp [nearest, hcompare, heven], hbelow heq.le⟩
      · exact .inr ⟨by simp [nearest, hcompare, heven], habove heq.ge⟩

theorem neighbour_nearer (h : s.Proper) (hk : s.Mem k) :
    s.Mem s.floor ∧ s.center - s.floor ≤ |k - s.center| ∨
      s.Mem (s.floor + 1) ∧ s.floor + 1 - s.center ≤ |k - s.center| := by
  rcases Nat.lt_or_ge s.floor k with hlt | hle
  · have hk' : (s.floor : ℚ) + 1 ≤ k := by exact_mod_cast hlt
    exact .inr ⟨mem_next h.low_lt h.den_pos hk hlt, le_trans (by linarith) (le_abs_self _)⟩
  · have hk' : (k : ℚ) ≤ s.floor := by exact_mod_cast hle
    exact .inl ⟨mem_floor h.lt_high hk hle, le_trans (by linarith) (neg_le_abs _)⟩

theorem whole?_nearest (h : s.Proper) (hk : s.whole? tie = some k) {j : ℕ} (hj : s.Mem j) :
    |(k : ℚ) - s.center| ≤ |j - s.center| := by
  have hfloor : |(s.floor : ℚ) - s.center| = s.center - s.floor := by
    rw [abs_sub_comm, abs_of_nonneg (by linarith [floor_le_center h])]
  have hnext : |((s.floor + 1 : ℕ) : ℚ) - s.center| = s.floor + 1 - s.center := by
    rw [Nat.cast_add_one, abs_of_pos (by linarith [center_lt_next h])]
  have hnearer := neighbour_nearer h hj
  by_cases hmem : s.Mem s.floor <;> by_cases hmem' : s.Mem (s.floor + 1)
  · obtain rfl : s.nearest tie = k := by simpa [whole?, hmem, hmem'] using hk
    rcases nearest_cases h tie with ⟨heq, hle⟩ | ⟨heq, hle⟩
    · rw [heq, hfloor]
      rcases hnearer with ⟨-, hj⟩ | ⟨-, hj⟩ <;> linarith
    · rw [heq, hnext]
      rcases hnearer with ⟨-, hj⟩ | ⟨-, hj⟩ <;> linarith
  · obtain rfl : s.floor = k := by simpa [whole?, hmem, hmem'] using hk
    rw [hfloor]
    exact (hnearer.resolve_right fun hn => hmem' hn.1).2
  · obtain rfl : s.floor + 1 = k := by simpa [whole?, hmem, hmem'] using hk
    rw [hnext]
    exact (hnearer.resolve_left fun hn => hmem hn.1).2
  · simp [whole?, hmem, hmem'] at hk

theorem whole?_eq_none (h : s.Proper) (hnone : s.whole? tie = none) : ¬ s.Mem k := by
  intro hk
  rcases neighbour_of_mem h.low_lt h.lt_high h.den_pos hk with hfloor | hnext
  · simp [whole?, hfloor] at hnone
  · by_cases hfloor : s.Mem s.floor <;> simp [whole?, hfloor, hnext] at hnone

-- ---------------------------------------------------------------------------
-- The search
-- ---------------------------------------------------------------------------

theorem whole?_inUnits (h : s.Proper) (hk : (s.inUnits e).whole? tie = some k) :
    s.Holds (k * 10 ^ e) ∧
      ∀ j : ℕ, s.Holds (j * 10 ^ e) → |k * 10 ^ e - s.center| ≤ |j * 10 ^ e - s.center| := by
  refine ⟨holds_inUnits.mp (mem_iff_holds.mp (mem_of_whole? hk)), fun j hj => ?_⟩
  have hmem : (s.inUnits e).Mem j := mem_iff_holds.mpr (holds_inUnits.mpr hj)
  rw [← center_inUnits h.den_pos, ← sub_mul, ← sub_mul, abs_mul, abs_mul]
  exact mul_le_mul_of_nonneg_right (whole?_nearest (h.inUnits e) hk hmem) (abs_nonneg _)

theorem not_holds_of_whole? (h : s.Proper) (hnone : (s.inUnits e).whole? tie = none) :
    ¬ s.Holds (k * 10 ^ e) :=
  fun hk => whole?_eq_none (h.inUnits e) hnone (mem_iff_holds.mpr (holds_inUnits.mpr hk))

/-- The search stops at the first grid that has a decimal in the span, if it comes to one. -/
theorem shortestFrom_spec (h : s.Proper) (fuel : ℕ) (e : ℤ)
    (hfound : ∃ k : ℕ, s.Holds (k * 10 ^ (e - fuel))) :
    let d := shortestFrom tie s (fuel + 1) e
    s.Holds d.value ∧
      (∀ k : ℕ, s.Holds (k * 10 ^ d.exponent) →
        |d.value - s.center| ≤ |k * 10 ^ d.exponent - s.center|) ∧
      (d.exponent = e ∨ ∀ k : ℕ, ¬ s.Holds (k * 10 ^ (d.exponent + 1))) := by
  induction fuel generalizing e with
  | zero =>
    obtain ⟨j, hj⟩ := hfound
    cases hwhole : (s.inUnits e).whole? tie with
    | some k =>
      obtain ⟨hholds, hnearest⟩ := whole?_inUnits h hwhole
      rw [shortestFrom, hwhole]
      exact ⟨hholds, hnearest, .inl rfl⟩
    | none => exact absurd (by simpa using hj) (not_holds_of_whole? h hwhole)
  | succ fuel ih =>
    cases hwhole : (s.inUnits e).whole? tie with
    | some k =>
      obtain ⟨hholds, hnearest⟩ := whole?_inUnits h hwhole
      rw [shortestFrom, hwhole]
      exact ⟨hholds, hnearest, .inl rfl⟩
    | none =>
      have hrest : e - ↑(fuel + 1) = e - 1 - fuel := by push_cast; ring
      rw [hrest] at hfound
      obtain ⟨hholds, hnearest, hcoarser⟩ := ih (e - 1) hfound
      rw [shortestFrom, hwhole]
      refine ⟨hholds, hnearest, .inr fun k => ?_⟩
      rcases hcoarser with heq | hnone
      · rw [heq, sub_add_cancel]
        exact not_holds_of_whole? h hwhole
      · exact hnone k

-- ---------------------------------------------------------------------------
-- The first grid
-- ---------------------------------------------------------------------------

theorem toDigits_length {n : ℕ} (hn : 0 < n) :
    ∃ l, (Nat.toDigits 10 n).length = l + 1 ∧ 10 ^ l ≤ n ∧ n < 10 ^ (l + 1) := by
  obtain ⟨l, hl⟩ := Nat.exists_eq_add_one.mpr (@Nat.length_toDigits_pos 10 n)
  refine ⟨l, hl, ?_, (Nat.length_toDigits_le_iff (by decide) l.succ_pos).mp hl.le⟩
  cases l with
  | zero => exact hn
  | succ l =>
    by_contra hlt
    have hle := (Nat.length_toDigits_le_iff (by decide) l.succ_pos).mpr (Nat.lt_of_not_le hlt)
    omega

theorem center_bounds (h : s.Proper) :
    (10 : ℚ) ^ (s.topExponent - 1) ≤ s.center ∧ s.center ≤ 10 ^ s.topExponent := by
  have hden : (0 : ℚ) < s.den := by exact_mod_cast h.den_pos
  have hmid : 0 < s.mid := h.low_lt.pos
  by_cases hle : s.den ≤ s.mid
  · obtain ⟨l, hl, hlow, hhigh⟩ := toDigits_length (Nat.div_pos hle h.den_pos)
    have htop : s.topExponent = (l + 1 : ℕ) := by rw [topExponent, if_pos hle, floor, hl]
    have hlow' : 10 ^ l * s.den ≤ s.mid := (Nat.le_div_iff_mul_le h.den_pos).mp hlow
    have hhigh' : s.mid < 10 ^ (l + 1) * s.den := (Nat.div_lt_iff_lt_mul h.den_pos).mp hhigh
    rw [htop, Nat.cast_add_one, add_sub_cancel_right, ← Nat.cast_add_one, zpow_natCast,
      zpow_natCast, center, le_div_iff₀ hden, div_le_iff₀ hden]
    exact ⟨by exact_mod_cast hlow', by exact_mod_cast hhigh'.le⟩
  · obtain ⟨l, hl, hlow, hhigh⟩ := toDigits_length (Nat.div_pos (Nat.lt_of_not_le hle).le hmid)
    have htop : s.topExponent = -(l : ℕ) := by
      rw [topExponent, if_neg hle, hl]
      omega
    have hlow' : 10 ^ l * s.mid ≤ s.den := (Nat.le_div_iff_mul_le hmid).mp hlow
    have hhigh' : s.den < 10 ^ (l + 1) * s.mid := (Nat.div_lt_iff_lt_mul hmid).mp hhigh
    have hbelow : s.topExponent - 1 = -((l + 1 : ℕ) : ℤ) := by omega
    rw [hbelow, htop, zpow_neg, zpow_neg, zpow_natCast, zpow_natCast, center, le_div_iff₀ hden,
      div_le_iff₀ hden, inv_mul_le_iff₀ (by positivity), le_inv_mul_iff₀ (by positivity)]
    exact ⟨by exact_mod_cast hhigh'.le, by exact_mod_cast hlow'⟩

theorem Holds.bounds {x : ℚ} (h : s.Holds x) : s.low ≤ x * s.den ∧ x * s.den ≤ s.high := by
  unfold Holds at h
  split at h
  · exact h
  · exact ⟨h.1.le, h.2.le⟩

theorem holds_of_lt {x : ℚ} (hlow : s.low < x * s.den) (hhigh : x * s.den < s.high) :
    s.Holds x := by
  unfold Holds
  split
  · exact ⟨hlow.le, hhigh.le⟩
  · exact ⟨hlow, hhigh⟩

theorem holds_finer {e' : ℤ} (he : e ≤ e') (h : s.Holds (k * 10 ^ e')) :
    ∃ j : ℕ, s.Holds (j * 10 ^ e) := by
  obtain ⟨n, rfl⟩ := Int.le.dest he
  refine ⟨k * 10 ^ n, ?_⟩
  rw [zpow_add₀ (by norm_num), zpow_natCast] at h
  convert h using 1
  push_cast
  ring

theorem center_mul_den (h : s.Proper) : s.center * s.den = s.mid :=
  div_mul_cancel₀ _ (by exact_mod_cast h.den_pos.ne')

/-- On the last grid the decimals are nearer to one another than the number is to its upper end. -/
theorem Fine.exists_holds (h : s.Fine) : ∃ k : ℕ, s.Holds (k * 10 ^ (s.topExponent - 19)) := by
  have hden : (0 : ℚ) < s.den := by exact_mod_cast h.den_pos
  have hcenter := center_mul_den h.toProper
  have hlow : (s.low : ℚ) < s.mid := by exact_mod_cast h.low_lt
  have hmid : (s.mid : ℚ) < 10 ^ 18 * (s.high - s.mid) := by
    rw [← Nat.cast_sub h.lt_high.le]
    exact_mod_cast h.mid_lt
  obtain ⟨u, hu⟩ : ∃ u : ℚ, 10 ^ (s.topExponent - 19) = u := ⟨_, rfl⟩
  have hpos : 0 < u := by
    rw [← hu]
    positivity
  have hgap : u * s.den < s.high - s.mid := by
    have htop : u * 10 ^ 18 = 10 ^ (s.topExponent - 1) := by
      rw [← hu, ← zpow_natCast, ← zpow_add₀ (by norm_num)]
      congr 1
      push_cast
      ring
    have hle : u * 10 ^ 18 * s.den ≤ s.mid := by
      rw [← hcenter, htop]
      exact mul_le_mul_of_nonneg_right (center_bounds h.toProper).1 hden.le
    linarith
  have hnonneg : 0 ≤ s.center / u := div_nonneg (by unfold center; positivity) hpos.le
  have habove : s.center < (⌊s.center / u⌋₊ + 1 : ℕ) * u := by
    rw [← div_lt_iff₀ hpos]
    exact_mod_cast Nat.lt_floor_add_one _
  have hbelow : (⌊s.center / u⌋₊ + 1 : ℕ) * u ≤ s.center + u := by
    have hfloor := (le_div_iff₀ hpos).mp (Nat.floor_le hnonneg)
    push_cast
    linarith
  refine ⟨⌊s.center / u⌋₊ + 1, holds_of_lt ?_ ?_⟩
  · rw [hu]
    nlinarith
  · rw [hu]
    nlinarith

theorem Fine.not_holds_above_top (h : s.Fine) : ¬ s.Holds (k * 10 ^ (s.topExponent + 1)) := by
  intro hk
  obtain ⟨hlow, hhigh⟩ := hk.bounds
  have hden : (0 : ℚ) < s.den := by exact_mod_cast h.den_pos
  have hpos : (0 : ℚ) < s.low := by exact_mod_cast h.low_pos
  have hle : (s.high : ℚ) ≤ 2 * s.mid := by exact_mod_cast h.high_le
  have htop : (s.mid : ℚ) ≤ 10 ^ s.topExponent * s.den := by
    rw [← center_mul_den h.toProper]
    exact mul_le_mul_of_nonneg_right (center_bounds h.toProper).2 hden.le
  rcases Nat.eq_zero_or_pos k with rfl | hk
  · simp only [Nat.cast_zero, zero_mul] at hlow
    linarith
  · have hk' : (1 : ℚ) ≤ k := by exact_mod_cast hk
    have hunit : (0 : ℚ) < 10 ^ s.topExponent * s.den := by positivity
    rw [zpow_add_one₀ (by norm_num)] at hhigh
    nlinarith

theorem shortest_spec (h : s.Fine) (tie : Tie) : s.Shortest (shortest tie s) := by
  obtain ⟨hholds, hnearest, hcoarser⟩ :=
    @shortestFrom_spec s tie h.toProper 19 s.topExponent h.exists_holds
  refine ⟨hholds, fun k e he hk => ?_, hnearest⟩
  obtain ⟨j, hj⟩ := holds_finer (Int.add_one_le_of_lt he) hk
  rcases hcoarser with htop | hnone
  · have hexponent : (shortest tie s).exponent = s.topExponent := htop
    rw [hexponent] at hj
    exact h.not_holds_above_top hj
  · exact hnone j hj

theorem fine_ofBinary {m : ℕ} (hm : 0 < m) (hlt : m < 2 ^ 53) (q : ℤ) (narrow : Bool) :
    (ofBinary m q narrow).Fine := by
  have hunit : 0 < Nat.pow 2 (q - 2).toNat := Nat.pow_pos (by decide)
  have hlow : 0 < 4 * m - (if narrow then 1 else 2) ∧
      4 * m - (if narrow then 1 else 2) < 4 * m := by
    split <;> omega
  refine ⟨⟨?_, ?_, Nat.pow_pos (by decide)⟩, Nat.mul_pos hlow.1 hunit, ?_, ?_⟩
  · exact Nat.mul_lt_mul_of_pos_right hlow.2 hunit
  · exact Nat.mul_lt_mul_of_pos_right (by omega) hunit
  · simp only [ofBinary]
    nlinarith
  · simp only [ofBinary]
    rw [← Nat.sub_mul, Nat.add_sub_cancel_left, ← mul_assoc]
    exact Nat.mul_lt_mul_of_pos_right (by omega) hunit

end Span

-- ---------------------------------------------------------------------------
-- Layouts
-- ---------------------------------------------------------------------------

theorem Magnitude.lt_of_finite {bits m : ℕ} {q : ℤ} {narrow : Bool}
    (h : ofBits bits = .finite m q narrow) : m < 2 ^ 53 := by
  have hfraction : bits % exponentUnit < exponentUnit := Nat.mod_lt _ (by decide)
  have hunit : exponentUnit = 2 ^ 52 := rfl
  simp only [ofBits] at h
  split at h
  · split at h <;> cases h
  · split at h
    · cases h
      omega
    · cases h
      omega

namespace Layout

inductive Positional : List Char → ℚ → Prop
  | whole {ds : List Char} (hne : ds ≠ []) (h : ∀ c ∈ ds, c.isDigit) :
    Positional ds (Nat.ofDigitChars 10 ds 0)
  | point {whole fraction : List Char} (hwhole : whole ≠ []) (hfraction : fraction ≠ [])
    (h : ∀ c ∈ whole ++ fraction, c.isDigit) :
    Positional (whole ++ '.' :: fraction)
      (Nat.ofDigitChars 10 (whole ++ fraction) 0 / 10 ^ fraction.length)

inductive Numeral : List Char → ℚ → Prop
  | positional {s : List Char} {x : ℚ} (h : Positional s x) : Numeral s x
  | scaled {s : List Char} {x : ℚ} (h : Positional s x) (e : ℤ) :
    Numeral (s ++ 'e' :: ((if e < 0 then [] else ['+']) ++ signedDigits e)) (x * 10 ^ e)

variable {layout : Layout} {ds : List Char}

theorem ofDigitChars_zeros (n init : ℕ) : Nat.ofDigitChars 10 (zeros n) init = 10 ^ n * init :=
  Nat.ofDigitChars_replicate_zero

theorem isDigit_of_mem_zeros {n : ℕ} {c : Char} (h : c ∈ zeros n) : c.isDigit := by
  rw [List.eq_of_mem_replicate h]
  rfl

theorem div_ten_pow (x : ℚ) {n : ℕ} {e : ℤ} (h : e = -n) : x / 10 ^ n = x * 10 ^ e := by
  rw [h, zpow_neg, zpow_natCast, div_eq_mul_inv]

theorem positional_positionalChars (hne : ds ≠ []) (h : ∀ c ∈ ds, c.isDigit) (point : ℤ) :
    Positional (layout.positionalChars ds point)
      (Nat.ofDigitChars 10 ds 0 * 10 ^ (point - ds.length)) := by
  rw [positionalChars]
  split
  · next hle =>
    obtain ⟨n, hn⟩ : ∃ n, point.toNat - ds.length = n := ⟨_, rfl⟩
    have hexponent : point - ds.length = n := by omega
    have hdigits : ∀ c ∈ ds ++ zeros n, c.isDigit := fun c hc =>
      (List.mem_append.mp hc).elim (h c) isDigit_of_mem_zeros
    rw [hn, hexponent, zpow_natCast]
    by_cases hzero : layout.pointZero
    · have hpoint := @Positional.point (ds ++ zeros n) ['0'] (by simp [hne]) (by simp) fun c hc =>
        (List.mem_append.mp hc).elim (hdigits c) fun hc => List.mem_singleton.mp hc ▸ rfl
      have hvalue : (Nat.ofDigitChars 10 (ds ++ zeros n ++ ['0']) 0 : ℚ) / 10 ^ 1 =
          Nat.ofDigitChars 10 ds 0 * 10 ^ n := by
        simp [Nat.ofDigitChars_append, Nat.ofDigitChars_cons, ofDigitChars_zeros, mul_comm]
      rw [if_pos hzero, ← hvalue]
      exact hpoint
    · have hwhole := @Positional.whole (ds ++ zeros n) (by simp [hne]) hdigits
      simpa [hzero, Nat.ofDigitChars_append, ofDigitChars_zeros, mul_comm] using hwhole
  · next hlt =>
    split
    · next hpos =>
      have hpoint := @Positional.point (ds.take point.toNat) (ds.drop point.toNat)
        (by simp [hne]; omega) (by simp; omega) (by rwa [List.take_append_drop])
      have hexponent : point - ds.length = -((ds.drop point.toNat).length : ℕ) := by
        rw [List.length_drop]
        omega
      rwa [List.take_append_drop, div_ten_pow _ hexponent] at hpoint
    · next hneg =>
      have hdigits : ∀ c ∈ ['0'] ++ (zeros (-point).toNat ++ ds), c.isDigit := by
        simp only [List.mem_append, List.mem_singleton]
        rintro c (rfl | hc | hc)
        · rfl
        · exact isDigit_of_mem_zeros hc
        · exact h c hc
      have hpoint := Positional.point (by simp) (by simp [hne]) hdigits
      have hexponent : point - ds.length = -((zeros (-point).toNat ++ ds).length : ℕ) := by
        simp [zeros]
        omega
      have hvalue : Nat.ofDigitChars 10 (['0'] ++ (zeros (-point).toNat ++ ds)) 0 =
          Nat.ofDigitChars 10 ds 0 := by
        simp [Nat.ofDigitChars_append, Nat.ofDigitChars_cons, ofDigitChars_zeros]
      rwa [div_ten_pow _ hexponent, hvalue] at hpoint

theorem numeral_exponentChars (hne : ds ≠ []) (h : ∀ c ∈ ds, c.isDigit) (point : ℤ) :
    Numeral (exponentChars ds point) (Nat.ofDigitChars 10 ds 0 * 10 ^ (point - ds.length)) := by
  obtain ⟨d, fraction, rfl⟩ := List.exists_cons_of_ne_nil hne
  by_cases hfraction : fraction = []
  · subst hfraction
    exact .scaled (.whole hne h) (point - 1)
  · have hpoint := @Positional.point [d] fraction (by simp) hfraction h
    have hscaled := Numeral.scaled hpoint (point - 1)
    have hexponent :
        point - ((d :: fraction).length : ℕ) = -(fraction.length : ℕ) + (point - 1) := by
      rw [List.length_cons]
      omega
    rw [div_ten_pow _ rfl, mul_assoc, ← zpow_add₀ (by norm_num), ← hexponent] at hscaled
    simpa [exponentChars, hfraction] using hscaled

theorem numeral_finiteChars {m : ℕ} (hm : 0 < m) (q : ℤ) (narrow : Bool) :
    Numeral (layout.finiteChars m q narrow)
      (shortest layout.tie (.ofBinary m q narrow)).value := by
  obtain ⟨d, hd⟩ : ∃ d, shortest layout.tie (.ofBinary m q narrow) = d := ⟨_, rfl⟩
  have hne : digits d.coefficient ≠ [] := Nat.toDigits_ne_nil
  have hdigits : ∀ c ∈ digits d.coefficient, c.isDigit := fun _ => isDigit_of_mem_digits
  have hvalue : (Nat.ofDigitChars 10 (digits d.coefficient) 0 : ℚ) *
      10 ^ ((digits d.coefficient).length + d.exponent - (digits d.coefficient).length) =
        d.value := by
    rw [add_sub_cancel_left, digits, Nat.ofDigitChars_toDigits (by decide) (by decide)]
    rfl
  simp only [finiteChars, if_neg hm.ne', hd, ← hvalue]
  split
  · exact .positional (positional_positionalChars hne hdigits _)
  · exact numeral_exponentChars hne hdigits _

theorem positional_zero (layout : Layout) (q : ℤ) (narrow : Bool) :
    Positional (layout.finiteChars 0 q narrow) 0 := by
  cases hzero : layout.pointZero with
  | true =>
    have hpoint := @Positional.point ['0'] ['0'] (by simp) (by simp) (by simp)
    simpa [finiteChars, hzero, Nat.ofDigitChars_cons] using hpoint
  | false =>
    have hwhole := @Positional.whole ['0'] (by simp) (by simp)
    simpa [finiteChars, hzero, Nat.ofDigitChars_cons] using hwhole

/-- The text of a finite double is a sign, and a numeral of the shortest decimal that is nearer to
it than to other doubles. -/
theorem chars_finite {x : Float} {m : ℕ} {q : ℤ} {narrow : Bool}
    (h : Magnitude.ofBits x.toBits.toNat = .finite m q narrow) :
    ∃ numeral r, layout.chars x =
        (if isNegative x.toBits.toNat then ['-'] else []) ++ numeral ∧
      Numeral numeral r ∧ (m = 0 → r = 0) ∧
      (0 < m → ∃ d : Scientific, d.value = r ∧ (Span.ofBinary m q narrow).Shortest d) := by
  have hchars : layout.chars x =
      (if isNegative x.toBits.toNat then ['-'] else []) ++ layout.finiteChars m q narrow := by
    rw [chars, h]
  rcases Nat.eq_zero_or_pos m with rfl | hm
  · exact ⟨_, 0, hchars, .positional (positional_zero layout q narrow), fun _ => rfl, nofun⟩
  · have hfine := Span.fine_ofBinary hm (Magnitude.lt_of_finite h) q narrow
    have hshortest := Span.shortest_spec hfine layout.tie
    exact ⟨_, _, hchars, numeral_finiteChars hm q narrow, fun hzero => absurd hzero hm.ne',
      fun _ => ⟨_, rfl, hshortest⟩⟩

example : plain.text 1125899906842624.25 = "1125899906842624.3" ∧
    exact.text 1125899906842624.25 = "1125899906842624.2" := by decide +kernel

example : plain.text 0.00000123 = "0.00000123" ∧ exact.text 0.00000123 = "1.23e-6" := by
  decide +kernel

end Layout

end Phrasebook.Decimal
