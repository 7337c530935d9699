import Mathlib.Algebra.Order.Field.Power
import Mathlib.Algebra.Order.Field.Rat
import Mathlib.Data.Nat.Cast.Order.Field
import Mathlib.Tactic.FieldSimp
import Mathlib.Tactic.Linarith
import Mathlib.Tactic.Ring
import ShapeScribe.Number.Shortest

/-!
Rounding intervals. A rational number rounds to at most one binary64 number: the intervals of two numbers have at most
an end in common, and then one of them is open there, because neighbours have significands of different parity.
-/

namespace ShapeScribe

-- A power that is written as a quotient of naturals, one of which is one.
theorem zpow_eq_div (b : ℚ) (n : ℤ) : b ^ n = b ^ n.toNat / b ^ (-n).toNat := by
  rcases Int.le_total 0 n with hn | hn
  · obtain ⟨k, rfl⟩ := Int.eq_ofNat_of_zero_le hn
    simp
  · obtain ⟨k, hk⟩ := Int.eq_ofNat_of_zero_le (Int.neg_nonneg_of_nonpos hn)
    obtain rfl : n = -(k : ℤ) := by omega
    simp

theorem cast_twoTo (n : Nat) : (twoTo n : ℚ) = 2 ^ n := by
  simp [twoTo]

theorem cast_tenTo (n : Nat) : (tenTo n : ℚ) = 10 ^ n := by
  simp [tenTo]

namespace Binary64

variable {x y : Binary64} {q : ℚ}

-- What the last bit of the significand counts.
def unit (x : Binary64) : ℚ := 2 ^ x.exponent

theorem unit_pos (x : Binary64) : 0 < x.unit := zpow_pos (by norm_num) _

-- How far down the interval goes, in quarters of the unit.
def below (x : Binary64) : Nat := if x.significand = twoTo 52 ∧ 1 < x.biased then 1 else 2

def lowEnd (x : Binary64) : ℚ := (4 * x.significand - x.below : ℕ) / 4 * x.unit

def highEnd (x : Binary64) : ℚ := (4 * x.significand + 2 : ℕ) / 4 * x.unit

-- The numbers that are read as the one given, up to the sign.
def RoundsTo (x : Binary64) (q : ℚ) : Prop :=
  if x.significand % 2 = 0 then x.lowEnd ≤ q ∧ q ≤ x.highEnd else x.lowEnd < q ∧ q < x.highEnd

theorem interval_holds_iff {num den : Nat} (hden : 0 < den) :
    x.interval.holds num den = true ↔ x.RoundsTo (num / den) := by
  have hd : (0 : ℚ) < den := by exact_mod_cast hden
  have hscale : (0 : ℚ) < 2 ^ (-x.exponent).toNat := by positivity
  have hlow : x.lowEnd = x.interval.low / x.interval.den := by
    rw [lowEnd, unit, zpow_eq_div, interval]
    push_cast [cast_twoTo, below]
    field_simp
  have hhigh : x.highEnd = x.interval.high / x.interval.den := by
    rw [highEnd, unit, zpow_eq_div, interval]
    push_cast [cast_twoTo]
    field_simp
  have hi : (0 : ℚ) < x.interval.den := by
    simp only [interval]
    push_cast [cast_twoTo]
    positivity
  have hclosed : x.interval.closed = (x.significand % 2 == 0) := rfl
  rw [RoundsTo, hlow, hhigh, Interval.holds, hclosed]
  by_cases heven : x.significand % 2 = 0
  · rw [if_pos (beq_iff_eq.mpr heven), if_pos heven, div_le_div_iff₀ hi hd, div_le_div_iff₀ hd hi, Bool.and_eq_true,
      decide_eq_true_iff, decide_eq_true_iff]
    norm_cast
  · rw [if_neg (fun h => heven (beq_iff_eq.mp h)), if_neg heven, div_lt_div_iff₀ hi hd, div_lt_div_iff₀ hd hi,
      Bool.and_eq_true, decide_eq_true_iff, decide_eq_true_iff]
    norm_cast

-- The number comes before the other one in absolute value.
def Precedes (x y : Binary64) : Prop := x.biased < y.biased ∨ x.biased = y.biased ∧ x.fraction < y.fraction

theorem fraction_lt (x : Binary64) : x.fraction < twoTo 52 := Nat.mod_lt _ (twoTo_pos 52)

theorem significand_cases (x : Binary64) :
    x.biased = 0 ∧ x.significand = x.fraction ∨ 0 < x.biased ∧ x.significand = twoTo 52 + x.fraction := by
  unfold significand
  split
  · exact .inl ⟨‹_›, rfl⟩
  · exact .inr ⟨Nat.pos_of_ne_zero ‹_›, rfl⟩

-- Below the least significand the numbers lie closer together, except where there is no lesser exponent.
theorem below_cases (x : Binary64) :
    (x.significand = twoTo 52 ∧ 1 < x.biased) ∧ x.below = 1 ∨
      ¬ (x.significand = twoTo 52 ∧ 1 < x.biased) ∧ x.below = 2 := by
  unfold below
  split
  · exact .inl ⟨‹_›, rfl⟩
  · exact .inr ⟨‹_›, rfl⟩

-- In quarters of the lesser unit the end of the one interval is at most the beginning of the other. They are the same
-- for neighbours only, of whose significands one is odd.
theorem Precedes.quarters (h : x.Precedes y) :
    ∃ k : Nat, y.unit = 2 ^ k * x.unit ∧
      4 * x.significand + 2 ≤ (4 * y.significand - y.below) * 2 ^ k ∧
      (4 * x.significand + 2 = (4 * y.significand - y.below) * 2 ^ k →
        ¬ (x.significand % 2 = 0 ∧ y.significand % 2 = 0)) := by
  have hxfraction := x.fraction_lt
  have hyfraction := y.fraction_lt
  have hbelow := y.below_cases
  have hxsignificand := x.significand_cases
  have hysignificand := y.significand_cases
  have h52 : twoTo 52 = 4503599627370496 := rfl
  have hunit : ∀ k : Nat, y.exponent = x.exponent + k → y.unit = 2 ^ k * x.unit := by
    intro k hk
    rw [unit, hk, zpow_add₀ two_ne_zero, zpow_natCast, mul_comm, unit]
  unfold Precedes at h
  rw [h52] at hxfraction hyfraction hbelow hxsignificand hysignificand
  by_cases hexponent : y.exponent = x.exponent
  · refine ⟨0, hunit 0 (by omega), ?_⟩
    unfold exponent at hexponent
    rw [pow_zero, Nat.mul_one]
    constructor <;> omega
  · obtain ⟨k, hk⟩ : ∃ k : Nat, y.exponent = x.exponent + (k + 1 : ℕ) := by
      unfold exponent at hexponent ⊢
      exact ⟨((max y.biased 1 : ℕ) - (max x.biased 1 : ℕ) - 1 : ℕ), by omega⟩
    refine ⟨k + 1, hunit _ hk, ?_⟩
    have htwice : 2 * (4 * y.significand - y.below) ≤ (4 * y.significand - y.below) * 2 ^ (k + 1) := by
      rw [Nat.mul_comm 2, pow_succ']
      exact Nat.mul_le_mul_left _ (Nat.le_mul_of_pos_right 2 (by positivity))
    unfold exponent at hk
    constructor <;> omega

theorem Precedes.ends (h : x.Precedes y) :
    x.highEnd ≤ y.lowEnd ∧ (x.highEnd = y.lowEnd → ¬ (x.significand % 2 = 0 ∧ y.significand % 2 = 0)) := by
  obtain ⟨k, hunit, hle, hodd⟩ := h.quarters
  have hquarters : y.lowEnd = ((4 * y.significand - y.below) * 2 ^ k : ℕ) / 4 * x.unit := by
    rw [lowEnd, hunit]
    push_cast
    ring
  have hpos := x.unit_pos
  rw [hquarters, highEnd]
  refine ⟨by gcongr, fun hends => hodd ?_⟩
  rw [mul_left_inj' hpos.ne', div_left_inj' four_ne_zero] at hends
  exact_mod_cast hends

theorem RoundsTo.le_highEnd (h : x.RoundsTo q) : q ≤ x.highEnd := by
  unfold RoundsTo at h
  split at h
  · exact h.2
  · exact h.2.le

theorem RoundsTo.lowEnd_le (h : x.RoundsTo q) : x.lowEnd ≤ q := by
  unfold RoundsTo at h
  split at h
  · exact h.1
  · exact h.1.le

theorem RoundsTo.not_precedes (hx : x.RoundsTo q) (hy : y.RoundsTo q) : ¬ x.Precedes y := by
  intro h
  obtain ⟨hle, hodd⟩ := h.ends
  have hhigh := hx.le_highEnd
  have hlow := hy.lowEnd_le
  have hends := le_antisymm hle (hlow.trans hhigh)
  unfold RoundsTo at hx hy
  by_cases hxeven : x.significand % 2 = 0
  · rw [if_neg fun hyeven => hodd hends ⟨hxeven, hyeven⟩] at hy
    exact absurd (hy.1.trans_le hhigh) (hends ▸ lt_irrefl _)
  · rw [if_neg hxeven] at hx
    exact absurd (hlow.trans_lt hx.2) (hends ▸ lt_irrefl _)

-- No rational number rounds to two numbers of one sign.
theorem eq_of_roundsTo (hx : x.RoundsTo q) (hy : y.RoundsTo q) (hsign : x.isNegative = y.isNegative) : x = y := by
  have hxy := hx.not_precedes hy
  have hyx := hy.not_precedes hx
  have hbits : x.bits.toNat = y.bits.toNat := by
    have hxbits : x.bits.toNat < 2 ^ 64 := x.bits.toNat_lt
    have hybits : y.bits.toNat < 2 ^ 64 := y.bits.toNat_lt
    have hsign' : twoTo 63 ≤ x.bits.toNat ↔ twoTo 63 ≤ y.bits.toNat := by simpa [isNegative] using hsign
    have h63 : twoTo 63 = 9223372036854775808 := rfl
    have h52 : twoTo 52 = 4503599627370496 := rfl
    unfold Precedes biased fraction at hxy hyx
    rw [h63] at hsign'
    rw [h52] at hxy hyx
    omega
  cases x
  cases y
  exact congrArg mk (UInt64.toNat_inj.mp hbits)

end Binary64

end ShapeScribe
