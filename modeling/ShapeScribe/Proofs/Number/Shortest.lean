import ShapeScribe.Proofs.Number.Interval

/-!
The shortest decimal of a binary64 number lies in the rounding interval of the number: whatever grid is settled on has a
neighbour inside, and seventeen digits are always enough, because the widest gap between decimals of so many digits is
narrower than the interval.
-/

namespace ShapeScribe

-- What the digits of a decimal amount to.
def Decimal.value (d : Decimal) : ℚ := d.digits * 10 ^ d.power

theorem Decimal.value_eq_div (d : Decimal) :
    d.value = (d.digits * tenTo d.power.toNat : ℕ) / (tenTo (-d.power).toNat : ℕ) := by
  rw [value, zpow_eq_div]
  push_cast [cast_tenTo]
  ring

namespace Binary64

variable {x : Binary64} {q : ℚ}

theorem value_dropZeros (n : Nat) (d : Decimal) : (dropZeros n d).value = d.value := by
  induction n generalizing d with
  | zero => rfl
  | succ n ih =>
      rw [dropZeros]
      split
      · rename_i hdigits
        have hten : d.digits = 10 * (d.digits / 10) := by omega
        rw [ih, Decimal.value, Decimal.value, zpow_add_one₀ (by norm_num)]
        conv_rhs => rw [hten]
        push_cast
        ring
      · rfl

-- The absolute value.
def size (x : Binary64) : ℚ := x.significand * x.unit

theorem size_eq_div (x : Binary64) : x.size = x.interval.value / x.interval.den := by
  rw [size, unit, zpow_eq_div, interval]
  push_cast [cast_twoTo]
  field_simp

theorem den_pos (x : Binary64) : 0 < x.interval.den := by
  have := twoTo_pos (-x.exponent).toNat
  simp only [interval]
  omega

theorem lowEnd_le_size (x : Binary64) : x.lowEnd ≤ x.size := by
  have hquarters : ((4 * x.significand - x.below : ℕ) : ℚ) ≤ (4 * x.significand : ℕ) := by
    exact_mod_cast Nat.sub_le _ _
  have hpos := x.unit_pos
  push_cast at hquarters
  rw [lowEnd, size]
  gcongr
  linarith

theorem size_lt_highEnd (x : Binary64) : x.size < x.highEnd := by
  have hpos := x.unit_pos
  rw [highEnd, size]
  gcongr
  push_cast
  linarith

theorem le_lowEnd_of_not_roundsTo (h : ¬ x.RoundsTo q) (hq : q < x.highEnd) : q ≤ x.lowEnd := by
  by_contra hlow
  rw [not_le] at hlow
  refine h ?_
  unfold RoundsTo
  split
  · exact ⟨hlow.le, hq.le⟩
  · exact ⟨hlow, hq⟩

theorem highEnd_le_of_not_roundsTo (h : ¬ x.RoundsTo q) (hq : x.lowEnd < q) : x.highEnd ≤ q := by
  by_contra hhigh
  rw [not_le] at hhigh
  refine h ?_
  unfold RoundsTo
  split
  · exact ⟨hq.le, hhigh.le⟩
  · exact ⟨hq, hhigh⟩

theorem holds_iff_roundsTo (d : Nat) (power : Int) :
    x.interval.holds (d * tenTo power.toNat) (tenTo (-power).toNat) = true ↔ x.RoundsTo (d * 10 ^ power) := by
  rw [interval_holds_iff (tenTo_pos _), ← Decimal.value_eq_div ⟨d, power⟩, Decimal.value]

theorem roundsTo_of_onGrid {power : Int} {d : Nat} (h : onGrid x.interval power = some d) :
    x.RoundsTo (d * 10 ^ power) := by
  rw [← holds_iff_roundsTo]
  unfold onGrid at h
  dsimp only at h
  split at h
  · cases h
  · cases h
    assumption
  · cases h
    assumption
  · split at h
    · cases h
      assumption
    · cases h
      assumption

-- Which points of a grid the value lies between.
theorem size_between (x : Binary64) (power : Int) :
    ((x.interval.value * tenTo (-power).toNat / (x.interval.den * tenTo power.toNat) : ℕ) : ℚ) * 10 ^ power ≤ x.size ∧
      x.size < ((x.interval.value * tenTo (-power).toNat / (x.interval.den * tenTo power.toNat) + 1 : ℕ) : ℚ) *
        10 ^ power := by
  have hden := x.den_pos
  have hup := tenTo_pos power.toNat
  have hdown := tenTo_pos (-power).toNat
  have hscale : (10 : ℚ) ^ power = tenTo power.toNat / tenTo (-power).toNat := by
    rw [zpow_eq_div, cast_tenTo, cast_tenTo]
  have hsteps : ∀ n : Nat, (n : ℚ) * 10 ^ power =
      (n * (x.interval.den * tenTo power.toNat) : ℕ) / (x.interval.den * tenTo (-power).toNat : ℕ) := by
    intro n
    rw [hscale]
    push_cast
    field_simp
  have hsize : x.size = (x.interval.value * tenTo (-power).toNat : ℕ) / (x.interval.den * tenTo (-power).toNat : ℕ) := by
    rw [size_eq_div]
    push_cast
    field_simp
  have hpos : (0 : ℚ) < (x.interval.den * tenTo (-power).toNat : ℕ) := by exact_mod_cast Nat.mul_pos hden hdown
  rw [hsteps, hsteps, hsize]
  constructor
  · rw [div_le_div_iff_of_pos_right hpos, Nat.cast_le]
    exact Nat.div_mul_le_self _ _
  · rw [div_lt_div_iff_of_pos_right hpos, Nat.cast_lt, Nat.mul_comm (_ + 1)]
    exact Nat.lt_mul_div_succ _ (Nat.mul_pos hden hup)

-- A grid that is finer than the interval is wide has a point in it.
theorem exists_onGrid {power : Int} (hgap : (10 : ℚ) ^ power < x.highEnd - x.lowEnd) :
    ∃ d, onGrid x.interval power = some d := by
  obtain ⟨hfloor, hnext⟩ := x.size_between power
  unfold onGrid
  dsimp only
  split
  · rename_i hfloorout hnextout
    rw [← Bool.not_eq_true, holds_iff_roundsTo] at hfloorout hnextout
    have hlow := le_lowEnd_of_not_roundsTo hfloorout (hfloor.trans_lt x.size_lt_highEnd)
    have hhigh := highEnd_le_of_not_roundsTo hnextout (x.lowEnd_le_size.trans_lt hnext)
    push_cast at hhigh
    linarith
  · exact ⟨_, rfl⟩
  · exact ⟨_, rfl⟩
  · split
    · exact ⟨_, rfl⟩
    · exact ⟨_, rfl⟩

theorem tenTo_le_succ (n : Nat) : tenTo n ≤ tenTo (n + 1) := Nat.pow_le_pow_right (by decide) (Nat.le_succ n)

theorem ten_pow_le {n k : Nat} (hn : 0 < n) (hk : k < (Nat.toDigits 10 n).length) : 10 ^ k ≤ n := by
  cases k with
  | zero => exact hn
  | succ k =>
      have hlonger := (Nat.length_toDigits_le_iff (n := n) (by decide) (Nat.succ_pos k)).not.mp (not_le.mpr hk)
      exact not_lt.mp hlonger

theorem ten_zpow_le_of_le_mul {num den k : Nat} (hden : 0 < den) (hk : den ≤ num * tenTo (k + 1)) :
    (10 : ℚ) ^ (-(k : ℤ) - 1) ≤ num / den := by
  have hd : (0 : ℚ) < den := by exact_mod_cast hden
  have hten : (0 : ℚ) < tenTo (k + 1) := by exact_mod_cast tenTo_pos _
  have hpower : (10 : ℚ) ^ (-(k : ℤ) - 1) = 1 / tenTo (k + 1) := by
    rw [cast_tenTo, show -(k : ℤ) - 1 = -((k + 1 : ℕ) : ℤ) by omega, zpow_neg, zpow_natCast, one_div]
  rw [hpower, div_le_div_iff₀ hten hd, one_mul]
  exact_mod_cast hk

-- A power of ten that the quotient does not fall below.
theorem le_of_magnitude {num den : Nat} (hden : 0 < den) (hleast : den ≤ num * tenTo 330) :
    (10 : ℚ) ^ (magnitude num den - 1) ≤ num / den := by
  have hd : (0 : ℚ) < den := by exact_mod_cast hden
  unfold magnitude
  split
  · rename_i hle
    obtain ⟨k, hk⟩ : ∃ k, (Nat.toDigits 10 (num / den)).length = k + 1 :=
      ⟨_, (Nat.sub_add_cancel Nat.length_toDigits_pos).symm⟩
    have hdigits : 10 ^ k ≤ num / den := ten_pow_le (Nat.div_pos hle hden) (hk ▸ Nat.lt_succ_self k)
    have hpower : (10 : ℚ) ^ (((k + 1 : ℕ) : ℤ) - 1) = (10 ^ k : ℕ) := by
      rw [Nat.cast_succ, add_sub_cancel_right, zpow_natCast, Nat.cast_pow]
      rfl
    rw [hk, hpower, le_div_iff₀ hd]
    exact_mod_cast (Nat.mul_le_mul_right den hdigits).trans (Nat.div_mul_le_self num den)
  · split
    · rename_i zeros hfind
      have hzeros := List.find?_some hfind
      exact ten_zpow_le_of_le_mul hden (of_decide_eq_true hzeros)
    · exact ten_zpow_le_of_le_mul hden (hleast.trans (Nat.mul_le_mul_left _ (tenTo_le_succ 330)))

theorem significand_lt (x : Binary64) : x.significand < 2 ^ 53 := by
  have hfraction := x.fraction_lt
  have hsignificand := x.significand_cases
  have h52 : twoTo 52 = 2 ^ 52 := rfl
  omega

theorem twoTo_le_twoTo {m n : Nat} (h : m ≤ n) : twoTo m ≤ twoTo n := Nat.pow_le_pow_right (by decide) h

theorem twoTo_le_tenTo (n : Nat) : twoTo (36 * n) ≤ tenTo (11 * n) :=
  calc 2 ^ (36 * n) = (2 ^ 36) ^ n := pow_mul 2 36 n
    _ ≤ (10 ^ 11) ^ n := Nat.pow_le_pow_left (by decide) n
    _ = 10 ^ (11 * n) := (pow_mul 10 11 n).symm

-- No number but zero is smaller than the least power that is looked for.
theorem den_le (hx : 0 < x.significand) : x.interval.den ≤ x.interval.value * tenTo 330 := by
  have hexponent : (-x.exponent).toNat ≤ 36 * 30 := by
    unfold exponent
    omega
  have hden : twoTo (-x.exponent).toNat ≤ tenTo 330 := (twoTo_le_twoTo hexponent).trans (twoTo_le_tenTo 30)
  have hvalue : 4 ≤ x.interval.value := by
    have hup := twoTo_pos x.exponent.toNat
    exact Nat.le_mul_of_pos_right 4 (Nat.mul_pos hx hup) |>.trans_eq (Nat.mul_assoc _ _ _).symm
  exact (Nat.mul_le_mul_left 4 hden).trans (Nat.mul_le_mul_right _ hvalue)

-- Between decimals of seventeen digits there is less room than in the interval.
theorem gap_lt (hx : 0 < x.significand) :
    (10 : ℚ) ^ (magnitude x.interval.value x.interval.den - 17) < x.highEnd - x.lowEnd := by
  have hpos := x.unit_pos
  have hsize := le_of_magnitude x.den_pos (den_le hx)
  rw [← size_eq_div, size] at hsize
  generalize magnitude x.interval.value x.interval.den = top at hsize ⊢
  have hgap : (10 : ℚ) ^ (top - 17) * 10 ^ 16 ≤ x.significand * x.unit := by
    rw [← zpow_natCast, ← zpow_add₀ (by norm_num)]
    calc (10 : ℚ) ^ (top - 17 + (16 : ℕ)) = 10 ^ (top - 1) := by congr 1; omega
      _ ≤ x.significand * x.unit := hsize
  have hcases := x.below_cases
  have hwidth : x.highEnd - x.lowEnd = (2 + x.below) / 4 * x.unit := by
    have hbelow : x.below ≤ 4 * x.significand := by omega
    rw [highEnd, lowEnd, Nat.cast_sub hbelow]
    push_cast
    ring
  rw [hwidth]
  rcases hcases with ⟨⟨hleast, _⟩, hbelow⟩ | ⟨_, hbelow⟩
  · have h52 : (x.significand : ℚ) = 2 ^ 52 := by rw [hleast, cast_twoTo]
    rw [h52] at hgap
    rw [hbelow]
    push_cast
    nlinarith
  · have h53 : (x.significand : ℚ) < 2 ^ 53 := by exact_mod_cast x.significand_lt
    rw [hbelow]
    push_cast
    nlinarith

-- The digits that are written belong to the number, and to no other one.
theorem roundsTo_shortest (hx : 0 < x.significand) : x.RoundsTo x.shortest.value := by
  obtain ⟨last, hlast⟩ := exists_onGrid (gap_lt hx)
  rw [shortest, value_dropZeros]
  cases hfound : (List.range 17).findSome? fun (n : Nat) =>
      (onGrid x.interval (magnitude x.interval.value x.interval.den - (n + 1))).map fun digits =>
        (⟨digits, magnitude x.interval.value x.interval.den - (n + 1)⟩ : Decimal) with
  | none =>
      have hnone := List.findSome?_eq_none_iff.mp hfound 16 (by decide)
      rw [Option.map_eq_none_iff] at hnone
      cases hlast.symm.trans hnone
  | some d =>
      obtain ⟨n, _, hn⟩ := List.exists_of_findSome?_eq_some hfound
      obtain ⟨digits, hdigits, rfl⟩ := Option.map_eq_some_iff.mp hn
      exact roundsTo_of_onGrid hdigits

theorem roundsTo_zero (hx : x.significand = 0) : x.RoundsTo 0 := by
  have hpos := x.unit_pos
  rw [RoundsTo, lowEnd, highEnd, hx]
  constructor
  · simp
  · positivity

end Binary64

end ShapeScribe
