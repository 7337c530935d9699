import ShapeScribe.Number.Power

/-!
Binary64 numbers by their bit patterns, and the exact value of each as an integer times a power of two.
Rounding a quotient goes to the nearest number, a tie to the even one; nothing here computes in floating point.
-/

namespace ShapeScribe

structure Binary64 where
  bits : UInt64
  deriving DecidableEq, Inhabited

namespace Binary64

def isNegative (x : Binary64) : Bool := twoTo 63 ≤ x.bits.toNat

-- The eleven exponent bits, as stored.
def biased (x : Binary64) : Nat := x.bits.toNat / twoTo 52 % 2048

def fraction (x : Binary64) : Nat := x.bits.toNat % twoTo 52

def isFinite (x : Binary64) : Bool := x.biased != 2047

def isNaN (x : Binary64) : Bool := x.biased == 2047 && x.fraction != 0

-- A finite number is its significand times two to its exponent, up to the sign.
def significand (x : Binary64) : Nat :=
  if x.biased = 0 then x.fraction else twoTo 52 + x.fraction

def exponent (x : Binary64) : Int := max x.biased 1 - 1075

def isZero (x : Binary64) : Bool := x.isFinite && x.significand == 0

def ofMagnitude (negative : Bool) (magnitude : Nat) : Binary64 :=
  ⟨UInt64.ofNat (if negative then twoTo 63 + magnitude else magnitude)⟩

def zero (negative : Bool) : Binary64 := ofMagnitude negative 0

def infinity (negative : Bool) : Binary64 := ofMagnitude negative (2047 * twoTo 52)

def nan : Binary64 := ofMagnitude false (2047 * twoTo 52 + twoTo 51)

-- The quotient of two naturals divided by two to a (possibly negative) power.
def scaled (num den : Nat) (power : Int) : Nat × Nat :=
  if 0 ≤ power then (num, den * twoTo power.toNat) else (num * twoTo (-power).toNat, den)

def roundDiv (num den : Nat) : Nat :=
  let quotient := num / den
  let twice := 2 * (num % den)
  if den < twice ∨ (twice = den ∧ quotient % 2 = 1) then quotient + 1 else quotient

-- The number nearest to `num / den`. The power of two is chosen so that the rounded significand has
-- fifty-three bits, or fewer below the smallest normal number; a carry out of the significand moves
-- into the exponent bits by itself, because the two fields are adjacent.
def nearest (negative : Bool) (num den : Nat) : Binary64 :=
  if num = 0 then zero negative
  else
    let low : Int := (num.log2 : Int) - den.log2 - 53
    let (n, d) := scaled num den low
    let power : Int := max (if twoTo 53 ≤ n / d then low + 1 else low) (-1074)
    let (n, d) := scaled num den power
    let magnitude := (power + 1074).toNat * twoTo 52 + roundDiv n d
    ofMagnitude negative (min magnitude (2047 * twoTo 52))

-- The number nearest to `digits · 10^power`. Beyond the two bounds the answer is known without
-- computing the power of ten.
def ofDecimal (negative : Bool) (digits : Nat) (power : Int) : Binary64 :=
  if digits = 0 then zero negative
  else if 400 < power then infinity negative
  else if power < -(digits.log2 : Int) - 400 then zero negative
  else if 0 ≤ power then nearest negative (digits * tenTo power.toNat) 1
  else nearest negative digits (tenTo (-power).toNat)

def ofInt (n : Int) : Binary64 := nearest (n < 0) n.natAbs 1

-- The value as a numerator over a denominator; an infinity is its sign over zero.
def ratio (x : Binary64) : Int × Nat :=
  let (top, bottom) :=
    if x.isFinite then (x.significand * twoTo x.exponent.toNat, twoTo (-x.exponent).toNat) else (1, 0)
  (if x.isNegative then -top else top, bottom)

-- The integer that a finite number without fractional part equals.
def toInt? (x : Binary64) : Option Int :=
  let (n, d) := x.ratio
  if d ≠ 0 ∧ n % d = 0 then some (n / d) else none

end Binary64

-- Order of ratios. Two infinities, whose cross products are zero, compare by their signs.
def compareRatios (x y : Int × Nat) : Ordering :=
  (compare (x.1 * y.2) (y.1 * x.2)).then (if x.2 = 0 ∧ y.2 = 0 then compare x.1 y.1 else .eq)

end ShapeScribe
