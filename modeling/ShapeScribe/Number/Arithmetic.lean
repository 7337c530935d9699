import ShapeScribe.Number.Binary64

/-!
Sums and products of binary64 numbers: the exact result, rounded to the nearest number.
-/

namespace ShapeScribe.Binary64

def ofRatio (n : Int) (d : Nat) : Binary64 := nearest (n < 0) n.natAbs d

def negated (x : Binary64) : Binary64 := ⟨x.bits ^^^ 0x8000000000000000⟩

-- An infinity times zero is not a number.
def times (x y : Binary64) : Binary64 :=
  let negative := x.isNegative != y.isNegative
  if x.isNaN || y.isNaN then nan
  else if x.isFinite && y.isFinite then
    let (n, d) := x.ratio
    let (m, e) := y.ratio
    nearest negative (n * m).natAbs (d * e)
  else if x.isZero || y.isZero then nan
  else infinity negative

-- Two infinities of different signs have no sum. A sum of zero is negative only if both terms are.
def plus (x y : Binary64) : Binary64 :=
  if x.isNaN || y.isNaN then nan
  else if x.isFinite && y.isFinite then
    let (n, d) := x.ratio
    let (m, e) := y.ratio
    let sum := n * e + m * d
    if sum = 0 then zero (x.isNegative && y.isNegative) else ofRatio sum (d * e)
  else if x.isFinite then y
  else if y.isFinite || x = y then x
  else nan

end ShapeScribe.Binary64
