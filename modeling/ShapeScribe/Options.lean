/-!
What steers inference. None of the numbers is restricted: a negative sample limit cuts elements off the
end, a guard of zero or less refuses every container, and a window of zero or less keeps nothing.
-/

namespace ShapeScribe

structure Options where
  maxArraySamples : Int := 100
  analyzeAllArrayElements : Bool := true
  detectDates : Bool := true
  maxDepth : Int := 64
  windowSize : Int := 10
  deriving DecidableEq, Repr

namespace Options

-- The first `limit` elements, or all but the last `-limit`.
def takeSigned (limit : Int) (xs : List α) : List α :=
  if 0 ≤ limit then xs.take limit.toNat else xs.take (xs.length - (-limit).toNat)

-- The elements of an array that are looked at.
def sampled (o : Options) (xs : List α) : List α :=
  if o.analyzeAllArrayElements then xs else takeSigned o.maxArraySamples xs

-- How many more containers may be entered below `depth` of them.
def room (o : Options) (depth : Int) : Nat := (o.maxDepth - depth).toNat

end Options

end ShapeScribe
