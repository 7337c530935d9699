import ShapeScribe.Number.Binary64

/-!
The fewest decimal digits that read back as a given binary64 number, and the number's usual text. For one to
seventeen digits the two neighbours of the value on that decimal grid are tried in exact arithmetic; the first
grid with a neighbour inside the rounding interval gives the digits, and of two such neighbours the nearer one.
-/

namespace ShapeScribe

-- `digits · 10^power`
structure Decimal where
  digits : Nat
  power : Int
  deriving DecidableEq, Repr

namespace Binary64

-- A quotient of naturals times four, so that the ends of the rounding interval are whole.
structure Interval where
  low : Nat
  value : Nat
  high : Nat
  den : Nat
  closed : Bool

-- The reals that round to the number: halfway to each neighbour, ends included when the significand
-- is even. Just above a power of two the lower neighbour is half as far away.
def interval (x : Binary64) : Interval :=
  let m := x.significand
  let up := twoTo x.exponent.toNat
  let below := if m = twoTo 52 ∧ 1 < x.biased then 1 else 2
  { low := (4 * m - below) * up
    value := 4 * m * up
    high := (4 * m + 2) * up
    den := 4 * twoTo (-x.exponent).toNat
    closed := m % 2 == 0 }

def Interval.holds (i : Interval) (num den : Nat) : Bool :=
  if i.closed then i.low * den ≤ num * i.den && num * i.den ≤ i.high * den
  else i.low * den < num * i.den && num * i.den < i.high * den

-- The least `p` with `num / den < 10^p`, for a quotient below `10^310` and above `10^(-330)`.
def magnitude (num den : Nat) : Int :=
  if den ≤ num then (Nat.toDigits 10 (num / den)).length
  else
    match (List.range 330).find? fun k => den ≤ num * tenTo (k + 1) with
    | some zeros => -(zeros : Int)
    | none => -330

-- The grid neighbour to take at `10^power`, if one lies in the interval; a tie goes to the even digit.
def onGrid (i : Interval) (power : Int) : Option Nat :=
  let up := tenTo power.toNat
  let down := tenTo (-power).toNat
  let floor := i.value * down / (i.den * up)
  let inside (d : Nat) : Bool := i.holds (d * up) down
  match inside floor, inside (floor + 1) with
  | false, false => none
  | true, false => some floor
  | false, true => some (floor + 1)
  | true, true =>
    let twice := 2 * i.value * down
    let middle := (2 * floor + 1) * (i.den * up)
    if twice < middle ∨ (twice = middle ∧ floor % 2 = 0) then some floor else some (floor + 1)

def dropZeros : Nat → Decimal → Decimal
  | 0, d => d
  | n + 1, d => if d.digits % 10 = 0 ∧ d.digits ≠ 0 then dropZeros n ⟨d.digits / 10, d.power + 1⟩ else d

-- The shortest decimal of a finite number other than zero, without its sign.
def shortest (x : Binary64) : Decimal :=
  let i := x.interval
  let top := magnitude i.value i.den
  let found := (List.range 17).findSome? fun (n : Nat) =>
    (onGrid i (top - (n + 1))).map fun digits => (⟨digits, top - (n + 1)⟩ : Decimal)
  dropZeros 17 (found.getD ⟨i.value / i.den, 0⟩)

-- How a number is written: where positional notation ends on either side, the least number of digits
-- of an exponent, and the words for what has no digits.
structure Style where
  leastPositional : Int
  greatestPositional : Int
  exponentDigits : Nat
  nanText : String
  infinityText : String

def padded (width : Nat) (digits : List Char) : List Char :=
  List.replicate (width - digits.length) '0' ++ digits

-- Digits `d₁d₂…` with the point after the first `point` of them.
def positional (digits : List Char) (point : Int) : List Char :=
  if point ≤ 0 then '0' :: '.' :: List.replicate (-point).toNat '0' ++ digits
  else if digits.length ≤ point.toNat then
    digits ++ List.replicate (point.toNat - digits.length) '0' ++ ['.', '0']
  else digits.take point.toNat ++ '.' :: digits.drop point.toNat

def scientific (style : Style) (digits : List Char) (exponent : Int) : List Char :=
  let head := match digits with
    | [] => ['0']
    | [d] => [d]
    | d :: rest => d :: '.' :: rest
  head ++ 'e' :: (if exponent < 0 then '-' else '+') ::
    padded style.exponentDigits (Nat.toDigits 10 exponent.natAbs)

def written (style : Style) (x : Binary64) : String :=
  if x.isNaN then style.nanText
  else
    let body : List Char :=
      if ¬x.isFinite then style.infinityText.toList
      else if x.isZero then ['0', '.', '0']
      else
        let d := x.shortest
        let digits := Nat.toDigits 10 d.digits
        let exponent := d.power + digits.length - 1
        if style.leastPositional ≤ exponent ∧ exponent ≤ style.greatestPositional then
          positional digits (exponent + 1)
        else scientific style digits exponent
    String.ofList (if x.isNegative then '-' :: body else body)

end Binary64

end ShapeScribe
