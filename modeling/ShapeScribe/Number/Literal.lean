import ShapeScribe.Number.Binary64

/-!
Decimal literals: digits with an optional fraction and an optional exponent, each with at least one digit
where it stands, and at least one digit before the exponent.
-/

namespace ShapeScribe.Literal

def isDigit (c : Char) : Bool := '0' ≤ c && c ≤ '9'

def digitValue (c : Char) : Nat := c.toNat - 48

def natOfDigits (cs : List Char) : Nat := cs.foldl (fun n c => 10 * n + digitValue c) 0

def spanDigits (cs : List Char) : List Char × List Char := (cs.takeWhile isDigit, cs.dropWhile isDigit)

-- A leading sign, as "is negative", and what follows it.
def spanSign : List Char → Bool × List Char
  | '-' :: rest => (true, rest)
  | '+' :: rest => (false, rest)
  | rest => (false, rest)

def nat? (cs : List Char) : Option Nat :=
  if cs.isEmpty || !cs.all isDigit then none else some (natOfDigits cs)

def exponent? : List Char → Option Int
  | [] => some 0
  | c :: rest =>
    if c = 'e' ∨ c = 'E' then
      let (negative, digits) := spanSign rest
      (nat? digits).map fun n => if negative then -n else n
    else none

-- An unsigned literal as digits and the power of ten that they count.
def unsigned? (cs : List Char) : Option (Nat × Int) :=
  let (whole, rest) := spanDigits cs
  let (fraction, rest) := match rest with
    | '.' :: rest => spanDigits rest
    | _ => ([], rest)
  if whole.isEmpty && fraction.isEmpty then none
  else (exponent? rest).map fun e => (natOfDigits (whole ++ fraction), e - fraction.length)

-- A signed literal, or one of the words for an infinity or for what is not a number, in any case.
def binary64? (cs : List Char) : Option Binary64 :=
  let (negative, body) := spanSign cs
  let word := String.ofList (body.map Char.toLower)
  if word = "inf" ∨ word = "infinity" then some (.infinity negative)
  else if word = "nan" then some .nan
  else (unsigned? body).map fun (digits, power) => .ofDecimal negative digits power

end ShapeScribe.Literal
