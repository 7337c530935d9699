import ShapeScribe.Calendar.Date
import ShapeScribe.Number.Literal

/-!
Dates and times of day as texts have them: fields of so many digits with marks between them. What they name need not
exist.
-/

namespace ShapeScribe.DateText

open ShapeScribe.Literal

-- A field of exactly `width` digits and what follows it.
def field (width : Nat) (cs : List Char) : Option (Nat × List Char) :=
  let digits := cs.take width
  if digits.length = width ∧ digits.all isDigit then some (natOfDigits digits, cs.drop width) else none

def mark (c : Char) : List Char → Option (List Char)
  | d :: rest => if d = c then some rest else none
  | [] => none

def date? (cs : List Char) : Option (Date × List Char) := do
  let (year, cs) ← field 4 cs
  let cs ← mark '-' cs
  let (month, cs) ← field 2 cs
  let cs ← mark '-' cs
  let (day, cs) ← field 2 cs
  return (⟨year, month, day⟩, cs)

def time? (cs : List Char) : Option (TimeOfDay × List Char) := do
  let (hour, cs) ← field 2 cs
  let cs ← mark ':' cs
  let (minute, cs) ← field 2 cs
  let cs ← mark ':' cs
  let (second, cs) ← field 2 cs
  return (⟨hour, minute, second⟩, cs)

end ShapeScribe.DateText
