import ShapeScribe.Calendar.Moment
import ShapeScribe.Yaml.Misfit
import ShapeScribe.Yaml.Tag

/-!
Dates and moments as a document writes them: months, days and hours in one digit or two, blanks in front of the
time and of the offset.
-/

namespace ShapeScribe.Yaml

structure Stamp.Clock where
  time : TimeOfDay
  microsecond : Nat
  offsetMinutes : Option Int

structure Stamp where
  date : Date
  clock : Option Stamp.Clock

namespace Stamp

open ShapeScribe.Literal ShapeScribe.DateText

def shortField? (cs : List Char) : Option (Nat × List Char) :=
  match cs with
  | a :: b :: rest =>
    if isDigit a && isDigit b then some (natOfDigits [a, b], rest)
    else if isDigit a then some (digitValue a, b :: rest)
    else none
  | [a] => if isDigit a then some (digitValue a, []) else none
  | [] => none

def isBlank (c : Char) : Bool := c == ' ' || c == '\t'

-- Digits of a second, the first six of which count.
def microseconds (digits : List Char) : Nat :=
  let six := digits.take 6
  natOfDigits (six ++ List.replicate (6 - six.length) '0')

def fraction (cs : List Char) : Nat × List Char :=
  match cs with
  | '.' :: rest => (microseconds (rest.takeWhile isDigit), rest.dropWhile isDigit)
  | _ => (0, cs)

def offset? (cs : List Char) : Option (Option Int) :=
  if cs.isEmpty then some none
  else
    match cs.dropWhile isBlank with
    | ['Z'] => some (some 0)
    | sign :: rest =>
      if sign == '+' || sign == '-' then do
        let (hours, rest) ← shortField? rest
        let (minutes, rest) ← if rest.isEmpty then some (0, []) else (mark ':' rest).bind (field 2)
        if !rest.isEmpty then none
        let total : Int := hours * 60 + minutes
        return some (if sign == '-' then -total else total)
      else none
    | [] => none

def clock? (cs : List Char) : Option Clock := do
  let (hour, cs) ← shortField? cs
  let cs ← mark ':' cs
  let (minute, cs) ← field 2 cs
  let cs ← mark ':' cs
  let (second, cs) ← field 2 cs
  let (microsecond, cs) := fraction cs
  let offsetMinutes ← offset? cs
  return ⟨⟨hour, minute, second⟩, microsecond, offsetMinutes⟩

-- What stands between the date and the time: the letter T, or blanks.
def behindSeparator? : List Char → Option (List Char)
  | c :: rest =>
    if c == 'T' || c == 't' then some rest
    else if isBlank c then some (rest.dropWhile isBlank)
    else none
  | [] => none

def ofChars? (cs : List Char) : Option Stamp := do
  let (year, cs) ← field 4 (Tag.withoutFinalBreak cs)
  let cs ← mark '-' cs
  let (month, cs) ← shortField? cs
  let cs ← mark '-' cs
  let (day, cs) ← shortField? cs
  let date : Date := ⟨year, month, day⟩
  if cs.isEmpty then return ⟨date, none⟩
  let cs ← behindSeparator? cs
  let clock ← clock? cs
  return ⟨date, some clock⟩

-- A plain scalar is a date only with all ten characters, or with a time behind it.
def isImplied (cs : List Char) : Bool :=
  match ofChars? cs with
  | some stamp => stamp.clock.isSome || (Tag.withoutFinalBreak cs).length == 10
  | none => false

def dateMisfit? (d : Date) : Option Misfit :=
  if d.year = 0 then some (.year d.year)
  else if d.month < 1 ∨ 12 < d.month then some .month
  else if d.day < 1 ∨ Date.daysInMonth d.year d.month < d.day then some .day
  else none

def timeMisfit? (t : TimeOfDay) : Option Misfit :=
  if 24 ≤ t.hour then some .hour
  else if 60 ≤ t.minute then some .minute
  else if 60 ≤ t.second then some .second
  else none

-- An offset is less than a day either way.
def offsetMisfit? (offset : Option Int) : Option Misfit :=
  offset.bind fun minutes => if minutes.natAbs < 1440 then none else some (.offset minutes)

def misfit? (s : Stamp) : Option Misfit :=
  match s.clock with
  | none => dateMisfit? s.date
  | some clock => offsetMisfit? clock.offsetMinutes <|> dateMisfit? s.date <|> timeMisfit? clock.time

def moment (s : Stamp) : Except Misfit Moment :=
  match s.misfit?, s.clock with
  | some m, _ => .error m
  | none, none => .ok (.midnight s.date)
  | none, some clock => .ok ⟨s.date, clock.time, clock.microsecond, clock.offsetMinutes⟩

end Stamp

end ShapeScribe.Yaml
