import ShapeScribe.Calendar.DateText
import ShapeScribe.Number.Arithmetic

/-!
Moments: a date and a time of day with microseconds, and the offset from universal time when it is known. What
is read may also lie in the year zero, which is no year of the calendar.
-/

namespace ShapeScribe

structure Moment where
  date : Date
  time : TimeOfDay
  microsecond : Nat
  offsetMinutes : Option Int
  deriving DecidableEq, Repr

namespace Moment

def midnight (date : Date) : Moment := ⟨date, ⟨0, 0, 0⟩, 0, none⟩

def isInCalendar (m : Moment) : Bool := 1 ≤ m.date.year

def digits (width n : Nat) : String :=
  let cs := Nat.toDigits 10 n
  String.ofList (List.replicate (width - cs.length) '0' ++ cs)

def offsetText : Int → String
  | 0 => "Z"
  | minutes =>
    (if minutes < 0 then "-" else "+") ++ digits 2 (minutes.natAbs / 60) ++ ":" ++ digits 2 (minutes.natAbs % 60)

-- The microseconds show only when there are any.
def text (m : Moment) : String :=
  digits 4 m.date.year ++ "-" ++ digits 2 m.date.month ++ "-" ++ digits 2 m.date.day ++ "T" ++
    digits 2 m.time.hour ++ ":" ++ digits 2 m.time.minute ++ ":" ++ digits 2 m.time.second ++
    (if m.microsecond = 0 then "" else "." ++ digits 6 m.microsecond) ++
    (m.offsetMinutes.map offsetText).getD ""

-- The date so many days after the first of January 1970, counted in eras of four hundred years that
-- start with March.
def dateOfDays (days : Int) : Date :=
  let shifted := days + 719468
  let era := shifted.fdiv 146097
  let dayOfEra := (shifted - era * 146097).toNat
  let yearOfEra := (dayOfEra - dayOfEra / 1460 + dayOfEra / 36524 - dayOfEra / 146096) / 365
  let dayOfYear := dayOfEra - (365 * yearOfEra + yearOfEra / 4 - yearOfEra / 100)
  let shiftedMonth := (5 * dayOfYear + 2) / 153
  let month := if shiftedMonth < 10 then shiftedMonth + 3 else shiftedMonth - 9
  let year := era * 400 + yearOfEra + (if month ≤ 2 then 1 else 0)
  ⟨year.toNat, month, dayOfYear - (153 * shiftedMonth + 2) / 5 + 1⟩

-- The seconds since the first of January 1970 that years 0 to 9999 cover.
def firstSecond : Int := -62167219200
def lastSecond : Int := 253402300799

-- A count of this size or less is in seconds, a larger one in milliseconds.
def secondsLimit : Nat := 20000000000

-- The moment so many seconds and microseconds after the first of January 1970.
def ofSeconds? (second : Int) (microsecond : Nat) : Option Moment :=
  let second := second + microsecond / 1000000
  if firstSecond ≤ second ∧ second ≤ lastSecond then
    let ofDay := (second.fmod 86400).toNat
    let time : TimeOfDay := ⟨ofDay / 3600, ofDay / 60 % 60, ofDay % 60⟩
    some ⟨dateOfDays (second.fdiv 86400), time, microsecond % 1000000, some 0⟩
  else none

def ofCount? (count : Int) : Option Moment :=
  if count.natAbs ≤ secondsLimit then ofSeconds? count 0
  else ofSeconds? (count.fdiv 1000) ((count.fmod 1000).toNat * 1000)

-- The whole part of the seconds rounds down. The rest in microseconds rounds to the nearest, half a one up; all
-- steps before that are of binary64 numbers.
def ofDecimal? (x : Binary64) : Option Moment :=
  if !x.isFinite then none
  else
    let (n, d) := x.ratio
    let (n, d) := if n.natAbs ≤ secondsLimit * d then (n, d) else (Binary64.ofRatio n (d * 1000)).ratio
    let second := n.fdiv d
    let (n, d) := (Binary64.ofRatio (n - second * d) d).ratio
    let (n, d) := (Binary64.ofRatio (n * 1000000) d).ratio
    ofSeconds? second ((2 * n.natAbs + d) / (2 * d))

open DateText Literal

-- Digits of a second, the first six of which count.
def fraction? : List Char → Option (Nat × List Char)
  | c :: rest =>
    if c = '.' ∨ c = ',' then
      let (ds, rest) := spanDigits rest
      if ds.isEmpty then none
      else
        let six := ds.take 6
        some (natOfDigits (six ++ List.replicate (6 - six.length) '0'), rest)
    else some (0, c :: rest)
  | [] => some (0, [])

-- Hours and minutes, with seconds if a colon follows.
def clock? (cs : List Char) : Option ((TimeOfDay × Nat) × List Char) := do
  let (hour, cs) ← field 2 cs
  let cs ← mark ':' cs
  let (minute, cs) ← field 2 cs
  match cs with
  | ':' :: cs =>
    let (second, cs) ← field 2 cs
    let (microsecond, cs) ← fraction? cs
    return ((⟨hour, minute, second⟩, microsecond), cs)
  | _ => return ((⟨hour, minute, 0⟩, 0), cs)

def offset? : List Char → Option (Option Int)
  | [] => some none
  | ['Z'] | ['z'] => some (some 0)
  | sign :: rest =>
    if sign = '+' ∨ sign = '-' ∨ sign = '−' then do
      let (hours, rest) ← field 2 rest
      let rest := match rest with
        | ':' :: rest => rest
        | rest => rest
      let (minutes, rest) ← field 2 rest
      if 60 ≤ minutes ∨ 24 ≤ hours ∨ !rest.isEmpty then none
      else
        let total : Int := hours * 60 + minutes
        return some (if sign = '+' then total else -total)
    else none

def isSeparator (c : Char) : Bool := c == 'T' || c == 't' || c == ' ' || c == '_'

def dateAndTime? (cs : List Char) : Option Moment := do
  let (date, rest) ← date? cs
  match rest with
  | separator :: rest =>
    let ((time, microsecond), rest) ← clock? rest
    let offset ← offset? rest
    if isSeparator separator && decide date.InYear && decide time.Valid then
      return ⟨date, time, microsecond, offset⟩
    else none
  | [] => none

def count? (cs : List Char) : Option Moment :=
  let (negative, body) := spanSign cs
  match nat? body with
  | some n => ofCount? (if negative then -n else n)
  | none =>
    match unsigned? body with
    | some (digits, power) =>
      if body.contains '.' then ofDecimal? (.ofDecimal negative digits power) else none
    | none => none

def dateAlone? (cs : List Char) : Option Moment :=
  match date? cs with
  | some (date, []) => if date.InYear then some (midnight date) else none
  | _ => none

-- A date with a time, a count of seconds or milliseconds, or a date alone.
def ofText? (text : String) : Option Moment :=
  let cs := text.toList
  dateAndTime? cs <|> count? cs <|> dateAlone? cs

end Moment

end ShapeScribe
