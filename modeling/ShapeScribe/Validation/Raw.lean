import ShapeScribe.Calendar.Moment
import ShapeScribe.Json.Basic
import ShapeScribe.Number.Literal
import ShapeScribe.Text.Blank
import ShapeScribe.Validation.Issue

/-!
Lenient readings of raw field values: numbers out of texts and truth values, integers out of whole numbers,
truth values out of words.
-/

namespace ShapeScribe

-- A field value by what a reading can do with it; `other` is whatever no scalar field accepts.
inductive Raw
  | null
  | boolean (b : Bool)
  | integer (n : Int)
  | decimal (x : Binary64)
  | text (s : String)
  | moment (m : Moment)
  | other
  deriving Inhabited

namespace Raw

open ShapeScribe.Literal

-- Bytes stand for the text that they encode.
def ofBytes (bytes : List UInt8) : Raw := ((String.fromUTF8? ⟨bytes.toArray⟩).map text).getD .other

def asText : Raw → Except Complaint String
  | text s => .ok s
  | _ => .error .textType

-- Underscores may stand singly inside a number.
def withoutUnderscores (cs : List Char) : List Char :=
  if cs.head? = some '_' ∨ cs.getLast? = some '_' ∨ (cs.zip cs.tail).contains ('_', '_') then cs
  else cs.filter (· != '_')

def trimmed (s : String) : List Char := Text.trimBy Text.isStandardBlank s.toList

-- A fraction of zeros adds nothing to an integer.
def withoutZeroFraction (cs : List Char) : List Char :=
  match cs.dropWhile (· != '.') with
  | '.' :: '0' :: fraction => if fraction.all (· == '0') then cs.takeWhile (· != '.') else cs
  | _ => cs

-- Zeros in front of an integer add nothing either, nor underscores between and behind them. The last of them
-- stays if no other digit follows.
def withoutLeadingZeros? : List Char → Option (List Char)
  | '0' :: rest => behind '0' rest
  | c :: rest => if isDigit c || c == '-' then some (c :: rest) else none
  | [] => none
where
  behind (last : Char) : List Char → Option (List Char)
    | [] => some [last]
    | c :: rest =>
      if c == '0' || c == '_' then behind c rest
      else if isDigit c || c == '-' then some (c :: rest)
      else if c == '.' then some (last :: c :: rest)
      else none

def tidiedDigits? (cs : List Char) : Option (List Char) :=
  (withoutLeadingZeros? cs).map fun cs => withoutUnderscores (withoutZeroFraction cs)

-- An integer without what may surround it: blanks, a plus sign, and whatever adds nothing to it.
def tidied? (s : String) : Option (List Char) :=
  match trimmed s with
  | '-' :: rest => (tidiedDigits? rest).map ('-' :: ·)
  | '+' :: '-' :: _ => none
  | '+' :: rest => tidiedDigits? rest
  | cs => tidiedDigits? cs

-- An integer in its plain form, of at most 4300 characters.
def plainInteger (cs : List Char) : Except Complaint Int :=
  let negative := cs.head? == some '-'
  let body := if negative then cs.tail else cs
  let digits := body.takeWhile isDigit
  let n : Int := natOfDigits digits
  if digits.head? = some '0' ∧ 1 < body.length then .error .integerText
  else if 4300 < digits.length + (if negative then 1 else 0) then .error .integerTextSize
  else if digits.isEmpty || digits.length < body.length then .error .integerText
  else .ok (if negative then -n else n)

-- A text that is too long only after it is tidied has no integer in it at all.
def integerOfText (s : String) : Except Complaint Int :=
  match plainInteger s.toList with
  | .error .integerText =>
    match (tidied? s).map plainInteger with
    | some (.ok n) => .ok n
    | _ => .error .integerText
  | r => r

def integerOfDecimal (x : Binary64) : Except Complaint Int :=
  if !x.isFinite then .error .notFinite
  else
    match x.toInt? with
    | none => .error .integerFromFraction
    | some n => if n.natAbs < twoTo 63 then .ok n else .error .integerTextSize

def asInteger : Raw → Except Complaint Int
  | boolean b => .ok (if b then 1 else 0)
  | integer n => .ok n
  | decimal x => integerOfDecimal x
  | text s => integerOfText s
  | _ => .error .integerType

def asDecimal : Raw → Except Complaint Binary64
  | boolean b => .ok (.ofInt (if b then 1 else 0))
  | integer n => let x := Binary64.ofInt n; if x.isFinite then .ok x else .error .decimalType
  | decimal x => .ok x
  | text s =>
    match (binary64? (trimmed s)).or (binary64? (withoutUnderscores s.toList)) with
    | some x => .ok x
    | none => .error .decimalText
  | _ => .error .decimalType

def trueWords : List String := ["true", "1", "yes", "on", "t", "y"]

def falseWords : List String := ["false", "0", "no", "off", "f", "n"]

-- Zero and one are truth values. Only a number that fits into sixty-four bits is taken for a wrong one.
def booleanOfInteger (n : Int) : Except Complaint Bool :=
  if n = 0 then .ok false
  else if n = 1 then .ok true
  else if -twoTo 63 ≤ n ∧ n < twoTo 63 then .error .booleanText
  else .error .booleanType

def booleanOfDecimal (x : Binary64) : Except Complaint Bool :=
  match x.toInt? with
  | some n => if n.natAbs < twoTo 63 then booleanOfInteger n else .error .booleanType
  | none => .error .booleanType

def asBoolean : Raw → Except Complaint Bool
  | boolean b => .ok b
  | integer n => booleanOfInteger n
  | decimal x => booleanOfDecimal x
  | text s =>
    let word := String.ofList (s.toList.map Char.toLower)
    if trueWords.contains word then .ok true
    else if falseWords.contains word then .ok false
    else .error .booleanText
  | _ => .error .booleanType

-- A number that no binary64 number comes near to is no moment at all.
def asMoment : Raw → Except Complaint Moment
  | moment m => .ok m
  | text s =>
    match Moment.ofText? s with
    | some m => inCalendar m
    | none => .error .momentText
  | integer n =>
    match Moment.ofCount? n with
    | some m => inCalendar m
    | none => if (Binary64.ofInt n).isFinite then .error .momentRange else .error .momentType
  | decimal x =>
    match Moment.ofDecimal? x with
    | some m => inCalendar m
    | none => .error .momentRange
  | _ => .error .momentType
where
  inCalendar (m : Moment) : Except Complaint Moment := if m.isInCalendar then .ok m else .error .momentRange

-- An integer that is not below the least, nor above the greatest if there is one.
def integerWithin (least : Int) (greatest : Option Int) (r : Raw) : Except Complaint Int := do
  let n ← r.asInteger
  if n < least then .error .tooSmall
  else if greatest.any (· < n) then .error .tooLarge
  else return n

-- A reading that also lets null through.
def optional (read : Raw → Except Complaint α) : Raw → Except Complaint (Option α)
  | null => .ok none
  | r => (read r).map some

end Raw

def Json.raw : Json → Raw
  | .null => .null
  | .boolean b => .boolean b
  | .integer n => .integer n
  | .decimal x => .decimal x
  | .text s => .text s
  | .array _ | .object _ => .other

-- A named field read from its raw value, or from a default when it is not there.
def Validated.field (name : String) (read : Raw → Except Complaint α) (default : Option α) :
    Option Raw → Validated α
  | some raw => (read raw).mapError fun c => [⟨[name], c⟩]
  | none =>
    match default with
    | some a => .ok a
    | none => .error [⟨[name], .missing⟩]

end ShapeScribe
