import ShapeScribe.Json.Basic
import ShapeScribe.Number.Literal

/-!
Reading JSON text. The words for infinities and for what is not a number are accepted; control characters
inside a text, integers of more than 4300 digits and anything after the value are not.
-/

namespace ShapeScribe.Json

open ShapeScribe.Literal

def isBlank (c : Char) : Bool := c == ' ' || c == '\t' || c == '\n' || c == '\r'

def skipBlanks (cs : List Char) : List Char := cs.dropWhile isBlank

def hexValue? (c : Char) : Option Nat :=
  if isDigit c then some (digitValue c)
  else if 'a' ≤ c ∧ c ≤ 'f' then some (c.toNat - 87)
  else if 'A' ≤ c ∧ c ≤ 'F' then some (c.toNat - 55)
  else none

-- Exactly four hexadecimal digits.
def unit? : List Char → Option (Nat × List Char)
  | a :: b :: c :: d :: rest => do
    let a ← hexValue? a
    let b ← hexValue? b
    let c ← hexValue? c
    let d ← hexValue? d
    return (((a * 16 + b) * 16 + c) * 16 + d, rest)
  | _ => none

-- The unit after a leading surrogate, if it is a trailing one.
def trailing? : List Char → Option (Nat × List Char)
  | '\\' :: 'u' :: rest =>
    match unit? rest with
    | some (low, rest) => if 56320 ≤ low ∧ low < 57344 then some (low, rest) else none
    | none => none
  | _ => none

-- A character from the escape after `\u`. Texts are made of whole characters and cannot keep a surrogate without its
-- partner. The replacement character stands for each of these, so texts that differ in them alone are read alike.
def escapedUnit? (cs : List Char) : Option (Char × List Char) := do
  let (unit, rest) ← unit? cs
  if 55296 ≤ unit ∧ unit < 56320 then
    match trailing? rest with
    | some (low, rest) => return (Char.ofNat (65536 + (unit - 55296) * 1024 + (low - 56320)), rest)
    | none => return ('\ufffd', rest)
  else if 56320 ≤ unit ∧ unit < 57344 then return ('\ufffd', rest)
  else return (Char.ofNat unit, rest)

def simpleEscape? : Char → Option Char
  | '"' => some '"'
  | '\\' => some '\\'
  | '/' => some '/'
  | 'b' => some '\x08'
  | 'f' => some '\x0c'
  | 'n' => some '\n'
  | 'r' => some '\r'
  | 't' => some '\t'
  | _ => none

-- The rest of a text after its opening quote, `done` in reverse. Every step takes at least one character.
def textAfter? : (fuel : Nat) → (done : List Char) → List Char → Option (String × List Char)
  | 0, _, _ => none
  | fuel + 1, done, cs =>
    match cs with
    | [] => none
    | '"' :: rest => some (String.ofList done.reverse, rest)
    | '\\' :: 'u' :: rest => do
      let (c, rest) ← escapedUnit? rest
      textAfter? fuel (c :: done) rest
    | '\\' :: c :: rest => do
      let c ← simpleEscape? c
      textAfter? fuel (c :: done) rest
    | c :: rest => if c.toNat < 32 then none else textAfter? fuel (c :: done) rest

-- An integer part is a zero, or digits that do not start with one.
def wholePart? (cs : List Char) : Option (List Char × List Char) :=
  match cs with
  | '0' :: rest => some (['0'], rest)
  | _ =>
    match spanDigits cs with
    | ([], _) => none
    | found => some found

-- The longest fraction and the longest exponent that follow, each left alone unless complete.
def spanFraction : List Char → List Char × List Char
  | '.' :: rest =>
    match spanDigits rest with
    | ([], _) => ([], '.' :: rest)
    | found => found
  | cs => ([], cs)

def spanExponent : List Char → Option Int × List Char
  | [] => (none, [])
  | e :: rest =>
    if e = 'e' ∨ e = 'E' then
      let (negative, digits) := spanSign rest
      match spanDigits digits with
      | ([], _) => (none, e :: rest)
      | (ds, rest) => (some (if negative then -natOfDigits ds else natOfDigits ds), rest)
    else (none, e :: rest)

def number? (negative : Bool) (cs : List Char) : Option (Json × List Char) := do
  let (whole, rest) ← wholePart? cs
  let (fraction, rest) := spanFraction rest
  let (exponent, rest) := spanExponent rest
  match fraction, exponent with
  | [], none =>
    if 4300 < whole.length then none
    else
      let n := natOfDigits whole
      return (.integer (if negative then -n else n), rest)
  | _, _ =>
    let digits := natOfDigits (whole ++ fraction)
    return (.decimal (.ofDecimal negative digits (exponent.getD 0 - fraction.length)), rest)

def word? : List Char → Option (Json × List Char)
  | 'n' :: 'u' :: 'l' :: 'l' :: rest => some (.null, rest)
  | 't' :: 'r' :: 'u' :: 'e' :: rest => some (.boolean true, rest)
  | 'f' :: 'a' :: 'l' :: 's' :: 'e' :: rest => some (.boolean false, rest)
  | 'N' :: 'a' :: 'N' :: rest => some (.decimal .nan, rest)
  | 'I' :: 'n' :: 'f' :: 'i' :: 'n' :: 'i' :: 't' :: 'y' :: rest => some (.decimal (.infinity false), rest)
  | '-' :: 'I' :: 'n' :: 'f' :: 'i' :: 'n' :: 'i' :: 't' :: 'y' :: rest => some (.decimal (.infinity true), rest)
  | '-' :: rest => number? true rest
  | cs => number? false cs

mutual

-- One value and what follows it. The fuel bounds the characters that can still be taken.
def value? : (fuel : Nat) → List Char → Option (Json × List Char)
  | 0, _ => none
  | fuel + 1, cs =>
    match cs with
    | '"' :: rest => (textAfter? (rest.length + 1) [] rest).map fun (s, rest) => (.text s, rest)
    | '[' :: rest =>
      match skipBlanks rest with
      | ']' :: rest => some (.array [], rest)
      | rest => (items? fuel rest).map fun (items, rest) => (.array items, rest)
    | '{' :: rest =>
      match skipBlanks rest with
      | '}' :: rest => some (.object [], rest)
      | rest => (members? fuel rest).map fun (members, rest) => (ofMembers members, rest)
    | _ => word? cs

-- At least one item, up to the closing bracket.
def items? : (fuel : Nat) → List Char → Option (List Json × List Char)
  | 0, _ => none
  | fuel + 1, cs => do
    let (item, rest) ← value? fuel cs
    match skipBlanks rest with
    | ']' :: rest => return ([item], rest)
    | ',' :: rest =>
      let (items, rest) ← items? fuel (skipBlanks rest)
      return (item :: items, rest)
    | _ => none

def members? : (fuel : Nat) → List Char → Option (List (String × Json) × List Char)
  | 0, _ => none
  | fuel + 1, cs => do
    let (name, rest) ← match cs with
      | '"' :: rest => textAfter? (rest.length + 1) [] rest
      | _ => none
    match skipBlanks rest with
    | ':' :: rest =>
      let (value, rest) ← value? fuel (skipBlanks rest)
      match skipBlanks rest with
      | '}' :: rest => return ([(name, value)], rest)
      | ',' :: rest =>
        let (members, rest) ← members? fuel (skipBlanks rest)
        return ((name, value) :: members, rest)
      | _ => none
    | _ => none

end

-- A whole text: one value with blanks around it.
def read? (text : String) : Option Json :=
  let cs := text.toList
  match value? (cs.length + 1) (skipBlanks cs) with
  | some (j, rest) => if (skipBlanks rest).isEmpty then some j else none
  | none => none

end ShapeScribe.Json
