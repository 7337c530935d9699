import ShapeScribe.Json.Reader
import ShapeScribe.Number.Arithmetic
import ShapeScribe.Number.Literal
import ShapeScribe.Text.Blank
import ShapeScribe.Text.Casing
import ShapeScribe.Text.DecimalDigit
import ShapeScribe.Yaml.Misfit
import ShapeScribe.Yaml.Tag

/-!
Numbers under the tags of integers and decimals: with underscores anywhere, in four bases, and in groups of
sixtieths between colons. The digits may be those of any script, and blanks may surround a number.
-/

namespace ShapeScribe.Yaml.Numeral

open ShapeScribe.Literal

def withoutMarks (cs : List Char) : List Char := cs.filter (· != '_')

def bare (cs : List Char) : List Char := Text.withPlainDigits (Text.trimBy Text.isStandardBlank cs)

def isDigitIn (base : Nat) (c : Char) : Bool := (Json.hexValue? c).any (· < base)

-- The digits of a number in a base, behind a sign and the mark of the base. Only decimal digits are limited in
-- number, and they are counted before anything else.
def integerIn (base : Nat) (mark : Option Char) (text : List Char) : Except Misfit Int :=
  let (negative, body) := spanSign (bare text)
  let body := match body with
    | '0' :: m :: rest => if mark = some m.toLower then rest else body
    | _ => body
  let digits := body.takeWhile (isDigitIn base)
  if base = 10 ∧ 4300 < digits.length then .error (.tooManyDigits digits.length)
  else if digits.isEmpty || digits.length < body.length then .error (.noInteger base text)
  else
    let n : Int := digits.foldl (fun n c => base * n + (Json.hexValue? c).getD 0) 0
    .ok (if negative then -n else n)

def sixtieths (parts : List (List Char)) : Except Misfit Int := do
  let values ← parts.mapM (integerIn 10 none)
  return values.foldl (fun n part => 60 * n + part) 0

-- A sign, and then binary, hexadecimal, octal or decimal digits, or decimal groups of sixtieths.
def integer (text : List Char) : Except Misfit Int := do
  let (negative, body) := spanSign (withoutMarks text)
  let magnitude ← match body with
    | [] => .error .noNumber
    | ['0'] => .ok 0
    | '0' :: 'b' :: rest => integerIn 2 (some 'b') rest
    | '0' :: 'x' :: rest => integerIn 16 (some 'x') rest
    | '0' :: _ => integerIn 8 (some 'o') body
    | _ => if body.contains ':' then sixtieths (Tag.parts body) else integerIn 10 none body
  return if negative then -magnitude else magnitude

def decimalText (text : List Char) : Except Misfit Binary64 :=
  match binary64? (bare text) with
  | some x => .ok x
  | none => .error (.noDecimal text)

-- The sum of sixtieths from the last on, each weight, each product and each sum rounded.
def decimalSixtieths (sum : Binary64) (weight : Nat) : List Binary64 → Except Misfit Binary64
  | [] => .ok sum
  | x :: rest =>
    let w := Binary64.ofInt weight
    if w.isFinite then decimalSixtieths (sum.plus (x.times w)) (weight * 60) rest else .error .tooLarge

def decimal (text : List Char) : Except Misfit Binary64 := do
  let folded := Text.lower (withoutMarks text)
  let (negative, body) := spanSign folded
  if folded.isEmpty then .error .noNumber
  let x ←
    if body = ".inf".toList then .ok (.infinity false)
    else if body = ".nan".toList then .ok .nan
    else if body.contains ':' then do
      let values ← (Tag.parts body).mapM decimalText
      decimalSixtieths (.zero false) 1 values.reverse
    else decimalText body
  return if negative then x.negated else x

end ShapeScribe.Yaml.Numeral
