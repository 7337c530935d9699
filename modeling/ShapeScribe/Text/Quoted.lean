import ShapeScribe.Text.PrintableTable
import ShapeScribe.Text.Ranges

/-!
Quoted literals: a text between quotes of the kind it does not hold, with escapes for the quote, the
backslash and whatever cannot be shown.
-/

namespace ShapeScribe.Text

def isPrintable (c : Char) : Bool :=
  if c.toNat < 128 then 32 ≤ c.toNat && c.toNat < 127 else inRanges printableRanges c

def hexDigit (n : Nat) : Char := Nat.digitChar (n % 16)

-- The last `width` hexadecimal digits of a number.
def hex : (width : Nat) → Nat → List Char
  | 0, _ => []
  | width + 1, n => hex width (n / 16) ++ [hexDigit n]

def escaped (quote c : Char) : List Char :=
  if c = quote ∨ c = '\\' then ['\\', c]
  else if c = '\n' then ['\\', 'n']
  else if c = '\r' then ['\\', 'r']
  else if c = '\t' then ['\\', 't']
  else if isPrintable c then [c]
  else if c.toNat < 256 then '\\' :: 'x' :: hex 2 c.toNat
  else if c.toNat < 65536 then '\\' :: 'u' :: hex 4 c.toNat
  else '\\' :: 'U' :: hex 8 c.toNat

-- Single quotes, unless the text holds one and no double quote.
def quoteFor (cs : List Char) : Char :=
  if cs.contains '\'' && !cs.contains '"' then '"' else '\''

def quoted (cs : List Char) : List Char :=
  let quote := quoteFor cs
  quote :: cs.flatMap (escaped quote) ++ [quote]

end ShapeScribe.Text
