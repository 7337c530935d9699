import ShapeScribe.Number.Literal

/-!
Tags: what kind of value a node stands for. A plain scalar without a tag has the one that its text implies.
-/

namespace ShapeScribe.Yaml

-- `merge` and `standIn` are for the keys `<<` and `=`, which have a meaning only as keys.
inductive Tag
  | null
  | boolean
  | integer
  | decimal
  | text
  | moment
  | binary
  | sequence
  | mapping
  | set
  | orderedMap
  | pairs
  | merge
  | standIn
  | unknown
  deriving DecidableEq, Repr

namespace Tag

def standard : String := "tag:yaml.org,2002:"

def names : List (String × Tag) := [
  ("null", null), ("bool", boolean), ("int", integer), ("float", decimal), ("str", text), ("timestamp", moment),
  ("binary", binary), ("seq", sequence), ("map", mapping), ("set", set), ("omap", orderedMap),
  ("pairs", pairs), ("merge", merge), ("value", standIn)]

def ofName (name : String) : Tag :=
  match names.find? fun (short, _) => standard ++ short == name with
  | some (_, tag) => tag
  | none => unknown

open ShapeScribe.Literal

-- A text may end in one line break and still imply what it implies without it.
def withoutFinalBreak (cs : List Char) : List Char := if cs.getLast? = some '\n' then cs.dropLast else cs

def isWord (words : List String) (cs : List Char) : Bool := words.any fun word => word.toList == cs

def booleanWords : List String := [
  "yes", "Yes", "YES", "no", "No", "NO", "true", "True", "TRUE", "false", "False", "FALSE",
  "on", "On", "ON", "off", "Off", "OFF"]

def nullWords : List String := ["", "~", "null", "Null", "NULL"]

def isDigitOrMark (c : Char) : Bool := isDigit c || c == '_'

def isOctal (c : Char) : Bool := ('0' ≤ c && c ≤ '7') || c == '_'

def isHexadecimal (c : Char) : Bool := isDigitOrMark c || ('a' ≤ c && c ≤ 'f') || ('A' ≤ c && c ≤ 'F')

-- The parts of a text between colons.
def parts : List Char → List (List Char)
  | [] => [[]]
  | c :: rest =>
    if c = ':' then [] :: parts rest
    else
      match parts rest with
      | [] => [[c]]
      | part :: others => (c :: part) :: others

-- A number below sixty, in one digit or two.
def isSixtieth : List Char → Bool
  | [d] => isDigit d
  | [t, d] => '0' ≤ t && t ≤ '5' && isDigit d
  | _ => false

def isInteger (cs : List Char) : Bool :=
  match (spanSign cs).2 with
  | '0' :: 'b' :: rest => !rest.isEmpty && rest.all fun c => c == '0' || c == '1' || c == '_'
  | '0' :: 'x' :: rest => !rest.isEmpty && rest.all isHexadecimal
  | '0' :: rest => rest.all isOctal
  | first :: rest =>
    isDigit first &&
      match parts rest with
      | [] => true
      | whole :: sixtieths => whole.all isDigitOrMark && sixtieths.all isSixtieth
  | [] => false

-- Nothing, or an exponent with a sign.
def isExponent : List Char → Bool
  | [] => true
  | e :: sign :: rest =>
    (e == 'e' || e == 'E') && (sign == '+' || sign == '-') && !rest.isEmpty && rest.all isDigit
  | _ => false

def isFraction (cs : List Char) : Bool := isExponent (cs.dropWhile isDigitOrMark)

def isInfinity (cs : List Char) : Bool := isWord [".inf", ".Inf", ".INF"] cs

-- A point is required. Without a digit before it there is no sign and at least one digit behind it.
def isDecimal (cs : List Char) : Bool :=
  let body := (spanSign cs).2
  isInfinity body || isWord [".nan", ".NaN", ".NAN"] cs ||
    match cs with
    | '.' :: d :: rest => isDigit d && isFraction rest
    | _ =>
      (body.head?.map isDigit).getD false &&
        match parts (body.takeWhile (· != '.')), body.dropWhile (· != '.') with
        | [whole], '.' :: rest => whole.all isDigitOrMark && isFraction rest
        | whole :: sixtieths, '.' :: rest =>
          whole.all isDigitOrMark && sixtieths.all isSixtieth && rest.all isDigitOrMark
        | _, _ => false

end Tag

end ShapeScribe.Yaml
