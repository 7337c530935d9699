import ShapeScribe.Outcome
import ShapeScribe.Text.Blank
import ShapeScribe.Text.Casing
import ShapeScribe.Text.DigitTable
import ShapeScribe.Text.Words

/-!
Type names from the display names of routes: the words of the name, capitalized and run together.
-/

namespace ShapeScribe

namespace TypeName

def separates (c : Char) : Bool :=
  Text.isBlank c || c == '/' || c == '-' || c == '_' || c == '(' || c == ')' || c == '\x7b' || c == '\x7d' ||
    c == '[' || c == ']'

-- Letters without regard to case; the dotless i counts as an i.
def foldedLetter (c : Char) : Char := if c = 'ı' then 'i' else c.toLower

-- Words that say nothing about what a route answers.
def isIdle (word : List Char) : Bool :=
  ["api", "endpoint", "route"].any fun idle => idle.toList == word.map foldedLetter

def suffix : List Char := "Response".toList

def fallback : List Char := "ApiResponse".toList

def isDigit (c : Char) : Bool := Text.inRanges Text.digitRanges c

def significantWords (name : List Char) : List (List Char) :=
  ((Text.words separates name).map Text.capitalize).filter fun word => !isIdle word

-- A name that would start with a digit starts with a `T` instead.
def ofWords (words : List (List Char)) : List Char :=
  match words.flatten ++ suffix with
  | [] => []
  | c :: rest => if isDigit c then 'T' :: c :: rest else c :: rest

def ofRoute (name : List Char) : List Char :=
  match significantWords name with
  | [] => fallback
  | words => ofWords words

def dropSuffix (cs : List Char) : List Char :=
  if suffix.isSuffixOf cs then cs.take (cs.length - suffix.length) else cs

def base (name : List Char) : List Char := dropSuffix (ofRoute name)

end TypeName

def typeNameOf (routeName : String) : String := String.ofList (TypeName.ofRoute routeName.toList)

-- The type name without the word that every type name ends in.
def baseTypeName (routeName : String) : String := String.ofList (TypeName.base routeName.toList)

def declarationName (base : String) (outcome : Outcome) : String :=
  base ++ outcome.bucket.suffix ++ (if outcome.isError then "Error" else "") ++ "Response"

end ShapeScribe
