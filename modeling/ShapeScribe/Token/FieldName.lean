/-!
Property names: bare when the name is an identifier, between double quotes otherwise.
-/

namespace ShapeScribe.FieldName

def isAsciiLetter (c : Char) : Bool := ('A' ≤ c && c ≤ 'Z') || ('a' ≤ c && c ≤ 'z')

def startsName (c : Char) : Bool := isAsciiLetter c || c == '_' || c == '$'

def continuesName (c : Char) : Bool := startsName c || ('0' ≤ c && c ≤ '9')

def isIdentifier : List Char → Bool
  | [] => false
  | c :: rest => startsName c && rest.all continuesName

-- An identifier stays bare also with one line break after it.
def isBare (cs : List Char) : Bool :=
  isIdentifier cs || (cs.getLast? == some '\n' && isIdentifier cs.dropLast)

def escaped (c : Char) : List Char := if c = '\\' ∨ c = '"' then ['\\', c] else [c]

def written (cs : List Char) : List Char :=
  if isBare cs then cs else '"' :: cs.flatMap escaped ++ ['"']

end ShapeScribe.FieldName

namespace ShapeScribe

def safeFieldName (name : String) : String := String.ofList (FieldName.written name.toList)

end ShapeScribe
