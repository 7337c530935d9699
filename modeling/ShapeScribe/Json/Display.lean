import ShapeScribe.Json.Basic
import ShapeScribe.Text.Quoted
import ShapeScribe.Token.Basic

/-!
JSON values as labels: a text stands for itself, anything else is shown the way a list of values is.
-/

namespace ShapeScribe.Json

def displayStyle : Binary64.Style := ⟨-4, 15, 2, "nan", "inf"⟩

def shownScalar : Json → List Char
  | .null => "None".toList
  | .boolean true => "True".toList
  | .boolean false => "False".toList
  | .integer n => (toString n).toList
  | .decimal x => (x.written displayStyle).toList
  | .text s => Text.quoted s.toList
  | _ => []

mutual

def shown : Json → List Char
  | .array items => '[' :: Token.joined [',', ' '] (shownItems items) ++ [']']
  | .object members => '\x7b' :: Token.joined [',', ' '] (shownMembers members) ++ ['\x7d']
  | scalar => shownScalar scalar

def shownItems : List Json → List (List Char)
  | [] => []
  | j :: rest => shown j :: shownItems rest

def shownMembers : List (String × Json) → List (List Char)
  | [] => []
  | (name, j) :: rest => (Text.quoted name.toList ++ [':', ' '] ++ shown j) :: shownMembers rest

end

def label : Json → String
  | .text s => s
  | j => String.ofList j.shown

-- Nulls, zeros and whatever is empty or false make no label.
def isBlankLabel : Json → Bool
  | .null => true
  | .boolean b => !b
  | .integer n => n == 0
  | .decimal x => x.isZero
  | .text s => s.isEmpty
  | .array items => items.isEmpty
  | .object members => members.isEmpty

end ShapeScribe.Json
