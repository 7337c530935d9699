import ShapeScribe.Text.Quoted
import ShapeScribe.Token.Basic

/-!
Spellings: a form of a token that shows its whole structure, texts quoted. It decides the order of different
tokens that are written alike.
-/

namespace ShapeScribe.Token

-- Items between round brackets; a single item keeps a comma behind it.
def tupled : List (List Char) → List Char
  | [] => ['(', ')']
  | [item] => '(' :: item ++ [',', ')']
  | items => '(' :: joined [',', ' '] items ++ [')']

mutual

def spelled : Token → List Char
  | .scalar name text =>
    "ScalarToken(name=".toList ++ Text.quoted name.toList ++ ", text=".toList ++ Text.quoted text.toList ++ [')']
  | .array elements => "ArrayToken(elements=".toList ++ tupled (spelledAll elements) ++ [')']
  | .record fields => "RecordToken(fields=".toList ++ tupled (spelledFields fields) ++ [')']

def spelledAll : List Token → List (List Char)
  | [] => []
  | t :: ts => spelled t :: spelledAll ts

def spelledFields : List (String × List Token) → List (List Char)
  | [] => []
  | (name, union) :: rest => tupled [Text.quoted name.toList, tupled (spelledAll union)] :: spelledFields rest

end

end ShapeScribe.Token
