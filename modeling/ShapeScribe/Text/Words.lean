/-!
The words of a text: the runs of characters between separators.
-/

namespace ShapeScribe.Text

-- The words of a text behind the characters of `word`, which are in reverse.
def wordsFrom (separates : Char → Bool) : (word : List Char) → List Char → List (List Char)
  | [], [] => []
  | word, [] => [word.reverse]
  | word, c :: rest =>
    if separates c then
      if word.isEmpty then wordsFrom separates [] rest else word.reverse :: wordsFrom separates [] rest
    else wordsFrom separates (c :: word) rest

def words (separates : Char → Bool) (cs : List Char) : List (List Char) := wordsFrom separates [] cs

end ShapeScribe.Text
