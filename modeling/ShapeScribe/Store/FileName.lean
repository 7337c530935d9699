import ShapeScribe.Number.Literal
import ShapeScribe.Signature
import ShapeScribe.Text.Casing
import ShapeScribe.Text.Words

/-!
File names of declarations: the readable part of a route id, and the hash of the whole id, which keeps ids
apart that read alike.
-/

namespace ShapeScribe

namespace Slug

def keeps (c : Char) : Bool := ('a' ≤ c && c ≤ 'z') || Literal.isDigit c

-- The runs of small letters and digits in the lower case of an id, with hyphens between them.
def ofId (id : List Char) : List Char :=
  match Text.words (fun c => !keeps c) (Text.lower id) with
  | [] => "route".toList
  | words => Token.joined ['-'] words

end Slug

def slug (id : String) : String := String.ofList (Slug.ofId id.toList)

def fileName (id : String) : String := slug id ++ "-" ++ hashText id ++ ".yaml"

end ShapeScribe
