import ShapeScribe.Named
import ShapeScribe.Number.Shortest

/-!
JSON values. Integers and binary64 numbers are kept apart, and the members of an object keep their order.
-/

namespace ShapeScribe

inductive Json
  | null
  | boolean (b : Bool)
  | integer (n : Int)
  | decimal (x : Binary64)
  | text (s : String)
  | array (items : List Json)
  | object (members : List (String × Json))
  deriving Inhabited

namespace Json

def ofMembers (members : List (String × Json)) : Json := .object (Named.ofPairs members)

def member? (name : String) : Json → Option Json
  | .object members => Named.get? name members
  | _ => none

-- Numbers are positional from 0.0001 up to 10^16; an infinity is written as a word.
def numberStyle : Binary64.Style := ⟨-4, 15, 2, "NaN", "Infinity"⟩

end Json

end ShapeScribe
