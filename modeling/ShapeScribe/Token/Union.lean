import ShapeScribe.Token.Spelling

/-!
Unions: the same set of tokens always gives the same sequence, without repetitions, ordered by tier, then by
the written text, then by the spelling.
-/

namespace ShapeScribe.Token

def compareChars (cs ds : List Char) : Ordering := compareOfLessAndEq cs ds

def order (t u : Token) : Ordering :=
  (compare t.tier.rank u.tier.rank).then
    ((compareChars t.written u.written).then (compareChars t.spelled u.spelled))

def notAfter (t u : Token) : Bool := order t u != .gt

def normalize (ts : List Token) : List Token := ts.eraseDups.mergeSort notAfter

-- A union as text; an empty one shows the fallback.
def unionText (fallback : Token) (ts : List Token) : String :=
  match normalize ts with
  | [] => fallback.text
  | union => String.ofList (joined bar (union.map written))

end ShapeScribe.Token
