import ShapeScribe.Calendar.Recognition
import ShapeScribe.Named
import ShapeScribe.Options
import ShapeScribe.Sample.Basic
import ShapeScribe.Token.Union

/-!
The shape of a sample. The walk keeps the containers on the path from the root: one that is met again on its
own path is circular, and one that is met again beside it is described in full. The depth guard bounds the
walk, so that it ends on every graph.
-/

namespace ShapeScribe

def Leaf.shape (o : Options) : Leaf → Except Fault Token
  | .null => .ok .null
  | .missing => .ok .undefined
  | .boolean _ => .ok .boolean
  | .integer _ | .decimal _ => .ok .number
  | .text s => .ok (if o.detectDates && DateText.isDate s then .date else .string)
  | .foreign f => .error (.unsupported (.foreign f))

namespace Sample

-- A record field of one token.
def soleField (name : String) (t : Token) : String × List Token := (name, [t])

-- Members are read in their own order, so that the first fault is the one reported.
def memberShapes (shapeOf : Value → Except Fault Token) :
    List (Key × Value) → Except Fault (List (String × List Token))
  | [] => .ok []
  | (.text name, v) :: rest => do
    let t ← shapeOf v
    let fields ← memberShapes shapeOf rest
    return soleField name t :: fields
  | (key, _) :: _ => .error (.keyNotText key.type)

def itemShapes (shapeOf : Value → Except Fault Token) : List Value → Except Fault (List Token)
  | [] => .ok []
  | v :: rest => do
    let t ← shapeOf v
    let ts ← itemShapes shapeOf rest
    return t :: ts

def containerShape (o : Options) (shapeOf : Value → Except Fault Token) : Container → Except Fault Token
  | .array _ items => do
    let ts ← itemShapes shapeOf (o.sampled items)
    return .array (Token.normalize ts)
  | .object members => do
    let fields ← memberShapes shapeOf members
    return .record (Named.inOrder fields)

-- The shape of a value below the containers of `path`, with room for so many more.
def shapeBelow (o : Options) (s : Sample) : (room : Nat) → (path : List Place) → Value → Except Fault Token
  | _, _, .leaf l => l.shape o
  | 0, path, .container p => if p ∈ path then .ok .circular else .error (.tooDeep o.maxDepth)
  | room + 1, path, .container p =>
    if p ∈ path then .ok .circular
    else containerShape o (shapeBelow o s room (p :: path)) (s.contents p)

def shape (o : Options) (s : Sample) : Except Fault Token := shapeBelow o s (o.room 0) [] s.root

end Sample

end ShapeScribe
