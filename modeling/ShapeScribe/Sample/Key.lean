import ShapeScribe.Fault
import ShapeScribe.Number.Binary64

/-!
Keys of object members. A well-formed sample has texts only; the other keys are kept so that they can be
refused in the right place. Keys are told apart by value: one, `true` and `1.0` are the same key.
-/

namespace ShapeScribe

inductive Key
  | text (s : String)
  | null
  | boolean (b : Bool)
  | integer (n : Int)
  | decimal (x : Binary64)
  | tuple (items : List Key)
  deriving Inhabited

namespace Key

def type : Key → TypeTag
  | text _ => .text
  | null => .null
  | boolean _ => .boolean
  | integer _ => .integer
  | decimal _ => .decimal
  | tuple _ => .tuple

-- The value of a numeric key; none for a key of another kind and for NaN.
def ratio? : Key → Option (Int × Nat)
  | boolean b => some (if b then 1 else 0, 1)
  | integer n => some (n, 1)
  | decimal x => if x.isNaN then none else some x.ratio
  | _ => none

def isNumeric : Key → Bool
  | boolean _ | integer _ | decimal _ => true
  | _ => false

def sameNumber (k l : Key) : Bool :=
  match k.ratio?, l.ratio? with
  | some x, some y => compareRatios x y == .eq
  | _, _ => false

mutual

def same : Key → Key → Bool
  | text s, text t => s == t
  | null, null => true
  | tuple ks, tuple ls => sameAll ks ls
  | k, l => sameNumber k l

def sameAll : List Key → List Key → Bool
  | [], [] => true
  | k :: ks, l :: ls => same k l && sameAll ks ls
  | _, _ => false

end

mutual

-- Whether one key precedes another. Texts go by code point, numbers by value, tuples by their first
-- difference; keys of kinds that do not mix have no order.
def precedes : Key → Key → Except Fault Bool
  | text s, text t => .ok (s < t)
  | tuple ks, tuple ls => precedesAll ks ls
  | k, l =>
    if k.isNumeric && l.isNumeric then
      match k.ratio?, l.ratio? with
      | some x, some y => .ok (compareRatios x y == .lt)
      | _, _ => .ok false
    else .error (.unordered k.type l.type)

def precedesAll : List Key → List Key → Except Fault Bool
  | _, [] => .ok false
  | [], _ :: _ => .ok true
  | k :: ks, l :: ls => if same k l then precedesAll ks ls else precedes k l

end

end Key

end ShapeScribe
