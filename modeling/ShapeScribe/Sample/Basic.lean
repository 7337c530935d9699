import ShapeScribe.Sample.Key

/-!
Samples: decoded response bodies as finite graphs. A container has a place, so that one container can be
reached along several paths, or contain itself; everything else is a leaf.
-/

namespace ShapeScribe

-- `missing` marks a member as absent.
inductive Leaf
  | null
  | missing
  | boolean (b : Bool)
  | integer (n : Int)
  | decimal (x : Binary64)
  | text (s : String)
  | foreign (f : Foreign)
  deriving DecidableEq

def Leaf.type : Leaf → TypeTag
  | null => .null
  | missing => .missing
  | boolean _ => .boolean
  | integer _ => .integer
  | decimal _ => .decimal
  | text _ => .text
  | foreign f => .foreign f

abbrev Place := Nat

inductive Value
  | leaf (l : Leaf)
  | container (place : Place)
  deriving DecidableEq, Inhabited

-- A fixed array is one whose length cannot change; it is an array in every other respect.
inductive Container
  | array (fixed : Bool) (items : List Value)
  | object (members : List (Key × Value))
  deriving Inhabited

structure Sample where
  containers : Array Container
  root : Value

namespace Sample

-- The container at a place; a place beyond the last container is an empty array.
def contents (s : Sample) (p : Place) : Container := s.containers.getD p (.array false [])

def ofLeaf (l : Leaf) : Sample := ⟨#[], .leaf l⟩

-- The members of an object sample, and the place of the object.
def object? (s : Sample) : Option (Place × List (Key × Value)) :=
  match s.root with
  | .leaf _ => none
  | .container p =>
    match s.contents p with
    | .object members => some (p, members)
    | .array .. => none

def isObject (s : Sample) : Bool := s.object?.isSome

-- Only a null is no body at all.
def isBody (s : Sample) : Bool := s.root != .leaf .null

end Sample

inductive Kind
  | null
  | missing
  | boolean
  | number
  | string
  | array
  | object
  deriving DecidableEq, Repr

def Kind.name : Kind → String
  | null => "null"
  | missing => "missing"
  | boolean => "boolean"
  | number => "number"
  | string => "string"
  | array => "array"
  | object => "object"

def Leaf.kind : Leaf → Except Fault Kind
  | null => .ok .null
  | missing => .ok .missing
  | boolean _ => .ok .boolean
  | integer _ | decimal _ => .ok .number
  | text _ => .ok .string
  | foreign f => .error (.unsupported (.foreign f))

def Sample.kind (s : Sample) : Except Fault Kind :=
  match s.root with
  | .leaf l => l.kind
  | .container p =>
    match s.contents p with
    | .array .. => .ok .array
    | .object _ => .ok .object

end ShapeScribe
