import ShapeScribe.FieldMap
import ShapeScribe.TypeName

/-!
Type definitions: one interface for a group that holds an object, one alias for any other group, and an open
interface for a group without samples.
-/

namespace ShapeScribe.Definition

def line (name text : List Char) : List Char :=
  ['\n', ' ', ' '] ++ FieldName.written name ++ [':', ' '] ++ text ++ [';']

def interfaceOf (name body : List Char) : List Char :=
  "interface ".toList ++ name ++ [' ', '\x7b'] ++ body ++ ['\n', '\x7d']

def interface (name : String) (fields : List (String × String)) : List Char :=
  interfaceOf name.toList ((Named.inOrder fields).flatMap fun f => line f.1.toList f.2.toList)

def placeholder (name : String) : List Char :=
  interfaceOf name.toList "\n  [key: string]: unknown;".toList

def sampleShapes (o : Options) : List Sample → Except Fault (List Token)
  | [] => .ok []
  | s :: rest => do
    let t ← s.shape o
    let ts ← sampleShapes o rest
    return t :: ts

def synonym (o : Options) (name : String) (samples : List Sample) : Except Fault (List Char) := do
  let shapes ← sampleShapes o samples
  return "type ".toList ++ name.toList ++ " = ".toList ++ (Token.unionText .unknown shapes).toList ++ [';']

-- Only texts can name the members of an interface.
def textFields : List (Key × String) → Except Fault (List (String × String))
  | [] => .ok []
  | (.text name, text) :: rest => do
    let fields ← textFields rest
    return (name, text) :: fields
  | (key, _) :: _ => .error (.fieldNotText key.type)

def group (o : Options) (name : String) (samples : List Sample) : Except Fault (List Char) := do
  if samples.isEmpty then return placeholder name
  else if !samples.any Sample.isObject then synonym o name samples
  else
    let fields ← fieldMap o samples
    let fields ← textFields fields
    return interface name fields

def groups (o : Options) (base : String) : List Group → Except Fault (List (List Char))
  | [] => .ok []
  | g :: rest => do
    let text ← group o (declarationName base g.outcome) g.samples
    let texts ← groups o base rest
    return text :: texts

-- Every group in order of outcome, a blank line between any two; no groups have no definition.
def declarations (o : Options) (base : String) (gs : List Group) : Except Fault (Option String) := do
  if gs.isEmpty then return none
  let texts ← groups o base (Group.inOrder gs)
  return some (String.ofList (Token.joined ['\n', '\n'] texts))

end ShapeScribe.Definition
