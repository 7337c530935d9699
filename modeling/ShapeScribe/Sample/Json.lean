import ShapeScribe.Json.Canonical
import ShapeScribe.Sample.Basic

/-!
Samples and JSON values. A JSON value is a sample in which every container has a place of its own; a sample is
a JSON value when it is free of cycles, of values outside JSON and of other keys than texts.
-/

namespace ShapeScribe.Sample

mutual

-- Places the containers of a value behind those already placed, inner ones first.
def placed (done : Array Container) : Json → Value × Array Container
  | .null => (.leaf .null, done)
  | .boolean b => (.leaf (.boolean b), done)
  | .integer n => (.leaf (.integer n), done)
  | .decimal x => (.leaf (.decimal x), done)
  | .text s => (.leaf (.text s), done)
  | .array items =>
    let (values, done) := placedItems done items
    (.container done.size, done.push (.array false values))
  | .object members =>
    let (pairs, done) := placedMembers done members
    (.container done.size, done.push (.object pairs))

def placedItems (done : Array Container) : List Json → List Value × Array Container
  | [] => ([], done)
  | j :: rest =>
    let (v, done) := placed done j
    let (vs, done) := placedItems done rest
    (v :: vs, done)

def placedMembers (done : Array Container) : List (String × Json) → List (Key × Value) × Array Container
  | [] => ([], done)
  | (name, j) :: rest =>
    let (v, done) := placed done j
    let (vs, done) := placedMembers done rest
    ((.text name, v) :: vs, done)

end

def ofJson (j : Json) : Sample :=
  let (root, containers) := placed #[] j
  ⟨containers, root⟩

def leafJson : Leaf → Except Fault Json
  | .null => .ok .null
  | .boolean b => .ok (.boolean b)
  | .integer n => .ok (.integer n)
  | .decimal x => .ok (.decimal x)
  | .text s => .ok (.text s)
  | l => .error (.notSerializable l.type)

def itemsJson (jsonOf : Value → Except Fault Json) : List Value → Except Fault (List Json)
  | [] => .ok []
  | v :: rest => do
    let j ← jsonOf v
    let js ← itemsJson jsonOf rest
    return j :: js

def membersJson (jsonOf : Value → Except Fault Json) :
    List (Key × Value) → Except Fault (List (String × Json))
  | [] => .ok []
  | (.text name, v) :: rest => do
    let j ← jsonOf v
    let others ← membersJson jsonOf rest
    return (name, j) :: others
  | (key, _) :: _ => .error (.keyNotText key.type)

def containerJson (jsonOf : Value → Except Fault Json) : Container → Except Fault Json
  | .array _ items => .array <$> itemsJson jsonOf items
  | .object members => .object <$> membersJson jsonOf members

-- The JSON value below the containers of `path`, with room for so many more.
def jsonBelow (limit : Int) (s : Sample) : (room : Nat) → (path : List Place) → Value → Except Fault Json
  | _, _, .leaf l => leafJson l
  | 0, path, .container p => .error (if p ∈ path then .selfReferential else .tooDeep limit)
  | room + 1, path, .container p =>
    if p ∈ path then .error .selfReferential
    else containerJson (jsonBelow limit s room (p :: path)) (s.contents p)

def toJson (maxDepth : Int) (s : Sample) : Except Fault Json :=
  jsonBelow maxDepth s maxDepth.toNat [] s.root

-- The canonical text of a sample, which tells apart any two samples that differ as JSON values.
def serialize (maxDepth : Int) (s : Sample) : Except Fault String := do
  let j ← s.toJson maxDepth
  j.canonical

end ShapeScribe.Sample
