import ShapeScribe.Sample.KeyOrder
import ShapeScribe.Shape

/-!
Field maps: object samples merged into one union per field. A null value makes its field nullable, and a field
held by fewer samples than the whole list has is optional, so that a sample which is no object makes every
field optional.
-/

namespace ShapeScribe

structure FieldStat where
  tokens : List Token := []
  present : Nat := 0
  nullable : Bool := false
  optional : Bool := false

namespace FieldStat

def union (stat : FieldStat) : List Token :=
  Token.normalize (stat.tokens ++ (if stat.nullable then [.null] else []) ++
    (if stat.optional then [.undefined] else []))

def text (stat : FieldStat) : String := Token.unionText .unknown stat.union

-- One more sample holds the field, with a token unless the value is null.
def add (stat : FieldStat) : Option Token → FieldStat
  | none => { stat with present := stat.present + 1, nullable := true }
  | some t => { stat with present := stat.present + 1, tokens := stat.tokens ++ [t] }

end FieldStat

-- Statistics in the order in which the fields first appeared.
abbrev FieldStats := List (Key × FieldStat)

namespace FieldStats

def add (key : Key) (reading : Option Token) : FieldStats → FieldStats
  | [] => [(key, FieldStat.add {} reading)]
  | (k, stat) :: rest =>
    if k.same key then (k, stat.add reading) :: rest else (k, stat) :: add key reading rest

end FieldStats

namespace Sample

-- What the members of an object say about its fields; absent members say nothing.
def readings (shapeOf : Value → Except Fault Token) :
    List (Key × Value) → Except Fault (List (Key × Option Token))
  | [] => .ok []
  | (_, .leaf .missing) :: rest => readings shapeOf rest
  | (key, .leaf .null) :: rest => do
    let others ← readings shapeOf rest
    return (key, none) :: others
  | (key, v) :: rest => do
    let t ← shapeOf v
    let others ← readings shapeOf rest
    return (key, some t) :: others

-- The readings of a sample, none when it is no object. The sample itself is on the path of its members.
def fieldReadings (o : Options) (s : Sample) : Except Fault (List (Key × Option Token)) :=
  match s.object? with
  | none => .ok []
  | some (p, members) => readings (s.shapeBelow o (o.room 1) [p]) members

def allReadings (o : Options) : List Sample → Except Fault (List (Key × Option Token))
  | [] => .ok []
  | s :: rest => do
    let readings ← s.fieldReadings o
    let others ← allReadings o rest
    return readings ++ others

end Sample

def collectFields (o : Options) (samples : List Sample) : Except Fault FieldStats := do
  let readings ← Sample.allReadings o samples
  let stats := readings.foldl (fun stats r => FieldStats.add r.1 r.2 stats) []
  return stats.map fun (key, stat) => (key, { stat with optional := stat.present < samples.length })

-- The text of every field's union, in order of name.
def fieldMap (o : Options) (samples : List Sample) : Except Fault (List (Key × String)) := do
  let stats ← collectFields o samples
  let sorted ← Key.inOrder stats
  return sorted.map fun (key, stat) => (key, stat.text)

end ShapeScribe
