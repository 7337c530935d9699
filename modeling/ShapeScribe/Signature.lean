import ShapeScribe.Outcome
import ShapeScribe.Sample.Json
import ShapeScribe.Text.Units

/-!
Signatures: the hash of a canonical payload, which holds the route, the grouped samples and the options that
have a bearing on the result. Equal payloads have equal declarations, so an unchanged signature means that
there is nothing to write.
-/

namespace ShapeScribe

namespace Fnv

def step (h : UInt32) (unit : UInt16) : UInt32 := (h ^^^ unit.toUInt32) * 16777619

-- The 32-bit hash of a sequence of code units, one multiplication a unit.
def hash (units : List UInt16) : UInt32 := units.foldl step 2166136261

end Fnv

-- The hash of a text in eight hexadecimal digits.
def hashText (text : String) : String := String.ofList (Text.hex 8 (Fnv.hash (Text.units text)).toNat)

namespace Signature

def samplesJson (maxDepth : Int) : List Sample → Except Fault (List Json)
  | [] => .ok []
  | s :: rest => do
    let j ← s.toJson maxDepth
    let js ← samplesJson maxDepth rest
    return j :: js

def groupJson (maxDepth : Int) (g : Group) : Except Fault Json := do
  let samples ← samplesJson maxDepth g.samples
  return .object [
    ("bucket", .text g.outcome.bucket.label),
    ("isError", .boolean g.outcome.isError),
    ("count", .integer g.samples.length),
    ("samples", .array samples)]

def groupsJson (maxDepth : Int) : List Group → Except Fault (List Json)
  | [] => .ok []
  | g :: rest => do
    let j ← groupJson maxDepth g
    let js ← groupsJson maxDepth rest
    return j :: js

def optionsJson (o : Options) : Json :=
  .object [
    ("analyzeAllArrayElements", .boolean o.analyzeAllArrayElements),
    ("detectDates", .boolean o.detectDates),
    ("maxArraySamples", .integer o.maxArraySamples)]

-- Each sample is checked against the depth guard by itself, whatever the payload wraps around it.
def payload (routeId : String) (groups : List Group) (o : Options) : Except Fault String := do
  let normalized ← groupsJson o.maxDepth (Group.inOrder groups)
  Json.canonical (.object [
    ("routeId", .text routeId),
    ("options", optionsJson o),
    ("normalized", .array normalized)])

end Signature

def signature (routeId : String) (groups : List Group) (o : Options) : Except Fault String :=
  (Signature.payload routeId groups o).map hashText

end ShapeScribe
