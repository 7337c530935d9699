import ShapeScribe.Json.Display
import ShapeScribe.Json.Reader
import ShapeScribe.Sample.Json
import ShapeScribe.Synthesis
import ShapeScribe.Validation.Observation

/-!
Captures: files with one observation a line. Blank lines are passed over but counted; the first line that is
no observation spoils the capture. The routes are listed in the order in which they are first seen, with the
name that their first line gives.
-/

namespace ShapeScribe

structure Capture where
  routes : List Route
  observations : List Observation

namespace Capture

-- Lines with their ends; only a line feed ends a line.
def lines (bytes : List UInt8) : List (List UInt8) :=
  go [] bytes
where
  go : List UInt8 → List UInt8 → List (List UInt8)
    | [], [] => []
    | line, [] => [line.reverse]
    | line, b :: rest => if b = 10 then (b :: line).reverse :: go [] rest else go (b :: line) rest

def isBlank (line : List UInt8) : Bool := line.all Text.isByteBlank

structure Entry where
  routeName : String
  observation : Observation

-- The name to show for a route: the member's label, or the route id when there is none to speak of.
def routeName (j : Json) (routeId : String) : String :=
  match j.member? "route_name" with
  | some name => if name.isBlankLabel then routeId else name.label
  | none => routeId

def entry? (line : List UInt8) : Option Entry := do
  let text ← String.fromUTF8? ⟨line.toArray⟩
  let j ← Json.read? text
  match Observation.ofSample (Sample.ofJson j) with
  | .ok obs => return ⟨routeName j obs.routeId, obs⟩
  | .error _ => none

-- The entries of lines that are counted from `number` on. An error is the number of the line at fault.
def entriesFrom (number : Nat) : List (List UInt8) → Except Nat (List Entry)
  | [] => .ok []
  | line :: rest =>
    if isBlank line then entriesFrom (number + 1) rest
    else
      match entry? line with
      | none => .error number
      | some e => (entriesFrom (number + 1) rest).map (e :: ·)

def addRoute (routes : List Route) (e : Entry) : List Route :=
  let id := e.observation.routeId
  if routes.any (·.id = id) then routes else routes ++ [⟨id, e.routeName⟩]

def ofEntries (entries : List Entry) : Capture :=
  ⟨entries.foldl addRoute [], entries.map (·.observation)⟩

def read (bytes : List UInt8) : Except Nat Capture := (entriesFrom 1 (lines bytes)).map ofEntries

def faultMessage (path : String) (line : Nat) : String :=
  path ++ ":" ++ toString line ++ ": invalid observation"

end Capture

end ShapeScribe
