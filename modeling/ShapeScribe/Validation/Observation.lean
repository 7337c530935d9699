import ShapeScribe.Outcome
import ShapeScribe.Validation.Raw

/-!
Observations out of decoded values: an object with a route id, and optionally a response, a status code, a
time, a method and an address. Other members are passed over.
-/

namespace ShapeScribe

def Leaf.raw : Leaf → Raw
  | .null => .null
  | .boolean b => .boolean b
  | .integer n => .integer n
  | .decimal x => .decimal x
  | .text s => .text s
  | .foreign (.bytes content) => .ofBytes content
  | _ => .other

def Value.raw : Value → Raw
  | .leaf l => l.raw
  | .container _ => .other

namespace Observation

-- The member of a name; the only keys that can match are texts.
def memberOf (name : String) : List (Key × Value) → Option Value
  | [] => none
  | (.text n, v) :: rest => if n = name then some v else memberOf name rest
  | _ :: rest => memberOf name rest

def ofMembers (s : Sample) (members : List (Key × Value)) : Validated Observation :=
  let field {α : Type} (name : String) (read : Raw → Except Complaint α) (default : Option α) : Validated α :=
    Validated.field name read default ((memberOf name members).map Value.raw)
  let response := (memberOf "response" members).getD (.leaf .null)
  let fields :=
    (field "route_id" Raw.asText none).and <|
    (field "status_code" (Raw.optional Raw.asInteger) (some none)).and <|
    (field "timestamp" Raw.asDecimal (some (.zero false))).and <|
    (field "method" Raw.asText (some "GET")).and
    (field "url" (Raw.optional Raw.asText) (some none))
  fields.map fun (routeId, status, timestamp, method, url) =>
    ⟨routeId, { s with root := response }, status, timestamp, method, url⟩

def ofSample (s : Sample) : Validated Observation :=
  match s.object? with
  | some (_, members) => ofMembers s members
  | none => .error [⟨[], .notAnObject⟩]

end Observation

end ShapeScribe
