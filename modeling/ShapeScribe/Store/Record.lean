import ShapeScribe.Synthesis
import ShapeScribe.Yaml.Value
import ShapeScribe.Yaml.Written

/-!
Records: declarations as they are stored, with the moment of the last update, and their files.
-/

namespace ShapeScribe

structure Record where
  declaration : Declaration
  updated : Moment
  deriving DecidableEq, Repr

namespace Record

-- A record out of named values. Without a moment of its own it counts as updated `now`.
def ofMembers (now : Moment) (member? : String → Option Raw) : Validated Record :=
  let field {α : Type} (name : String) (read : Raw → Except Complaint α) (default : Option α) : Validated α :=
    Validated.field name read default (member? name)
  let fields :=
    (field "route_id" Raw.asText none).and <|
    (field "route_name" Raw.asText none).and <|
    (field "type_name" Raw.asText none).and <|
    (field "type_definition" Raw.asText none).and <|
    (field "sample_count" Raw.asInteger none).and <|
    (field "signature" Raw.asText none).and
    (field "last_updated" Raw.asMoment (some now))
  fields.map fun (routeId, routeName, typeName, typeDefinition, sampleCount, signature, updated) =>
    ⟨⟨routeId, routeName, typeName, typeDefinition, sampleCount, signature⟩, updated⟩

-- A count of more than 4300 digits is too long to be written.
def isWritable (r : Record) : Bool := r.declaration.sampleCount.natAbs < tenTo 4300

-- One member a line.
def text (r : Record) : String :=
  let textMember (name value : String) : List Char := Yaml.Written.member name (Yaml.Written.text value.toList)
  String.ofList <|
    textMember "route_id" r.declaration.routeId ++
    textMember "route_name" r.declaration.routeName ++
    textMember "type_name" r.declaration.typeName ++
    textMember "type_definition" r.declaration.typeDefinition ++
    Yaml.Written.member "sample_count" (Json.writtenInteger r.declaration.sampleCount) ++
    textMember "signature" r.declaration.signature ++
    textMember "last_updated" r.updated.text

-- The record that a file holds, none if it is no mapping with the members of a record. A scalar that does not
-- fit its tag is worse than that, and comes through as an error.
def ofText (now : Moment) (text : String) : Except Yaml.Misfit (Option Record) :=
  match Yaml.members? text with
  | .ok (some members) => .ok (ofMembers now fun name => Named.get? name members).toOption
  | .ok none | .error .malformed => .ok none
  | .error (.misfit m) => .error m

end Record

end ShapeScribe
