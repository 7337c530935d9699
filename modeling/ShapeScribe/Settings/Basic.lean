import ShapeScribe.Json.Layout
import ShapeScribe.Json.Reader
import ShapeScribe.Options
import ShapeScribe.Settings.Location
import ShapeScribe.Settings.Scope
import ShapeScribe.Validation.Raw

/-!
Settings in three groups. The value of a field is the one that the file gives to it, else the one of its own
variable in the environment, else the default.
-/

namespace ShapeScribe

structure Logging where
  level : String := "INFO"
  asJson : Bool := true
  deriving DecidableEq, Repr

structure Settings where
  inference : Options := {}
  logging : Logging := {}
  directory : Option String := none
  deriving DecidableEq, Repr

namespace Settings

inductive Fault
  | unreadableVariable (group : String)
  | unusable (member : Scope.Unusable)
  | invalid (issues : List Issue)
  deriving DecidableEq, Repr

def unreadableMessage (group : String) : String :=
  "error parsing value for field \"" ++ group ++ "\" from source \"EnvSettingsSource\""

def issueMessage (issue : Issue) : String :=
  String.intercalate "." issue.location ++ ": " ++ issue.complaint.name

def Fault.message : Fault → String
  | unreadableVariable group => unreadableMessage group
  | unusable member => member.message
  | invalid issues => String.intercalate "\n" (issues.map issueMessage)

-- What a file holds by name: nothing if it is missing, unreadable or no object.
def fileMembers (content : Option (List UInt8)) : List (String × Json) :=
  let read? : Option Json := do
    let bytes ← content
    let text ← String.fromUTF8? ⟨bytes.toArray⟩
    Json.read? text
  match read? with
  | some (.object members) => members
  | _ => []

def inferenceFields : List String :=
  ["max_array_samples", "analyze_all_array_elements", "detect_dates", "max_depth", "window_size"]

def loggingFields : List String := ["level", "json_output"]

def storeFields : List String := ["directory"]

def groups : List (String × List String) :=
  [("inference", inferenceFields), ("logging", loggingFields), ("store", storeFields)]

def rootScope (members : List (String × Json)) : Scope := .ofMembers "ATD_" members

def groupScope (group : String) (given : List (String × Json)) : Scope :=
  .ofMembers ("ATD_" ++ group.toUpper ++ "_") given

-- The variables that settings ask for by name when they are read with the given file.
def variableNames (content : Option (List UInt8)) : List String :=
  let members := fileMembers content
  let scope := rootScope members
  groups.flatMap fun (group, fields) =>
    let given := match Named.get? group members with
      | some (.object given) => given
      | _ => []
    let whole := scope.leading ++ group
    let inside := whole ++ String.ofList scope.separator
    whole :: fields.map (inside ++ ·) ++ fields.map ((groupScope group given).leading ++ ·)

-- What is known about a group before its defaults: the members given for it, and the environment.
structure Source where
  env : Environment
  scope : Scope
  given : List (String × Json)

namespace Source

def ofGroup (env : Environment) (group : String) (given : List (String × Json)) : Source :=
  ⟨env, groupScope group given, given⟩

def get? (s : Source) (field : String) : Option Raw :=
  ((Named.get? field s.given).or (s.scope.get? s.env field)).map Json.raw

def field (s : Source) (name : String) (read : Raw → Except Complaint α) (default : α) : Validated α :=
  Validated.field name read (some default) (s.get? name)

-- Members that neither a field nor the scope accounts for.
def unexpected (s : Source) (fields : List String) : Validated Unit :=
  match (s.given.map (·.1)).filter fun name => !fields.contains name && !Scope.reserved.contains name with
  | [] => .ok ()
  | names => .error (names.map fun name => ⟨[name], .unexpected⟩)

end Source

def inferenceOf (s : Source) : Validated Options :=
  let fields :=
    (s.field "max_array_samples" (Raw.integerWithin 1 none) 100).and <|
    (s.field "analyze_all_array_elements" Raw.asBoolean true).and <|
    (s.field "detect_dates" Raw.asBoolean true).and <|
    (s.field "max_depth" (Raw.integerWithin 1 (some 256)) 64).and <|
    (s.field "window_size" (Raw.integerWithin 1 none) 10).and
    (s.unexpected inferenceFields)
  fields.map fun (maxArraySamples, analyzeAllArrayElements, detectDates, maxDepth, windowSize, _) =>
    { maxArraySamples, analyzeAllArrayElements, detectDates, maxDepth, windowSize }

def loggingOf (s : Source) : Validated Logging :=
  let fields :=
    (s.field "level" Raw.asText "INFO").and <|
    (s.field "json_output" Raw.asBoolean true).and
    (s.unexpected loggingFields)
  fields.map fun (level, asJson, _) => { level, asJson }

def directoryOf (s : Source) : Validated (Option String) :=
  ((s.field "directory" (Raw.optional Raw.asText) none).and (s.unexpected storeFields)).map (·.1)

-- Members under the names of fields, which may be in any case unless names have to be exact.
def fieldMembers (scope : Scope) (fields : List String) (members : List (String × Json)) : Json :=
  .ofMembers (members.map fun (name, j) => (if scope.isExact then name else fieldName name, j))
where
  fieldName (name : String) : String :=
    (fields.find? fun field => Environment.folded field == Environment.folded name).getD name

-- What the environment gives to a group as a whole: the JSON in its own variable, in which a null counts as not
-- set, and what other variables say about its members.
def variableGroup (scope : Scope) (env : Environment) (group : String) (fields : List String) :
    Except Fault (Option Json) :=
  let members := scope.membersOf env group
  match scope.get? env group with
  | none => .ok (if members.isEmpty then none else some (fieldMembers scope fields members))
  | some (.text text) =>
    match Json.read? text with
    | none => .error (.unreadableVariable group)
    | some .null => .ok none
    | some (.object whole) => .ok (some (fieldMembers scope fields (whole ++ members)))
    | some j => .ok (some j)
  | some j => .ok (some j)

-- The members of a variable with those of the file laid over them.
def overlaid : (below above : Option Json) → Option Json
  | some (.object below), some (.object above) => some (.ofMembers (below ++ above))
  | below, above => above.or below

def located (group : String) (issues : List Issue) : List Issue :=
  issues.map fun issue => { issue with location := group :: issue.location }

def usable (members : List (String × Json)) : Except Fault Unit :=
  match Scope.unusable? members with
  | some member => .error (.unusable member)
  | none => .ok ()

-- A group that is given is read with the issues located in it. One that is not is read from its own variables
-- alone, and its issues count by themselves and at once.
def readGroup (env : Environment) (group : String) (value : Option Json) (read : Source → Validated α) :
    Except Fault (Validated α) :=
  match value with
  | none => ((read (.ofGroup env group [])).mapError .invalid).map .ok
  | some (.object given) => do
    usable given
    return (read (.ofGroup env group given)).mapError (located group)
  | some _ => .ok (.error [⟨[group], .notAnObject⟩])

def load (content : Option (List UInt8)) (env : Environment) : Except Fault Settings := do
  let members := fileMembers content
  usable members
  let scope := rootScope members
  let inferenceVariable ← variableGroup scope env "inference" inferenceFields
  let loggingVariable ← variableGroup scope env "logging" loggingFields
  let storeVariable ← variableGroup scope env "store" storeFields
  let value (group : String) (whole : Option Json) := overlaid whole (Named.get? group members)
  let inference ← readGroup env "inference" (value "inference" inferenceVariable) inferenceOf
  let logging ← readGroup env "logging" (value "logging" loggingVariable) loggingOf
  let directory ← readGroup env "store" (value "store" storeVariable) directoryOf
  match inference.and (logging.and directory) with
  | .ok (inference, logging, directory) => return { inference, logging, directory }
  | .error issues => .error (.invalid issues)

-- Fields without a value are left out.
def toJson (s : Settings) : Json := .object [
  ("inference", .object [
    ("max_array_samples", .integer s.inference.maxArraySamples),
    ("analyze_all_array_elements", .boolean s.inference.analyzeAllArrayElements),
    ("detect_dates", .boolean s.inference.detectDates),
    ("max_depth", .integer s.inference.maxDepth),
    ("window_size", .integer s.inference.windowSize)]),
  ("logging", .object [
    ("level", .text s.logging.level),
    ("json_output", .boolean s.logging.asJson)]),
  ("store", .object ((s.directory.map fun d => ("directory", Json.text d)).toList))]

-- What the file holds when the settings are saved.
def text (s : Settings) : String := s.toJson.indented

def configuration (home : String) : Location := (Location.ofText home).below [".config", "api-type-detector"]

def defaultStore (home : String) : Location := (configuration home).below ["declarations"]

-- Where declarations are stored. An empty directory is none.
def storeLocation? (home : String) (s : Settings) : Option Location :=
  match s.directory with
  | some directory => if directory.isEmpty then some (defaultStore home) else (Location.ofText directory).expanded? home
  | none => some (defaultStore home)

end Settings

end ShapeScribe
