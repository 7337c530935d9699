import ShapeScribe.Capture
import ShapeScribe.Command.Arguments
import ShapeScribe.Regeneration
import ShapeScribe.Settings.Basic
import ShapeScribe.Text.ControlSequence

/-!
The commands: synthesize the routes of a capture, show one stored declaration, list them all, and show the
settings. A command answers with an exit code and texts, and with the store as it leaves it.
-/

namespace ShapeScribe

inductive Command
  | generate (capture : String) (route : Option String) (store : Option String) (print : Bool)
  | show (routeId : String) (store : Option String)
  | list (store : Option String)
  | config
  deriving DecidableEq, Repr

-- Why a command breaks off.
inductive Crash
  | unknownLevel
  | noHome
  | store (fault : StoreFault)
  deriving DecidableEq, Repr

def Crash.message : Crash → String
  | unknownLevel => "Unknown log level."
  | noHome => "Could not determine home directory."
  | store fault => fault.message

-- Texts meant to be read on a terminal do not control it.
def plain (text : String) : String := String.ofList (Text.ControlSequence.remove text.toList)

structure Report where
  exit : Nat := 0
  out : String := ""
  err : String := ""
  crash : Option Crash := none
  deriving DecidableEq, Repr

namespace Report

def usage : Report := { exit := 2 }

def failed (message : String) : Report := { exit := 1, err := plain message }

def crashed (crash : Crash) (out : String) : Report := { exit := 1, out, crash := some crash }

end Report

namespace Command

-- The command that a line of arguments asks for, none if it asks for nothing known.
def read? : List String → Option Command
  | "generate" :: rest => do
    let a ← Arguments.read? [.route, .storeDirectory, .print, .noPrint] rest
    match a.others with
    | [capture] =>
      return .generate capture (a.value? .route) (a.value? .storeDirectory) (a.isOn .print .noPrint true)
    | _ => none
  | "show" :: rest => do
    let a ← Arguments.read? [.storeDirectory] rest
    match a.others with
    | [routeId] => return .show routeId (a.value? .storeDirectory)
    | _ => none
  | "list" :: rest => do
    let a ← Arguments.read? [.storeDirectory] rest
    if a.others.isEmpty then return .list (a.value? .storeDirectory) else none
  | "config" :: rest => do
    let a ← Arguments.read? [] rest
    if a.others.isEmpty then return .config else none
  | _ => none

def usage : String :=
  "Usage: generate [--route ID] [--store-dir DIR] [--print | --no-print] CAPTURE\n" ++
  "       show [--store-dir DIR] ID\n" ++
  "       list [--store-dir DIR]\n" ++
  "       config"

def captureName? : Command → Option String
  | generate capture .. => some capture
  | _ => none

def storeOption? : Command → Option String
  | generate _ _ store _ | .show _ store | list store => store
  | config => none

-- The place of the store: the one that the command names, else the one of the settings.
def location? (home : String) (s : Settings) (c : Command) : Option Location :=
  match c.storeOption? with
  | some text => if text.isEmpty then s.storeLocation? home else (Location.ofText text).expanded? home
  | none => s.storeLocation? home

-- What the commands run in.
structure Surroundings where
  home : String
  settings : Settings
  machine : Regeneration.Machine

def levels : List String := ["CRITICAL", "FATAL", "ERROR", "WARNING", "WARN", "INFO", "DEBUG", "NOTSET"]

-- Levels may be written in letters of any case.
def knowsLevel (level : String) : Bool :=
  levels.contains (String.ofList (level.toList.flatMap Text.titleChar))

def rawLine (text : String) : String := text ++ "\n"

def line (text : String) : String := rawLine (plain text)

def changeText (print : Bool) (d : Declaration) : String :=
  line ("// " ++ d.routeName ++ " (" ++ toString d.sampleCount ++ " samples, " ++ d.signature ++ ")") ++
    (if print then line d.typeDefinition ++ line "" else "")

def changesText (print : Bool) (changed : List Declaration) : String :=
  if changed.isEmpty then line "No changes." else String.join (changed.map (changeText print))

def failureReport : Regeneration.Failure → Report
  | .sample fault => .failed ("Error: " ++ fault.message)
  | .store fault => .crashed (.store fault) ""

-- What a command does with the store. Without a home directory there may be no place for one.
def atStore (act : Directory → Report × Directory) : Option Directory → Report × Option Directory
  | none => (.crashed .noHome "", none)
  | some d =>
    let (report, d) := act d
    (report, some d)

def synthesizeRoutes (w : Surroundings) (print : Bool) (routes : List Route) (observations : List Observation)
    (d : Directory) : Report × Directory :=
  match Regeneration.run (fun _ => w.machine) observations w.settings.inference routes { directory := d } with
  | (s, none) => ({ out := changesText print s.changed }, s.directory)
  | (s, some failure) => (failureReport failure, s.directory)

-- The routes to work on: all of them, or the one that is asked for.
def chosenRoutes (route : Option String) (routes : List Route) : List Route :=
  match route with
  | none => routes
  | some id => routes.filter (·.id = id)

def runGenerate (w : Surroundings) (capture : String) (content : Option (List UInt8)) (route : Option String)
    (print : Bool) (store : Option Directory) : Report × Option Directory :=
  match content with
  | none => (.usage, store)
  | some bytes =>
    if !knowsLevel w.settings.logging.level then (.crashed .unknownLevel "", store)
    else
      match Capture.read bytes with
      | .error number => (.failed ("Error: " ++ Capture.faultMessage (Location.ofText capture).text number), store)
      | .ok c =>
        let routes := chosenRoutes route c.routes
        match route, routes with
        | some id, [] => (.failed ("Route not found in capture: " ++ id), store)
        | _, _ => atStore (synthesizeRoutes w print routes c.observations) store

def runShow (w : Surroundings) (id : String) (d : Directory) : Report :=
  match Store.load w.machine.now id d with
  | .error fault => .crashed (.store fault) ""
  | .ok none => .failed ("No declaration stored for route: " ++ id)
  | .ok (some r) => { out := line r.declaration.typeDefinition }

def rowText (r : Record) : String :=
  let d := r.declaration
  line (d.routeId ++ "\t" ++ d.typeName ++ "\t" ++ toString d.sampleCount ++ " samples\t" ++ d.signature)

def runList (w : Surroundings) (d : Directory) : Report :=
  match Store.list w.machine.now d with
  | .error fault => .crashed (.store fault) ""
  | .ok [] => { out := line "No declarations stored." }
  | .ok records => { out := String.join (records.map rowText) }

def flagText (b : Bool) : String := if b then "True" else "False"

def runConfig (w : Surroundings) : Report :=
  let o := w.settings.inference
  let options :=
    rawLine ("Max array samples: " ++ toString o.maxArraySamples) ++
    rawLine ("Analyze all array elements: " ++ flagText o.analyzeAllArrayElements) ++
    rawLine ("Detect dates: " ++ flagText o.detectDates) ++
    rawLine ("Max depth: " ++ toString o.maxDepth) ++
    rawLine ("Window size: " ++ toString o.windowSize)
  match w.settings.storeLocation? w.home with
  | none => .crashed .noHome options
  | some location =>
    { out := options ++ rawLine ("Store directory: " ++ location.text) ++
        rawLine ("Log level: " ++ w.settings.logging.level) }

-- A command with the content of its capture, if that is a file, and the directory at its place, if it has one.
def run (w : Surroundings) (content : Option (List UInt8)) (store : Option Directory) :
    Command → Report × Option Directory
  | generate capture route _ print => runGenerate w capture content route print store
  | .show id _ => atStore (fun d => (runShow w id d, d)) store
  | list _ => atStore (fun d => (runList w d, d)) store
  | config => (runConfig w, store)

end Command

end ShapeScribe
