import ShapeScribe.Command.Basic
import Std.Time.DateTime.Timestamp

/-!
The command line. Everything that a command needs is read beforehand, and what it has changed in the store is
brought to the disk before its report is shown.
-/

namespace ShapeScribe.Terminal

-- The variables that settings ask for, in their own letters, in small letters or in capitals.
def environment (content : Option (List UInt8)) : IO Environment := do
  let names := Settings.variableNames content
  (names.map (·.toLower) ++ names.map (·.toUpper) ++ names).filterMapM fun name =>
    return (← IO.getEnv name).map fun value => (name, value)

def content? (path : String) : IO (Option (List UInt8)) := do
  match ← (IO.FS.readBinFile path).toBaseIO with
  | .ok bytes => return some bytes.toList
  | .error _ => return none

def now : IO Moment := do
  let since := (← Std.Time.Timestamp.now).toNanosecondsSinceUnixEpoch.toInt
  let microsecond := (since.fmod 1000000000).toNat / 1000
  return (Moment.ofSeconds? (since.fdiv 1000000000) microsecond).getD (.midnight ⟨1970, 1, 1⟩)

-- Temporary files get names of their own from a clock that never stands still.
def conditions : IO Save.Conditions := do return { suffix := toString (← IO.monoNanosNow) }

-- The declarations on the disk. A directory that is not there yet is empty.
def directory (root : String) : IO Directory := do
  match ← (IO.FS.realPath root).toBaseIO with
  | .error _ => return {}
  | .ok path =>
    let found := (← path.readDir).toList.filter fun e => Store.isRecordName e.fileName
    let entries ← found.mapM fun e => do
      if ← e.path.isDir then return (e.fileName, Entry.folder)
      else return (e.fileName, Entry.file (← IO.FS.readFile e.path))
    return ⟨entries⟩

-- A file appears under its name complete or not at all.
def saveFile (c : Save.Conditions) (root name text : String) : IO Unit := do
  let temporary := root ++ "/" ++ Save.temporaryName c name
  IO.FS.writeFile temporary text
  IO.FS.rename temporary (root ++ "/" ++ name)

def saveChanges (c : Save.Conditions) (root : String) (before after : Directory) : IO Unit := do
  for (name, entry) in after.entries do
    match entry with
    | .file text =>
      if before.get? name != some entry then
        IO.FS.createDirAll root
        saveFile c root name text
    | .folder => pure ()

def perform (home : String) (s : Settings) (command : Command) : IO Report := do
  let content ← command.captureName?.mapM content?
  let machine : Regeneration.Machine := ⟨← now, ← conditions⟩
  let root? := (command.location? home s).map Location.text
  let before? ← root?.mapM directory
  let (report, after?) := command.run ⟨home, s, machine⟩ content.join before?
  if let (some root, some before, some after) := (root?, before?, after?) then
    saveChanges machine.conditions root before after
  return report

def present (report : Report) : IO UInt32 := do
  IO.print report.out
  if !report.err.isEmpty then IO.eprintln report.err
  if let some crash := report.crash then IO.eprintln crash.message
  return report.exit.toUInt32

def start (home : String) (arguments : List String) : IO UInt32 := do
  let file := ((Settings.configuration home).below ["config.json"]).text
  let settings ← content? file
  match Settings.load settings (← environment settings) with
  | .error fault =>
    IO.eprintln fault.message
    return 1
  | .ok s =>
    match Command.read? arguments with
    | none =>
      IO.eprintln Command.usage
      present .usage
    | some command => present (← perform home s command)

end ShapeScribe.Terminal

def main (arguments : List String) : IO UInt32 := do
  match ← IO.getEnv "HOME" with
  | some home => ShapeScribe.Terminal.start home arguments
  | none => ShapeScribe.Terminal.present (.crashed .noHome "")
