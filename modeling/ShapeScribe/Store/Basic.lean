import ShapeScribe.Store.FileName
import ShapeScribe.Store.Record
import ShapeScribe.Store.Save

/-!
The store: a directory with one file for every route, which holds the last record saved for it.
-/

namespace ShapeScribe

inductive StoreFault
  | file (fault : FileFault)
  | misfit (m : Yaml.Misfit)
  | unwritable
  deriving DecidableEq, Repr

def StoreFault.message : StoreFault → String
  | file fault => fault.message
  | misfit m => m.message
  | unwritable =>
    "Exceeds the limit (4300 digits) for integer string conversion; " ++
      "use sys.set_int_max_str_digits() to increase the limit"

namespace Store

def find (id : String) (d : Directory) : Except StoreFault (Option Entry) :=
  (d.find (fileName id)).mapError .file

-- The record of an entry; a folder holds none.
def read (now : Moment) : Entry → Except StoreFault (Option Record)
  | .folder => .ok none
  | .file text => (Record.ofText now text).mapError .misfit

def belongsTo (id : String) (r : Record) : Bool := r.declaration.routeId == id

-- The record in the file of a route. A file that cannot be read, or that is about another route, counts as none.
def load (now : Moment) (id : String) (d : Directory) : Except StoreFault (Option Record) := do
  match ← find id d with
  | none => return none
  | some entry => return (← read now entry).filter (belongsTo id)

def signatureOf (now : Moment) (id : String) (d : Directory) : Except StoreFault (Option String) := do
  return (← load now id d).map (·.declaration.signature)

def contains (id : String) (d : Directory) : Except StoreFault Bool := do return (← find id d).isSome

-- Whether there was a file to delete, and the directory without it.
def delete (id : String) (d : Directory) : Except StoreFault (Bool × Directory) := do
  match ← find id d with
  | none => return (false, d)
  | some _ => return (true, ← (d.remove (fileName id)).mapError .file)

-- A record that cannot be written fails before anything is done.
def save (c : Save.Conditions) (r : Record) (d : Directory) : Save.Run StoreFault :=
  if r.isWritable then (Save.run c (fileName r.declaration.routeId) r.text d).mapFault .file
  else ⟨[], d, some .unwritable⟩

def isRecordName (name : String) : Bool := ".yaml".toList.isSuffixOf name.toList

def readAll (now : Moment) : List Entry → Except StoreFault (List Record)
  | [] => .ok []
  | entry :: rest => do
    let found ← read now entry
    let others ← readAll now rest
    return found.toList ++ others

-- Every record in the directory, in order of route id.
def list (now : Moment) (d : Directory) : Except StoreFault (List Record) := do
  let files := (Named.inOrder d.entries).filter fun (name, _) => isRecordName name
  let records ← readAll now (files.map (·.2))
  return records.mergeSort fun r s => r.declaration.routeId ≤ s.declaration.routeId

end Store

end ShapeScribe
