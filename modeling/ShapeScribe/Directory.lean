import ShapeScribe.Named

/-!
Directories of text files and folders, and what can go wrong with a file.
-/

namespace ShapeScribe

inductive FileFault
  | isFolder
  | absent
  | present
  | nameTooLong
  | device
  deriving DecidableEq, Repr

def FileFault.message : FileFault → String
  | isFolder => "Is a directory"
  | absent => "No such file or directory"
  | present => "File exists"
  | nameTooLong => "File name too long"
  | device => "Input/output error"

inductive Entry
  | file (text : String)
  | folder
  deriving DecidableEq, Repr

structure Directory where
  entries : List (String × Entry) := []
  deriving DecidableEq, Repr

namespace Directory

def empty : Directory := {}

def names (d : Directory) : List String := d.entries.map (·.1)

def get? (name : String) (d : Directory) : Option Entry := Named.get? name d.entries

def put (name : String) (entry : Entry) (d : Directory) : Directory := ⟨Named.set name entry d.entries⟩

def erase (name : String) (d : Directory) : Directory := ⟨d.entries.filter (·.1 != name)⟩

-- The bytes that a name can have.
def nameLimit : Nat := 255

def fits (name : String) : Bool := name.utf8ByteSize ≤ nameLimit

-- What stands under a name. About a name that cannot exist there is no answer.
def find (name : String) (d : Directory) : Except FileFault (Option Entry) :=
  if fits name then .ok (d.get? name) else .error .nameTooLong

def create (name : String) (d : Directory) : Except FileFault Directory := do
  match ← d.find name with
  | none => return d.put name (.file "")
  | some _ => .error .present

-- Gives a file its text; the file need not be there before.
def write (name text : String) (d : Directory) : Except FileFault Directory := do
  match ← d.find name with
  | some .folder => .error .isFolder
  | _ => return d.put name (.file text)

def remove (name : String) (d : Directory) : Except FileFault Directory := do
  match ← d.find name with
  | none => .error .absent
  | some .folder => .error .isFolder
  | some (.file _) => return d.erase name

-- Moves a file to another name in one step. A file of that name is replaced, a folder is in the way.
def rename (source target : String) (d : Directory) : Except FileFault Directory := do
  match ← d.find source, ← d.find target with
  | none, _ => .error .absent
  | some _, some .folder => .error .isFolder
  | some entry, _ => return (d.erase source).put target entry

def makeFolder (name : String) (d : Directory) : Except FileFault Directory := do
  match ← d.find name with
  | none => return d.put name .folder
  | some _ => .error .present

end Directory

end ShapeScribe
