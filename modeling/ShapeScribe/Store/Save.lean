import ShapeScribe.Directory

/-!
Saving a text under a name: a temporary file is made, filled and brought to the disk, and then takes the place
of the file in one step. Every step can fail; then the temporary file is removed.
-/

namespace ShapeScribe.Save

inductive Step
  | create
  | write
  | flush
  | sync
  | replace
  deriving DecidableEq, Repr

-- What a save meets with: the characters that make the name of the temporary file its own, the step that the
-- device fails, and how much of the text has reached the file when writing is over but not flushed.
structure Conditions where
  suffix : String
  fault? : Step → Option FileFault := fun _ => none
  early : Nat := 0

def temporaryName (c : Conditions) (name : String) : String := "." ++ name ++ ".tmp." ++ c.suffix

-- The states that a directory goes through, the one that it is left in, and what went wrong.
structure Run (ε : Type) where
  seen : List Directory
  final : Directory
  fault? : Option ε

def Run.mapFault (f : ε → ε') (r : Run ε) : Run ε' := { r with fault? := r.fault?.map f }

abbrev Action := Step × (Directory → Except FileFault Directory)

def attempt (c : Conditions) (action : Action) (d : Directory) : Except FileFault Directory :=
  match c.fault? action.1 with
  | some fault => .error fault
  | none => action.2 d

-- What is done to a temporary file that has been made.
def actions (c : Conditions) (name text : String) : List Action :=
  let temporary := temporaryName c name
  [(.write, Directory.write temporary (String.ofList (text.toList.take c.early))),
    (.flush, Directory.write temporary text),
    (.sync, Except.ok),
    (.replace, Directory.rename temporary name)]

def follow (c : Conditions) (name : String) : List Action → Directory → Run FileFault
  | [], d => ⟨[], d, none⟩
  | action :: rest, d =>
    match attempt c action d with
    | .error fault =>
      let cleared := d.erase (temporaryName c name)
      ⟨[cleared], cleared, some fault⟩
    | .ok next =>
      let run := follow c name rest next
      { run with seen := next :: run.seen }

def run (c : Conditions) (name text : String) (d : Directory) : Run FileFault :=
  match attempt c (.create, Directory.create (temporaryName c name)) d with
  | .error fault => ⟨[], d, some fault⟩
  | .ok made =>
    let rest := follow c name (actions c name text) made
    { rest with seen := made :: rest.seen }

end ShapeScribe.Save
