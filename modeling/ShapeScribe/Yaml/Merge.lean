import ShapeScribe.Yaml.Node

/-!
Merging: an entry under the key `<<` stands for the entries of the mapping that is its value, or of all mappings
in the sequence that is its value. They come before the mapping's own entries, those of a later mapping in a
sequence before those of an earlier one, so that the mapping's own entries take precedence.
-/

namespace ShapeScribe.Yaml

namespace Document

def node (d : Document) (slot : Slot) : Node := d.nodes.getD slot .nothing

def put (d : Document) (slot : Slot) (node : Node) : Document :=
  { d with nodes := d.nodes.setIfInBounds slot node }

def tagAt (d : Document) (slot : Slot) : Tag := (d.node slot).tag

-- The entries of a mapping; other nodes have none.
def entries? (d : Document) (slot : Slot) : Option (List (Slot × Slot)) :=
  match (d.node slot).content with
  | .mapping entries => some entries
  | _ => none

def setEntries (d : Document) (slot : Slot) (entries : List (Slot × Slot)) : Document :=
  d.put slot { d.node slot with content := .mapping entries }

-- The value of the first entry that is to be merged, and the other entries.
def takeMerge (d : Document) : List (Slot × Slot) → Option (Slot × List (Slot × Slot))
  | [] => none
  | (key, value) :: rest =>
    if d.tagAt key = .merge then some (value, rest)
    else (d.takeMerge rest).map fun (merged, others) => (merged, (key, value) :: others)

-- A key that is an equals sign counts as the text.
def nameStandIns (d : Document) (entries : List (Slot × Slot)) : Document :=
  entries.foldl (fun d (key, _) =>
    if d.tagAt key = .standIn then d.put key { d.node key with tag := .text } else d) d

-- Takes the entries to be merged one by one out of a mapping, so that a mapping that is merged into itself
-- has an end, and puts what they stand for in front. Every round takes an entry out of the document.
def flatten : (fuel : Nat) → (slot : Slot) → (merged : List (Slot × Slot)) → Document → Option Document
  | 0, _, _, _ => none
  | fuel + 1, slot, merged, d => do
    let entries ← d.entries? slot
    match d.takeMerge entries with
    | none => return (d.nameStandIns entries).setEntries slot (merged ++ entries)
    | some (value, others) =>
      let (found, d) ← mergedAt (flatten fuel · []) value (d.setEntries slot others)
      flatten fuel slot (merged ++ found) d
where
  -- The entries of a flattened mapping, or of several in a sequence.
  mergedAt (flatten : Slot → Document → Option Document) (slot : Slot) (d : Document) :
      Option (List (Slot × Slot) × Document) :=
    match (d.node slot).content with
    | .mapping _ => entriesAt flatten slot d
    | .sequence items => items.foldlM (fun (found, d) item => do
        let (entries, d) ← entriesAt flatten item d
        return (entries ++ found, d)) ([], d)
    | .scalar _ => none
  entriesAt (flatten : Slot → Document → Option Document) (slot : Slot) (d : Document) :
      Option (List (Slot × Slot) × Document) := do
    let d ← flatten slot d
    return (← d.entries? slot, d)

def entryCount (d : Document) : Nat :=
  d.nodes.foldl (fun n node => match node.content with
    | .mapping entries => n + entries.length
    | _ => n) 0

end Document

end ShapeScribe.Yaml
