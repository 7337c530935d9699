import ShapeScribe.Sample.Key

/-!
Members in order of their keys. Texts always have an order. With other keys a comparison can fail, and which one
is made first decides on the fault: the leading run of members is taken as it is, or turned around if it falls,
and every further member goes to its place by halving.
-/

namespace ShapeScribe.Key

variable {α : Type}

-- Members as long as each does not precede the one before it, and the others; with `falls` as long as each does.
def runBehind (falls : Bool) (last : Key) : List (Key × α) → Except Fault (List (Key × α) × List (Key × α))
  | [] => .ok ([], [])
  | m :: rest => do
    if (← precedes m.1 last) == falls then
      let (run, others) ← runBehind falls m.1 rest
      return (m :: run, others)
    else return ([], m :: rest)

def leadingRun : List (Key × α) → Except Fault (List (Key × α) × List (Key × α))
  | m :: n :: rest => do
    let falls ← precedes n.1 m.1
    let (run, others) ← runBehind falls n.1 rest
    let run := m :: n :: run
    return (if falls then run.reverse else run, others)
  | members => .ok (members, [])

-- The place of a key between two positions of a run: behind the members that it does not precede.
def placeIn (run : List (Key × α)) (k : Key) (low high : Nat) : Except Fault Nat :=
  if _ : low < high then
    let middle := low + (high - low) / 2
    match run[middle]? with
    | none => .ok low
    | some (l, _) => do
      if ← precedes k l then placeIn run k low middle else placeIn run k (middle + 1) high
  else .ok low
termination_by high - low

def insertInto (run : List (Key × α)) (m : Key × α) : Except Fault (List (Key × α)) := do
  let place ← placeIn run m.1 0 run.length
  return run.take place ++ m :: run.drop place

def isText : Key → Bool
  | text _ => true
  | _ => false

def notAfter : Key → Key → Bool
  | text s, text t => s ≤ t
  | _, _ => true

def inOrder (members : List (Key × α)) : Except Fault (List (Key × α)) :=
  if members.all (·.1.isText) then .ok (members.mergeSort fun m n => notAfter m.1 n.1)
  else do
    let (run, others) ← leadingRun members
    others.foldlM insertInto run

end ShapeScribe.Key
