/-!
Values by name, as lists of pairs: the first position of a name stays, the last value wins.
-/

namespace ShapeScribe.Named

def set (name : String) (value : α) : List (String × α) → List (String × α)
  | [] => [(name, value)]
  | (n, v) :: rest => if n = name then (n, value) :: rest else (n, v) :: set name value rest

def ofPairs (pairs : List (String × α)) : List (String × α) :=
  pairs.foldl (fun kept p => set p.1 p.2 kept) []

def get? (name : String) (pairs : List (String × α)) : Option α :=
  (pairs.find? (·.1 == name)).map (·.2)

def inOrder (pairs : List (String × α)) : List (String × α) := pairs.mergeSort fun p q => p.1 ≤ q.1

end ShapeScribe.Named
