/-!
Locations in the file system: a root, if the location is absolute, and the names below it. A name that stands
for the place itself disappears, and a leading tilde stands for the home directory.
-/

namespace ShapeScribe

structure Location where
  root : List Char
  names : List (List Char)
  deriving DecidableEq, Repr

namespace Location

-- The names between slashes, the empty ones and the single dots left out.
def namesOf (cs : List Char) : List (List Char) :=
  (go [] cs).filter fun name => !name.isEmpty && name != ['.']
where
  go : List Char → List Char → List (List Char)
    | name, [] => [name.reverse]
    | name, c :: rest => if c == '/' then name.reverse :: go [] rest else go (c :: name) rest

-- Two slashes make a root of their own; any other number of them counts as one.
def rootOf (cs : List Char) : List Char :=
  match (cs.takeWhile (· == '/')).length with
  | 0 => []
  | 2 => ['/', '/']
  | _ => ['/']

def ofText (text : String) : Location := ⟨rootOf text.toList, namesOf text.toList⟩

def joined : List (List Char) → List Char
  | [] => []
  | [name] => name
  | name :: rest => name ++ '/' :: joined rest

def text (l : Location) : String :=
  match l.root ++ joined l.names with
  | [] => "."
  | cs => String.ofList cs

def below (l : Location) (names : List String) : Location := { l with names := l.names ++ names.map (·.toList) }

-- The location with its tilde expanded. The home of a named user is not known.
def expanded? (home : String) (l : Location) : Option Location :=
  match l.root, l.names with
  | [], ('~' :: user) :: rest =>
    if user.isEmpty then
      let base := ofText home
      some { base with names := base.names ++ rest }
    else none
  | _, _ => some l

end Location

end ShapeScribe
