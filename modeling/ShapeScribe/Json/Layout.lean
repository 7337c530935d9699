import ShapeScribe.Json.Canonical
import ShapeScribe.Text.Units

/-!
JSON text in ASCII, members in their own order: on one line, or with a line for every item.
-/

namespace ShapeScribe.Json

def asciiChar (c : Char) : List Char :=
  if c.toNat < 127 then escapedChar c
  else (Text.unitsOf c).flatMap fun unit => '\\' :: 'u' :: Text.hex 4 unit.toNat

def asciiText (s : String) : List Char := '"' :: s.toList.flatMap asciiChar ++ ['"']

-- How the items of a container are set apart at a given depth.
structure Layout where
  open_ : Nat → List Char
  between : Nat → List Char
  close : Nat → List Char
  colon : List Char

def oneLine : Layout := ⟨fun _ => [], fun _ => [','], fun _ => [], [':']⟩

def newLine (indent depth : Nat) : List Char := '\n' :: List.replicate (indent * depth) ' '

def oneItemALine (indent : Nat) : Layout :=
  ⟨newLine indent, fun depth => ',' :: newLine indent depth, fun depth => newLine indent (depth - 1), [':', ' ']⟩

def enclosed (l : Layout) (depth : Nat) (first last : Char) (items : List (List Char)) : List Char :=
  if items.isEmpty then [first, last]
  else first :: l.open_ depth ++ Token.joined (l.between depth) items ++ l.close depth ++ [last]

mutual

def laidOut (l : Layout) (depth : Nat) : Json → List Char
  | .array items => enclosed l (depth + 1) '[' ']' (laidOutItems l (depth + 1) items)
  | .object members => enclosed l (depth + 1) '\x7b' '\x7d' (laidOutMembers l (depth + 1) members)
  | .text s => asciiText s
  | scalar => writtenScalar scalar

def laidOutItems (l : Layout) (depth : Nat) : List Json → List (List Char)
  | [] => []
  | j :: rest => laidOut l depth j :: laidOutItems l depth rest

def laidOutMembers (l : Layout) (depth : Nat) : List (String × Json) → List (List Char)
  | [] => []
  | (name, j) :: rest => (asciiText name ++ l.colon ++ laidOut l depth j) :: laidOutMembers l depth rest

end

def ascii (j : Json) : String := String.ofList (j.laidOut oneLine 0)

def indented (j : Json) : String := String.ofList (j.laidOut (oneItemALine 2) 0)

end ShapeScribe.Json
