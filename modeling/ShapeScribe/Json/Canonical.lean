import ShapeScribe.Json.Basic
import ShapeScribe.Text.Quoted
import ShapeScribe.Token.Basic
import ShapeScribe.Fault

/-!
Canonical JSON text: members in order of name, no blanks, and no escapes but for quotes, backslashes and
control characters. Numbers that JSON cannot express, and integers too long to write, have no such text.
-/

namespace ShapeScribe.Json

def escapedChar (c : Char) : List Char :=
  if c = '"' ∨ c = '\\' then ['\\', c]
  else if c = '\n' then ['\\', 'n']
  else if c = '\r' then ['\\', 'r']
  else if c = '\t' then ['\\', 't']
  else if c = '\x08' then ['\\', 'b']
  else if c = '\x0c' then ['\\', 'f']
  else if c.toNat < 32 then '\\' :: 'u' :: Text.hex 4 c.toNat
  else [c]

def writtenText (s : String) : List Char := '"' :: s.toList.flatMap escapedChar ++ ['"']

def writtenInteger (n : Int) : List Char :=
  if n < 0 then '-' :: Nat.toDigits 10 n.natAbs else Nat.toDigits 10 n.natAbs

def writtenScalar : Json → List Char
  | .null => "null".toList
  | .boolean true => "true".toList
  | .boolean false => "false".toList
  | .integer n => writtenInteger n
  | .decimal x => (x.written numberStyle).toList
  | .text s => writtenText s
  | _ => []

def writtenMember (member : String × List Char) : List Char := writtenText member.1 ++ ':' :: member.2

mutual

def written : Json → List Char
  | .array items => '[' :: Token.joined [','] (writtenItems items) ++ [']']
  | .object members =>
    '{' :: Token.joined [','] ((Named.inOrder (writtenMembers members)).map writtenMember) ++ ['}']
  | scalar => writtenScalar scalar

def writtenItems : List Json → List (List Char)
  | [] => []
  | j :: rest => written j :: writtenItems rest

def writtenMembers : List (String × Json) → List (String × List Char)
  | [] => []
  | (name, j) :: rest => (name, written j) :: writtenMembers rest

end

def render (j : Json) : String := String.ofList j.written

def scalarFault : Json → Option Fault
  | .integer n => if tenTo 4300 ≤ n.natAbs then some .tooManyDigits else none
  | .decimal x => if x.isFinite then none else some .notFinite
  | _ => none

mutual

-- The first member without a text, in the order in which members are written.
def fault? : Json → Option Fault
  | .array items => (itemFaults items).findSome? id
  | .object members => (Named.inOrder (memberFaults members)).findSome? (·.2)
  | scalar => scalarFault scalar

def itemFaults : List Json → List (Option Fault)
  | [] => []
  | j :: rest => fault? j :: itemFaults rest

def memberFaults : List (String × Json) → List (String × Option Fault)
  | [] => []
  | (name, j) :: rest => (name, fault? j) :: memberFaults rest

end

def canonical (j : Json) : Except Fault String :=
  match j.fault? with
  | some fault => .error fault
  | none => .ok j.render

end ShapeScribe.Json
