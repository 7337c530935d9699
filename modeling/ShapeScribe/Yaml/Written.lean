import ShapeScribe.Text.Quoted
import ShapeScribe.Yaml.Cursor

/-!
Texts as a document writes them. Single quotes hold whatever prints, with line breaks as they are, of which a
reader keeps all but the next-line character; anything else is between double quotes and on one line.
-/

namespace ShapeScribe.Yaml.Written

def isLineMark (c : Char) : Bool := c == '\n' || c == '\x85' || c == '\u2028' || c == '\u2029'

def prints (c : Char) : Bool :=
  isLineMark c || (' ' ≤ c && c ≤ '~') ||
    ('\xa0' ≤ c && c != '\ufeff' && c != '\ufffe' && c != '\uffff' && c.toNat != 0x10ffff)

-- A reader drops the blanks around a line break.
def isFolding (c d : Char) : Bool := (c == ' ' && isLineMark d) || (isLineMark c && d == ' ')

def hasFolding (cs : List Char) : Bool := (cs.zip cs.tail).any fun (c, d) => isFolding c d

def fitsSingle (cs : List Char) : Bool := cs.all prints && !hasFolding cs

def indentation : List Char := [' ', ' ']

-- The first line feed of a run of breaks is doubled, and the line behind the run is indented.
def singleBody : (inBreaks : Bool) → List Char → List Char
  | inBreaks, [] => if inBreaks then indentation else []
  | inBreaks, c :: rest =>
    if isLineMark c then
      (if !inBreaks && c == '\n' then ['\n'] else []) ++ c :: singleBody true rest
    else
      (if inBreaks then indentation else []) ++ (if c == '\'' then [c, c] else [c]) ++ singleBody false rest

def single (cs : List Char) : List Char := '\'' :: singleBody false cs ++ ['\'']

def escaped (c : Char) : List Char :=
  if c == '"' || c == '\\' then ['\\', c]
  else if ' ' ≤ c && c ≤ '~' then [c]
  else if c.toNat < 256 then '\\' :: 'x' :: Text.hex 2 c.toNat
  else if c.toNat < 65536 then '\\' :: 'u' :: Text.hex 4 c.toNat
  else '\\' :: 'U' :: Text.hex 8 c.toNat

def double (cs : List Char) : List Char := '"' :: cs.flatMap escaped ++ ['"']

def text (cs : List Char) : List Char := if fitsSingle cs then single cs else double cs

-- A line of a mapping, its value already written.
def member (name : String) (value : List Char) : List Char := name.toList ++ [':', ' '] ++ value ++ ['\n']

end ShapeScribe.Yaml.Written
