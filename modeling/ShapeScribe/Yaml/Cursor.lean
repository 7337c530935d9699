/-!
A place in a text, with the line and column that it stands in. Beyond the end there are only nul characters.
-/

namespace ShapeScribe.Yaml

-- Line feed, next line, and the line and paragraph separators; a carriage return counts as well.
def isBreak (c : Char) : Bool := c == '\n' || c == '\r' || c == '\x85' || c == '\u2028' || c == '\u2029'

def isBreakOrEnd (c : Char) : Bool := isBreak c || c == '\x00'

def isSpaceOrEnd (c : Char) : Bool := isBreakOrEnd c || c == ' ' || c == '\t'

-- A place in a text of so many characters, with those behind it.
structure Cursor where
  size : Nat
  rest : List Char
  index : Nat := 0
  line : Nat := 0
  column : Nat := 0

namespace Cursor

def ofChars (cs : List Char) : Cursor := { size := cs.length, rest := cs }

def peek (c : Cursor) (ahead : Nat) : Char := (c.rest.drop ahead).headD '\x00'

def head (c : Cursor) : Char := c.rest.headD '\x00'

-- One character on. A carriage return ends its line only when no line feed follows.
def step (c : Cursor) : Cursor :=
  match c.rest with
  | [] => c
  | ch :: rest =>
    if isBreak ch && !(ch == '\r' && rest.head? == some '\n') then
      { c with rest, index := c.index + 1, line := c.line + 1, column := 0 }
    else
      { c with rest, index := c.index + 1, column := if ch == '\ufeff' then c.column else c.column + 1 }

def forward : Nat → Cursor → Cursor
  | 0, c => c
  | n + 1, c => forward n c.step

-- The characters up to the first without the property, and the place behind them.
def span (p : Char → Bool) (c : Cursor) : List Char × Cursor :=
  let taken := c.rest.takeWhile p
  (taken, c.forward taken.length)

def skip (p : Char → Bool) (c : Cursor) : Cursor := (c.span p).2

-- A line break as the text it stands for, empty when there is none.
def lineBreak (c : Cursor) : List Char × Cursor :=
  match c.rest with
  | '\r' :: '\n' :: _ => (['\n'], c.forward 2)
  | ch :: _ =>
    if ch == '\n' || ch == '\r' || ch == '\x85' then (['\n'], c.step)
    else if ch == '\u2028' || ch == '\u2029' then ([ch], c.step)
    else ([], c)
  | [] => ([], c)

-- Three equal marks that stand alone at the place.
def isMarker (mark : Char) (c : Cursor) : Bool :=
  c.rest.take 3 == [mark, mark, mark] && isSpaceOrEnd (c.peek 3)

def isDocumentMarker (c : Cursor) : Bool := c.isMarker '-' || c.isMarker '.'

-- Bounds on the steps that can be taken from here: to the end, and up to the first character of a word.
def fuel (c : Cursor) : Nat := c.size - c.index + 1

def blankFuel (c : Cursor) : Nat := (c.rest.takeWhile isSpaceOrEnd).length + 1

end Cursor

end ShapeScribe.Yaml
