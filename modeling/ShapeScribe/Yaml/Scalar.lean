import ShapeScribe.Json.Reader
import ShapeScribe.Yaml.Cursor
import ShapeScribe.Yaml.Misfit

/-!
The five forms of a scalar: plain, between single or double quotes, and the two block forms. Line breaks inside
a flow scalar fold: a single one is a space, and of several the first disappears.
-/

namespace ShapeScribe.Yaml.Scalar

-- A first break and the breaks behind it, folded.
def folded (first : List Char) (others : List Char) : List Char :=
  if first != ['\n'] then first ++ others else if others.isEmpty then [' '] else others

def isSpace (c : Char) : Bool := c == ' ' || c == '\t'

-- Breaks with the blanks around them, inside a quoted scalar. A document marker cannot start a line there.
def quotedBreaks? : (fuel : Nat) → Cursor → Option (List Char × Cursor)
  | 0, _ => none
  | fuel + 1, c =>
    if c.isDocumentMarker then none
    else
      let c := c.skip isSpace
      if isBreak c.head then do
        let (br, c) := c.lineBreak
        let (others, c) ← quotedBreaks? fuel c
        return (br ++ others, c)
      else some ([], c)

def quotedBlanks? (c : Cursor) : Option (List Char × Cursor) := do
  let (blanks, c) := c.span isSpace
  if isBreak c.head then
    let (first, c) := c.lineBreak
    let (others, c) ← quotedBreaks? c.blankFuel c
    return (folded first others, c)
  else if c.rest.isEmpty then none
  else return (blanks, c)

def simpleEscape? : Char → Option Char
  | '0' => some '\x00'
  | 'a' => some '\x07'
  | 'b' => some '\x08'
  | 't' | '\t' => some '\t'
  | 'n' => some '\n'
  | 'v' => some '\x0b'
  | 'f' => some '\x0c'
  | 'r' => some '\r'
  | 'e' => some '\x1b'
  | ' ' => some ' '
  | '"' => some '"'
  | '\\' => some '\\'
  | '/' => some '/'
  | 'N' => some '\x85'
  | '_' => some '\xa0'
  | 'L' => some '\u2028'
  | 'P' => some '\u2029'
  | _ => none

def escapeWidth? : Char → Option Nat
  | 'x' => some 2
  | 'u' => some 4
  | 'U' => some 8
  | _ => none

def hexNumber? (cs : List Char) : Option Nat :=
  cs.foldl (fun n c => do return (← n) * 16 + (← Json.hexValue? c)) (some 0)

def character (n : Nat) : Except Misfit Char :=
  if 0x7fffffff < n then .error .farFromCharacter
  else if 0x10ffff < n then .error .noCharacter
  else .ok (Char.ofNat n)

-- What an escape stands for, from behind its backslash.
def escape (c : Cursor) : Reading (List Char × Cursor) := do
  match simpleEscape? c.head with
  | some ch =>
    if c.rest.isEmpty then throw .malformed
    return ([ch], c.step)
  | none =>
    match escapeWidth? c.head with
    | some width =>
      let c := c.step
      let digits := c.rest.take width
      if digits.length < width then throw .malformed
      let ch ← character (← hexNumber? digits)
      return ([ch], c.forward width)
    | none =>
      if !isBreak c.head then throw .malformed
      let (_, c) := c.lineBreak
      quotedBreaks? c.blankFuel c

-- The rest of a quoted scalar behind the characters of `done`, which are in reverse. Two single quotes stand
-- for one; only double quotes know escapes.
def quotedFrom (double : Bool) : (fuel : Nat) → (done : List Char) → Cursor → Reading (List Char × Cursor)
  | 0, _, _ => .error .malformed
  | fuel + 1, done, c =>
    let ch := c.head
    if c.rest.isEmpty then .error .malformed
    else if !double && ch == '\'' then
      if c.peek 1 == '\'' then quotedFrom double fuel (ch :: done) (c.forward 2) else .ok (done.reverse, c.step)
    else if double && ch == '"' then .ok (done.reverse, c.step)
    else if double && ch == '\\' then do
      let (chars, c) ← escape c.step
      quotedFrom double fuel (chars.reverse ++ done) c
    else if isSpace ch || isBreak ch then do
      let (chars, c) ← quotedBlanks? c
      quotedFrom double fuel (chars.reverse ++ done) c
    else quotedFrom double fuel (ch :: done) c.step

def quoted (double : Bool) (c : Cursor) : Reading (List Char × Cursor) := quotedFrom double c.fuel [] c.step

def isFlowMark (c : Char) : Bool := c == ',' || c == '[' || c == ']' || c == '\x7b' || c == '\x7d'

-- The characters of a plain scalar up to the next blank or mark.
def plainRun (inFlow : Bool) : List Char → List Char
  | [] => []
  | ch :: rest =>
    let next := rest.headD '\x00'
    if isSpaceOrEnd ch then []
    else if ch == ':' && (isSpaceOrEnd next || (inFlow && isFlowMark next)) then []
    else if inFlow && (isFlowMark ch || ch == '?') then []
    else ch :: plainRun inFlow rest

-- Breaks and spaces between two lines of a plain scalar; none when a document marker starts a line.
def plainBreaks? : (fuel : Nat) → Cursor → Option (List Char) × Cursor
  | 0, c => (none, c)
  | fuel + 1, c =>
    if c.head == ' ' then plainBreaks? fuel c.step
    else if isBreak c.head then
      let (br, c) := c.lineBreak
      if c.isDocumentMarker then (none, c)
      else
        let (others, c) := plainBreaks? fuel c
        (others.map (br ++ ·), c)
    else (some [], c)

-- The blanks behind a run: what they stand for, and whether they held a line break.
def plainBlanks (c : Cursor) : Option (List Char) × Bool × Cursor :=
  let (blanks, c) := c.span (· == ' ')
  if isBreak c.head then
    let (first, c) := c.lineBreak
    if c.isDocumentMarker then (none, true, c)
    else
      let (others, c) := plainBreaks? c.blankFuel c
      (others.map (folded first), true, c)
  else (if blanks.isEmpty then none else some blanks, false, c)

-- The rest of a plain scalar behind the characters of `done`, which are in reverse, and whether a key may start
-- where it ends: that is so behind a line break.
def plainFrom (inFlow : Bool) (indent : Int) :
    (fuel : Nat) → (done blanks : List Char) → (afterBreak : Bool) → Cursor → List Char × Bool × Cursor
  | 0, done, _, afterBreak, c => (done.reverse, afterBreak, c)
  | fuel + 1, done, blanks, afterBreak, c =>
    let run := if c.head == '#' then [] else plainRun inFlow c.rest
    if run.isEmpty then (done.reverse, afterBreak, c)
    else
      let done := run.reverse ++ (blanks.reverse ++ done)
      match plainBlanks (c.forward run.length) with
      | (none, broken, c) => (done.reverse, broken, c)
      | (some blanks, broken, c) =>
        if c.head == '#' || (!inFlow && c.column < indent) then (done.reverse, broken, c)
        else plainFrom inFlow indent fuel done blanks broken c

def plain (inFlow : Bool) (indent : Int) (c : Cursor) : List Char × Bool × Cursor :=
  plainFrom inFlow (indent + 1) c.fuel [] [] false c

-- What happens to the breaks at the end of a block scalar.
inductive Chomping
  | strip
  | clip
  | keep

def chomping? (c : Cursor) : Option Chomping × Cursor :=
  if c.head == '+' then (some .keep, c.step)
  else if c.head == '-' then (some .strip, c.step)
  else (none, c)

-- A digit that gives the indentation; zero is none.
def increment? (c : Cursor) : Option (Option Nat × Cursor) :=
  if Literal.isDigit c.head then
    if c.head == '0' then none else some (some (Literal.digitValue c.head), c.step)
  else some (none, c)

def blockHeader? (c : Cursor) : Option (Chomping × Option Nat × Cursor) := do
  let (before, c) := chomping? c
  let (increment, c) ← increment? c
  let (after, c) := if before.isNone && increment.isSome then chomping? c else (none, c)
  if !(isBreakOrEnd c.head || c.head == ' ') then none
  let c := c.skip (· == ' ')
  let c := if c.head == '#' then c.skip (!isBreakOrEnd ·) else c
  if !isBreakOrEnd c.head then none
  return ((before.or after).getD .clip, increment, c.lineBreak.2)

-- The empty lines at the start of a block scalar, with the widest indentation among them.
def leadingLines : (fuel : Nat) → (widest : Nat) → Cursor → List Char × Nat × Cursor
  | 0, widest, c => ([], widest, c)
  | fuel + 1, widest, c =>
    if c.head == ' ' then leadingLines fuel (max widest (c.column + 1)) c.step
    else if isBreak c.head then
      let (br, c) := c.lineBreak
      let (others, widest, c) := leadingLines fuel widest c
      (br ++ others, widest, c)
    else ([], widest, c)

-- At most so many columns of indentation.
def indented (indent : Nat) (c : Cursor) : Cursor :=
  c.forward (min (c.span (· == ' ')).1.length (indent - c.column))

def blockBreaks (indent : Nat) : (fuel : Nat) → Cursor → List Char × Cursor
  | 0, c => ([], c)
  | fuel + 1, c =>
    let c := indented indent c
    if isBreak c.head then
      let (br, c) := c.lineBreak
      let (others, c) := blockBreaks indent fuel c
      (br ++ others, c)
    else ([], c)

-- The lines of a block scalar, its last break, and the empty lines behind it.
structure Block where
  text : List Char
  lastBreak : List Char
  trailing : List Char
  cursor : Cursor

-- Lines of at least the indentation, `breaks` standing before the first. Folding joins two lines that both
-- start with a character.
def blockLines (isFolded : Bool) (indent : Nat) :
    (fuel : Nat) → (done lastBreak breaks : List Char) → Cursor → Block
  | 0, done, lastBreak, breaks, c => ⟨done.reverse, lastBreak, breaks, c⟩
  | fuel + 1, done, lastBreak, breaks, c =>
    if c.column == indent && !c.rest.isEmpty then
      let startsFull := !isSpace c.head
      let (line, c) := c.span (!isBreakOrEnd ·)
      let (br, c) := c.lineBreak
      let (next, c) := blockBreaks indent c.blankFuel c
      let done := line.reverse ++ (breaks.reverse ++ done)
      if c.column == indent && !c.rest.isEmpty then
        let joint :=
          if isFolded && br == ['\n'] && startsFull && !isSpace c.head then
            (if next.isEmpty then [' '] else [])
          else br
        blockLines isFolded indent fuel (joint.reverse ++ done) br next c
      else ⟨done.reverse, br, next, c⟩
    else ⟨done.reverse, lastBreak, breaks, c⟩

-- A block scalar below a collection of the given indentation.
def block? (isFolded : Bool) (indent : Int) (c : Cursor) : Option (List Char × Cursor) := do
  let (chomping, increment, c) ← blockHeader? c.step
  let least := (max (indent + 1) 1).toNat
  let (width, breaks, c) := match increment with
    | none =>
      let (breaks, widest, c) := leadingLines c.blankFuel 0 c
      (max least widest, breaks, c)
    | some n =>
      let width := least + n - 1
      let (breaks, c) := blockBreaks width c.blankFuel c
      (width, breaks, c)
  let b := blockLines isFolded width c.fuel [] [] breaks c
  let tail := match chomping with
    | .strip => []
    | .clip => b.lastBreak
    | .keep => b.lastBreak ++ b.trailing
  return (b.text ++ tail, b.cursor)

end ShapeScribe.Yaml.Scalar
