import ShapeScribe.Yaml.Scalar

/-!
The tokens of a document: the marks and scalars of the text, and the starts and ends of block collections that
follow from its indentation. A key without a mark of its own is known only by the colon behind it, so that its
token is put in front of tokens that are already there.
-/

namespace ShapeScribe.Yaml

-- What a document says about itself before it starts.
inductive Directive
  | version (major : Nat)
  | tag (handle leading : String)
  | other
  deriving DecidableEq, Repr

inductive Token
  | directive (d : Directive)
  | documentStart
  | documentEnd
  | blockSequence
  | blockMapping
  | blockEnd
  | openBracket
  | closeBracket
  | openBrace
  | closeBrace
  | dash
  | comma
  | key
  | value
  | reference (name : String)
  | anchor (name : String)
  | tag (handle : Option String) (suffix : String)
  | scalar (isPlain : Bool) (text : String)
  deriving DecidableEq, Repr

namespace Token

def isPrintable (c : Char) : Bool :=
  c == '\t' || c == '\n' || c == '\r' || (' ' ≤ c && c ≤ '~') || c == '\x85' ||
    ('\xa0' ≤ c && c != '\ufffe' && c != '\uffff')

def isNameChar (c : Char) : Bool := c.isAlphanum || c == '-' || c == '_'

-- A letter, digit, hyphen or underscore at least.
def name? (c : Cursor) : Option (String × Cursor) :=
  match c.span isNameChar with
  | ([], _) => none
  | (cs, c) => some (String.ofList cs, c)

def isLineEnd (c : Char) : Bool := isBreakOrEnd c || c == ' '

-- A number of at most 4300 digits.
def readNumber (c : Cursor) : Reading (Nat × Cursor) :=
  match c.span Literal.isDigit with
  | ([], _) => .error .malformed
  | (ds, c) =>
    if 4300 < ds.length then .error (.misfit (.tooManyDigits ds.length)) else .ok (Literal.natOfDigits ds, c)

def isUriChar (c : Char) : Bool := c.isAlphanum || "-;/?:@&=+$,_.!~*'()[]".toList.contains c

-- A run of bytes in hexadecimal, each behind a percent sign.
def escapedBytes? : (fuel : Nat) → Cursor → Option (List UInt8 × Cursor)
  | 0, _ => none
  | fuel + 1, c =>
    if c.head == '%' then do
      let high ← Json.hexValue? (c.peek 1)
      let low ← Json.hexValue? (c.peek 2)
      let (others, c) ← escapedBytes? fuel (c.forward 3)
      return (UInt8.ofNat (high * 16 + low) :: others, c)
    else some ([], c)

def uriFrom? : (fuel : Nat) → Cursor → Option (String × Cursor)
  | 0, _ => none
  | fuel + 1, c =>
    if c.head == '%' then do
      let (bytes, c) ← escapedBytes? c.fuel c
      let text ← String.fromUTF8? ⟨bytes.toArray⟩
      let (others, c) ← uriFrom? fuel c
      return (text ++ others, c)
    else
      match c.span isUriChar with
      | ([], _) => some ("", c)
      | (cs, c) => (uriFrom? fuel c).map fun (others, c) => (String.ofList cs ++ others, c)

def uri? (c : Cursor) : Option (String × Cursor) :=
  if c.head == '%' || isUriChar c.head then uriFrom? c.fuel c else none

-- An exclamation mark, or a name between two of them.
def handle? (c : Cursor) : Option (String × Cursor) :=
  if c.head != '!' then none
  else
    let c := c.step
    if c.head == ' ' then some ("!", c)
    else
      let (name, c) := c.span isNameChar
      if c.head == '!' then some ("!" ++ String.ofList name ++ "!", c.step) else none

def readVersion (c : Cursor) : Reading (Directive × Cursor) := do
  let (major, c) ← readNumber (c.skip (· == ' '))
  if c.head != '.' then throw .malformed
  let (_, c) ← readNumber c.step
  if !isLineEnd c.head then throw .malformed
  return (.version major, c)

def tagDirective? (c : Cursor) : Option (Directive × Cursor) := do
  let (handle, c) ← handle? (c.skip (· == ' '))
  if c.head != ' ' then none
  let (leading, c) ← uri? (c.skip (· == ' '))
  if !isLineEnd c.head then none
  return (.tag handle leading, c)

def readDirective (c : Cursor) : Reading (Token × Cursor) := do
  let (name, c) ← name? c.step
  if !isLineEnd c.head then throw .malformed
  let (d, c) ←
    if name = "YAML" then readVersion c
    else if name = "TAG" then tagDirective? c
    else pure (.other, c.skip (!isBreakOrEnd ·))
  let c := c.skip (· == ' ')
  let c := if c.head == '#' then c.skip (!isBreakOrEnd ·) else c
  if !isBreakOrEnd c.head then throw .malformed
  return (.directive d, c.lineBreak.2)

def isNameEnd (c : Char) : Bool := isSpaceOrEnd c || "?:,]\x7d%@\x60".toList.contains c

-- The name of an anchor or of a reference to one.
def reference? (c : Cursor) : Option (String × Cursor) := do
  let (name, c) ← name? c.step
  if !isNameEnd c.head then none
  return (name, c)

-- A second exclamation mark before the next blank sets the handle apart from the suffix.
def hasHandle (cs : List Char) : Bool := (cs.takeWhile fun c => !isLineEnd c).contains '!'

def tagParts? (c : Cursor) : Option (Option String × String × Cursor) :=
  let after := c.step
  if after.head == '<' then do
    let (suffix, c) ← uri? after.step
    if c.head != '>' then none
    return (none, suffix, c.step)
  else if isSpaceOrEnd after.head then some (none, "!", after)
  else do
    let (handle, c) ← if hasHandle after.rest then handle? c else some ("!", after)
    let (suffix, c) ← uri? c
    return (some handle, suffix, c)

def tag? (c : Cursor) : Option (Token × Cursor) := do
  let (handle, suffix, c) ← tagParts? c
  if !isLineEnd c.head then none
  return (.tag handle suffix, c)

end Token

-- A place where a key may have started: the tokens before it, and where it stands in the text.
structure KeyStart where
  position : Nat
  required : Bool
  index : Nat
  line : Nat
  column : Nat

-- How far tokenization has come. The tokens are in reverse, and `count` of them; `keys` holds the possible start
-- of a key for every open flow collection, the innermost first, and last the one outside of all.
structure Tokenization where
  cursor : Cursor
  tokens : List Token := []
  count : Nat := 0
  indent : Int := -1
  outer : List Int := []
  keyAllowed : Bool := true
  keys : List (Option KeyStart) := [none]

namespace Tokenization

def inFlow (t : Tokenization) : Bool := 1 < t.keys.length

def keyStart? (t : Tokenization) : Option KeyStart := (t.keys.head?).join

def setKeyStart (start : Option KeyStart) (t : Tokenization) : Tokenization :=
  { t with keys := start :: t.keys.tail }

def push (token : Token) (t : Tokenization) : Tokenization :=
  { t with tokens := token :: t.tokens, count := t.count + 1 }

def pushOne (token : Token) (t : Tokenization) : Tokenization := { t.push token with cursor := t.cursor.step }

-- Puts a token behind the first `position` ones.
def insert (position : Nat) (token : Token) (t : Tokenization) : Tokenization :=
  let behind := t.count - position
  { t with tokens := t.tokens.take behind ++ token :: t.tokens.drop behind, count := t.count + 1 }

-- Blanks, comments and line breaks. Outside of flow collections a key may start on the new line.
def skipBlanksFrom : (fuel : Nat) → Tokenization → Tokenization
  | 0, t => t
  | fuel + 1, t =>
    let c := t.cursor.skip (· == ' ')
    let c := if c.head == '#' then c.skip (!isBreakOrEnd ·) else c
    if isBreak c.head then
      skipBlanksFrom fuel { t with cursor := c.lineBreak.2, keyAllowed := t.keyAllowed || !t.inFlow }
    else { t with cursor := c }

def skipBlanks (t : Tokenization) : Tokenization :=
  let c := t.cursor
  let c := if c.index == 0 && c.head == '\ufeff' then c.step else c
  skipBlanksFrom c.fuel { t with cursor := c }

-- A key ends on its line and within 1024 characters.
def isStale (c : Cursor) (start : KeyStart) : Bool := start.line != c.line || 1024 < c.index - start.index

-- The possible starts of keys without those that are too far behind. A required key cannot be given up.
def freshKeys (c : Cursor) : List (Option KeyStart) → Reading (List (Option KeyStart))
  | [] => .ok []
  | none :: rest => (freshKeys c rest).map (none :: ·)
  | some start :: rest =>
    if isStale c start then if start.required then .error .malformed else (freshKeys c rest).map (none :: ·)
    else (freshKeys c rest).map (some start :: ·)

def dropStale (t : Tokenization) : Reading Tokenization :=
  (freshKeys t.cursor t.keys).map fun keys => { t with keys }

def forgetKey (t : Tokenization) : Reading Tokenization :=
  match t.keyStart? with
  | some start => if start.required then .error .malformed else .ok (t.setKeyStart none)
  | none => .ok t

-- A key that starts a line of a block mapping is required to be one.
def noteKey (t : Tokenization) : Reading Tokenization :=
  if t.keyAllowed then do
    let kept ← t.forgetKey
    let c := t.cursor
    let required := !t.inFlow && t.indent == c.column
    return kept.setKeyStart (some ⟨t.count, required, c.index, c.line, c.column⟩)
  else .ok t

-- Ends the block collections that are indented further than a column.
def unwindTo (column : Int) (t : Tokenization) : Tokenization :=
  if t.inFlow then t
  else
    let closed := (t.indent :: t.outer).takeWhile (column < ·)
    match (t.indent :: t.outer).drop closed.length with
    | indent :: outer => closed.foldl (fun t _ => t.push .blockEnd) { t with indent, outer }
    | [] => t

def indentTo (column : Int) (t : Tokenization) : Tokenization :=
  { t with indent := column, outer := t.indent :: t.outer }

-- Starts a block collection here, unless one with this indentation is open.
def openBlock (start : Token) (t : Tokenization) : Reading Tokenization :=
  if t.inFlow then .ok t
  else if !t.keyAllowed then .error .malformed
  else if t.indent < t.cursor.column then .ok ((t.indentTo t.cursor.column).push start)
  else .ok t

-- A token that ends whatever blocks are open.
def topLevel (read : Cursor → Reading (Token × Cursor)) (t : Tokenization) : Reading Tokenization := do
  let t ← (t.unwindTo (-1)).forgetKey
  let (token, c) ← read t.cursor
  return { t.push token with cursor := c, keyAllowed := false }

def marker (token : Token) (t : Tokenization) : Reading Tokenization :=
  t.topLevel fun c => .ok (token, c.forward 3)

def openFlow (token : Token) (t : Tokenization) : Reading Tokenization := do
  let t ← t.noteKey
  return { t.pushOne token with keys := none :: t.keys, keyAllowed := true }

def closeFlow (token : Token) (t : Tokenization) : Reading Tokenization := do
  if !t.inFlow then throw .malformed
  let t ← t.forgetKey
  return { t.pushOne token with keys := t.keys.tail, keyAllowed := false }

def comma (t : Tokenization) : Reading Tokenization := do
  let t ← t.forgetKey
  return { t.pushOne .comma with keyAllowed := true }

def dash (t : Tokenization) : Reading Tokenization := do
  let t ← t.openBlock .blockSequence
  let t ← t.forgetKey
  return { t.pushOne .dash with keyAllowed := true }

def key (t : Tokenization) : Reading Tokenization := do
  let t ← t.openBlock .blockMapping
  let t ← t.forgetKey
  return { t.pushOne .key with keyAllowed := !t.inFlow }

-- A colon: what stands before it may turn out to be a key, with which a mapping may start.
def value (t : Tokenization) : Reading Tokenization :=
  match t.keyStart? with
  | some start =>
    let t := (t.setKeyStart none).insert start.position .key
    let t :=
      if !t.inFlow && t.indent < start.column then
        (t.indentTo start.column).insert start.position .blockMapping
      else t
    .ok { t.pushOne .value with keyAllowed := false }
  | none => do
    let t ← t.openBlock .blockMapping
    return { t.pushOne .value with keyAllowed := !t.inFlow }

-- A token that can be a key, or the start of one.
def node (read : Cursor → Reading (Token × Cursor)) (t : Tokenization) : Reading Tokenization := do
  let t ← t.noteKey
  let (token, c) ← read t.cursor
  return { t.push token with cursor := c, keyAllowed := false }

def reference (t : Tokenization) : Reading Tokenization := t.node fun c => do
  let (name, c) ← Token.reference? c
  return (.reference name, c)

def anchor (t : Tokenization) : Reading Tokenization := t.node fun c => do
  let (name, c) ← Token.reference? c
  return (.anchor name, c)

def quoted (double : Bool) (t : Tokenization) : Reading Tokenization := t.node fun c => do
  let (cs, c) ← Scalar.quoted double c
  return (.scalar false (String.ofList cs), c)

def plain (t : Tokenization) : Reading Tokenization := do
  let t ← t.noteKey
  let (cs, keyAllowed, c) := Scalar.plain t.inFlow t.indent t.cursor
  return { t.push (.scalar true (String.ofList cs)) with cursor := c, keyAllowed }

def block (isFolded : Bool) (t : Tokenization) : Reading Tokenization := do
  let t ← t.forgetKey
  let (cs, c) ← Scalar.block? isFolded t.indent t.cursor
  return { t.push (.scalar false (String.ofList cs)) with cursor := c, keyAllowed := true }

-- Marks that a plain scalar cannot start with.
def isIndicator (c : Char) : Bool := "-?:,[]\x7b\x7d#&*!|>'\"%@\x60".toList.contains c

def startsPlain (inFlow : Bool) (c : Cursor) : Bool :=
  let ch := c.head
  !(isSpaceOrEnd ch || isIndicator ch) ||
    (!isSpaceOrEnd (c.peek 1) && (ch == '-' || (!inFlow && (ch == '?' || ch == ':'))))

-- The next token, from a place that is not at the end.
def next (t : Tokenization) : Reading Tokenization :=
  let c := t.cursor
  let ch := c.head
  let apart := isSpaceOrEnd (c.peek 1)
  if ch == '%' && c.column == 0 then t.topLevel Token.readDirective
  else if c.column == 0 && c.isMarker '-' then t.marker .documentStart
  else if c.column == 0 && c.isMarker '.' then t.marker .documentEnd
  else if ch == '[' then t.openFlow .openBracket
  else if ch == '\x7b' then t.openFlow .openBrace
  else if ch == ']' then t.closeFlow .closeBracket
  else if ch == '\x7d' then t.closeFlow .closeBrace
  else if ch == ',' then t.comma
  else if ch == '-' && apart then t.dash
  else if ch == '?' && (t.inFlow || apart) then t.key
  else if ch == ':' && (t.inFlow || apart) then t.value
  else if ch == '*' then t.reference
  else if ch == '&' then t.anchor
  else if ch == '!' then t.node fun c => Token.tag? c
  else if ch == '|' && !t.inFlow then t.block false
  else if ch == '>' && !t.inFlow then t.block true
  else if ch == '\'' then t.quoted false
  else if ch == '"' then t.quoted true
  else if startsPlain t.inFlow c then t.plain
  else .error .malformed

-- One token further, with the ends of collections in front of it, and whether that was the end of the text.
def advance (t : Tokenization) : Reading (Tokenization × Bool) := do
  let t ← t.skipBlanks.dropStale
  let t := t.unwindTo t.cursor.column
  if t.cursor.rest.isEmpty then return (← (t.unwindTo (-1)).forgetKey, true)
  return (← t.next, false)

-- How many tokens are settled: those in front of the first place where a key may still start.
def settled (t : Tokenization) : Nat :=
  (t.keys.filterMap id).foldl
    (fun n start => if isStale t.cursor start then n else min n start.position) t.count

end Tokenization

-- The tokens of a text as far as they can be told, and whether there is something wrong behind them.
structure Tokens where
  known : List Token
  ending : Reading Unit

-- Every token takes a character at least.
def Tokenization.run : (fuel : Nat) → Tokenization → Tokens
  | 0, t => ⟨t.tokens.reverse, .error .malformed⟩
  | fuel + 1, t =>
    match t.advance with
    | .ok (t, false) => run fuel t
    | .ok (t, true) => ⟨t.tokens.reverse, .ok ()⟩
    | .error e => ⟨t.tokens.reverse.take t.settled, .error e⟩

def Tokens.ofText (text : String) : Tokens :=
  let c := Cursor.ofChars text.toList
  if c.rest.all Token.isPrintable then Tokenization.run c.fuel { cursor := c } else ⟨[], .error .malformed⟩

end ShapeScribe.Yaml
