import ShapeScribe.Yaml.Stamp
import ShapeScribe.Yaml.Tag
import ShapeScribe.Yaml.Token

/-!
Documents as graphs of nodes: scalars, sequences and mappings, every one with its tag and in a slot of its own.
A reference leads to the slot that its anchor names, also while the collection in it is still being read.
-/

namespace ShapeScribe.Yaml

abbrev Slot := Nat

inductive Content
  | scalar (text : String)
  | sequence (items : List Slot)
  | mapping (entries : List (Slot × Slot))
  deriving Inhabited

structure Node where
  tag : Tag
  content : Content

-- Where nothing is written there is a null.
def Node.nothing : Node := ⟨.null, .scalar ""⟩

structure Document where
  nodes : Array Node
  root : Slot

-- The tag of an untagged plain scalar. The exclamation mark, the ampersand and the asterisk imply a tag that is
-- not known.
def Tag.implied (text : String) : Tag :=
  let cs := withoutFinalBreak text.toList
  if cs.isEmpty && !text.isEmpty then .text
  else if isWord booleanWords cs then .boolean
  else if isDecimal cs then .decimal
  else if isInteger cs then .integer
  else if cs = ['<', '<'] then .merge
  else if isWord nullWords cs then .null
  else if Stamp.isImplied cs then .moment
  else if cs = ['='] then .standIn
  else if cs = ['!'] ∨ cs = ['&'] ∨ cs = ['*'] then .unknown
  else .text

-- The tokens still to come, what ends them, what the names of anchors stand for so far, and the nodes.
structure Composition where
  tokens : List Token
  ending : Reading Unit
  anchors : List (String × Slot) := []
  nodes : Array Node := #[]

abbrev Compose := StateT Composition Reading

namespace Compose

def fail : Compose α := throw .malformed

def peek : Compose (Option Token) := do
  match (← get).tokens with
  | token :: _ => return some token
  | [] =>
    (← get).ending
    return none

def advance : Compose Unit := modify fun c => { c with tokens := c.tokens.tail }

-- Takes a token if it is the next one.
def accept (token : Token) : Compose Bool := do
  if (← peek) = some token then
    advance
    return true
  else return false

def expect (token : Token) : Compose Unit := do
  if !(← accept token) then fail

def isNext (tokens : List Token) : Compose Bool := return (← peek).any tokens.contains

def add (node : Node) : Compose Slot := do
  let slot := (← get).nodes.size
  modify fun c => { c with nodes := c.nodes.push node }
  return slot

def put (slot : Slot) (node : Node) : Compose Unit :=
  modify fun c => { c with nodes := c.nodes.setIfInBounds slot node }

def bindAnchor (anchor : Option String) (slot : Slot) : Compose Unit :=
  match anchor with
  | some name => modify fun c => { c with anchors := Named.set name slot c.anchors }
  | none => pure ()

-- A name can be given only once.
def checkAnchor (anchor : Option String) : Compose Unit := do
  match anchor with
  | some name => if (Named.get? name (← get).anchors).isSome then fail
  | none => pure ()

def anchor? : Compose (Option String) := do
  match ← peek with
  | some (.anchor name) =>
    advance
    return some name
  | _ => return none

def tag? : Compose (Option (Option String × String)) := do
  match ← peek with
  | some (.tag handle suffix) =>
    advance
    return some (handle, suffix)
  | _ => return none

def fullTag (handles : List (String × String)) : Option String × String → Compose String
  | (none, suffix) => return suffix
  | (some handle, suffix) =>
    match Named.get? handle handles with
    | some leading => return leading ++ suffix
    | none => fail

-- An anchor and a tag, in either order.
def properties (handles : List (String × String)) : Compose (Option String × Option String) := do
  let before ← anchor?
  let tag ← tag?
  let behind ← if before.isNone && tag.isSome then anchor? else pure none
  return (before.or behind, ← tag.mapM (fullTag handles))

end Compose

-- The exclamation mark alone asks for the tag that the text implies, or for the plain kind of collection.
def scalarTag (tag : Option String) (isPlain : Bool) (text : String) : Tag :=
  match tag with
  | none => if isPlain then .implied text else .text
  | some name => if name = "!" then .implied text else .ofName name

def collectionTag (tag : Option String) (default : Tag) : Tag :=
  match tag with
  | none => default
  | some name => if name = "!" then default else .ofName name

-- What may stand at a place: a node inside a flow collection, one on its own lines, or one on its own lines
-- where a sequence needs no indentation.
inductive Context
  | flow
  | block
  | blockOrDashes
  deriving DecidableEq

namespace Node

open Compose

mutual

def compose (handles : List (String × String)) : (fuel : Nat) → Context → Compose Slot
  | 0, _ => fail
  | fuel + 1, context => do
    match ← peek with
    | some (.reference name) =>
      advance
      match Named.get? name (← get).anchors with
      | some slot => return slot
      | none => fail
    | _ =>
      let (anchor, tag) ← properties handles
      match ← peek with
      | some (.scalar isPlain text) =>
        advance
        checkAnchor anchor
        let slot ← add ⟨scalarTag tag isPlain text, .scalar text⟩
        bindAnchor anchor slot
        return slot
      | some start =>
        if isCollectionStart context start then
          checkAnchor anchor
          let slot ← add nothing
          bindAnchor anchor slot
          put slot (← collection handles fuel (collectionTag tag) start)
          return slot
        else empty anchor tag
      | none => empty anchor tag
where
  isCollectionStart (context : Context) : Token → Bool
    | .openBracket | .openBrace => true
    | .blockSequence | .blockMapping => context != .flow
    | .dash => context == .blockOrDashes
    | _ => false
  -- A node of which there are only an anchor or a tag.
  empty (anchor tag : Option String) : Compose Slot := do
    if anchor.isNone && tag.isNone then fail
    checkAnchor anchor
    let slot ← add ⟨scalarTag tag true "", .scalar ""⟩
    bindAnchor anchor slot
    return slot

def collection (handles : List (String × String)) :
    (fuel : Nat) → (tagOf : Tag → Tag) → (start : Token) → Compose Node
  | 0, _, _ => fail
  | fuel + 1, tagOf, start => do
    match start with
    | .openBracket =>
      advance
      return ⟨tagOf .sequence, .sequence (← flowItems handles fuel true)⟩
    | .openBrace =>
      advance
      return ⟨tagOf .mapping, .mapping (← flowEntries handles fuel true)⟩
    | .blockSequence =>
      advance
      let items ← dashItems handles fuel [.dash, .blockEnd]
      expect .blockEnd
      return ⟨tagOf .sequence, .sequence items⟩
    | .blockMapping =>
      advance
      return ⟨tagOf .mapping, .mapping (← blockEntries handles fuel)⟩
    | _ => return ⟨tagOf .sequence, .sequence (← dashItems handles fuel [.dash, .key, .value, .blockEnd])⟩

-- A node, or nothing in front of one of the given tokens.
def composeUnless (handles : List (String × String)) :
    (fuel : Nat) → (ends : List Token) → Context → Compose Slot
  | 0, _, _ => fail
  | fuel + 1, ends, context => do
    if ← isNext ends then add nothing else compose handles fuel context

-- The node behind a colon, or nothing without one.
def valueUnless (handles : List (String × String)) :
    (fuel : Nat) → (ends : List Token) → Context → Compose Slot
  | 0, _, _ => fail
  | fuel + 1, ends, context => do
    if ← accept .value then composeUnless handles fuel ends context else add nothing

def dashItems (handles : List (String × String)) : (fuel : Nat) → (ends : List Token) → Compose (List Slot)
  | 0, _ => fail
  | fuel + 1, ends => do
    if ← accept .dash then
      let item ← composeUnless handles fuel ends .block
      return item :: (← dashItems handles fuel ends)
    else return []

def blockEntries (handles : List (String × String)) : (fuel : Nat) → Compose (List (Slot × Slot))
  | 0 => fail
  | fuel + 1 => do
    if ← accept .key then
      let key ← composeUnless handles fuel [.key, .value, .blockEnd] .blockOrDashes
      let value ← valueUnless handles fuel [.key, .value, .blockEnd] .blockOrDashes
      return (key, value) :: (← blockEntries handles fuel)
    else
      expect .blockEnd
      return []

def flowItems (handles : List (String × String)) : (fuel : Nat) → (first : Bool) → Compose (List Slot)
  | 0, _ => fail
  | fuel + 1, first => do
    if ← accept .closeBracket then return []
    if !first then expect .comma
    if ← accept .closeBracket then return []
    if ← accept .key then
      let key ← composeUnless handles fuel [.value, .comma, .closeBracket] .flow
      let value ← valueUnless handles fuel [.comma, .closeBracket] .flow
      let pair ← add ⟨.mapping, .mapping [(key, value)]⟩
      return pair :: (← flowItems handles fuel false)
    let item ← compose handles fuel .flow
    return item :: (← flowItems handles fuel false)

def flowEntries (handles : List (String × String)) :
    (fuel : Nat) → (first : Bool) → Compose (List (Slot × Slot))
  | 0, _ => fail
  | fuel + 1, first => do
    if ← accept .closeBrace then return []
    if !first then expect .comma
    if ← accept .closeBrace then return []
    if ← accept .key then
      let key ← composeUnless handles fuel [.value, .comma, .closeBrace] .flow
      let value ← valueUnless handles fuel [.comma, .closeBrace] .flow
      return (key, value) :: (← flowEntries handles fuel false)
    let key ← compose handles fuel .flow
    let value ← add nothing
    return (key, value) :: (← flowEntries handles fuel false)

end

def standardHandles : List (String × String) := [("!", "!"), ("!!", Tag.standard)]

-- The version can be stated once, and must be of the first series; a handle can be defined once.
def directives : (fuel : Nat) → (versioned : Bool) → (handles : List (String × String)) →
    Compose (List (String × String))
  | 0, _, _ => fail
  | fuel + 1, versioned, handles => do
    match ← peek with
    | some (.directive d) =>
      advance
      match d with
      | .version major => if versioned || major != 1 then fail else directives fuel true handles
      | .tag handle leading =>
        if (Named.get? handle handles).isSome then fail
        else directives fuel versioned (handles ++ [(handle, leading)])
      | .other => directives fuel versioned handles
    | _ => return handles ++ standardHandles

def isImplicitStart : Token → Bool
  | .directive _ | .documentStart => false
  | _ => true

def skipEnds : (fuel : Nat) → Compose Unit
  | 0 => pure ()
  | fuel + 1 => do if ← accept .documentEnd then skipEnds fuel

-- The only document of a text; a text without tokens holds nothing. Behind its end there can be only the start
-- of another document, which is refused when it is complete.
def document (size : Nat) : Compose Slot := do
  match ← peek with
  | none => add nothing
  | some start =>
    let slot ←
      if isImplicitStart start then compose standardHandles (4 * size) .block
      else
        let handles ← directives (size + 1) false []
        expect .documentStart
        match ← peek with
        | none | some (.directive _) | some .documentStart | some .documentEnd => add nothing
        | some _ => compose handles (4 * size) .block
    skipEnds size
    if (← peek).isSome then
      let _ ← directives (size + 1) false []
      fail
    return slot

end Node

namespace Document

def ofTokens (tokens : Tokens) : Reading Document := do
  let (root, c) ← (Node.document tokens.known.length).run { tokens := tokens.known, ending := tokens.ending }
  return ⟨c.nodes, root⟩

def ofText (text : String) : Reading Document := ofTokens (Tokens.ofText text)

end Document

end ShapeScribe.Yaml
