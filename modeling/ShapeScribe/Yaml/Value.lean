import ShapeScribe.Validation.Raw
import ShapeScribe.Yaml.Merge
import ShapeScribe.Yaml.Numeral
import ShapeScribe.Yaml.Sextets

/-!
The values of a document. Scalars have theirs at once; what is in a collection is valued when its turn comes, and
the turns go in the order in which the collections were met, the outermost first. So of several faults the one
that is least deep comes to light.
-/

namespace ShapeScribe.Yaml

-- A collection is only told apart from the rest, for it cannot be a key.
inductive Value
  | scalar (raw : Raw)
  | binary (bytes : List UInt8)
  | collection
  deriving Inhabited

def Value.raw : Value → Raw
  | scalar r => r
  | binary bytes => .ofBytes bytes
  | collection => .other

-- The document, a bound on the rounds that it takes to flatten a mapping, the values so far by slot, and the
-- collections that have been met.
structure Valuation where
  document : Document
  rounds : Nat
  values : Array (Option Value)
  met : Array Slot := #[]

abbrev Evaluate := StateT Valuation Reading

namespace Valuation

def boolean (text : List Char) : Except Misfit Bool :=
  let word := Text.lower text
  if Tag.isWord ["yes", "true", "on"] word then .ok true
  else if Tag.isWord ["no", "false", "off"] word then .ok false
  else .error (.noTruthWord word)

-- The text of a scalar, or of the value that stands in for a mapping under an equals sign.
def text? (d : Document) : (fuel : Nat) → Slot → Option String
  | 0, _ => none
  | fuel + 1, slot =>
    match (d.node slot).content with
    | .scalar text => some text
    | .sequence _ => none
    | .mapping entries => do
      let (_, value) ← entries.find? fun (key, _) => d.tagAt key = .standIn
      text? d fuel value

-- A date has to be written in the node itself.
def moment (node : Node) : Except Misfit Moment :=
  match node.content with
  | .scalar text => match Stamp.ofChars? text.toList with
    | some stamp => stamp.moment
    | none => .error .noDate
  | _ => .error .noDateText

def scalarValue (node : Node) (text : String) : Reading Value := do
  let cs := text.toList
  match node.tag with
  | .null => return .scalar .null
  | .text => return .scalar (.text text)
  | .boolean => return .scalar (.boolean (← boolean cs))
  | .integer => return .scalar (.integer (← Numeral.integer cs))
  | .decimal => return .scalar (.decimal (← Numeral.decimal cs))
  | .moment => return .scalar (.moment (← moment node))
  | .binary => return .binary (← Sextets.bytes? cs)
  | _ => throw .malformed

def isCollection : Tag → Bool
  | .sequence | .mapping | .set | .orderedMap | .pairs => true
  | _ => false

def fail : Evaluate α := throw .malformed

-- The value of a node, which it gets only once. A collection has to wait for its turn.
def valueAt (slot : Slot) : Evaluate Value := do
  let v ← get
  match (v.values[slot]?).join with
  | some value => return value
  | none =>
    let node := v.document.node slot
    if isCollection node.tag then
      set { v with values := v.values.setIfInBounds slot (some .collection), met := v.met.push slot }
      return .collection
    else
      let value ← scalarValue node (← text? v.document (v.document.nodes.size + 1) slot)
      set { v with values := v.values.setIfInBounds slot (some value) }
      return value

def enterItems (slot : Slot) : Evaluate Unit := do
  match ((← get).document.node slot).content with
  | .sequence items => items.forM fun item => discard (valueAt item)
  | _ => fail

def enterEntries (slot : Slot) : Evaluate Unit := do
  let v ← get
  let document ← v.document.flatten v.rounds slot []
  set { v with document }
  for (key, value) in (document.entries? slot).getD [] do
    match ← valueAt key with
    | .collection => fail
    | _ => discard (valueAt value)

-- Items that are mappings of one entry.
def enterPairs (slot : Slot) : Evaluate Unit := do
  match ((← get).document.node slot).content with
  | .sequence items => items.forM fun item => do
    match (← get).document.entries? item with
    | some [(key, value)] =>
      discard (valueAt key)
      discard (valueAt value)
    | _ => fail
  | _ => fail

def enter (slot : Slot) : Evaluate Unit := do
  match (← get).document.tagAt slot with
  | .sequence => enterItems slot
  | .mapping | .set => enterEntries slot
  | _ => enterPairs slot

-- Enters the collections in the order in which they were met. There are no more than nodes.
def enterAll : (fuel : Nat) → (turn : Nat) → Evaluate Unit
  | 0, _ => pure ()
  | fuel + 1, turn => do
    match (← get).met[turn]? with
    | none => pure ()
    | some slot =>
      enter slot
      enterAll fuel (turn + 1)

-- The members under text keys, the last first, so that of several under one name the last is found.
def members (v : Valuation) (entries : List (Slot × Slot)) : List (String × Raw) :=
  let value (slot : Slot) : Raw := (((v.values[slot]?).join).map Value.raw).getD .other
  let named := entries.filterMap fun (key, member) =>
    match (v.values[key]?).join with
    | some (.scalar (.text name)) => some (name, value member)
    | _ => none
  named.reverse

end Valuation

-- The members of the mapping that a document holds, none if it holds something else.
def Document.members? (d : Document) : Reading (Option (List (String × Raw))) := do
  let start : Valuation := { document := d, rounds := d.entryCount + 1, values := Array.replicate d.nodes.size none }
  let evaluate : Evaluate Unit := do
    discard (Valuation.valueAt d.root)
    Valuation.enterAll (d.nodes.size + 1) 0
  let (_, v) ← evaluate.run start
  if v.document.tagAt d.root = .mapping then
    return (v.document.entries? d.root).map v.members
  else return none

def members? (text : String) : Reading (Option (List (String × Raw))) := do (← Document.ofText text).members?

end ShapeScribe.Yaml
