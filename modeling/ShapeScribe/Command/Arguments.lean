/-!
Arguments of a command line: options, which may stand anywhere, and everything else in order. The last value of
an option counts.
-/

namespace ShapeScribe

inductive CommandOption
  | route
  | storeDirectory
  | print
  | noPrint
  deriving DecidableEq, Repr

namespace CommandOption

def takesValue : CommandOption → Bool
  | route | storeDirectory => true
  | print | noPrint => false

def longName : CommandOption → String
  | route => "--route"
  | storeDirectory => "--store-dir"
  | print => "--print"
  | noPrint => "--no-print"

def shortName? : CommandOption → Option Char
  | route => some 'r'
  | _ => none

def ofLong? (allowed : List CommandOption) (name : List Char) : Option CommandOption :=
  allowed.find? fun o => o.longName.toList == name

def ofShort? (allowed : List CommandOption) (letter : Char) : Option CommandOption :=
  allowed.find? fun o => o.shortName? == some letter

end CommandOption

structure Arguments where
  options : List (CommandOption × String) := []
  others : List String := []
  deriving DecidableEq, Repr

namespace Arguments

def value? (o : CommandOption) (a : Arguments) : Option String :=
  (a.options.reverse.find? fun (p, _) => p == o).map (·.2)

-- Of two options that undo each other the later one counts.
def isOn (on off : CommandOption) (default : Bool) (a : Arguments) : Bool :=
  match a.options.reverse.find? fun (p, _) => p == on || p == off with
  | some (p, _) => p == on
  | none => default

def addOption (o : CommandOption) (value : List Char) (a : Arguments) : Arguments :=
  { a with options := a.options ++ [(o, String.ofList value)] }

def addOther (text : String) (a : Arguments) : Arguments := { a with others := a.others ++ [text] }

-- What an option takes from the argument that names it, and from those behind it.
def takeValue? (o : CommandOption) (attached : Option (List Char)) (rest : List String) (a : Arguments) :
    Option (Arguments × List String) :=
  if o.takesValue then
    match attached, rest with
    | some value, _ => some (a.addOption o value, rest)
    | none, next :: rest => some (a.addOption o next.toList, rest)
    | none, [] => none
  else if attached.isNone then some (a.addOption o [], rest)
  else none

-- A single letter behind one hyphen; what follows the letter is its value.
def short? (allowed : List CommandOption) (cs : List Char) (rest : List String) (a : Arguments) :
    Option (Arguments × List String) :=
  match cs with
  | '-' :: letter :: value => do
    let o ← CommandOption.ofShort? allowed letter
    takeValue? o (if value.isEmpty then none else some value) rest a
  | _ => none

-- A long name, with a value behind an equals sign if there is one.
def option? (allowed : List CommandOption) (cs : List Char) (rest : List String) (a : Arguments) :
    Option (Arguments × List String) :=
  let name := cs.takeWhile (· != '=')
  match CommandOption.ofLong? allowed name, cs.drop name.length with
  | some o, [] => takeValue? o none rest a
  | some o, _ :: value => takeValue? o (some value) rest a
  | none, _ => if cs.take 2 == ['-', '-'] then none else short? allowed cs rest a

-- Two hyphens end the options. An unknown option, or one without its value, spoils the whole line.
def readFrom? (allowed : List CommandOption) : (fuel : Nat) → List String → Arguments → Option Arguments
  | 0, _, a => some a
  | _ + 1, [], a => some a
  | fuel + 1, text :: rest, a =>
    let cs := text.toList
    if text = "--" then some { a with others := a.others ++ rest }
    else if cs.head? == some '-' && cs.length != 1 then do
      let (a, rest) ← option? allowed cs rest a
      readFrom? allowed fuel rest a
    else readFrom? allowed fuel rest (a.addOther text)

def read? (allowed : List CommandOption) (texts : List String) : Option Arguments :=
  readFrom? allowed texts.length texts {}

end Arguments

end ShapeScribe
