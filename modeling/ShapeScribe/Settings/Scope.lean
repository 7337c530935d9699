import ShapeScribe.Fault
import ShapeScribe.Settings.Environment
import ShapeScribe.Validation.Raw

/-!
Scopes: which variables of the environment settings look at. Members that are set aside for it, all of them with
an underscore in front, change the scope of the settings that they stand in.
-/

namespace ShapeScribe

-- `leading` stands before the name of a field in the name of its variable. With a separator, variables reach
-- into a field by the names behind it, which are split at so many places or, without a number, at all.
structure Scope where
  leading : String
  isExact : Bool := false
  skipsEmpty : Bool := false
  separator : List Char := []
  splits : Option Nat := none
  nullWord : Option String := none

namespace Scope

def reserved : List String := [
  "_case_sensitive", "_nested_model_default_partial_update", "_env_prefix", "_env_file", "_env_file_encoding",
  "_env_ignore_empty", "_env_nested_delimiter", "_env_nested_max_split", "_env_parse_none_str",
  "_env_parse_enums", "_cli_prog_name", "_cli_parse_args", "_cli_settings_source", "_cli_parse_none_str",
  "_cli_hide_none_type", "_cli_avoid_json", "_cli_enforce_required", "_cli_use_class_docs_for_groups",
  "_cli_exit_on_error", "_cli_prefix", "_cli_flag_prefix_char", "_cli_implicit_flags",
  "_cli_ignore_unknown_args", "_cli_kebab_case", "_cli_shortcuts", "_secrets_dir"]

-- Zero and whatever is empty count as no.
def isYes : Json → Bool
  | .null => false
  | .boolean b => b
  | .integer n => n != 0
  | .decimal x => !x.isZero
  | .text s => !s.isEmpty
  | .array items => !items.isEmpty
  | .object members => !members.isEmpty

def text? : Json → Option String
  | .text s => some s
  | _ => none

-- One less than the number of splits is meant.
def splits? : Json → Option Nat
  | .integer n => if 0 < n then some (n.toNat - 1) else none
  | .boolean true => some 0
  | _ => none

def typeTag : Json → TypeTag
  | .null => .null
  | .boolean _ => .boolean
  | .integer _ => .integer
  | .decimal _ => .decimal
  | .text _ => .text
  | .array _ => .list
  | .object _ => .object

-- Members of the scope that it cannot be made of: what stands before the names has to be a text, and a number of
-- splits is a number.
inductive Unusable
  | leading (type : TypeTag)
  | splits (type : TypeTag)
  deriving DecidableEq, Repr

def Unusable.message : Unusable → String
  | leading .list => "can only concatenate list (not \"str\") to list"
  | leading .object => "unsupported operand type(s) for +: 'dict' and 'str'"
  | leading type => "object of type '" ++ type.name ++ "' has no len()"
  | splits type => "unsupported operand type(s) for -: '" ++ type.name ++ "' and 'int'"

def unusable? (members : List (String × Json)) : Option Unusable :=
  let splits : Option Unusable :=
    match Named.get? "_env_nested_max_split" members with
    | some (.text s) => if s.isEmpty then none else some (.splits .text)
    | some (.array items) => if items.isEmpty then none else some (.splits .list)
    | some (.object inner) => if inner.isEmpty then none else some (.splits .object)
    | _ => none
  let leading : Option Unusable :=
    match Named.get? "_env_prefix" members with
    | none | some .null | some (.text _) => none
    | some j => some (.leading (typeTag j))
  splits.or leading

-- The scope of settings with the given members; `leading` is what they have without any.
def ofMembers (leading : String) (members : List (String × Json)) : Scope :=
  let flag (name : String) : Bool := ((Named.get? name members).map isYes).getD false
  let word (name : String) : Option String := (Named.get? name members).bind text?
  { leading := (word "_env_prefix").getD leading
    isExact := flag "_case_sensitive"
    skipsEmpty := flag "_env_ignore_empty"
    separator := ((word "_env_nested_delimiter").getD "").toList
    splits := (Named.get? "_env_nested_max_split" members).bind splits?
    nullWord := word "_env_parse_none_str" }

def form (s : Scope) (name : String) : String := if s.isExact then name else Environment.folded name

def visible (s : Scope) (env : Environment) : Environment :=
  Environment.named s.form (env.filter fun (_, value) => !(s.skipsEmpty && value.isEmpty))

def reading (s : Scope) (value : String) : Json := if s.nullWord = some value then .null else .text value

-- What the variable of a field holds: a text, or a null if it is the word for that.
def get? (s : Scope) (env : Environment) (field : String) : Option Json :=
  (Named.get? (s.form (s.leading ++ field)) (s.visible env)).map s.reading

-- The parts of a text between separators, `limit` separators at most. The next `skip` characters are of a
-- separator.
def partsFrom (separator : List Char) (limit : Option Nat) :
    (skip : Nat) → (part : List Char) → List Char → List (List Char)
  | _, part, [] => [part.reverse]
  | skip + 1, part, _ :: rest => partsFrom separator limit skip part rest
  | 0, part, c :: rest =>
    if limit != some 0 && separator.isPrefixOf (c :: rest) then
      part.reverse :: partsFrom separator (limit.map (· - 1)) (separator.length - 1) [] rest
    else partsFrom separator limit 0 (c :: part) rest

-- Puts a value to the end of a path. A value on the way that is no object stays, and so does a value at the end
-- that a null would replace, unless it is an empty object.
def setAt : (path : List String) → Json → List (String × Json) → List (String × Json)
  | [], _, members => members
  | [name], value, members =>
    match Named.get? name members, value with
    | some (.object []), _ | none, _ => Named.set name value members
    | some _, .null => members
    | some _, _ => Named.set name value members
  | name :: rest, value, members =>
    match Named.get? name members with
    | none => Named.set name (.object (setAt rest value [])) members
    | some (.object inner) => Named.set name (.object (setAt rest value inner)) members
    | some _ => members

-- What variables that reach into a field give to it.
def membersOf (s : Scope) (env : Environment) (field : String) : List (String × Json) :=
  let start := (s.form (s.leading ++ field)).toList ++ s.separator
  if s.separator.isEmpty then []
  else
    (s.visible env).foldl (fun members (name, value) =>
      if start.isPrefixOf name.toList then
        let path := partsFrom s.separator s.splits 0 [] (name.toList.drop start.length)
        setAt (path.map String.ofList) (s.reading value) members
      else members) []

end Scope

end ShapeScribe
