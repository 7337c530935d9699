import ShapeScribe.Token.FieldName

/-!
Shape tokens: the type of one value, as an array of alternatives or as a record of named unions, down to
scalars. A token is written as a type expression.
-/

namespace ShapeScribe

inductive Token
  | scalar (name text : String)
  | array (elements : List Token)
  | record (fields : List (String × List Token))
  deriving Inhabited, Repr

namespace Token

def null : Token := .scalar "null" "null"
def undefined : Token := .scalar "undefined" "undefined"
def boolean : Token := .scalar "boolean" "boolean"
def number : Token := .scalar "number" "number"
def string : Token := .scalar "string" "string"
def date : Token := .scalar "date" "string /* ISO Date */"
def unknown : Token := .scalar "unknown" "unknown"
def circular : Token := .scalar "circular" "unknown /* circular reference */"

mutual

def decEq : (t u : Token) → Decidable (t = u)
  | .scalar n t, .scalar m u => decidable_of_iff (n = m ∧ t = u) (by simp)
  | .array ts, .array us =>
    match decEqAll ts us with
    | isTrue h => isTrue (by rw [h])
    | isFalse h => isFalse (by simpa using h)
  | .record fs, .record gs =>
    match decEqFields fs gs with
    | isTrue h => isTrue (by rw [h])
    | isFalse h => isFalse (by simpa using h)
  | .scalar .., .array _ => isFalse (by simp)
  | .scalar .., .record _ => isFalse (by simp)
  | .array _, .scalar .. => isFalse (by simp)
  | .array _, .record _ => isFalse (by simp)
  | .record _, .scalar .. => isFalse (by simp)
  | .record _, .array _ => isFalse (by simp)

def decEqAll : (ts us : List Token) → Decidable (ts = us)
  | [], [] => isTrue rfl
  | [], _ :: _ => isFalse (by simp)
  | _ :: _, [] => isFalse (by simp)
  | t :: ts, u :: us =>
    match decEq t u, decEqAll ts us with
    | isTrue h, isTrue hs => isTrue (by rw [h, hs])
    | isFalse h, _ => isFalse (by simp [h])
    | _, isFalse hs => isFalse (by simp [hs])

def decEqFields : (fs gs : List (String × List Token)) → Decidable (fs = gs)
  | [], [] => isTrue rfl
  | [], _ :: _ => isFalse (by simp)
  | _ :: _, [] => isFalse (by simp)
  | (n, ts) :: fs, (m, us) :: gs =>
    match instDecidableEqString n m, decEqAll ts us, decEqFields fs gs with
    | isTrue h, isTrue ht, isTrue hf => isTrue (by rw [h, ht, hf])
    | isFalse h, _, _ => isFalse (by simp [h])
    | _, isFalse ht, _ => isFalse (by simp [ht])
    | _, _, isFalse hf => isFalse (by simp [hf])

end

instance : DecidableEq Token := decEq

-- Where a token stands in a union: values, then null, then undefined.
inductive Tier
  | value
  | null
  | undefined
  deriving DecidableEq, Repr

def Tier.rank : Tier → Nat
  | value => 0
  | null => 1
  | undefined => 2

def tier : Token → Tier
  | .scalar name _ => if name = "null" then .null else if name = "undefined" then .undefined else .value
  | _ => .value

-- Texts with a separator between any two of them.
def joined (separator : List Char) : List (List Char) → List Char
  | [] => []
  | [t] => t
  | t :: ts => t ++ separator ++ joined separator ts

def bar : List Char := [' ', '|', ' ']

-- The alternatives of a union; no alternatives are written as unknown.
def writtenUnion : List (List Char) → List Char
  | [] => "unknown".toList
  | ts => joined bar ts

-- More than one alternative needs brackets.
def writtenArray : List (List Char) → List Char
  | [] => "unknown[]".toList
  | [t] => t ++ ['[', ']']
  | ts => '(' :: joined bar ts ++ [')', '[', ']']

mutual

def written : Token → List Char
  | .scalar _ text => text.toList
  | .array elements => writtenArray (writtenAll elements)
  | .record [] => "Record<string, never>".toList
  | .record (f :: fs) => ['{', ' '] ++ joined [';', ' '] (writtenFields (f :: fs)) ++ [' ', '}']

def writtenAll : List Token → List (List Char)
  | [] => []
  | t :: ts => written t :: writtenAll ts

def writtenFields : List (String × List Token) → List (List Char)
  | [] => []
  | (name, union) :: rest =>
    (FieldName.written name.toList ++ [':', ' '] ++ writtenUnion (writtenAll union)) :: writtenFields rest

end

def text (t : Token) : String := String.ofList t.written

end Token

end ShapeScribe
