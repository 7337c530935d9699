/-!
Why a sample is refused, and the wording of each refusal.
-/

namespace ShapeScribe

-- Values that no sample may hold, by their type. Bytes still count as text where a text is asked for.
inductive Foreign
  | object
  | set
  | bytes (content : List UInt8)
  | complex
  | range
  deriving DecidableEq, Repr

inductive TypeTag
  | null
  | missing
  | boolean
  | integer
  | decimal
  | text
  | list
  | tuple
  | object
  | foreign (f : Foreign)
  deriving DecidableEq, Repr

def TypeTag.name : TypeTag → String
  | null => "NoneType"
  | missing => "api_type_detector.inference.tokens._Missing"
  | boolean => "bool"
  | integer => "int"
  | decimal => "float"
  | text => "str"
  | list => "list"
  | tuple => "tuple"
  | object => "dict"
  | foreign .object => "object"
  | foreign .set => "set"
  | foreign (.bytes _) => "bytes"
  | foreign .complex => "complex"
  | foreign .range => "range"

def TypeTag.shown (t : TypeTag) : String := "<class '" ++ t.name ++ "'>"

inductive Fault
  | unsupported (type : TypeTag)
  | notSerializable (type : TypeTag)
  | keyNotText (type : TypeTag)
  | tooDeep (limit : Int)
  | selfReferential
  | notFinite
  | tooManyDigits
  | unordered (left right : TypeTag)
  | fieldNotText (type : TypeTag)
  deriving DecidableEq, Repr

-- The family of a fault: a malformed sample, an exhausted guard, or keys of kinds that do not mix.
inductive Fault.Family
  | malformed
  | exceeded
  | mixedKeys
  deriving DecidableEq, Repr

def Fault.family : Fault → Fault.Family
  | tooDeep _ => .exceeded
  | unordered .. | fieldNotText _ => .mixedKeys
  | _ => .malformed

def Fault.message : Fault → String
  | unsupported t => "Unsupported JSON value type: " ++ t.shown
  | notSerializable t => "Cannot serialize value of type " ++ t.shown
  | keyNotText t => "Object keys must be strings, got " ++ t.shown
  | tooDeep limit => "Sample nesting exceeds max_depth=" ++ toString limit
  | selfReferential => "Cannot serialize a self-referential sample"
  | notFinite => "Cannot serialize sample: Out of range float values are not JSON compliant"
  | tooManyDigits =>
    "Cannot serialize sample: Exceeds the limit (4300 digits) for integer string conversion; " ++
      "use sys.set_int_max_str_digits() to increase the limit"
  | unordered left right =>
    "'<' not supported between instances of '" ++ left.name ++ "' and '" ++ right.name ++ "'"
  | fieldNotText t => "expected string or bytes-like object, got '" ++ t.name ++ "'"

end ShapeScribe
