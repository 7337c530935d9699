/-!
What can be wrong with a field, and results that collect everything that is wrong in the order of the fields.
-/

namespace ShapeScribe

inductive Complaint
  | missing
  | textType
  | integerType
  | integerText
  | integerTextSize
  | integerFromFraction
  | notFinite
  | decimalType
  | decimalText
  | booleanType
  | booleanText
  | momentType
  | momentText
  | momentRange
  | tooSmall
  | tooLarge
  | notAnObject
  | unexpected
  deriving DecidableEq, Repr

def Complaint.name : Complaint → String
  | missing => "missing"
  | textType => "string_type"
  | integerType => "int_type"
  | integerText => "int_parsing"
  | integerTextSize => "int_parsing_size"
  | integerFromFraction => "int_from_float"
  | notFinite => "finite_number"
  | decimalType => "float_type"
  | decimalText => "float_parsing"
  | booleanType => "bool_type"
  | booleanText => "bool_parsing"
  | momentType => "datetime_type"
  | momentText => "datetime_from_date_parsing"
  | momentRange => "datetime_parsing"
  | tooSmall => "greater_than_equal"
  | tooLarge => "less_than_equal"
  | notAnObject => "model_type"
  | unexpected => "extra_forbidden"

structure Issue where
  location : List String
  complaint : Complaint
  deriving DecidableEq, Repr

abbrev Validated (α : Type) := Except (List Issue) α

namespace Validated

-- Both results, or the issues of both.
def and (a : Validated α) (b : Validated β) : Validated (α × β) :=
  match a, b with
  | .ok a, .ok b => .ok (a, b)
  | .ok _, .error es => .error es
  | .error es, .ok _ => .error es
  | .error es, .error fs => .error (es ++ fs)

end Validated

end ShapeScribe
