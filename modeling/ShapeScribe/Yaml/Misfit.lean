import ShapeScribe.Text.Quoted

/-!
Misfits: scalars whose tag announces a value that their text does not stand for, and numbers that are out of
bounds where a document names a character or its version. Everything else that is wrong makes a document
malformed.
-/

namespace ShapeScribe.Yaml

-- A value out of range or without a reading, a word that is none of those known, a text that is too short, a
-- mapping where a text has to stand, a text without the form of a date, or a number beyond every bound.
inductive Misfit.Kind
  | value
  | word
  | length
  | type
  | form
  | magnitude
  deriving DecidableEq, Repr

inductive Misfit
  | noTruthWord (word : List Char)
  | noNumber
  | noInteger (base : Nat) (text : List Char)
  | noDecimal (text : List Char)
  | tooManyDigits (count : Nat)
  | tooLarge
  | noCharacter
  | farFromCharacter
  | noDate
  | noDateText
  | year (n : Nat)
  | month
  | day
  | hour
  | minute
  | second
  | offset (minutes : Int)
  deriving DecidableEq, Repr

namespace Misfit

def kind : Misfit → Kind
  | noTruthWord _ => .word
  | noNumber => .length
  | noDateText => .type
  | noDate => .form
  | tooLarge | farFromCharacter => .magnitude
  | _ => .value

def shown (cs : List Char) : String := String.ofList (Text.quoted cs)

-- An offset in days and seconds, the seconds counted upwards.
def offsetShown (minutes : Int) : String :=
  let days := minutes.fdiv 1440
  let seconds := minutes.fmod 1440 * 60
  "datetime.timedelta(days=" ++ toString days ++ (if seconds = 0 then "" else ", seconds=" ++ toString seconds) ++ ")"

-- A text that is no integer is shown in two hundred characters at most.
def message : Misfit → String
  | noTruthWord word => shown word
  | noNumber => "string index out of range"
  | noInteger base text => "invalid literal for int() with base " ++ toString base ++ ": " ++
    String.ofList ((Text.quoted text).take 200)
  | noDecimal text => "could not convert string to float: " ++ shown text
  | tooManyDigits count =>
    "Exceeds the limit (4300 digits) for integer string conversion: value has " ++ toString count ++
      " digits; use sys.set_int_max_str_digits() to increase the limit"
  | tooLarge => "int too large to convert to float"
  | noCharacter => "chr() arg not in range(0x110000)"
  | farFromCharacter => "Python int too large to convert to C int"
  | noDate => "'NoneType' object has no attribute 'groupdict'"
  | noDateText => "expected string or bytes-like object, got 'list'"
  | year n => "year " ++ toString n ++ " is out of range"
  | month => "month must be in 1..12"
  | day => "day is out of range for month"
  | hour => "hour must be in 0..23"
  | minute => "minute must be in 0..59"
  | second => "second must be in 0..59"
  | offset minutes =>
    "offset must be a timedelta strictly between -timedelta(hours=24) and timedelta(hours=24), not " ++
      offsetShown minutes ++ "."

end Misfit

-- Why a document cannot be read.
inductive Unreadable
  | malformed
  | misfit (m : Misfit)
  deriving DecidableEq, Repr

abbrev Reading := Except Unreadable

-- A step that can or cannot be taken: where it cannot, the document is malformed.
instance : MonadLift Option Reading where
  monadLift
    | some a => .ok a
    | none => .error .malformed

instance : MonadLift (Except Misfit) Reading where
  monadLift r := r.mapError .misfit

end ShapeScribe.Yaml
