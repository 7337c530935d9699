import ShapeScribe.Calendar.Moment

/-!
Texts that count as dates: `YYYY-MM-DD`, or with `Thh:mm:ss`, an optional fraction of three digits and an
optional `Z`. The form is looked at first. What has it is then read, which tells whether there is such a day and such a
time.
-/

namespace ShapeScribe.DateText

-- The form overlooks a line feed at the very end.
def isEnd : List Char → Bool
  | [] | ['\n'] => true
  | _ => false

def behindFraction : List Char → List Char
  | '.' :: rest =>
    match field 3 rest with
    | some (_, behind) => behind
    | none => '.' :: rest
  | cs => cs

def behindUniversal : List Char → List Char
  | 'Z' :: rest => rest
  | cs => cs

def hasForm (cs : List Char) : Bool :=
  match date? cs with
  | some (_, 'T' :: rest) =>
    match time? rest with
    | some (_, rest) => isEnd (behindUniversal (behindFraction rest))
    | none => false
  | some (_, rest) => isEnd rest
  | none => false

-- The letter of universal time as the offset that it stands for.
def withOffsets (cs : List Char) : List Char := cs.flatMap fun c => if c = 'Z' then "+00:00".toList else [c]

-- The reader takes more forms than this one, and no line feed.
def moment? (cs : List Char) : Option Moment :=
  if 'T' ∈ cs then Moment.dateAndTime? (withOffsets cs) else Moment.dateAlone? cs

def isDate (text : String) : Bool := hasForm text.toList && (moment? text.toList).any Moment.isInCalendar

end ShapeScribe.DateText
