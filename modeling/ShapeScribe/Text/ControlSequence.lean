/-!
Control sequences: the texts that make a terminal change colours or move about. Each is an escape and an opening
bracket, then digits, semicolons and question marks, and last a letter.
-/

namespace ShapeScribe.Text.ControlSequence

def isParameter (c : Char) : Bool := c.isDigit || c == ';' || c == '?'

-- What follows the letter of a sequence whose escape and bracket have been passed.
def tail? : List Char → Option (List Char)
  | [] => none
  | c :: rest => if isParameter c then tail? rest else if c.isAlpha then some rest else none

theorem length_le_of_tail? {cs rest : List Char} (h : tail? cs = some rest) : rest.length ≤ cs.length := by
  induction cs with
  | nil => simp [tail?] at h
  | cons c cs ih =>
    simp only [tail?] at h
    split at h
    · exact Nat.le_succ_of_le (ih h)
    · split at h
      · cases h
        simp
      · simp at h

-- A text without its control sequences.
def remove : List Char → List Char
  | [] => []
  | '\x1b' :: '[' :: cs =>
    match h : tail? cs with
    | some rest =>
      have := length_le_of_tail? h
      remove rest
    | none => '\x1b' :: remove ('[' :: cs)
  | c :: cs => c :: remove cs
termination_by cs => cs.length
decreasing_by all_goals (simp_wf; try omega)

end ShapeScribe.Text.ControlSequence
