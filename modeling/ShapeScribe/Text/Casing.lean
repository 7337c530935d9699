import ShapeScribe.Text.CaseContext
import ShapeScribe.Text.CaseTable
import ShapeScribe.Text.Ranges

/-!
Lower case and capitalization. ASCII letters move by thirty-two; the tables hold the rest. One mapping
depends on its surroundings: a capital sigma at the end of a word becomes the final small sigma.
-/

namespace ShapeScribe.Text

def lookUp (runs : List CaseTable.Run) (expansions : List (Nat × List Nat)) (c : Char) : List Char :=
  let n := c.toNat
  match expansions.find? (·.1 == n) with
  | some (_, expansion) => expansion.map Char.ofNat
  | none =>
    match runs.find? fun (first, last, step, _) => first ≤ n && n ≤ last && (n - first) % step == 0 with
    | some (_, _, _, shift) => [Char.ofNat (n + shift).toNat]
    | none => [c]

def lowerChar (c : Char) : List Char :=
  if c.toNat < 128 then [c.toLower] else lookUp CaseTable.lowerRuns CaseTable.lowerExpansions c

def titleChar (c : Char) : List Char :=
  if c.toNat < 128 then [c.toUpper] else lookUp CaseTable.titleRuns CaseTable.titleExpansions c

-- The nearest letter, marks skipped, has case.
def meetsCased (cs : List Char) : Bool :=
  match cs.dropWhile (inRanges CaseContext.ignorableRanges) with
  | [] => false
  | c :: _ => inRanges CaseContext.casedRanges c

-- Lower case of the characters after `before`, which is held in reverse.
def lowerAfter : (before : List Char) → List Char → List Char
  | _, [] => []
  | before, 'Σ' :: rest =>
    (if meetsCased before && !meetsCased rest then 'ς' else 'σ') :: lowerAfter ('Σ' :: before) rest
  | before, c :: rest => lowerChar c ++ lowerAfter (c :: before) rest

def lower (cs : List Char) : List Char := lowerAfter [] cs

-- The first character in title case, the others in lower case.
def capitalize : List Char → List Char
  | [] => []
  | c :: rest => titleChar c ++ lowerAfter [c] rest

end ShapeScribe.Text
