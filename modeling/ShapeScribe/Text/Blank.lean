import ShapeScribe.Text.Ranges

/-!
White space: the blanks of a line of bytes, and the wider classes of blanks in text.
-/

namespace ShapeScribe.Text

-- Tab, the line and page breaks, and the space: the blanks that a line of bytes can hold.
def isByteBlank (b : UInt8) : Bool := b == 32 || (9 ≤ b && b ≤ 13)

-- Every character that separates words, the four information separators included.
def blankRanges : List (Nat × Nat) :=
  [(9, 13), (28, 32), (133, 133), (160, 160), (5760, 5760), (8192, 8202), (8232, 8233), (8239, 8239),
    (8287, 8287), (12288, 12288)]

def isBlank (c : Char) : Bool := inRanges blankRanges c

-- Blanks in the sense of the character standard, which leaves the information separators out.
def isStandardBlank (c : Char) : Bool := isBlank c && !(28 ≤ c.toNat && c.toNat ≤ 31)

def trimBy (blank : Char → Bool) (cs : List Char) : List Char :=
  ((cs.dropWhile blank).reverse.dropWhile blank).reverse

end ShapeScribe.Text
