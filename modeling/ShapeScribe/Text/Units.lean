/-!
UTF-16 code units: one for a character of the basic plane, a surrogate pair for any other.
-/

namespace ShapeScribe.Text

def unitsOf (c : Char) : List UInt16 :=
  let n := c.toNat
  if n < 65536 then [UInt16.ofNat n]
  else [UInt16.ofNat (55296 + (n - 65536) / 1024), UInt16.ofNat (56320 + (n - 65536) % 1024)]

def units (text : String) : List UInt16 := text.toList.flatMap unitsOf

end ShapeScribe.Text
