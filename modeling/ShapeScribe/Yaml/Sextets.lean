import ShapeScribe.Number.Literal

/-!
Bytes written in sextets: letters, digits, the plus sign and the slash stand for six bits each, and equals signs
fill up the last four.
-/

namespace ShapeScribe.Yaml.Sextets

def sextet? (c : Char) : Option Nat :=
  if 'A' ≤ c ∧ c ≤ 'Z' then some (c.toNat - 65)
  else if 'a' ≤ c ∧ c ≤ 'z' then some (c.toNat - 71)
  else if Literal.isDigit c then some (c.toNat + 4)
  else if c = '+' then some 62
  else if c = '/' then some 63
  else none

def lastBytes : List Nat → List UInt8
  | [c, b, a] => let n := (a * 64 + b) * 64 + c; [UInt8.ofNat (n / 1024), UInt8.ofNat (n / 4)]
  | [b, a] => [UInt8.ofNat ((a * 64 + b) / 16)]
  | _ => []

-- Bytes of four sextets at a time; `held` are those of the current four, in reverse, and `pads` the equals
-- signs behind them. Other characters are passed over.
def bytesFrom? (held : List Nat) (pads : Nat) : List Char → Option (List UInt8)
  | [] => if held.isEmpty then some [] else none
  | c :: rest =>
    if c = '=' then
      if 2 ≤ held.length then
        if 4 ≤ held.length + pads + 1 then some (lastBytes held) else bytesFrom? held (pads + 1) rest
      else bytesFrom? held pads rest
    else
      match sextet? c, held with
      | none, _ => bytesFrom? held pads rest
      | some d, [c, b, a] =>
        let n := ((a * 64 + b) * 64 + c) * 64 + d
        (bytesFrom? [] 0 rest).map ([UInt8.ofNat (n / 65536), UInt8.ofNat (n / 256), UInt8.ofNat n] ++ ·)
      | some d, _ => bytesFrom? (d :: held) 0 rest

-- Only plain characters can be read.
def bytes? (cs : List Char) : Option (List UInt8) :=
  if cs.all fun c => c.toNat < 128 then bytesFrom? [] 0 cs else none

end ShapeScribe.Yaml.Sextets
