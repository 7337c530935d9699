import ShapeScribe.Json.Reader
import ShapeScribe.Proofs.Token.FieldName
import ShapeScribe.Text.Units

/-!
Literals between double quotes, read one character after another as the language of the declarations has them: code
units, with escapes for some and no line break unless a backslash stands in front of it. What a name is written as
between quotes is read as the name, unless there is a line break in it.
-/

namespace ShapeScribe.Script

-- How far the reading of a literal has come: outside escapes, or somewhere inside one.
inductive Phase
  | plain
  | escape
  | zero
  | feed
  | hex (left value : Nat)
  | unicode
  | point (value : Option Nat)
  | closed
  deriving DecidableEq

-- A code point has these units also where it is no character.
def unitsOfPoint (n : Nat) : List UInt16 :=
  if n < 65536 then [UInt16.ofNat n]
  else [UInt16.ofNat (55296 + (n - 65536) / 1024), UInt16.ofNat (56320 + (n - 65536) % 1024)]

-- Control characters with letters of their own.
def controlUnit? : Char → Option UInt16
  | 'b' => some 8
  | 't' => some 9
  | 'n' => some 10
  | 'v' => some 11
  | 'f' => some 12
  | 'r' => some 13
  | _ => none

def isLineBreak (c : Char) : Bool := c == '\n' || c == '\r'

def plainStep (done : List UInt16) (c : Char) : Option (List UInt16 × Phase) :=
  if c = '"' then some (done, .closed)
  else if c = '\\' then some (done, .escape)
  else if isLineBreak c then none
  else some (done ++ Text.unitsOf c, .plain)

-- Behind a backslash. A line break there stands for nothing, and a character without a meaning of its own for itself.
def escapeStep (done : List UInt16) (c : Char) : Option (List UInt16 × Phase) :=
  if c = '0' then some (done ++ [0], .zero)
  else if Literal.isDigit c then none
  else if c = 'x' then some (done, .hex 2 0)
  else if c = 'u' then some (done, .unicode)
  else if c = '\r' then some (done, .feed)
  else if c = '\n' ∨ c = '\u2028' ∨ c = '\u2029' then some (done, .plain)
  else
    match controlUnit? c with
    | some unit => some (done ++ [unit], .plain)
    | none => some (done ++ Text.unitsOf c, .plain)

def hexStep (done : List UInt16) (left value : Nat) (c : Char) : Option (List UInt16 × Phase) := do
  let digit ← Json.hexValue? c
  let value := value * 16 + digit
  if left ≤ 1 then return (done ++ [UInt16.ofNat value], .plain) else return (done, .hex (left - 1) value)

def pointStep (done : List UInt16) (value : Option Nat) (c : Char) : Option (List UInt16 × Phase) :=
  if c = '}' then value.map fun n => (done ++ unitsOfPoint n, .plain)
  else do
    let digit ← Json.hexValue? c
    let n := value.getD 0 * 16 + digit
    if n ≤ 0x10ffff then return (done, .point (some n)) else none

-- What has been read so far, and one character more.
def literalStep : List UInt16 × Phase → Char → Option (List UInt16 × Phase)
  | (done, .plain), c => plainStep done c
  | (done, .escape), c => escapeStep done c
  | (done, .zero), c => if Literal.isDigit c then none else plainStep done c
  | (done, .feed), c => if c = '\n' then some (done, .plain) else plainStep done c
  | (done, .hex left value), c => hexStep done left value c
  | (done, .unicode), c => if c = '{' then some (done, .point none) else hexStep done 4 0 c
  | (done, .point value), c => pointStep done value c
  | (_, .closed), _ => none

-- A whole literal, from its opening quote to its closing one.
def literal? : List Char → Option (List UInt16)
  | '"' :: rest =>
    match rest.foldlM literalStep ([], .plain) with
    | some (units, .closed) => some units
    | _ => none
  | _ => none

example : literal? ['"', 'a', '\\', '"', '\\', 'u', '0', '0', '6', '2', '\\', 'x', '6', '3', '\\', '\n', '"'] =
    some [97, 34, 98, 99] := by decide

end ShapeScribe.Script

namespace ShapeScribe.Text

theorem valid_toNat (c : Char) : c.toNat < 0xd800 ∨ 0xdfff < c.toNat ∧ c.toNat < 0x110000 := c.valid

theorem ofNat_inj {m n : Nat} (hm : m < 65536) (hn : n < 65536) (h : UInt16.ofNat m = UInt16.ofNat n) : m = n := by
  have hnat := congrArg UInt16.toNat h
  rwa [UInt16.toNat_ofNat_of_lt' (by simpa using hm), UInt16.toNat_ofNat_of_lt' (by simpa using hn)] at hnat

theorem unitsOf_eq (c : Char) : unitsOf c = Script.unitsOfPoint c.toNat := rfl

-- No unit of the basic plane is the first of a surrogate pair.
theorem unitsOf_append_inj {c d : Char} {r s : List UInt16} (h : unitsOf c ++ r = unitsOf d ++ s) : c = d ∧ r = s := by
  have hc := valid_toNat c
  have hd := valid_toNat d
  have hsame : c.toNat = d.toNat → c = d := fun hn => Char.ext (UInt32.toNat_inj.mp hn)
  rw [unitsOf_eq, unitsOf_eq, Script.unitsOfPoint, Script.unitsOfPoint] at h
  split at h <;> split at h <;> simp only [List.cons_append, List.nil_append, List.cons.injEq] at h
  · exact ⟨hsame (ofNat_inj (by omega) (by omega) h.1), h.2⟩
  · have hn := ofNat_inj (by omega) (by omega) h.1
    omega
  · have hn := ofNat_inj (by omega) (by omega) h.1
    omega
  · have hhigh := ofNat_inj (by omega) (by omega) h.1
    have hlow := ofNat_inj (by omega) (by omega) h.2.1
    exact ⟨hsame (by omega), h.2.2⟩

theorem unitsOf_ne_nil (c : Char) : unitsOf c ≠ [] := by
  rw [unitsOf_eq, Script.unitsOfPoint]
  split <;> simp

theorem flatMap_unitsOf_inj {cs ds : List Char} (h : cs.flatMap unitsOf = ds.flatMap unitsOf) : cs = ds := by
  induction cs generalizing ds with
  | nil =>
      cases ds with
      | nil => rfl
      | cons d ds => simp [unitsOf_ne_nil] at h
  | cons c cs ih =>
      cases ds with
      | nil => simp [unitsOf_ne_nil] at h
      | cons d ds =>
          obtain ⟨rfl, hrest⟩ := unitsOf_append_inj h
          rw [ih hrest]

-- Different texts have different code units.
theorem units_inj {s t : String} (h : units s = units t) : s = t := String.toList_inj.mp (flatMap_unitsOf_inj h)

end ShapeScribe.Text

namespace ShapeScribe.Script

-- Neither of the characters that end a line is in the text.
def OnOneLine (cs : List Char) : Prop := ∀ c ∈ cs, isLineBreak c = false

instance (cs : List Char) : Decidable (OnOneLine cs) := List.decidableBAll (fun c => isLineBreak c = false) cs

variable {c : Char} {cs : List Char} {done : List UInt16}

theorem foldlM_escaped (h : isLineBreak c = false) :
    (FieldName.escaped c).foldlM literalStep (done, .plain) = some (done ++ Text.unitsOf c, .plain) := by
  unfold FieldName.escaped
  split
  · rename_i hc
    rcases hc with rfl | rfl
    · rfl
    · rfl
  · rename_i hc
    simp only [not_or] at hc
    simp [literalStep, plainStep, hc, h]

-- The escapes of a name on one line are read as the name. The induction is on the name.
theorem foldlM_name (h : OnOneLine cs) :
    (cs.flatMap FieldName.escaped).foldlM literalStep (done, .plain) = some (done ++ cs.flatMap Text.unitsOf, .plain) := by
  induction cs generalizing done with
  | nil => simp
  | cons c cs ih =>
      obtain ⟨hc, hcs⟩ := List.forall_mem_cons.mp h
      simp [List.foldlM_append, foldlM_escaped hc, ih hcs]

theorem literal?_quoted (h : OnOneLine cs) :
    literal? ('"' :: cs.flatMap FieldName.escaped ++ ['"']) = some (cs.flatMap Text.unitsOf) := by
  simp [literal?, List.foldlM_append, foldlM_name h, literalStep, plainStep]

end ShapeScribe.Script
