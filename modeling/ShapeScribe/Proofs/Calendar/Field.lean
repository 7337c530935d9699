import ShapeScribe.Calendar.DateText
import ShapeScribe.Proofs.Number.Digits

/-!
Fields of digits. A field of some width is the decimal text of its number with zeros in front, and this is all that a
reader of fields takes. What it takes for a date or a time of day is then their text.
-/

namespace ShapeScribe

open Literal

namespace DateText

def digits (width n : Nat) : List Char := Binary64.padded width (Nat.toDigits 10 n)

variable {width n : Nat} {c : Char} {cs rest : List Char} {d : Date} {t : TimeOfDay}

theorem isDigit_of_mem_digits (h : c ∈ digits width n) : isDigit c = true := isDigit_of_mem_padded h

theorem notMem_digits (h : isDigit c = false) : c ∉ digits width n := fun hmem => by simp [isDigit_of_mem_digits hmem] at h

theorem length_digits (hwidth : 0 < width) (h : n < 10 ^ width) : (digits width n).length = width := by
  have hlen := (Nat.length_toDigits_le_iff (by decide) hwidth).mpr h
  rw [digits, Binary64.padded, List.length_append, List.length_replicate]
  omega

theorem field_eq_some (hwidth : 0 < width) :
    field width cs = some (n, rest) ↔ n < 10 ^ width ∧ cs = digits width n ++ rest := by
  constructor
  · intro h
    simp only [field, Option.ite_none_right_eq_some, Option.some.injEq, Prod.mk.injEq, List.all_eq_true] at h
    obtain ⟨⟨hlen, hdigits⟩, rfl, rfl⟩ := h
    have hlt := natOfDigits_lt hdigits
    rw [hlen] at hlt
    refine ⟨hlt, ?_⟩
    have hread : natOfDigits (digits width (natOfDigits (cs.take width))) = natOfDigits (cs.take width) :=
      natOfDigits_padded _ _
    rw [natOfDigits_inj ((length_digits hwidth hlt).trans hlen.symm) (fun c => isDigit_of_mem_digits) hdigits hread,
      List.take_append_drop]
  · rintro ⟨hlt, rfl⟩
    have hlen := length_digits hwidth hlt
    rw [field, List.take_left' hlen, List.drop_left' hlen,
      if_pos ⟨hlen, List.all_eq_true.mpr fun c => isDigit_of_mem_digits⟩, digits, natOfDigits_padded]

theorem mark_eq_some : mark c cs = some rest ↔ cs = c :: rest := by
  cases cs with
  | nil => simp [mark]
  | cons d cs => simp [mark]

-- Three numbers with a mark between any two of them, the first one in a field of its own width.
def triple (width : Nat) (separator : Char) (a b c : Nat) : List Char :=
  digits width a ++ separator :: (digits 2 b ++ separator :: digits 2 c)

theorem notMem_triple {separator : Char} {a b e : Nat} (h : isDigit c = false) (hne : c ≠ separator) :
    c ∉ triple width separator a b e := by
  simp [triple, notMem_digits h, hne]

def readTriple {α : Type} (make : Nat → Nat → Nat → α) (width : Nat) (separator : Char) (cs : List Char) :
    Option (α × List Char) := do
  let (a, cs) ← field width cs
  let cs ← mark separator cs
  let (b, cs) ← field 2 cs
  let cs ← mark separator cs
  let (c, cs) ← field 2 cs
  return (make a b c, cs)

theorem readTriple_eq_some {α : Type} {make : Nat → Nat → Nat → α} {separator : Char} {x : α} (hwidth : 0 < width) :
    readTriple make width separator cs = some (x, rest) ↔
      ∃ a b c, make a b c = x ∧ (a < 10 ^ width ∧ b < 10 ^ 2 ∧ c < 10 ^ 2) ∧ cs = triple width separator a b c ++ rest := by
  simp only [readTriple, triple, Option.bind_eq_bind, Option.bind_eq_some_iff, Prod.exists, mark_eq_some,
    field_eq_some hwidth, field_eq_some two_pos, Option.pure_def, Option.some.injEq, Prod.mk.injEq]
  constructor
  · rintro ⟨_, _, ⟨ha, rfl⟩, _, rfl, _, _, ⟨hb, rfl⟩, _, rfl, _, _, ⟨hc, rfl⟩, rfl, rfl⟩
    exact ⟨_, _, _, rfl, ⟨ha, hb, hc⟩, by simp⟩
  · rintro ⟨_, _, _, rfl, ⟨ha, hb, hc⟩, rfl⟩
    exact ⟨_, _, ⟨ha, by simp⟩, _, rfl, _, _, ⟨hb, rfl⟩, _, rfl, _, _, ⟨hc, rfl⟩, rfl, rfl⟩

end DateText

namespace Date

def written (d : Date) : List Char := DateText.triple 4 '-' d.year d.month d.day

-- Every number has room in its field.
def Fits (d : Date) : Prop := d.year < 10 ^ 4 ∧ d.month < 10 ^ 2 ∧ d.day < 10 ^ 2

theorem daysInMonth_le (year month : Nat) : daysInMonth year month ≤ 31 := by
  unfold daysInMonth
  split_ifs <;> decide

theorem Valid.fits {d : Date} (h : d.Valid) : d.Fits := by
  obtain ⟨_, hyear, _, hmonth, _, hday⟩ := h
  have hlast := daysInMonth_le d.year d.month
  refine ⟨?_, ?_, ?_⟩ <;> omega

end Date

namespace TimeOfDay

def written (t : TimeOfDay) : List Char := DateText.triple 2 ':' t.hour t.minute t.second

def Fits (t : TimeOfDay) : Prop := t.hour < 10 ^ 2 ∧ t.minute < 10 ^ 2 ∧ t.second < 10 ^ 2

theorem Valid.fits {t : TimeOfDay} (h : t.Valid) : t.Fits := by
  obtain ⟨hhour, hminute, hsecond⟩ := h
  refine ⟨?_, ?_, ?_⟩ <;> omega

end TimeOfDay

namespace DateText

variable {cs rest : List Char} {d : Date} {t : TimeOfDay}

theorem date?_eq_some : date? cs = some (d, rest) ↔ d.Fits ∧ cs = d.written ++ rest := by
  change readTriple Date.mk 4 '-' cs = some (d, rest) ↔ _
  rw [readTriple_eq_some (by decide)]
  constructor
  · rintro ⟨_, _, _, rfl, h⟩
    exact h
  · intro h
    exact ⟨d.year, d.month, d.day, rfl, h⟩

theorem time?_eq_some : time? cs = some (t, rest) ↔ t.Fits ∧ cs = t.written ++ rest := by
  change readTriple TimeOfDay.mk 2 ':' cs = some (t, rest) ↔ _
  rw [readTriple_eq_some (by decide)]
  constructor
  · rintro ⟨_, _, _, rfl, h⟩
    exact h
  · intro h
    exact ⟨t.hour, t.minute, t.second, rfl, h⟩

end DateText

end ShapeScribe
