/-!
Calendar dates and times of day, in the proleptic Gregorian calendar from year 1 to year 9999.
-/

namespace ShapeScribe

structure Date where
  year : Nat
  month : Nat
  day : Nat
  deriving DecidableEq, Repr

namespace Date

def isLeap (year : Nat) : Bool := year % 4 == 0 && (year % 100 != 0 || year % 400 == 0)

def daysInMonth (year month : Nat) : Nat :=
  if month = 2 then (if isLeap year then 29 else 28)
  else if month = 4 ∨ month = 6 ∨ month = 9 ∨ month = 11 then 30
  else 31

-- A day that its year has, which may be the year zero too.
def InYear (d : Date) : Prop :=
  1 ≤ d.month ∧ d.month ≤ 12 ∧ 1 ≤ d.day ∧ d.day ≤ daysInMonth d.year d.month

instance (d : Date) : Decidable d.InYear := by unfold InYear; infer_instance

def Valid (d : Date) : Prop := 1 ≤ d.year ∧ d.year ≤ 9999 ∧ d.InYear

instance (d : Date) : Decidable d.Valid := by unfold Valid; infer_instance

end Date

structure TimeOfDay where
  hour : Nat
  minute : Nat
  second : Nat
  deriving DecidableEq, Repr

def TimeOfDay.Valid (t : TimeOfDay) : Prop := t.hour < 24 ∧ t.minute < 60 ∧ t.second < 60

instance (t : TimeOfDay) : Decidable t.Valid := by unfold TimeOfDay.Valid; infer_instance

end ShapeScribe
