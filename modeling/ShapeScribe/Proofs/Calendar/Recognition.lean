import ShapeScribe.Calendar.Recognition
import ShapeScribe.Proofs.Calendar.Field

/-!
Which texts count as dates: the texts of days and of times of day that there are. The form alone lets a line feed in at the
end and lets numbers through that name nothing; the reader takes neither.
-/

namespace ShapeScribe

open Literal

namespace DateText

-- A time of day as date texts give it.
structure Clock where
  time : TimeOfDay
  millisecond? : Option Nat
  isUniversal : Bool
  deriving DecidableEq, Repr

-- What a date text names.
structure Instant where
  date : Date
  clock? : Option Clock
  deriving DecidableEq, Repr

def fraction : Option Nat → List Char
  | some millisecond => '.' :: digits 3 millisecond
  | none => []

def universal (isUniversal : Bool) : List Char := if isUniversal then ['Z'] else []

def Clock.written (c : Clock) : List Char := c.time.written ++ (fraction c.millisecond? ++ universal c.isUniversal)

def Clock.Fits (c : Clock) : Prop := c.time.Fits ∧ ∀ n ∈ c.millisecond?, n < 1000

-- The time comes in the day.
def Clock.Valid (c : Clock) : Prop := c.time.Valid ∧ ∀ n ∈ c.millisecond?, n < 1000

namespace Instant

def written (i : Instant) : List Char :=
  i.date.written ++
    match i.clock? with
    | some c => 'T' :: c.written
    | none => []

def text (i : Instant) : String := String.ofList i.written

def Fits (i : Instant) : Prop := i.date.Fits ∧ ∀ c ∈ i.clock?, c.Fits

-- There is such a day, and such a time of it.
def Valid (i : Instant) : Prop := i.date.Valid ∧ ∀ c ∈ i.clock?, c.Valid

end Instant

section Form

variable {cs tail : List Char} {millisecond? : Option Nat} {isUniversal : Bool} {i : Instant}

theorem isEnd_iff : isEnd cs = true ↔ cs = [] ∨ cs = ['\n'] := by
  fun_cases isEnd cs <;> simp_all

theorem exists_fraction (cs : List Char) :
    ∃ millisecond? : Option Nat, (∀ n ∈ millisecond?, n < 1000) ∧ cs = fraction millisecond? ++ behindFraction cs := by
  fun_cases behindFraction cs with
  | case1 rest n behind hfield =>
      obtain ⟨hn, rfl⟩ := (field_eq_some (by decide)).mp hfield
      exact ⟨some n, by simpa using hn, rfl⟩
  | case2 => exact ⟨none, by simp, rfl⟩
  | case3 => exact ⟨none, by simp, rfl⟩

theorem exists_universal (cs : List Char) : ∃ isUniversal, cs = universal isUniversal ++ behindUniversal cs := by
  fun_cases behindUniversal cs with
  | case1 rest => exact ⟨true, rfl⟩
  | case2 => exact ⟨false, rfl⟩

theorem behindFraction_append (hms : ∀ n ∈ millisecond?, n < 1000) (htail : tail.head? ≠ some '.') :
    behindFraction (fraction millisecond? ++ tail) = tail := by
  cases millisecond? with
  | some n =>
      have hfield : field 3 (digits 3 n ++ tail) = some (n, tail) :=
        (field_eq_some (by decide)).mpr ⟨hms n rfl, rfl⟩
      rw [fraction, List.cons_append, behindFraction, hfield]
  | none =>
      rw [fraction, List.nil_append, behindFraction]
      rintro rest rfl
      exact htail rfl

theorem isEnd_behindUniversal (htail : isEnd tail = true) :
    isEnd (behindUniversal (universal isUniversal ++ tail)) = true := by
  rcases isEnd_iff.mp htail with rfl | rfl <;> cases isUniversal <;> rfl

theorem head?_universal_append (htail : isEnd tail = true) : (universal isUniversal ++ tail).head? ≠ some '.' := by
  rcases isEnd_iff.mp htail with rfl | rfl <;> cases isUniversal <;> decide

theorem hasForm_iff : hasForm cs = true ↔ ∃ i : Instant, i.Fits ∧ ∃ tail, isEnd tail = true ∧ cs = i.written ++ tail := by
  constructor
  · intro h
    unfold hasForm at h
    split at h
    · rename_i d rest hdate
      obtain ⟨hd, rfl⟩ := date?_eq_some.mp hdate
      split at h
      · rename_i t behind htime
        obtain ⟨ht, rfl⟩ := time?_eq_some.mp htime
        obtain ⟨millisecond?, hms, hfraction⟩ := exists_fraction behind
        obtain ⟨isUniversal, huniversal⟩ := exists_universal (behindFraction behind)
        refine ⟨⟨d, some ⟨t, millisecond?, isUniversal⟩⟩, ⟨hd, ?_⟩, _, h, ?_⟩
        · rintro _ ⟨⟩
          exact ⟨ht, hms⟩
        · simp only [Instant.written, Clock.written, List.append_assoc, List.cons_append]
          rw [← huniversal, ← hfraction]
      · cases h
    · rename_i d rest hno hdate
      obtain ⟨hd, rfl⟩ := date?_eq_some.mp hdate
      exact ⟨⟨d, none⟩, ⟨hd, by simp⟩, rest, h, by simp [Instant.written]⟩
    · cases h
  · rintro ⟨⟨d, clock?⟩, ⟨hd, hclock⟩, tail, htail, rfl⟩
    cases clock? with
    | none =>
        have hdate : date? (d.written ++ tail) = some (d, tail) := date?_eq_some.mpr ⟨hd, rfl⟩
        rw [Instant.written, List.append_nil, hasForm, hdate]
        rcases isEnd_iff.mp htail with rfl | rfl <;> rfl
    | some c =>
        obtain ⟨ht, hms⟩ := hclock c rfl
        have hdate : date? (d.written ++ 'T' :: (c.written ++ tail)) = some (d, 'T' :: (c.written ++ tail)) :=
          date?_eq_some.mpr ⟨hd, rfl⟩
        have htime : time? (c.written ++ tail) =
            some (c.time, fraction c.millisecond? ++ (universal c.isUniversal ++ tail)) :=
          time?_eq_some.mpr ⟨ht, by simp [Clock.written]⟩
        rw [Instant.written, List.append_assoc, List.cons_append, hasForm, hdate]
        simp only [htime, behindFraction_append hms (head?_universal_append htail), isEnd_behindUniversal htail]

end Form

section Reader

variable {c : Char} {cs tail : List Char} {millisecond? : Option Nat} {isUniversal : Bool} {d : Date} {t : TimeOfDay}
  {i : Instant}

theorem notMem_fraction (hdigit : isDigit c = false) (hne : c ≠ '.') : c ∉ fraction millisecond? := by
  cases millisecond? with
  | none => simp [fraction]
  | some n => simp [fraction, notMem_digits hdigit, hne]

theorem withOffsets_cons (h : c ≠ 'Z') : withOffsets (c :: cs) = c :: withOffsets cs := by
  rw [withOffsets, List.flatMap_cons, if_neg h, ← withOffsets, List.singleton_append]

theorem withOffsets_append (as bs : List Char) : withOffsets (as ++ bs) = withOffsets as ++ withOffsets bs :=
  List.flatMap_append

theorem withOffsets_of_notMem (h : 'Z' ∉ cs) : withOffsets cs = cs := by
  induction cs with
  | nil => rfl
  | cons c cs ih =>
      obtain ⟨hc, hcs⟩ := not_or.mp (List.mem_cons.not.mp h)
      rw [withOffsets_cons (Ne.symm hc), ih hcs]

theorem clock?_append (ht : t.Fits) :
    Moment.clock? (t.written ++ tail) = (Moment.fraction? tail).map fun (micros, behind) => ((t, micros), behind) := by
  obtain ⟨hhour, hminute, hsecond⟩ := ht
  have hfield : ∀ {n : Nat} (cs : List Char), n < 10 ^ 2 → field 2 (digits 2 n ++ cs) = some (n, cs) := fun _ hn =>
    (field_eq_some (by decide)).mpr ⟨hn, rfl⟩
  simp only [TimeOfDay.written, triple, List.append_assoc, List.cons_append, Moment.clock?, hfield _ hhour, hfield _ hminute,
    hfield _ hsecond, mark, Option.bind_eq_bind, Option.bind_some, if_true]
  cases Moment.fraction? tail <;> rfl

theorem fraction?_append (millisecond? : Option Nat) (htail : ∀ c ∈ tail.head?, isDigit c = false ∧ c ≠ '.' ∧ c ≠ ',') :
    ∃ micros, Moment.fraction? (fraction millisecond? ++ tail) = some (micros, tail) := by
  cases millisecond? with
  | none =>
      cases tail with
      | nil => exact ⟨0, rfl⟩
      | cons c tail =>
          obtain ⟨_, hpoint, hcomma⟩ := htail c rfl
          exact ⟨0, by simp [fraction, Moment.fraction?, hpoint, hcomma]⟩
  | some n =>
      have hspan : spanDigits (digits 3 n ++ tail) = (digits 3 n, tail) :=
        spanDigits_append (fun c => isDigit_of_mem_digits) fun c hc => (htail c hc).1
      have hne : digits 3 n ≠ [] := by simp [digits, Binary64.padded, Nat.toDigits_ne_nil]
      simp [fraction, Moment.fraction?, hspan, hne]

-- The reader of offsets, in front of a line feed and in front of nothing.
theorem offset?_append (htail : isEnd tail = true) :
    Moment.offset? (withOffsets (universal isUniversal) ++ tail) =
      if tail = [] then some (if isUniversal then some 0 else none) else none := by
  rcases isEnd_iff.mp htail with rfl | rfl <;> cases isUniversal <;> decide

theorem head?_offset_append (isUniversal : Bool) (htail : isEnd tail = true) :
    ∀ c ∈ (withOffsets (universal isUniversal) ++ tail).head?, isDigit c = false ∧ c ≠ '.' ∧ c ≠ ',' := by
  rcases isEnd_iff.mp htail with rfl | rfl <;> cases isUniversal <;> rintro c ⟨⟩ <;> decide

theorem withOffsets_written {c : Clock} (htail : isEnd tail = true) :
    withOffsets (d.written ++ 'T' :: (c.written ++ tail)) = d.written ++ 'T' :: (c.time.written ++
      (fraction c.millisecond? ++ (withOffsets (universal c.isUniversal) ++ tail))) := by
  have hdate : 'Z' ∉ d.written := notMem_triple (by decide) (by decide)
  have htime : 'Z' ∉ c.time.written := notMem_triple (by decide) (by decide)
  have hfraction : 'Z' ∉ fraction c.millisecond? := notMem_fraction (by decide) (by decide)
  have hend : 'Z' ∉ tail := by rcases isEnd_iff.mp htail with rfl | rfl <;> decide
  have hmark : 'T' ≠ 'Z' := by decide
  simp only [Clock.written, withOffsets_append, withOffsets_of_notMem hdate, withOffsets_cons hmark,
    withOffsets_of_notMem htime, withOffsets_of_notMem hfraction, withOffsets_of_notMem hend, List.append_assoc]

theorem moment?_iff_of_clock {c : Clock} (hd : d.Fits) (hc : c.Fits) (htail : isEnd tail = true) :
    (moment? (d.written ++ 'T' :: (c.written ++ tail))).any Moment.isInCalendar = true ↔
      tail = [] ∧ 1 ≤ d.year ∧ d.InYear ∧ c.time.Valid := by
  have hdate : ∀ rest, date? (d.written ++ rest) = some (d, rest) := fun rest => date?_eq_some.mpr ⟨hd, rfl⟩
  obtain ⟨micros, hfraction⟩ := fraction?_append c.millisecond? (head?_offset_append c.isUniversal htail)
  rw [moment?, if_pos (by simp), withOffsets_written htail, Moment.dateAndTime?, hdate]
  simp only [Option.bind_eq_bind, Option.bind_some, clock?_append hc.1, hfraction, Option.map_some, offset?_append htail]
  by_cases hend : tail = []
  · by_cases hreal : d.InYear ∧ c.time.Valid
    · simp [hend, hreal, Moment.isSeparator, Moment.isInCalendar]
    · simp [hend, hreal, Moment.isSeparator]
  · simp [hend]

theorem moment?_iff_of_date (hd : d.Fits) (htail : isEnd tail = true) :
    (moment? (d.written ++ tail)).any Moment.isInCalendar = true ↔ tail = [] ∧ 1 ≤ d.year ∧ d.InYear := by
  have hdate : date? (d.written ++ tail) = some (d, tail) := date?_eq_some.mpr ⟨hd, rfl⟩
  have hmark : 'T' ∉ d.written ++ tail := by
    have hwritten : 'T' ∉ d.written := notMem_triple (by decide) (by decide)
    rcases isEnd_iff.mp htail with rfl | rfl <;> simp [hwritten]
  rw [moment?, if_neg hmark, Moment.dateAlone?, hdate]
  rcases isEnd_iff.mp htail with rfl | rfl
  · by_cases hreal : d.InYear <;> simp [hreal, Moment.isInCalendar, Moment.midnight]
  · simp

-- The form leaves it open what the numbers name and what comes last, and the reader leaves nothing open.
theorem moment?_iff (hi : i.Fits) (htail : isEnd tail = true) :
    (moment? (i.written ++ tail)).any Moment.isInCalendar = true ↔ tail = [] ∧ i.Valid := by
  obtain ⟨⟨year, month, day⟩, clock?⟩ := i
  obtain ⟨hd, hclock⟩ := hi
  have hyear : year ≤ 9999 := Nat.le_of_lt_succ hd.1
  cases clock? with
  | none =>
      rw [Instant.written, List.append_nil, moment?_iff_of_date hd htail]
      simp [Instant.Valid, Date.Valid, hyear]
  | some c =>
      have hc : c.Fits := hclock c rfl
      have htime : c.Valid ↔ c.time.Valid := and_iff_left hc.2
      rw [Instant.written, List.append_assoc, List.cons_append, moment?_iff_of_clock hd hc htail]
      simp [Instant.Valid, Date.Valid, htime, hyear, and_assoc]

end Reader

theorem Instant.Valid.fits {i : Instant} (h : i.Valid) : i.Fits := ⟨h.1.fits, fun c hc => ⟨(h.2 c hc).1.fits, (h.2 c hc).2⟩⟩

-- A text counts as a date exactly when it is the text of a day that there is, or of a time of such a day.
theorem isDate_iff_exists_instant (text : String) : isDate text = true ↔ ∃ i : Instant, i.Valid ∧ text = i.text := by
  rw [isDate, Bool.and_eq_true, hasForm_iff]
  constructor
  · rintro ⟨⟨i, hfits, tail, htail, hform⟩, hread⟩
    rw [hform, moment?_iff hfits htail] at hread
    obtain ⟨rfl, hvalid⟩ := hread
    refine ⟨i, hvalid, ?_⟩
    rw [Instant.text, ← String.toList_inj, hform, String.toList_ofList, List.append_nil]
  · rintro ⟨i, hvalid, rfl⟩
    have hform : i.text.toList = i.written ++ [] := by rw [Instant.text, String.toList_ofList, List.append_nil]
    rw [hform]
    exact ⟨⟨i, hvalid.fits, [], rfl, rfl⟩, (moment?_iff hvalid.fits rfl).mpr ⟨rfl, hvalid⟩⟩

example : isDate "2024-02-29T23:59:59.999Z" = true ∧ isDate "2024-02-29\n" = false ∧ isDate "1900-02-29" = false := by
  decide +kernel

end DateText

end ShapeScribe
