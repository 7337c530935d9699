import Mathlib.Tactic.Ring
import ShapeScribe.Number.Literal
import ShapeScribe.Number.Shortest

/-!
Digits and the number that they denote. Digits of the same number are the same as long as there are as many of them, and a
number has its decimal text with any zeros in front.
-/

namespace ShapeScribe.Literal

variable {c d : Char} {cs as bs whole tail : List Char} {n m : Nat}

theorem isDigit_iff : isDigit c = true ↔ 48 ≤ c.toNat ∧ c.toNat ≤ 57 := by
  rw [isDigit, Bool.and_eq_true, decide_eq_true_eq, decide_eq_true_eq]
  rfl

theorem isDigit_of_mem_toDigits (h : c ∈ Nat.toDigits 10 n) : isDigit c = true :=
  Nat.isDigit_of_mem_toDigits (by decide) (by decide) h

theorem natOfDigits_toDigits (n : Nat) : natOfDigits (Nat.toDigits 10 n) = n := Nat.ofDigitChars_ten_toDigits

theorem natOfDigits_zeros_append (k : Nat) (cs : List Char) :
    natOfDigits (List.replicate k '0' ++ cs) = natOfDigits cs := by
  induction k with
  | zero => rfl
  | succ k ih => exact ih

theorem natOfDigits_append_zeros (cs : List Char) (k : Nat) :
    natOfDigits (cs ++ List.replicate k '0') = natOfDigits cs * 10 ^ k := by
  induction k with
  | zero => simp
  | succ k ih =>
      rw [List.replicate_succ', ← List.append_assoc, natOfDigits, List.foldl_append, ← natOfDigits, ih, pow_succ]
      simp [digitValue]
      ring

theorem spanDigits_append (hwhole : ∀ c ∈ whole, isDigit c = true) (htail : ∀ c ∈ tail.head?, isDigit c = false) :
    spanDigits (whole ++ tail) = (whole, tail) := by
  rw [spanDigits, List.takeWhile_append_of_pos hwhole, List.dropWhile_append_of_pos hwhole]
  cases tail with
  | nil => simp
  | cons c tail =>
      have hc : isDigit c = false := htail c (by simp)
      simp [hc]

theorem isDigit_of_mem_zeros (k : Nat) : ∀ c ∈ List.replicate k '0', isDigit c = true := by
  intro c hc
  rw [List.eq_of_mem_replicate hc]
  rfl

theorem isDigit_of_mem_padded {width : Nat} (h : c ∈ Binary64.padded width (Nat.toDigits 10 n)) :
    isDigit c = true := by
  rcases List.mem_append.mp h with h | h
  · exact isDigit_of_mem_zeros _ c h
  · exact isDigit_of_mem_toDigits h

theorem natOfDigits_padded (width n : Nat) : natOfDigits (Binary64.padded width (Nat.toDigits 10 n)) = n := by
  rw [Binary64.padded, natOfDigits_zeros_append, natOfDigits_toDigits]

theorem digitValue_lt (h : isDigit c = true) : digitValue c < 10 := by
  have hcode := isDigit_iff.mp h
  unfold digitValue
  omega

theorem digitValue_inj (hc : isDigit c = true) (hd : isDigit d = true) (h : digitValue c = digitValue d) : c = d := by
  have hcode := isDigit_iff.mp hc
  have hcode' := isDigit_iff.mp hd
  unfold digitValue at h
  exact Char.toNat_inj.mp (by omega)

-- What has been read before the digits counts in, so that the induction can go on behind the first digit.
theorem ofDigitChars_lt (h : ∀ c ∈ as, isDigit c = true) : Nat.ofDigitChars 10 as n < (n + 1) * 10 ^ as.length := by
  induction as generalizing n with
  | nil => simp
  | cons a as ih =>
      obtain ⟨ha, has⟩ := List.forall_mem_cons.mp h
      have hvalue := digitValue_lt ha
      calc Nat.ofDigitChars 10 (a :: as) n
          = Nat.ofDigitChars 10 as (10 * n + digitValue a) := Nat.ofDigitChars_cons
        _ < (10 * n + digitValue a + 1) * 10 ^ as.length := ih has
        _ ≤ ((n + 1) * 10) * 10 ^ as.length := Nat.mul_le_mul_right _ (by omega)
        _ = (n + 1) * 10 ^ (a :: as).length := by rw [List.length_cons, pow_succ', mul_assoc]

theorem ofDigitChars_inj (hlen : as.length = bs.length) (has : ∀ c ∈ as, isDigit c = true)
    (hbs : ∀ c ∈ bs, isDigit c = true) (h : Nat.ofDigitChars 10 as n = Nat.ofDigitChars 10 bs m) :
    n = m ∧ as = bs := by
  induction as generalizing bs n m with
  | nil =>
      obtain rfl := List.length_eq_zero_iff.mp hlen.symm
      exact ⟨h, rfl⟩
  | cons a as ih =>
      cases bs with
      | nil => simp at hlen
      | cons b bs =>
          obtain ⟨ha, has⟩ := List.forall_mem_cons.mp has
          obtain ⟨hb, hbs⟩ := List.forall_mem_cons.mp hbs
          rw [Nat.ofDigitChars_cons, Nat.ofDigitChars_cons] at h
          obtain ⟨hread, rfl⟩ := ih (by simpa using hlen) has hbs h
          change 10 * n + digitValue a = 10 * m + digitValue b at hread
          have hvalue := digitValue_lt ha
          have hvalue' := digitValue_lt hb
          obtain ⟨rfl, hdigit⟩ : n = m ∧ digitValue a = digitValue b := by omega
          exact ⟨rfl, by rw [digitValue_inj ha hb hdigit]⟩

theorem natOfDigits_lt (h : ∀ c ∈ as, isDigit c = true) : natOfDigits as < 10 ^ as.length := by
  have hlt := ofDigitChars_lt (n := 0) h
  rwa [zero_add, one_mul] at hlt

theorem natOfDigits_inj (hlen : as.length = bs.length) (has : ∀ c ∈ as, isDigit c = true)
    (hbs : ∀ c ∈ bs, isDigit c = true) (h : natOfDigits as = natOfDigits bs) : as = bs :=
  (ofDigitChars_inj hlen has hbs h).2

end ShapeScribe.Literal
