import ShapeScribe.Proofs.Number.Digits
import ShapeScribe.Proofs.Number.Shortest

/-!
Numbers and their texts. What is written for a finite number reads as a decimal that rounds to the number, so that no two
finite numbers are written alike.
-/

namespace ShapeScribe

namespace Literal

variable {cs whole fraction tail : List Char} {n : Nat}

theorem unsigned?_whole {e : Int} (hwhole : ∀ c ∈ whole, isDigit c = true) (hne : whole ≠ [])
    (he : exponent? ('e' :: tail) = some e) : unsigned? (whole ++ 'e' :: tail) = some (natOfDigits whole, e) := by
  have hspan : spanDigits (whole ++ 'e' :: tail) = (whole, 'e' :: tail) := spanDigits_append hwhole (by simp [isDigit])
  have hempty : whole.isEmpty = false := by simpa using hne
  simp [unsigned?, hspan, hempty, he]

theorem unsigned?_point {e : Int} (hwhole : ∀ c ∈ whole, isDigit c = true) (hne : whole ≠ [])
    (hfraction : ∀ c ∈ fraction, isDigit c = true) (htail : ∀ c ∈ tail.head?, isDigit c = false)
    (he : exponent? tail = some e) :
    unsigned? (whole ++ '.' :: (fraction ++ tail)) = some (natOfDigits (whole ++ fraction), e - fraction.length) := by
  have hspan : spanDigits (whole ++ '.' :: (fraction ++ tail)) = (whole, '.' :: (fraction ++ tail)) :=
    spanDigits_append hwhole (by simp [isDigit])
  have hempty : whole.isEmpty = false := by simpa using hne
  simp [unsigned?, hspan, spanDigits_append hfraction htail, hempty, he]

theorem nat?_padded (width n : Nat) : nat? (Binary64.padded width (Nat.toDigits 10 n)) = some n := by
  have hne : Binary64.padded width (Nat.toDigits 10 n) ≠ [] := by simp [Binary64.padded, Nat.toDigits_ne_nil]
  have hall : (Binary64.padded width (Nat.toDigits 10 n)).all isDigit = true :=
    List.all_eq_true.mpr fun _ => isDigit_of_mem_padded
  rw [nat?, if_neg (by simp [hne, hall]), natOfDigits_padded]

theorem exponent?_padded (width : Nat) (e : Int) :
    exponent? ('e' :: (if e < 0 then '-' else '+') :: Binary64.padded width (Nat.toDigits 10 e.natAbs)) = some e := by
  split
  · rename_i he
    simp [exponent?, spanSign, nat?_padded, abs_of_neg he]
  · rename_i he
    simp [exponent?, spanSign, nat?_padded, abs_of_nonneg (not_lt.mp he)]

-- The text is a literal for the number.
def Reads (cs : List Char) (q : ℚ) : Prop := ∃ n power, unsigned? cs = some (n, power) ∧ n * 10 ^ power = q

theorem Reads.unique {q r : ℚ} (h : Reads cs q) (h' : Reads cs r) : q = r := by
  obtain ⟨n, power, hcs, rfl⟩ := h
  obtain ⟨m, power', hcs', rfl⟩ := h'
  cases hcs.symm.trans hcs'
  rfl

-- No literal without a sign begins with one.
theorem not_reads_minus {q : ℚ} : ¬ Reads ('-' :: cs) q := by
  rintro ⟨n, power, hcs, _⟩
  simp [unsigned?, spanDigits, isDigit] at hcs

theorem reads_point {power : Int} (hwhole : ∀ c ∈ whole, isDigit c = true) (hne : whole ≠ [])
    (hfraction : ∀ c ∈ fraction, isDigit c = true) (htail : ∀ c ∈ tail.head?, isDigit c = false)
    (he : exponent? tail = some power) :
    Reads (whole ++ '.' :: (fraction ++ tail)) (natOfDigits (whole ++ fraction) * 10 ^ (power - fraction.length)) :=
  ⟨_, _, unsigned?_point hwhole hne hfraction htail he, rfl⟩

theorem reads_fraction (hwhole : ∀ c ∈ whole, isDigit c = true) (hne : whole ≠ [])
    (hfraction : ∀ c ∈ fraction, isDigit c = true) :
    Reads (whole ++ '.' :: fraction) (natOfDigits (whole ++ fraction) * 10 ^ (-(fraction.length : ℤ))) := by
  have htail : ∀ c ∈ ([] : List Char).head?, isDigit c = false := by simp
  have hreads := reads_point hwhole hne hfraction htail rfl
  rwa [List.append_nil, zero_sub] at hreads

theorem reads_before (hdigits : ∀ c ∈ cs, isDigit c = true) (k : Nat) :
    Reads ('0' :: '.' :: List.replicate k '0' ++ cs) (natOfDigits cs * 10 ^ (-(k : ℤ) - cs.length)) := by
  have hall : ∀ c ∈ List.replicate k '0' ++ cs, isDigit c = true :=
    List.forall_mem_append.mpr ⟨isDigit_of_mem_zeros _, hdigits⟩
  have hreads := reads_fraction (isDigit_of_mem_zeros 1) (by simp) hall
  have hpower : -((List.replicate k '0' ++ cs).length : ℤ) = -(k : ℤ) - cs.length := by
    rw [List.length_append, List.length_replicate]
    omega
  rwa [natOfDigits_zeros_append, natOfDigits_zeros_append, hpower] at hreads

theorem reads_behind (hdigits : ∀ c ∈ cs, isDigit c = true) (hne : cs ≠ []) (k : Nat) :
    Reads (cs ++ List.replicate k '0' ++ ['.', '0']) (natOfDigits cs * 10 ^ k) := by
  have hall : ∀ c ∈ cs ++ List.replicate k '0', isDigit c = true :=
    List.forall_mem_append.mpr ⟨hdigits, isDigit_of_mem_zeros _⟩
  have hreads := reads_fraction hall (by simp [hne]) (isDigit_of_mem_zeros 1)
  have hvalue : ((natOfDigits cs * 10 ^ k * 10 ^ 1 : ℕ) : ℚ) * 10 ^ (-((1 : ℕ) : ℤ)) = natOfDigits cs * 10 ^ k := by
    rw [Nat.cast_one, zpow_neg_one]
    push_cast
    field_simp
  rwa [natOfDigits_append_zeros, natOfDigits_append_zeros, List.length_replicate, hvalue] at hreads

theorem reads_among (hdigits : ∀ c ∈ cs, isDigit c = true) {k : Nat} (hk : 0 < k) (hlt : k < cs.length) :
    Reads (cs.take k ++ '.' :: cs.drop k) (natOfDigits cs * 10 ^ ((k : ℤ) - cs.length)) := by
  have htake : ∀ c ∈ cs.take k, isDigit c = true := fun c hc => hdigits c (List.mem_of_mem_take hc)
  have hdrop : ∀ c ∈ cs.drop k, isDigit c = true := fun c hc => hdigits c (List.mem_of_mem_drop hc)
  have hne : cs.take k ≠ [] := List.ne_nil_of_length_pos (by rw [List.length_take]; omega)
  have hreads := reads_fraction htake hne hdrop
  have hpower : -((cs.drop k).length : ℤ) = k - cs.length := by
    rw [List.length_drop]
    omega
  rwa [List.take_append_drop, hpower] at hreads

-- The point stands before the digits, behind them or among them, with zeros between it and them.
theorem reads_positional (hdigits : ∀ c ∈ cs, isDigit c = true) (hne : cs ≠ []) (point : Int) :
    Reads (Binary64.positional cs point) (natOfDigits cs * 10 ^ (point - cs.length)) := by
  unfold Binary64.positional
  split
  · obtain ⟨k, rfl⟩ : ∃ k : Nat, point = -k := ⟨(-point).toNat, by omega⟩
    simpa using reads_before hdigits k
  · obtain ⟨k, rfl⟩ : ∃ k : Nat, point = k := ⟨point.toNat, by omega⟩
    rw [Int.toNat_natCast]
    split
    · rename_i hpoint hlength
      have hreads := reads_behind hdigits hne (k - cs.length)
      rwa [← zpow_natCast, Nat.cast_sub hlength] at hreads
    · rename_i hpoint hlength
      exact reads_among hdigits (by omega) (not_le.mp hlength)

theorem reads_scientific (style : Binary64.Style) {digits : List Char} (hdigits : ∀ c ∈ digits, isDigit c = true)
    (hne : digits ≠ []) (exponent : Int) :
    Reads (Binary64.scientific style digits exponent) (natOfDigits digits * 10 ^ (exponent + 1 - digits.length)) := by
  have hexponent := exponent?_padded style.exponentDigits exponent
  match digits with
  | [] => exact absurd rfl hne
  | [d] => exact ⟨_, _, unsigned?_whole hdigits (by simp) hexponent, by simp⟩
  | d :: c :: rest =>
      obtain ⟨hd, hrest⟩ := List.forall_mem_cons.mp hdigits
      have hpower : exponent + 1 - ((d :: c :: rest).length : ℤ) = exponent - ((c :: rest).length : ℤ) := by
        simp only [List.length_cons]
        omega
      rw [hpower]
      exact reads_point (List.forall_mem_singleton.mpr hd) (List.cons_ne_nil d []) hrest (by simp [isDigit]) hexponent

end Literal

namespace Binary64

variable {style : Style} {x y : Binary64}

-- The absolute value that is written for a finite number.
def shown (x : Binary64) : ℚ := if x.isZero then 0 else x.shortest.value

theorem roundsTo_shown (hx : x.isFinite = true) : x.RoundsTo x.shown := by
  unfold shown
  split
  · rename_i hzero
    simp only [isZero, hx, Bool.true_and, beq_iff_eq] at hzero
    exact roundsTo_zero hzero
  · rename_i hzero
    simp only [isZero, hx, Bool.true_and, beq_iff_eq] at hzero
    exact roundsTo_shortest (Nat.pos_of_ne_zero hzero)

-- What is written for a finite number is a literal for it, behind a sign when it is negative.
theorem exists_reads (style : Style) (hx : x.isFinite = true) :
    ∃ body, (x.written style).toList = (if x.isNegative then '-' :: body else body) ∧ Literal.Reads body x.shown := by
  have hnan : x.isNaN = false := by
    simp only [isFinite, bne_iff_ne] at hx
    simp [isNaN, hx]
  simp only [written, hnan, hx, Bool.false_eq_true, if_false, not_true, String.toList_ofList]
  refine ⟨_, rfl, ?_⟩
  unfold shown
  split
  · exact ⟨0, -1, by decide, by simp⟩
  · have hdigits : ∀ c ∈ Nat.toDigits 10 x.shortest.digits, Literal.isDigit c = true := fun c hc =>
      Literal.isDigit_of_mem_toDigits hc
    have hvalue : x.shortest.value = Literal.natOfDigits (Nat.toDigits 10 x.shortest.digits) * 10 ^ x.shortest.power := by
      rw [Literal.natOfDigits_toDigits, Decimal.value]
    rw [hvalue]
    split
    · convert Literal.reads_positional hdigits Nat.toDigits_ne_nil _ using 3
      omega
    · convert Literal.reads_scientific style hdigits Nat.toDigits_ne_nil _ using 3
      omega

-- Finite numbers are told apart by their texts, zeros by their signs.
theorem written_inj (hx : x.isFinite = true) (hy : y.isFinite = true) (h : x.written style = y.written style) : x = y := by
  obtain ⟨body, hbody, hreads⟩ := exists_reads style hx
  obtain ⟨body', hbody', hreads'⟩ := exists_reads style hy
  have hsame : (if x.isNegative then '-' :: body else body) = if y.isNegative then '-' :: body' else body' := by
    rw [← hbody, h, hbody']
  have hshown : x.isNegative = y.isNegative ∧ x.shown = y.shown := by
    cases hxsign : x.isNegative <;> cases hysign : y.isNegative <;> rw [hxsign, hysign] at hsame
    · obtain rfl : body = body' := hsame
      exact ⟨rfl, hreads.unique hreads'⟩
    · obtain rfl : body = '-' :: body' := hsame
      exact absurd hreads Literal.not_reads_minus
    · obtain rfl : '-' :: body = body' := hsame
      exact absurd hreads' Literal.not_reads_minus
    · obtain rfl : body = body' := (List.cons.inj hsame).2
      exact ⟨rfl, hreads.unique hreads'⟩
  exact eq_of_roundsTo (roundsTo_shown hx) (hshown.2 ▸ roundsTo_shown hy) hshown.1

end Binary64

end ShapeScribe
