import ShapeScribe.Json.Canonical
import ShapeScribe.Proofs.Text.Sequence

/-!
Texts of scalars inside a longer text. A quoted text ends where it says so, and a number ends where no character of
a number follows, so that neither can be taken for another one.
-/

namespace ShapeScribe.Json

-- The characters that are not written as they are.
def escapees : List Char := '"' :: '\\' :: (List.range 32).map Char.ofNat

theorem escapedChar_of_notMem {c : Char} (h : c ∉ escapees) : escapedChar c = [c] := by
  have hlow : ¬ c.toNat < 32 := fun hlt => h (by
    simp only [escapees, List.mem_cons, List.mem_map, List.mem_range]
    exact .inr (.inr ⟨c.toNat, hlt, Char.ofNat_toNat c⟩))
  have hne : ∀ d : Char, d.toNat < 32 → c ≠ d := fun d hd hc => hlow (hc ▸ hd)
  simp only [escapees, List.mem_cons, not_or] at h
  unfold escapedChar
  rw [if_neg (by simp [h.1, h.2.1]), if_neg (hne _ (by decide)), if_neg (hne _ (by decide)), if_neg (hne _ (by decide)),
    if_neg (hne _ (by decide)), if_neg (hne _ (by decide)), if_neg hlow]

theorem head?_of_mem_escapees : ∀ c ∈ escapees, (escapedChar c).head? = some '\\' := by
  have hall : escapees.all (fun c => (escapedChar c).head? = some '\\') = true := by decide
  exact fun c hc => of_decide_eq_true (List.all_eq_true.mp hall c hc)

theorem head?_escapedChar (c : Char) : (escapedChar c).head? = some (if c ∈ escapees then '\\' else c) := by
  split
  · exact head?_of_mem_escapees c ‹_›
  · rw [escapedChar_of_notMem ‹_›, List.head?_cons]

theorem quote_ne_escapedChar_append (c : Char) {r s : List Char} : '"' :: r ≠ escapedChar c ++ s := by
  intro h
  have hhead := congrArg List.head? h
  rw [List.head?_cons, List.head?_append, head?_escapedChar, Option.some_or, Option.some.injEq] at hhead
  split at hhead
  · exact absurd hhead (by decide)
  · subst hhead
    exact absurd (show '"' ∈ escapees by decide) ‹_›

-- No escape begins another one.
theorem eq_of_isPrefixOf_escapedChar :
    ∀ c ∈ escapees, ∀ d ∈ escapees, (escapedChar c).isPrefixOf (escapedChar d) = true → c = d := by
  have hall : escapees.all (fun c => escapees.all fun d =>
      (escapedChar c).isPrefixOf (escapedChar d) = true → c = d) = true := by decide
  exact fun c hc d hd => of_decide_eq_true (List.all_eq_true.mp (List.all_eq_true.mp hall c hc) d hd)

theorem eq_of_begins_escapedChar {c d : Char} (h : escapedChar c <+: escapedChar d) : c = d := by
  have hhead : (escapedChar c).head? = (escapedChar d).head? := by
    obtain ⟨rest, hrest⟩ := h
    rw [← hrest, List.head?_append, head?_escapedChar, Option.some_or]
  rw [head?_escapedChar, head?_escapedChar, Option.some.injEq] at hhead
  have hbackslash : '\\' ∈ escapees := by decide
  split at hhead <;> split at hhead
  · exact eq_of_isPrefixOf_escapedChar c ‹_› d ‹_› (List.isPrefixOf_iff_prefix.mpr h)
  · exact absurd (hhead ▸ hbackslash) ‹_›
  · exact absurd (hhead ▸ hbackslash) ‹_›
  · exact hhead

theorem escapedChar_append_inj {c d : Char} {r s : List Char} (h : escapedChar c ++ r = escapedChar d ++ s) :
    c = d ∧ r = s := by
  have hcd : c = d := by
    rcases List.prefix_or_prefix_of_prefix ⟨r, h⟩ (List.prefix_append (escapedChar d) s) with hhead | hhead
    · exact eq_of_begins_escapedChar hhead
    · exact (eq_of_begins_escapedChar hhead).symm
  exact ⟨hcd, List.append_cancel_left (hcd ▸ h)⟩

theorem writtenText_append_inj {t u : String} {r s : List Char} (h : writtenText t ++ r = writtenText u ++ s) :
    t = u ∧ r = s := by
  simp only [writtenText, List.cons_append, List.cons.injEq, true_and, List.append_assoc, List.nil_append] at h
  obtain ⟨htoList, hrest⟩ := Text.escaped_append_inj (fun _ _ _ _ => escapedChar_append_inj)
    (fun c _ _ => quote_ne_escapedChar_append c) h
  exact ⟨String.toList_inj.mp htoList, hrest⟩

-- The characters that numbers are written with.
def inNumber (c : Char) : Bool := c.isDigit || c == '-' || c == '+' || c == '.' || c == 'e'

-- Nothing, or something that does not carry a number on.
def EndsNumber (r : List Char) : Prop := ∀ c ∈ r.head?, inNumber c = false

theorem isDigit_of_mem_toDigits {n : Nat} {c : Char} (h : c ∈ Nat.toDigits 10 n) : c.isDigit = true :=
  Nat.isDigit_of_mem_toDigits (by decide) (by decide) h

theorem toDigits_inj {m n : Nat} (h : Nat.toDigits 10 m = Nat.toDigits 10 n) : m = n := by
  rw [← Nat.ofDigitChars_ten_toDigits (n := m), h, Nat.ofDigitChars_ten_toDigits]

theorem minus_notMem_toDigits (n : Nat) : '-' ∉ Nat.toDigits 10 n := by
  intro h
  exact absurd (isDigit_of_mem_toDigits h) (by decide)

theorem writtenInteger_inj {m n : Int} (h : writtenInteger m = writtenInteger n) : m = n := by
  unfold writtenInteger at h
  split at h <;> split at h
  · have habs := toDigits_inj (List.cons.inj h).2
    omega
  · exact absurd (h ▸ List.mem_cons_self) (minus_notMem_toDigits n.natAbs)
  · exact absurd (h ▸ List.mem_cons_self) (minus_notMem_toDigits m.natAbs)
  · have habs := toDigits_inj h
    omega

theorem mem_writtenInteger {n : Int} {c : Char} (h : c ∈ writtenInteger n) : c = '-' ∨ c.isDigit = true := by
  unfold writtenInteger at h
  split at h
  · rcases List.mem_cons.mp h with rfl | h
    · exact .inl rfl
    · exact .inr (isDigit_of_mem_toDigits h)
  · exact .inr (isDigit_of_mem_toDigits h)

theorem inNumber_of_mem_writtenInteger {n : Int} {c : Char} (h : c ∈ writtenInteger n) : inNumber c = true := by
  rcases mem_writtenInteger h with rfl | h
  · decide
  · simp [inNumber, h]

theorem writtenInteger_ne_nil (n : Int) : writtenInteger n ≠ [] := by
  unfold writtenInteger
  split
  · simp
  · exact Nat.toDigits_ne_nil

-- Decimal numbers have a point or an exponent.
def IsFractional (cs : List Char) : Prop := '.' ∈ cs ∨ 'e' ∈ cs

theorem IsFractional.ne_nil {cs : List Char} (h : IsFractional cs) : cs ≠ [] :=
  h.elim List.ne_nil_of_mem List.ne_nil_of_mem

theorem not_isFractional_writtenInteger (n : Int) : ¬ IsFractional (writtenInteger n) := by
  rintro (h | h) <;> rcases mem_writtenInteger h with h | h <;> revert h <;> decide

theorem positional_spec {digits : List Char} (hdigits : ∀ c ∈ digits, c.isDigit = true) (point : Int) :
    (∀ c ∈ Binary64.positional digits point, inNumber c = true) ∧ '.' ∈ Binary64.positional digits point := by
  have hdigit : ∀ c ∈ digits, inNumber c = true := fun c hc => by simp [inNumber, hdigits c hc]
  unfold Binary64.positional
  split
  · refine ⟨?_, by simp⟩
    simp only [List.mem_cons, List.mem_append, List.mem_replicate]
    rintro c ((rfl | rfl | ⟨_, rfl⟩) | hc)
    · decide
    · decide
    · decide
    · exact hdigit c hc
  · split
    · refine ⟨?_, by simp⟩
      simp only [List.mem_cons, List.mem_append, List.mem_replicate, List.not_mem_nil, or_false]
      rintro c ((hc | ⟨_, rfl⟩) | rfl | rfl)
      · exact hdigit c hc
      · decide
      · decide
      · decide
    · refine ⟨?_, by simp⟩
      simp only [List.mem_cons, List.mem_append]
      rintro c (hc | rfl | hc)
      · exact hdigit c (List.mem_of_mem_take hc)
      · decide
      · exact hdigit c (List.mem_of_mem_drop hc)

theorem scientific_spec {digits : List Char} (hdigits : ∀ c ∈ digits, c.isDigit = true) (style : Binary64.Style)
    (exponent : Int) :
    (∀ c ∈ Binary64.scientific style digits exponent, inNumber c = true) ∧
      'e' ∈ Binary64.scientific style digits exponent := by
  have hdigit : ∀ c ∈ digits, inNumber c = true := fun c hc => by simp [inNumber, hdigits c hc]
  have hpadded : ∀ c ∈ Binary64.padded style.exponentDigits (Nat.toDigits 10 exponent.natAbs), inNumber c = true := by
    simp only [Binary64.padded, List.mem_append, List.mem_replicate]
    rintro c (⟨_, rfl⟩ | hc)
    · decide
    · simp [inNumber, isDigit_of_mem_toDigits hc]
  have hsign : ∀ c, c = (if exponent < 0 then '-' else '+') → inNumber c = true := by
    rintro c rfl
    split <;> decide
  unfold Binary64.scientific
  refine ⟨?_, by simp⟩
  simp only [List.mem_append, List.mem_cons]
  rintro c (hc | rfl | hc | hc)
  · match digits with
    | [] => simp at hc; subst hc; decide
    | [d] => exact hdigit c hc
    | d :: e :: rest =>
        rcases List.mem_cons.mp hc with rfl | hc
        · exact hdigit _ (by simp)
        · rcases List.mem_cons.mp hc with rfl | hc
          · decide
          · exact hdigit c (List.mem_cons_of_mem _ hc)
  · decide
  · exact hsign c hc
  · exact hpadded c hc

-- The text of a finite number is made of characters of numbers, and can be told from that of an integer.
theorem decimal_spec {x : Binary64} (hx : x.isFinite = true) :
    (∀ c ∈ (x.written numberStyle).toList, inNumber c = true) ∧ IsFractional (x.written numberStyle).toList := by
  have hnan : x.isNaN = false := by
    simp only [Binary64.isFinite, bne_iff_ne] at hx
    simp [Binary64.isNaN, hx]
  have hsigned : ∀ body : List Char, (∀ c ∈ body, inNumber c = true) ∧ IsFractional body →
      (∀ c ∈ (if x.isNegative then '-' :: body else body), inNumber c = true) ∧
        IsFractional (if x.isNegative then '-' :: body else body) := by
    rintro body ⟨hbody, hfraction⟩
    split
    · refine ⟨?_, hfraction.imp (List.mem_cons_of_mem _) (List.mem_cons_of_mem _)⟩
      rintro c hc
      rcases List.mem_cons.mp hc with rfl | hc
      · decide
      · exact hbody c hc
    · exact ⟨hbody, hfraction⟩
  have hdigits : ∀ c ∈ Nat.toDigits 10 x.shortest.digits, c.isDigit = true := fun c hc => isDigit_of_mem_toDigits hc
  simp only [Binary64.written, hnan, hx, Bool.false_eq_true, if_false, not_true, String.toList_ofList]
  apply hsigned
  split
  · have hzero : ['0', '.', '0'].all inNumber = true := by decide
    exact ⟨List.all_eq_true.mp hzero, .inl (by simp)⟩
  · split
    · exact ⟨(positional_spec hdigits _).1, .inl (positional_spec hdigits _).2⟩
    · exact ⟨(scientific_spec hdigits _ _).1, .inr (scientific_spec hdigits _ _).2⟩

end ShapeScribe.Json
