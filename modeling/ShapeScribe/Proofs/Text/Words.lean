import Mathlib.Algebra.BigOperators.Group.List.Basic
import ShapeScribe.Text.Casing
import ShapeScribe.Text.Words
import ShapeScribe.Token.Basic

/-!
The words of a text are what stands between its separators, and words with separators between them are found again. In
words of ASCII characters nothing but the case of letters is changed by capitalization, and every character is a byte.
-/

namespace ShapeScribe.Text

section Words

variable {separates : Char → Bool} {cs w : List Char} {ws : List (List Char)} {c : Char}

theorem flatten_wordsFrom (word cs : List Char) :
    (wordsFrom separates word cs).flatten = word.reverse ++ cs.filter fun c => !separates c := by
  fun_induction wordsFrom separates word cs with
  | case1 => rfl
  | case2 word _ => simp
  | case3 word c rest hc hword ih =>
      obtain rfl : word = [] := List.isEmpty_iff.mp hword
      simpa [hc] using ih
  | case4 word c rest hc _ ih => simp [hc, ih]
  | case5 word c rest hc ih => simp [hc, ih]

theorem flatten_words (cs : List Char) : (words separates cs).flatten = cs.filter fun c => !separates c :=
  flatten_wordsFrom [] cs

theorem ne_nil_of_mem_wordsFrom {word : List Char} (h : w ∈ wordsFrom separates word cs) : w ≠ [] := by
  fun_induction wordsFrom separates word cs with
  | case1 => simp at h
  | case2 word hword =>
      obtain rfl := List.mem_singleton.mp h
      simpa using hword
  | case3 word c rest _ _ ih => exact ih h
  | case4 word c rest _ hword ih =>
      rcases List.mem_cons.mp h with rfl | h
      · simpa using hword
      · exact ih h
  | case5 word c rest _ ih => exact ih h

theorem of_mem_word (hw : w ∈ words separates cs) (hc : c ∈ w) : c ∈ cs ∧ separates c = false := by
  have hflat : c ∈ (words separates cs).flatten := List.mem_flatten_of_mem hw hc
  simpa [flatten_words] using hflat

theorem exists_word (hc : c ∈ cs) (hsep : separates c = false) : ∃ w ∈ words separates cs, c ∈ w := by
  rw [← List.mem_flatten, flatten_words]
  simp [hc, hsep]

theorem length_words_le (separates : Char → Bool) (cs : List Char) :
    (words separates cs).length ≤ (words separates cs).flatten.length := by
  rw [List.length_flatten, ← List.length_map List.length]
  refine List.length_le_sum_of_one_le _ fun n hn => ?_
  obtain ⟨w, hw, rfl⟩ := List.mem_map.mp hn
  exact List.length_pos_of_ne_nil (ne_nil_of_mem_wordsFrom hw)

theorem wordsFrom_append {word : List Char} (hw : ∀ c ∈ w, separates c = false) :
    wordsFrom separates word (w ++ cs) = wordsFrom separates (w.reverse ++ word) cs := by
  induction w generalizing word with
  | nil => rfl
  | cons c w ih =>
      obtain ⟨hc, hw⟩ := List.forall_mem_cons.mp hw
      rw [List.cons_append, wordsFrom, if_neg (by simp [hc]), ih hw, List.reverse_cons, List.append_assoc,
        List.singleton_append]

theorem words_joined (hc : separates c = true) (hws : ∀ w ∈ ws, w ≠ [] ∧ ∀ c ∈ w, separates c = false) :
    words separates (Token.joined [c] ws) = ws := by
  fun_induction Token.joined [c] ws with
  | case1 => rfl
  | case2 w =>
      obtain ⟨hne, hw⟩ := hws w List.mem_cons_self
      rw [words, ← List.append_nil w, wordsFrom_append hw, wordsFrom]
      · simp
      · simpa using hne
  | case3 w ws _ ih =>
      obtain ⟨⟨hne, hw⟩, hws⟩ := List.forall_mem_cons.mp hws
      rw [words, List.append_assoc, wordsFrom_append hw, List.singleton_append, wordsFrom, if_pos hc,
        if_neg (by simpa using hne), ← words, ih hws, List.append_nil, List.reverse_reverse]

theorem length_joined (c : Char) (ws : List (List Char)) :
    (Token.joined [c] ws).length = ws.flatten.length + (ws.length - 1) := by
  fun_induction Token.joined [c] ws with
  | case1 => rfl
  | case2 w => simp
  | case3 w ws hne ih =>
      have hpos : 0 < ws.length := List.length_pos_of_ne_nil hne
      simp only [List.length_append, ih, List.flatten_cons, List.length_cons, List.length_nil]
      omega

end Words

def IsAscii (cs : List Char) : Prop := ∀ c ∈ cs, c.toNat < 128

instance (cs : List Char) : Decidable (IsAscii cs) := List.decidableBAll _ cs

section Ascii

variable {c : Char} {cs : List Char}

theorem IsAscii.of_subset {ds : List Char} (h : IsAscii cs) (hsub : ds ⊆ cs) : IsAscii ds := fun c hc => h c (hsub hc)

-- What is true of the characters below 128 one by one.
theorem of_ascii {P : Char → Prop} (h : ∀ n < 128, P (Char.ofNat n)) (hc : c.toNat < 128) : P c := by
  rw [← Char.ofNat_toNat c]
  exact h _ hc

theorem IsAscii.utf8ByteSize_eq (h : IsAscii cs) : (String.ofList cs).utf8ByteSize = cs.length := by
  induction cs with
  | nil => rfl
  | cons c cs ih =>
      obtain ⟨hc, hcs⟩ := List.forall_mem_cons.mp h
      have hbyte : c.utf8Size = 1 := Char.utf8Size_eq_one_iff.mpr (Nat.le_of_lt_succ hc)
      rw [String.ofList_cons, String.utf8ByteSize_append, String.utf8ByteSize_singleton, hbyte, ih hcs, List.length_cons,
        Nat.add_comm]

theorem lowerAfter_of_isAscii (before : List Char) (h : IsAscii cs) : lowerAfter before cs = cs.map Char.toLower := by
  induction cs generalizing before with
  | nil => rfl
  | cons c rest ih =>
      obtain ⟨hc, hrest⟩ := List.forall_mem_cons.mp h
      have hsigma : c ≠ 'Σ' := by
        rintro rfl
        exact absurd hc (by decide)
      rw [lowerAfter, lowerChar, if_pos hc, ih _ hrest]
      · rfl
      · exact hsigma

theorem capitalize_of_isAscii (h : IsAscii (c :: cs)) : capitalize (c :: cs) = c.toUpper :: cs.map Char.toLower := by
  obtain ⟨hc, hcs⟩ := List.forall_mem_cons.mp h
  rw [capitalize, titleChar, if_pos hc, lowerAfter_of_isAscii _ hcs, List.singleton_append]

-- A property of characters that does not depend on case.
theorem all_capitalize {p : Char → Bool} (hp : ∀ n < 128, p (Char.ofNat n).toUpper = p (Char.ofNat n) ∧
    p (Char.ofNat n).toLower = p (Char.ofNat n)) (h : IsAscii cs) : (capitalize cs).all p = cs.all p := by
  cases cs with
  | nil => rfl
  | cons c rest =>
      have hcase : ∀ d ∈ c :: rest, p d.toUpper = p d ∧ p d.toLower = p d := fun d hd =>
        of_ascii (P := fun d => p d.toUpper = p d ∧ p d.toLower = p d) hp (h d hd)
      obtain ⟨hfirst, hrest⟩ := List.forall_mem_cons.mp hcase
      rw [capitalize_of_isAscii h, List.all_cons, List.all_cons, List.all_map, hfirst.1]
      congr 1
      rw [Bool.eq_iff_iff, List.all_eq_true, List.all_eq_true]
      exact forall₂_congr fun d hd => by rw [Function.comp_apply, (hrest d hd).2]

theorem isAscii_capitalize (h : IsAscii cs) : IsAscii (capitalize cs) := by
  have hsmall : cs.all (fun c => c.toNat < 128) = true := List.all_eq_true.mpr fun c hc => decide_eq_true (h c hc)
  rw [← all_capitalize (by decide +kernel) h] at hsmall
  exact fun c hc => of_decide_eq_true (List.all_eq_true.mp hsmall c hc)

end Ascii

section Lower

variable {p : Char → Bool}

-- In lower case a character becomes several only where the table of expansions has it.
theorem countP_lookUp_le {runs : List CaseTable.Run} {expansions : List (Nat × List Nat)}
    (h : ∀ e ∈ expansions, (e.2.map Char.ofNat).countP p ≤ 1) (c : Char) : (lookUp runs expansions c).countP p ≤ 1 := by
  simp only [lookUp]
  split
  · rename_i hfound
    exact h _ (List.mem_of_find?_eq_some hfound)
  · split <;> exact List.countP_le_length

theorem countP_lowerAfter_le (h : ∀ e ∈ CaseTable.lowerExpansions, (e.2.map Char.ofNat).countP p ≤ 1)
    (before cs : List Char) : (lowerAfter before cs).countP p ≤ cs.length := by
  have hchar : ∀ c, (lowerChar c).countP p ≤ 1 := by
    intro c
    unfold lowerChar
    split
    · exact List.countP_le_length
    · exact countP_lookUp_le h c
  fun_induction lowerAfter before cs with
  | case1 => simp
  | case2 before rest ih =>
      rw [List.countP_cons, List.length_cons]
      split_ifs <;> omega
  | case3 before c rest _ ih =>
      have hc := hchar c
      rw [List.countP_append, List.length_cons]
      omega

end Lower

end ShapeScribe.Text
