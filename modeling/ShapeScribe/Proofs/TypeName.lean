import ShapeScribe.Proofs.Text.Words
import ShapeScribe.Proofs.Token.FieldName
import ShapeScribe.TypeName

/-!
Which type names are identifiers. A type name keeps every character of the route's display name that separates no words,
but for words that say nothing, so that it is an identifier exactly when all of these characters may stand in one.
-/

namespace ShapeScribe

namespace TypeName

variable {name cs : List Char}

-- Between its separators the name holds nothing but characters of identifiers.
def IsPlain (name : List Char) : Prop := ∀ c ∈ name, separates c = true ∨ FieldName.continuesName c = true

instance (name : List Char) : Decidable (IsPlain name) := List.decidableBAll _ name

theorem continuesName_of_isIdle (hascii : Text.IsAscii cs) (h : isIdle cs = true) :
    cs.all FieldName.continuesName = true := by
  have hidle : ["api", "endpoint", "route"].all (fun idle => idle.toList.all FieldName.continuesName) = true := by decide
  have hfolded : ∀ n < 128, FieldName.continuesName (foldedLetter (Char.ofNat n)) =
      FieldName.continuesName (Char.ofNat n) := by decide +kernel
  obtain ⟨idle, hmem, heq⟩ := List.any_eq_true.mp h
  have hall := List.all_eq_true.mp hidle idle hmem
  rw [eq_of_beq heq, List.all_map] at hall
  refine List.all_eq_true.mpr fun c hc => ?_
  rw [← Text.of_ascii (P := fun c => FieldName.continuesName (foldedLetter c) = FieldName.continuesName c) hfolded
    (hascii c hc)]
  exact List.all_eq_true.mp hall c hc

theorem exists_word_of_significant {w : List Char} (h : w ∈ significantWords name) :
    ∃ v ∈ Text.words separates name, Text.capitalize v = w :=
  List.mem_map.mp (List.mem_of_mem_filter h)

theorem isAscii_word {w : List Char} (hascii : Text.IsAscii name) (h : w ∈ Text.words separates name) :
    Text.IsAscii w :=
  hascii.of_subset fun _ hc => (Text.of_mem_word h hc).1

-- The words that are left out would not have changed the answer.
theorem all_flatten_significantWords (hascii : Text.IsAscii name) :
    (significantWords name).flatten.all FieldName.continuesName = true ↔ IsPlain name := by
  have hcase : ∀ w ∈ Text.words separates name,
      (Text.capitalize w).all FieldName.continuesName = w.all FieldName.continuesName := fun w hw =>
    Text.all_capitalize (by decide +kernel) (isAscii_word hascii hw)
  constructor
  · intro hall c hc
    rw [or_iff_not_imp_left, Bool.not_eq_true]
    intro hsep
    obtain ⟨w, hw, hcw⟩ := Text.exists_word hc hsep
    have hword : (Text.capitalize w).all FieldName.continuesName = true := by
      cases hidle : isIdle (Text.capitalize w) with
      | true => exact continuesName_of_isIdle (Text.isAscii_capitalize (isAscii_word hascii hw)) hidle
      | false =>
          have hmem : Text.capitalize w ∈ significantWords name :=
            List.mem_filter.mpr ⟨List.mem_map_of_mem hw, by simp [hidle]⟩
          exact List.all_eq_true.mpr fun d hd => List.all_eq_true.mp hall d (List.mem_flatten_of_mem hmem hd)
    exact List.all_eq_true.mp (hcase w hw ▸ hword) c hcw
  · intro hplain
    rw [List.all_flatten, List.all_eq_true]
    intro w hw
    obtain ⟨v, hv, rfl⟩ := exists_word_of_significant hw
    rw [hcase v hv, List.all_eq_true]
    intro c hc
    obtain ⟨hmem, hsep⟩ := Text.of_mem_word hv hc
    exact (hplain c hmem).resolve_left (by simp [hsep])

-- What `ofWords` puts in front of its last word.
def started : List Char → List Char
  | [] => []
  | c :: rest => if isDigit c then 'T' :: c :: rest else c :: rest

-- A type name without the word it ends in.
def stem (name : List Char) : List Char :=
  match significantWords name with
  | [] => "Api".toList
  | words => started words.flatten

theorem ofWords_eq (words : List (List Char)) : ofWords words = started words.flatten ++ suffix := by
  unfold ofWords
  cases words.flatten with
  | nil => decide
  | cons c rest =>
      simp only [List.cons_append, started]
      split <;> rfl

theorem ofRoute_eq (name : List Char) : ofRoute name = stem name ++ suffix := by
  rw [ofRoute, stem]
  cases significantWords name with
  | nil => decide
  | cons w rest => exact ofWords_eq (w :: rest)

theorem base_eq (name : List Char) : base name = stem name := by
  have hsuffix : suffix.isSuffixOf (stem name ++ suffix) = true :=
    List.isSuffixOf_iff_suffix.mpr (List.suffix_append _ _)
  rw [base, ofRoute_eq, dropSuffix, if_pos hsuffix, List.length_append, Nat.add_sub_cancel, List.take_left]

theorem isDigit_of_decimal {c : Char} (h : '0' ≤ c ∧ c ≤ '9') : isDigit c = true := by
  have hcode : 48 ≤ c.toNat ∧ c.toNat ≤ 57 := h
  exact List.any_eq_true.mpr ⟨(48, 57), List.mem_cons_self, by simpa using hcode⟩

theorem continuesName_eq {c : Char} (h : isDigit c = false) : FieldName.continuesName c = FieldName.startsName c := by
  have hdecimal : ('0' ≤ c && c ≤ '9') = false := by
    rw [Bool.eq_false_iff, ne_eq, Bool.and_eq_true, decide_eq_true_eq, decide_eq_true_eq]
    intro hc
    simp [isDigit_of_decimal hc] at h
  rw [FieldName.continuesName, hdecimal, Bool.or_false]

theorem isIdentifier_started (h : cs ≠ []) :
    FieldName.isIdentifier (started cs) = cs.all FieldName.continuesName := by
  cases cs with
  | nil => contradiction
  | cons c rest =>
      cases hc : isDigit c with
      | true =>
          have hletter : FieldName.startsName 'T' = true := by decide
          rw [started, if_pos hc, FieldName.isIdentifier, hletter, Bool.true_and]
      | false => rw [started, hc, if_neg Bool.false_ne_true, FieldName.isIdentifier, List.all_cons, continuesName_eq hc]

theorem flatten_significantWords_ne_nil (hascii : Text.IsAscii name) (h : significantWords name ≠ []) :
    (significantWords name).flatten ≠ [] := by
  obtain ⟨w, hw⟩ := List.exists_mem_of_ne_nil _ h
  obtain ⟨v, hv, rfl⟩ := exists_word_of_significant hw
  obtain ⟨c, rest, rfl⟩ := List.exists_cons_of_ne_nil (Text.ne_nil_of_mem_wordsFrom hv)
  rw [Text.capitalize_of_isAscii (isAscii_word hascii hv)] at hw
  exact List.ne_nil_of_mem (List.mem_flatten_of_mem hw List.mem_cons_self)

theorem stem_cases (hascii : Text.IsAscii name) :
    (significantWords name).flatten = [] ∧ stem name = "Api".toList ∨
      (significantWords name).flatten ≠ [] ∧ stem name = started (significantWords name).flatten := by
  by_cases hnone : significantWords name = []
  · exact .inl ⟨by rw [hnone, List.flatten_nil], by rw [stem, hnone]⟩
  · refine .inr ⟨flatten_significantWords_ne_nil hascii hnone, ?_⟩
    rw [stem]
    split
    · contradiction
    · rfl

theorem isIdentifier_stem (hascii : Text.IsAscii name) :
    FieldName.isIdentifier (stem name) = true ↔ IsPlain name := by
  rw [← all_flatten_significantWords hascii]
  rcases stem_cases hascii with ⟨hnone, hstem⟩ | ⟨hsome, hstem⟩
  · rw [hstem, hnone]
    decide
  · rw [hstem, isIdentifier_started hsome]

theorem started_eq_or (cs : List Char) : started cs = cs ∨ started cs = 'T' :: cs := by
  cases cs with
  | nil => exact .inl rfl
  | cons c rest =>
      rw [started]
      split
      · exact .inr rfl
      · exact .inl rfl

theorem stem_ne_nil (hascii : Text.IsAscii name) : stem name ≠ [] := by
  rcases stem_cases hascii with ⟨_, hstem⟩ | ⟨hsome, hstem⟩
  · rw [hstem]
    decide
  · rw [hstem]
    rcases started_eq_or (significantWords name).flatten with h | h
    · rwa [h]
    · rw [h]
      exact List.cons_ne_nil _ _

theorem not_separates_of_mem_significantWords (hascii : Text.IsAscii name) {c : Char}
    (h : c ∈ (significantWords name).flatten) : separates c = false := by
  obtain ⟨w, hw, hc⟩ := List.mem_flatten.mp h
  obtain ⟨v, hv, rfl⟩ := exists_word_of_significant hw
  have hall : v.all (fun c => !separates c) = true :=
    List.all_eq_true.mpr fun c hc => by rw [(Text.of_mem_word hv hc).2, Bool.not_false]
  rw [← Text.all_capitalize (by decide +kernel) (isAscii_word hascii hv)] at hall
  simpa using List.all_eq_true.mp hall c hc

theorem not_separates_of_mem_stem (hascii : Text.IsAscii name) {c : Char} (h : c ∈ stem name) :
    separates c = false := by
  have hword : ("Api".toList ++ ['T']).all (fun d => !separates d) = true := by decide
  have hletter : ∀ d ∈ "Api".toList ++ ['T'], separates d = false := by simpa using List.all_eq_true.mp hword
  rcases stem_cases hascii with ⟨_, hstem⟩ | ⟨_, hstem⟩
  · exact hletter c (List.mem_append_left _ (hstem ▸ h))
  · rw [hstem] at h
    rcases started_eq_or (significantWords name).flatten with heq | heq
    · exact not_separates_of_mem_significantWords hascii (heq ▸ h)
    · rw [heq] at h
      rcases List.mem_cons.mp h with rfl | h
      · exact hletter _ (by simp)
      · exact not_separates_of_mem_significantWords hascii h

end TypeName

-- What a declaration's name has behind the stem of the type name.
def Outcome.ending (outcome : Outcome) : String :=
  outcome.bucket.suffix ++ (if outcome.isError then "Error" else "") ++ "Response"

theorem Outcome.continuesName_ending (outcome : Outcome) :
    outcome.ending.toList.all FieldName.continuesName = true := by
  obtain ⟨bucket, isError⟩ := outcome
  cases bucket <;> cases isError <;> decide

section Names

variable {name : String}

theorem toList_typeNameOf (name : String) : (typeNameOf name).toList = TypeName.stem name.toList ++ TypeName.suffix := by
  rw [typeNameOf, String.toList_ofList, TypeName.ofRoute_eq]

theorem toList_declarationName (name : String) (outcome : Outcome) :
    (declarationName (baseTypeName name) outcome).toList = TypeName.stem name.toList ++ outcome.ending.toList := by
  simp only [declarationName, Outcome.ending, baseTypeName, String.toList_append, String.toList_ofList,
    TypeName.base_eq, List.append_assoc]

theorem isIdentifier_typeNameOf (hascii : Text.IsAscii name.toList) :
    FieldName.isIdentifier (typeNameOf name).toList = true ↔ TypeName.IsPlain name.toList := by
  rw [toList_typeNameOf, FieldName.isIdentifier_append (TypeName.stem_ne_nil hascii) (by decide),
    TypeName.isIdentifier_stem hascii]

example : typeNameOf "GET /api/user-profile/(id)" = "GetUserProfileIdResponse" := by decide

theorem isIdentifier_declarationName (hascii : Text.IsAscii name.toList) (outcome : Outcome) :
    FieldName.isIdentifier (declarationName (baseTypeName name) outcome).toList = true ↔
      TypeName.IsPlain name.toList := by
  rw [toList_declarationName,
    FieldName.isIdentifier_append (TypeName.stem_ne_nil hascii) outcome.continuesName_ending,
    TypeName.isIdentifier_stem hascii]

theorem ne_space_of_continuesName {c : Char} (h : FieldName.continuesName c = true) : (c != ' ') = true := by
  rw [bne_iff_ne]
  rintro rfl
  exact absurd h (by decide)

theorem ne_space_of_declarationName (hascii : Text.IsAscii name.toList) (outcome : Outcome) :
    ∀ c ∈ (declarationName (baseTypeName name) outcome).toList, (c != ' ') = true := by
  intro c hc
  rw [toList_declarationName, List.mem_append] at hc
  rcases hc with hc | hc
  · rw [bne_iff_ne]
    rintro rfl
    exact absurd (TypeName.not_separates_of_mem_stem hascii hc) (by decide)
  · exact ne_space_of_continuesName (List.all_eq_true.mp outcome.continuesName_ending c hc)

end Names

end ShapeScribe
