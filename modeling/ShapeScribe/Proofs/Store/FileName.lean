import ShapeScribe.Proofs.Text.Quoted
import ShapeScribe.Proofs.Text.Words
import ShapeScribe.Store.Basic

/-!
The names of the files in a store. Every id has a slug. Two ids have one file name exactly when they have one slug and one
hash, and no temporary file has the name of a record.
-/

namespace ShapeScribe

theorem Token.mem_joined {separator : List Char} {words : List (List Char)} {c : Char} (h : c ∈ joined separator words) :
    c ∈ separator ∨ ∃ w ∈ words, c ∈ w := by
  fun_induction joined separator words with
  | case1 => simp at h
  | case2 w => exact .inr ⟨w, List.mem_singleton_self w, h⟩
  | case3 w rest _ ih =>
      rw [List.mem_append, List.mem_append] at h
      rcases h with (h | h) | h
      · exact .inr ⟨w, List.mem_cons_self, h⟩
      · exact .inl h
      · rcases ih h with h | ⟨v, hv, hc⟩
        · exact .inl h
        · exact .inr ⟨v, List.mem_cons_of_mem _ hv, hc⟩

namespace Slug

variable {c : Char} {cs : List Char}

-- Words of small letters and digits with one hyphen between any two of them.
def IsSlug (cs : List Char) : Prop :=
  ∃ words : List (List Char), words ≠ [] ∧ (∀ w ∈ words, w ≠ [] ∧ ∀ c ∈ w, keeps c = true) ∧
    cs = Token.joined ['-'] words

theorem isSlug_ofId (id : List Char) : IsSlug (ofId id) := by
  have hroute : "route".toList.all keeps = true := by decide
  unfold ofId
  split
  · exact ⟨["route".toList], List.cons_ne_nil _ _,
      List.forall_mem_singleton.mpr ⟨by decide, List.all_eq_true.mp hroute⟩, rfl⟩
  · rename_i hne
    refine ⟨_, hne, fun w hw => ⟨Text.ne_nil_of_mem_wordsFrom hw, fun c hc => ?_⟩, rfl⟩
    simpa using (Text.of_mem_word hw hc).2

theorem IsSlug.keeps_of_mem (h : IsSlug cs) (hc : c ∈ cs) : keeps c = true ∨ c = '-' := by
  obtain ⟨words, _, hwords, rfl⟩ := h
  rcases Token.mem_joined hc with hc | ⟨w, hw, hc⟩
  · exact .inr (List.mem_singleton.mp hc)
  · exact .inl ((hwords w hw).2 c hc)

end Slug

variable {id a b name : String}

theorem length_hashText (text : String) : (hashText text).toList.length = 8 := by
  rw [hashText, String.toList_ofList, Text.length_hex]

theorem fileName_eq_iff : fileName a = fileName b ↔ slug a = slug b ∧ hashText a = hashText b := by
  constructor
  · intro h
    rw [fileName, fileName, String.append_left_inj, ← String.toList_inj] at h
    simp only [String.toList_append] at h
    obtain ⟨hslug, hhash⟩ := List.append_inj' h ((length_hashText a).trans (length_hashText b).symm)
    exact ⟨String.toList_inj.mp (List.append_cancel_right hslug), String.toList_inj.mp hhash⟩
  · rintro ⟨hslug, hhash⟩
    rw [fileName, fileName, hslug, hhash]

theorem Store.isRecordName_fileName (id : String) : isRecordName (fileName id) = true := by
  rw [isRecordName, fileName, String.toList_append, List.isSuffixOf_iff_suffix]
  exact List.suffix_append _ _

theorem head?_fileName_ne (id : String) : (fileName id).toList.head? ≠ some '.' := by
  intro h
  have hslug : (slug id).toList = Slug.ofId id.toList := String.toList_ofList
  simp only [fileName, String.toList_append, hslug, List.append_assoc] at h
  cases hid : Slug.ofId id.toList with
  | nil => simp [hid] at h
  | cons c rest =>
      rw [hid, List.cons_append, List.head?_cons, Option.some.injEq] at h
      have hdot := (Slug.isSlug_ofId id.toList).keeps_of_mem (hid ▸ List.mem_cons_self : c ∈ Slug.ofId id.toList)
      subst h
      rcases hdot with hdot | hdot
      · exact absurd hdot (by decide)
      · exact absurd hdot (by decide)

namespace Save

variable {c : Conditions}

theorem fileName_ne_temporaryName (id name : String) : fileName id ≠ temporaryName c name := by
  intro h
  apply head?_fileName_ne id
  rw [h, temporaryName, String.append_assoc, String.append_assoc, String.toList_append]
  rfl

theorem utf8ByteSize_temporaryName : (temporaryName c name).utf8ByteSize = name.utf8ByteSize + 6 + c.suffix.utf8ByteSize := by
  have hdot : ".".utf8ByteSize = 1 := by decide
  have htmp : ".tmp.".utf8ByteSize = 5 := by decide
  simp only [temporaryName, String.utf8ByteSize_append, hdot, htmp]
  omega

theorem ne_temporaryName (name : String) : name ≠ temporaryName c name := by
  intro h
  have hsize := congrArg String.utf8ByteSize h
  rw [utf8ByteSize_temporaryName] at hsize
  omega

-- A name has room for its temporary file only if it has room itself.
theorem fits_of_temporaryName (h : Directory.fits (temporaryName c name) = true) : Directory.fits name = true := by
  simp only [Directory.fits, decide_eq_true_eq, utf8ByteSize_temporaryName] at h ⊢
  omega

end Save

end ShapeScribe
