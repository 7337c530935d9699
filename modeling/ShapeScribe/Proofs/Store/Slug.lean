import ShapeScribe.Proofs.Store.FileName

/-!
Slugs of slugs, and how long slugs can be. A slug is its own slug. What an id leaves of itself in its slug has a character
at most for every character of the id, and hyphens between them.
-/

namespace ShapeScribe

namespace Slug

variable {cs : List Char} {c : Char}

theorem ascii_of_keeps (h : keeps c = true) : c.toNat < 128 := by
  simp only [keeps, Literal.isDigit, Bool.or_eq_true, Bool.and_eq_true, decide_eq_true_eq] at h
  have hlast : c.toNat ≤ 122 ∨ c.toNat ≤ 57 := h.imp (·.2) (·.2)
  omega

-- What a slug is made of is in lower case already.
theorem toLower_of_keeps (h : keeps c = true) : c.toLower = c := by
  have hall : ∀ n < 128, keeps (Char.ofNat n) = true → (Char.ofNat n).toLower = Char.ofNat n := by decide +kernel
  exact Text.of_ascii (P := fun c => keeps c = true → c.toLower = c) hall (ascii_of_keeps h) h

theorem IsSlug.isAscii (h : IsSlug cs) : Text.IsAscii cs := by
  intro c hc
  rcases h.keeps_of_mem hc with hkept | rfl
  · exact ascii_of_keeps hkept
  · decide

theorem IsSlug.lower_eq (h : IsSlug cs) : Text.lower cs = cs := by
  have hlower : ∀ c ∈ cs, c.toLower = c := by
    intro c hc
    rcases h.keeps_of_mem hc with hkept | rfl
    · exact toLower_of_keeps hkept
    · decide
  rw [Text.lower, Text.lowerAfter_of_isAscii _ h.isAscii, List.map_congr_left hlower, List.map_id']

theorem IsSlug.ofId_eq (h : IsSlug cs) : ofId cs = cs := by
  have hlower := h.lower_eq
  obtain ⟨words, hne, hwords, hcs⟩ := h
  have hfound : Text.words (fun c => !keeps c) cs = words := by
    rw [hcs]
    exact Text.words_joined (by decide) fun w hw => ⟨(hwords w hw).1, fun c hc => by simp [(hwords w hw).2 c hc]⟩
  rw [ofId, hlower, hfound]
  split
  · contradiction
  · exact hcs.symm

-- Of the characters that small letters can come from, only the dotted capital I becomes more than one, of which the
-- slug keeps one.
theorem countP_lower_le (cs : List Char) : (Text.lower cs).countP keeps ≤ cs.length :=
  Text.countP_lowerAfter_le (by decide) [] cs

theorem length_ofId_le (id : List Char) : (ofId id).length ≤ max 5 (2 * id.length - 1) := by
  unfold ofId
  split
  · exact le_max_left _ _
  · have hkept := countP_lower_le id
    have hwords := Text.length_words_le (fun c => !keeps c) (Text.lower id)
    have hflat : (Text.words (fun c => !keeps c) (Text.lower id)).flatten.length = (Text.lower id).countP keeps := by
      simp [Text.flatten_words, List.countP_eq_length_filter]
    rw [Text.length_joined]
    omega

example : ofId "İİİİ".toList = "i-i-i-i".toList := by decide

end Slug

end ShapeScribe
