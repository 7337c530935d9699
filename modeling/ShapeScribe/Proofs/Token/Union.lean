import ShapeScribe.Proofs.Token.Legible
import ShapeScribe.Proofs.Token.Order

/-!
Unions of legible tokens. The text of a union is told by the set of its tokens: no set of tokens is written like
another one.
-/

namespace ShapeScribe.Token

variable {ts us : List Token} {r s : List Char}

theorem legible_normalize (h : ∀ t ∈ ts, t.Legible) : ∀ t ∈ normalize ts, t.Legible := fun t ht =>
  h t (mem_normalize.mp ht)

theorem nodup_texts (hts : ∀ t ∈ ts, t.Legible) : ((normalize ts).map text).Nodup := by
  refine (List.nodup_map_iff_inj_on (nodup_normalize ts)).mpr fun t ht u hu hsame => ?_
  exact written_inj (legible_normalize hts t ht) (legible_normalize hts u hu) (String.ofList_injective hsame)

-- The word for no alternatives is not the text of a token, and no token goes on after it.
theorem unknown_append_ne {t : Token} (ht : t.Legible) (hr : Ends r) {x : List Char} :
    t.written ++ x ≠ "unknown".toList ++ r := by
  have hshorter : ∀ w ∈ words, ¬ w.written <+: "unknown".toList := by decide
  have hlonger : ∀ w ∈ words, "unknown".toList <+: w.written → w = array [] ∨ w = circular := by decide
  have hempty : (array []).written = "unknown".toList ++ ['[', ']'] := by decide
  have hcircular : circular.written = "unknown".toList ++ " /* circular reference */".toList := by decide
  intro h
  obtain ⟨n, core, hcore, _, rfl⟩ := exists_core ht
  rw [written_wrapped, List.append_assoc] at h
  cases hcore with
  | word hw =>
      rcases List.prefix_or_prefix_of_prefix ⟨_, h⟩ (List.prefix_append _ r) with hbegins | hbegins
      · exact hshorter _ hw hbegins
      · rcases hlonger _ hw hbegins with rfl | rfl
        · rw [hempty, List.append_assoc, List.append_cancel_left_eq] at h
          exact hr.1 ⟨_, h⟩
        · rw [hcircular, List.append_assoc, List.append_cancel_left_eq] at h
          exact hr.2 ⟨_, h⟩
  | several t u ts =>
      rw [written_several] at h
      exact absurd (List.cons.inj h).1 (by decide)
  | fields f fs =>
      rw [written_fields] at h
      exact absurd (List.cons.inj h).1 (by decide)

theorem writtenUnion_cons_append (t : Token) (ts : List Token) (r : List Char) :
    writtenUnion ((t :: ts).map written) ++ r = t.written ++ (ts.flatMap (fun u => bar ++ u.written) ++ r) := by
  have hjoined : writtenUnion ((t :: ts).map written) = joined bar (t.written :: ts.map written) := rfl
  rw [hjoined, Text.joined_cons, List.flatMap_map, List.append_assoc]

theorem writtenUnion_append_inj (hts : ∀ t ∈ ts, t.Legible) (hus : ∀ u ∈ us, u.Legible) (hr : Ends r) (hs : Ends s)
    (hrbar : ¬ bar <+: r) (hsbar : ¬ bar <+: s)
    (h : writtenUnion (ts.map written) ++ r = writtenUnion (us.map written) ++ s) : ts = us ∧ r = s := by
  cases ts with
  | nil =>
      cases us with
      | nil => exact ⟨rfl, List.append_cancel_left h⟩
      | cons u us =>
          rw [writtenUnion_cons_append] at h
          exact absurd h.symm (unknown_append_ne (hus u List.mem_cons_self) hr)
  | cons t ts =>
      cases us with
      | nil =>
          rw [writtenUnion_cons_append] at h
          exact absurd h (unknown_append_ne (hts t List.mem_cons_self) hs)
      | cons u us =>
          obtain ⟨hall, hrest⟩ := Text.joined_append_inj (R := Eq) ends_bar hr hs hrbar hsbar
            (fun a ha b hb r s hr hs hab => written_append_inj (hts a ha) (hus b hb) hr hs hab) h
          rw [List.forall₂_eq_eq_eq] at hall
          exact ⟨hall, hrest⟩

theorem toList_unionText (ts : List Token) :
    (unionText unknown ts).toList = writtenUnion ((normalize ts).map written) := by
  unfold unionText
  split
  · rename_i hnil
    rw [hnil]
    rfl
  · rename_i hne
    rw [String.toList_ofList]
    cases hts : normalize ts with
    | nil => exact absurd hts hne
    | cons t ts => rfl

-- The text of a union inside a longer text shows the set of its tokens.
theorem unionText_append_inj (hts : ∀ t ∈ ts, t.Legible) (hus : ∀ u ∈ us, u.Legible) (hr : Ends r) (hs : Ends s)
    (hrbar : ¬ bar <+: r) (hsbar : ¬ bar <+: s)
    (h : (unionText unknown ts).toList ++ r = (unionText unknown us).toList ++ s) :
    (∀ t, t ∈ ts ↔ t ∈ us) ∧ r = s := by
  rw [toList_unionText, toList_unionText] at h
  obtain ⟨hnormal, hrest⟩ :=
    writtenUnion_append_inj (legible_normalize hts) (legible_normalize hus) hr hs hrbar hsbar h
  refine ⟨fun t => ?_, hrest⟩
  rw [← mem_normalize, hnormal, mem_normalize]

end ShapeScribe.Token
