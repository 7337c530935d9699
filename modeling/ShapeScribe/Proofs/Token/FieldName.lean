import ShapeScribe.Proofs.Text.Sequence

/-!
Property names as they are written. A bare name holds no colon and a quoted one ends at its closing quote, so that a
name is told by what stands in front of the colon.
-/

namespace ShapeScribe.FieldName

theorem isIdentifier_spec {cs : List Char} (h : isIdentifier cs = true) :
    (∀ c ∈ cs, continuesName c = true) ∧ ∃ c rest, cs = c :: rest ∧ startsName c = true := by
  cases cs with
  | nil => cases h
  | cons c rest =>
      simp only [isIdentifier, Bool.and_eq_true, List.all_eq_true] at h
      refine ⟨List.forall_mem_cons.mpr ⟨by simp [continuesName, h.1], h.2⟩, c, rest, rfl, h.1⟩

theorem isIdentifier_append {cs ds : List Char} (hcs : cs ≠ []) (hds : ds.all continuesName = true) :
    isIdentifier (cs ++ ds) = isIdentifier cs := by
  cases cs with
  | nil => contradiction
  | cons c rest => simp only [List.cons_append, isIdentifier, List.all_append, hds, Bool.and_true]

theorem isBare_spec {cs : List Char} (h : isBare cs = true) :
    (∀ c ∈ cs, continuesName c = true ∨ c = '\n') ∧ ∃ c rest, cs = c :: rest ∧ startsName c = true := by
  simp only [isBare, Bool.or_eq_true, Bool.and_eq_true, beq_iff_eq] at h
  rcases h with h | ⟨hlast, h⟩
  · obtain ⟨hall, hfirst⟩ := isIdentifier_spec h
    exact ⟨fun c hc => .inl (hall c hc), hfirst⟩
  · obtain ⟨hall, c, rest, hfirst, hc⟩ := isIdentifier_spec h
    have hcs : cs = cs.dropLast ++ ['\n'] := (List.dropLast_append_getLast? '\n' hlast).symm
    refine ⟨fun d hd => ?_, c, rest ++ ['\n'], by rw [hcs, hfirst, List.cons_append], hc⟩
    rw [hcs, List.mem_append, List.mem_singleton] at hd
    exact hd.imp_left (hall d)

theorem ne_colon_of_isBare {cs : List Char} (h : isBare cs = true) : ∀ c ∈ cs, (c != ':') = true := by
  intro c hc
  rw [bne_iff_ne]
  rintro rfl
  exact absurd ((isBare_spec h).1 ':' hc) (by decide)

theorem escaped_append_inj {c d : Char} {r s : List Char} (h : escaped c ++ r = escaped d ++ s) : c = d ∧ r = s := by
  unfold escaped at h
  split at h <;> split at h
  · simpa using h
  · rename_i _ hd
    obtain rfl : '\\' = d := (List.cons.inj h).1
    simp at hd
  · rename_i hc _
    obtain rfl : c = '\\' := (List.cons.inj h).1
    simp at hc
  · simpa using h

theorem quote_ne_escaped_append (c : Char) {r s : List Char} : '"' :: r ≠ escaped c ++ s := by
  unfold escaped
  split <;> simp_all [eq_comm]

theorem head_of_isBare {cs r s : List Char} (h : isBare cs = true) : cs ++ r ≠ '"' :: s := by
  obtain ⟨_, c, rest, rfl, hc⟩ := isBare_spec h
  rintro heq
  obtain rfl : c = '"' := (List.cons.inj heq).1
  exact absurd hc (by decide)

theorem written_append_inj {cs ds r s : List Char} (h : written cs ++ ':' :: r = written ds ++ ':' :: s) :
    cs = ds ∧ r = s := by
  unfold written at h
  split at h <;> split at h
  · rename_i hcs hds
    obtain ⟨hname, hrest⟩ := Text.run_append_inj (ne_colon_of_isBare hcs) (ne_colon_of_isBare hds) (by simp) (by simp) h
    exact ⟨hname, (List.cons.inj hrest).2⟩
  · rename_i hcs _
    exact absurd h (head_of_isBare hcs)
  · rename_i _ hds
    exact absurd h.symm (head_of_isBare hds)
  · simp only [List.cons_append, List.append_assoc, List.nil_append, List.cons.injEq, true_and] at h
    obtain ⟨rfl, hrest⟩ := Text.escaped_append_inj (fun _ _ _ _ => escaped_append_inj)
      (fun c _ _ => quote_ne_escaped_append c) h
    exact ⟨rfl, (List.cons.inj hrest).2⟩

end ShapeScribe.FieldName
