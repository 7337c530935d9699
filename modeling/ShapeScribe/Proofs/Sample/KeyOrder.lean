import ShapeScribe.Proofs.Attempt

/-!
Putting members in order only moves them: none is lost or made up, whatever kinds of keys are compared. It fails for
no other reason than that two keys cannot be compared.
-/

namespace ShapeScribe.Key

open Attempt

variable {α : Type} {members run others : List (Key × α)} {fault : Fault}

theorem runBehind_append {falls : Bool} {last : Key} {members run others : List (Key × α)}
    (h : runBehind falls last members = .ok (run, others)) : run ++ others = members := by
  induction members generalizing last run others with
  | nil =>
      simp only [runBehind, Except.ok.injEq, Prod.mk.injEq] at h
      simp [← h.1, ← h.2]
  | cons m rest ih =>
      simp only [runBehind, bind_eq_ok] at h
      obtain ⟨before, _, h⟩ := h
      split at h
      · obtain ⟨⟨behind, left⟩, hrest, h⟩ := bind_eq_ok.mp h
        simp only [pure_eq_ok, Prod.mk.injEq] at h
        obtain ⟨rfl, rfl⟩ := h
        simp [ih hrest]
      · simp only [pure_eq_ok, Prod.mk.injEq] at h
        simp [← h.1, ← h.2]

theorem leadingRun_perm {members run others : List (Key × α)} (h : leadingRun members = .ok (run, others)) :
    (run ++ others).Perm members := by
  match members with
  | [] | [_] =>
      simp only [leadingRun, Except.ok.injEq, Prod.mk.injEq] at h
      simp [← h.1, ← h.2]
  | m :: n :: rest =>
      simp only [leadingRun, bind_eq_ok, pure_eq_ok, Prod.mk.injEq] at h
      obtain ⟨falls, _, ⟨behind, left⟩, hrest, hrun, rfl⟩ := h
      have hperm : run.Perm (m :: n :: behind) := by
        rw [← hrun]
        split
        · exact List.reverse_perm _
        · exact .refl _
      have happend := runBehind_append hrest
      exact (hperm.append_right _).trans (by simp [happend])

theorem insertInto_perm {run sorted : List (Key × α)} {m : Key × α} (h : insertInto run m = .ok sorted) :
    sorted.Perm (m :: run) := by
  simp only [insertInto, bind_eq_ok, pure_eq_ok] at h
  obtain ⟨place, _, rfl⟩ := h
  exact List.perm_middle.trans (by simp)

theorem foldlM_insertInto_perm {run others sorted : List (Key × α)}
    (h : others.foldlM insertInto run = .ok sorted) : sorted.Perm (run ++ others) := by
  induction others generalizing run with
  | nil =>
      simp only [List.foldlM_nil, pure_eq_ok] at h
      simp [h]
  | cons m rest ih =>
      simp only [List.foldlM_cons, bind_eq_ok] at h
      obtain ⟨next, hnext, h⟩ := h
      exact (ih h).trans (((insertInto_perm hnext).append_right rest).trans List.perm_middle.symm)

theorem inOrder_of_isText {members : List (Key × α)} (h : ∀ m ∈ members, m.1.isText = true) :
    inOrder members = .ok (members.mergeSort fun m n => notAfter m.1 n.1) := by
  simp [inOrder, List.all_eq_true.mpr h]

theorem exists_text {members : List (Key × α)} (h : ∀ m ∈ members, ∃ name, m.1 = .text name) :
    ∃ pairs : List (String × α), members = pairs.map fun p => (.text p.1, p.2) := by
  have hsteps : ∀ m ∈ members, ∃ p : String × α, m = (.text p.1, p.2) := by
    intro m hm
    obtain ⟨name, hname⟩ := h m hm
    exact ⟨(name, m.2), Prod.ext hname rfl⟩
  obtain ⟨pairs, hpairs⟩ := exists_results hsteps
  refine ⟨pairs, ?_⟩
  rwa [← List.forall₂_eq_eq_eq, List.forall₂_map_right_iff]

-- Members with texts for keys are put in order of their names.
theorem inOrder_text (pairs : List (String × α)) :
    inOrder (pairs.map fun p => (Key.text p.1, p.2)) =
      .ok ((Named.inOrder pairs).map fun p => (Key.text p.1, p.2)) := by
  have htext : ∀ m ∈ pairs.map fun p => (Key.text p.1, p.2), m.1.isText = true := by
    intro m hm
    obtain ⟨p, _, rfl⟩ := List.mem_map.mp hm
    rfl
  rw [inOrder_of_isText htext, Named.inOrder, List.map_mergeSort]
  intros
  rfl

theorem inOrder_perm {members sorted : List (Key × α)} (h : inOrder members = .ok sorted) :
    sorted.Perm members := by
  unfold inOrder at h
  split at h
  · cases h
    exact List.mergeSort_perm _ _
  · obtain ⟨⟨run, others⟩, hrun, h⟩ := bind_eq_ok.mp h
    exact (foldlM_insertInto_perm h).trans (leadingRun_perm hrun)

mutual

theorem family_of_precedes (k l : Key) (h : precedes k l = .error fault) : fault.family = .mixedKeys := by
  unfold precedes at h
  split at h
  · cases h
  · exact family_of_precedesAll _ _ h
  · split at h
    · split at h
      all_goals cases h
    · cases h
      rfl

theorem family_of_precedesAll (ks ls : List Key) (h : precedesAll ks ls = .error fault) : fault.family = .mixedKeys := by
  unfold precedesAll at h
  split at h
  · cases h
  · cases h
  · split at h
    · exact family_of_precedesAll _ _ h
    · exact family_of_precedes _ _ h

end

theorem family_of_runBehind {falls : Bool} {last : Key} (h : runBehind falls last members = .error fault) : fault.family = .mixedKeys := by
  induction members generalizing last with
  | nil => cases h
  | cons m rest ih =>
      rcases bind_eq_error.mp h with h | ⟨_, _, h⟩
      · exact family_of_precedes _ _ h
      · split at h
        · rcases bind_eq_error.mp h with h | ⟨_, _, h⟩
          · exact ih h
          · cases h
        · cases h

theorem family_of_leadingRun (h : leadingRun members = .error fault) : fault.family = .mixedKeys := by
  match members with
  | [] | [_] => cases h
  | m :: n :: rest =>
      rcases bind_eq_error.mp h with h | ⟨_, _, h⟩
      · exact family_of_precedes _ _ h
      · rcases bind_eq_error.mp h with h | ⟨_, _, h⟩
        · exact family_of_runBehind h
        · cases h

theorem family_of_placeIn {k : Key} {low high : Nat} (h : placeIn run k low high = .error fault) :
    fault.family = .mixedKeys := by
  fun_induction placeIn run k low high with
  | case1 => cases h
  | case2 low high _ middle l _ _ ih ih' =>
      rcases bind_eq_error.mp h with h | ⟨_, _, h⟩
      · exact family_of_precedes _ _ h
      · split at h
        · exact ih h
        · exact ih' h
  | case3 => cases h

theorem family_of_insertInto {m : Key × α} (h : insertInto run m = .error fault) : fault.family = .mixedKeys := by
  rcases bind_eq_error.mp h with h | ⟨_, _, h⟩
  · exact family_of_placeIn h
  · cases h

theorem family_of_foldlM (h : others.foldlM insertInto run = .error fault) : fault.family = .mixedKeys := by
  induction others generalizing run with
  | nil => cases h
  | cons m rest ih =>
      rw [List.foldlM_cons] at h
      rcases bind_eq_error.mp h with h | ⟨_, _, h⟩
      · exact family_of_insertInto h
      · exact ih h

theorem family_of_inOrder (h : inOrder members = .error fault) : fault.family = .mixedKeys := by
  unfold inOrder at h
  split at h
  · cases h
  · rcases bind_eq_error.mp h with h | ⟨_, _, h⟩
    · exact family_of_leadingRun h
    · exact family_of_foldlM h

end ShapeScribe.Key
