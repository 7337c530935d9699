import Mathlib.Algebra.GroupWithZero.Nat
import Mathlib.Data.List.Induction
import Mathlib.Data.List.Nodup
import Mathlib.Data.List.Perm.Subperm
import ShapeScribe.Outcome

/-!
Observations by outcome. Filing them one after another, each with the group of its outcome, and ordering the groups at
the end gives the groups that there are for the outcomes one by one. They are in order of outcome, none is empty, and
together they hold every response once, in order of arrival.
-/

namespace ShapeScribe

namespace Outcome

-- An earlier bucket, or the same bucket without an error and with one.
def Precedes (a b : Outcome) : Prop :=
  a.bucket.rank < b.bucket.rank ∨ a.bucket = b.bucket ∧ a.isError = false ∧ b.isError = true

instance (a b : Outcome) : Decidable (a.Precedes b) := inferInstanceAs (Decidable (_ ∨ _))

theorem not_precedes_self (a : Outcome) : ¬ a.Precedes a := by
  rintro (hbucket | ⟨_, hfalse, htrue⟩)
  · omega
  · simp [hfalse] at htrue

theorem rank_le_of_precedes {a b : Outcome} (h : a.Precedes b) : a.rank ≤ b.rank := by
  obtain hbucket | ⟨hbucket, hfalse, htrue⟩ := h
  · have hbit := Bool.toNat_le a.isError
    unfold rank
    omega
  · rw [rank, rank, hbucket, hfalse, htrue]
    simp

theorem all_pairwise : all.Pairwise Precedes := by decide

theorem mem_all (outcome : Outcome) : outcome ∈ all := by
  obtain ⟨bucket, isError⟩ := outcome
  cases bucket <;> cases isError <;> decide

theorem rank_inj {a b : Outcome} (h : a.rank = b.rank) : a = b := by
  have hranks : ∀ a ∈ all, ∀ b ∈ all, a.rank = b.rank → a = b := by decide
  exact hranks a (mem_all a) b (mem_all b) h

-- What a status code can come to: only in the last bucket are there errors beside other codes.
def possible : List Outcome :=
  [⟨.success, false⟩, ⟨.redirect, false⟩, ⟨.clientError, true⟩, ⟨.serverError, true⟩, ⟨.other, false⟩, ⟨.other, true⟩]

theorem ofStatus_mem_possible (status : Option Int) : ofStatus status ∈ possible := by
  cases status with
  | none => decide
  | some code =>
      simp only [ofStatus, Bucket.ofStatus, isErrorStatus]
      split_ifs with hsuccess hredirect hclient hserver
      · rw [decide_eq_false (by omega)]
        decide
      · rw [decide_eq_false (by omega)]
        decide
      · rw [decide_eq_true (by omega)]
        decide
      · rw [decide_eq_true (by omega)]
        decide
      · by_cases herror : 400 ≤ code
        · rw [decide_eq_true herror]
          decide
        · rw [decide_eq_false herror]
          decide

end Outcome

namespace Group

variable {seen observations : List Observation} {obs : Observation} {groups : List Group} {g : Group}

theorem responses_concat (seen : List Observation) (obs : Observation) (outcome : Outcome) :
    responses (seen ++ [obs]) outcome =
      responses seen outcome ++ if obs.outcome = outcome then [obs.response] else [] := by
  by_cases houtcome : obs.outcome = outcome
  · simp [responses, houtcome]
  · simp [responses, houtcome]

theorem mem_responses {outcome : Outcome} {s : Sample} :
    s ∈ responses seen outcome ↔ ∃ obs ∈ seen, obs.outcome = outcome ∧ obs.response = s := by
  simp [responses, and_assoc]

theorem mem_ofObservations :
    g ∈ ofObservations observations ↔ g.samples = responses observations g.outcome ∧ g.samples ≠ [] := by
  simp only [ofObservations, List.mem_filterMap]
  constructor
  · rintro ⟨outcome, _, h⟩
    split at h
    · cases h
    · rename_i hne
      cases h
      exact ⟨rfl, hne⟩
  · rintro ⟨hsamples, hne⟩
    refine ⟨g.outcome, Outcome.mem_all _, ?_⟩
    rw [hsamples] at hne
    split
    · contradiction
    · rw [← hsamples]

theorem ofObservations_pairwise (observations : List Observation) :
    (ofObservations observations).Pairwise fun g h => g.outcome.Precedes h.outcome := by
  rw [ofObservations, List.pairwise_filterMap]
  apply Outcome.all_pairwise.imp
  intro a b hab g hg h hh
  split at hg <;> split at hh <;> cases hg <;> cases hh
  exact hab

theorem inOrder_ofObservations (observations : List Observation) :
    inOrder (ofObservations observations) = ofObservations observations := by
  apply List.mergeSort_of_pairwise
  exact (ofObservations_pairwise observations).imp fun h => decide_eq_true (Outcome.rank_le_of_precedes h)

theorem nodup_outcomes (observations : List Observation) : ((ofObservations observations).map (·.outcome)).Nodup := by
  rw [List.Nodup, List.pairwise_map]
  refine (ofObservations_pairwise observations).imp fun {g h} hgh heq => ?_
  exact Outcome.not_precedes_self _ (heq ▸ hgh)

section Filing

-- One more observation: its response joins the group of its outcome, or begins one behind the others.
def file (obs : Observation) : List Group → List Group
  | [] => [⟨obs.outcome, [obs.response]⟩]
  | g :: rest =>
    if g.outcome = obs.outcome then ⟨g.outcome, g.samples ++ [obs.response]⟩ :: rest else g :: file obs rest

def filed (observations : List Observation) : List Group :=
  observations.foldl (fun groups obs => file obs groups) []

theorem filed_concat (seen : List Observation) (obs : Observation) : filed (seen ++ [obs]) = file obs (filed seen) := by
  simp [filed]

theorem outcomes_file (obs : Observation) (groups : List Group) :
    (file obs groups).map (·.outcome) =
      groups.map (·.outcome) ++ if obs.outcome ∈ groups.map (·.outcome) then [] else [obs.outcome] := by
  induction groups with
  | nil => simp [file]
  | cons g rest ih =>
      rw [file]
      by_cases hg : g.outcome = obs.outcome
      · simp [hg]
      · rw [if_neg hg, List.map_cons, ih, List.map_cons, List.cons_append]
        simp only [List.mem_cons, Ne.symm hg, false_or]

-- A group has been there before, or its last response is the one that came.
theorem mem_file (hdistinct : (groups.map (·.outcome)).Nodup) (hg : g ∈ file obs groups) :
    (g ∈ groups ∧ obs.outcome ≠ g.outcome) ∨
      obs.outcome = g.outcome ∧ ∃ before, g.samples = before ++ [obs.response] ∧
        (⟨g.outcome, before⟩ ∈ groups ∨ g.outcome ∉ groups.map (·.outcome) ∧ before = []) := by
  induction groups with
  | nil =>
      obtain rfl := List.mem_singleton.mp hg
      exact .inr ⟨rfl, [], rfl, .inr ⟨by simp, rfl⟩⟩
  | cons h rest ih =>
      obtain ⟨hfresh, hrest⟩ := List.nodup_cons.mp hdistinct
      rw [file] at hg
      by_cases hh : h.outcome = obs.outcome
      · rw [if_pos hh] at hg
        rcases List.mem_cons.mp hg with rfl | hg
        · exact .inr ⟨hh.symm, h.samples, rfl, .inl List.mem_cons_self⟩
        · refine .inl ⟨List.mem_cons_of_mem _ hg, fun hsame => hfresh ?_⟩
          exact List.mem_map.mpr ⟨g, hg, hsame.symm.trans hh.symm⟩
      · rw [if_neg hh] at hg
        rcases List.mem_cons.mp hg with rfl | hg
        · exact .inl ⟨List.mem_cons_self, Ne.symm hh⟩
        · rcases ih hrest hg with ⟨hg, hne⟩ | ⟨hsame, before, hsamples, hbefore⟩
          · exact .inl ⟨List.mem_cons_of_mem _ hg, hne⟩
          · refine .inr ⟨hsame, before, hsamples, hbefore.imp (List.mem_cons_of_mem _) fun ⟨hnew, hnil⟩ => ⟨?_, hnil⟩⟩
            rw [List.map_cons, List.mem_cons, not_or]
            exact ⟨fun heq => hh (heq.symm.trans hsame.symm), hnew⟩

-- What holds of the groups while observations are filed.
structure Files (seen : List Observation) (groups : List Group) : Prop where
  distinct : (groups.map (·.outcome)).Nodup
  samples : ∀ g ∈ groups, g.samples = responses seen g.outcome ∧ g.samples ≠ []
  complete : ∀ obs ∈ seen, obs.outcome ∈ groups.map (·.outcome)

theorem Files.step (h : Files seen groups) (obs : Observation) : Files (seen ++ [obs]) (file obs groups) := by
  refine ⟨?_, fun g hg => ?_, fun other hother => ?_⟩
  · rw [outcomes_file]
    by_cases hknown : obs.outcome ∈ groups.map (·.outcome)
    · simpa only [if_pos hknown, List.append_nil] using h.distinct
    · rw [if_neg hknown, ← List.concat_eq_append]
      exact h.distinct.concat hknown
  · rw [responses_concat]
    rcases mem_file h.distinct hg with ⟨hold, hne⟩ | ⟨hsame, before, hsamples, hbefore⟩
    · rw [if_neg hne, List.append_nil]
      exact h.samples g hold
    · have hresponses : before = responses seen g.outcome := by
        rcases hbefore with hold | ⟨hnew, rfl⟩
        · exact (h.samples _ hold).1
        · symm
          refine List.eq_nil_iff_forall_not_mem.mpr fun s hs => hnew ?_
          obtain ⟨other, hother, houtcome, _⟩ := mem_responses.mp hs
          exact houtcome ▸ h.complete other hother
      rw [if_pos hsame, hsamples, hresponses]
      exact ⟨rfl, by simp⟩
  · rw [outcomes_file, List.mem_append]
    rcases List.mem_append.mp hother with hother | hother
    · exact .inl (h.complete other hother)
    · obtain rfl := List.mem_singleton.mp hother
      by_cases hknown : other.outcome ∈ groups.map (·.outcome)
      · exact .inl hknown
      · rw [if_neg hknown]
        exact .inr List.mem_cons_self

theorem files_filed (observations : List Observation) : Files observations (filed observations) := by
  induction observations using List.reverseRecOn with
  | nil => exact ⟨List.nodup_nil, by simp [filed], by simp⟩
  | append_singleton seen obs ih =>
      rw [filed_concat]
      exact ih.step obs

theorem Files.mem_iff (h : Files observations groups) : g ∈ groups ↔ g ∈ ofObservations observations := by
  rw [mem_ofObservations]
  constructor
  · exact h.samples g
  · rintro ⟨hsamples, hne⟩
    rw [hsamples] at hne
    obtain ⟨s, hs⟩ := List.exists_mem_of_ne_nil _ hne
    obtain ⟨obs, hobs, houtcome, _⟩ := mem_responses.mp hs
    obtain ⟨g', hg', hsame⟩ := List.mem_map.mp (h.complete obs hobs)
    have houtcomes : g'.outcome = g.outcome := hsame.trans houtcome
    have hresponses := (h.samples g' hg').1
    rw [houtcomes, ← hsamples] at hresponses
    have heq : g' = g := by
      cases g
      cases g'
      cases houtcomes
      cases hresponses
      rfl
    exact heq ▸ hg'

theorem filed_perm (observations : List Observation) : (filed observations).Perm (ofObservations observations) := by
  have hfiles := files_filed observations
  refine (List.perm_ext_iff_of_nodup hfiles.distinct.of_map (nodup_outcomes observations).of_map).mpr fun g => ?_
  exact hfiles.mem_iff

theorem inOrder_pairwise (groups : List Group) :
    (inOrder groups).Pairwise fun g h => g.outcome.rank ≤ h.outcome.rank := by
  refine (List.pairwise_mergeSort ?_ ?_ groups).imp fun h => of_decide_eq_true h
  · simp only [decide_eq_true_eq]
    exact fun _ _ _ => Nat.le_trans
  · simp only [Bool.or_eq_true, decide_eq_true_eq]
    exact fun _ _ => Nat.le_total _ _

-- Groups of different outcomes have only one order.
theorem inOrder_filed (observations : List Observation) : inOrder (filed observations) = ofObservations observations := by
  have hperm : (inOrder (filed observations)).Perm (ofObservations observations) :=
    (List.mergeSort_perm _ _).trans (filed_perm observations)
  have hrising := (ofObservations_pairwise observations).imp Outcome.rank_le_of_precedes
  apply List.Perm.eq_of_pairwise _ (inOrder_pairwise _) hrising hperm
  intro g h hg hh hgh hhg
  have houtcome := Outcome.rank_inj (Nat.le_antisymm hgh hhg)
  exact List.inj_on_of_nodup_map (nodup_outcomes observations) (hperm.mem_iff.mp hg) hh houtcome

-- Every response of some groups, with the outcome of its group.
def pairs (groups : List Group) : List (Outcome × Sample) := groups.flatMap fun g => g.samples.map (g.outcome, ·)

theorem pairs_file (obs : Observation) (groups : List Group) :
    (pairs (file obs groups)).Perm (pairs groups ++ [(obs.outcome, obs.response)]) := by
  induction groups with
  | nil => simp [file, pairs]
  | cons g rest ih =>
      rw [file]
      by_cases hg : g.outcome = obs.outcome
      · simp only [if_pos hg, pairs, List.flatMap_cons, List.map_append, List.map_cons, List.map_nil, List.append_assoc]
        rw [hg]
        exact (List.perm_append_comm).append_left _
      · simp only [if_neg hg, pairs, List.flatMap_cons, List.append_assoc]
        exact ih.append_left _

theorem pairs_filed (observations : List Observation) :
    (pairs (filed observations)).Perm (observations.map fun obs => (obs.outcome, obs.response)) := by
  induction observations using List.reverseRecOn with
  | nil => simp [filed, pairs]
  | append_singleton seen obs ih =>
      rw [filed_concat, List.map_append]
      exact (pairs_file obs _).trans (ih.append_right _)

theorem pairs_ofObservations (observations : List Observation) :
    (pairs (ofObservations observations)).Perm (observations.map fun obs => (obs.outcome, obs.response)) :=
  ((filed_perm observations).flatMap_right _).symm.trans (pairs_filed observations)

end Filing

theorem sum_ofObservations (observations : List Observation) :
    ((ofObservations observations).map (·.samples.length)).sum = observations.length := by
  have hlength := (pairs_ofObservations observations).length_eq
  simpa only [pairs, List.length_flatMap, List.length_map] using hlength

theorem length_flatMap_ofObservations (observations : List Observation) :
    ((ofObservations observations).flatMap (·.samples)).length = observations.length := by
  rw [List.length_flatMap, sum_ofObservations]

theorem flatMap_ofObservations (observations : List Observation) :
    (ofObservations observations).flatMap (·.samples) = Outcome.all.flatMap (responses observations) := by
  unfold ofObservations
  induction Outcome.all with
  | nil => rfl
  | cons outcome rest ih =>
      rw [List.filterMap_cons, List.flatMap_cons, ← ih]
      cases responses observations outcome <;> rfl

-- Every outcome is listed once, so each observation counts in one group.
theorem length_flatMap_responses (observations : List Observation) :
    (Outcome.all.flatMap (responses observations)).length = observations.length := by
  rw [← flatMap_ofObservations, length_flatMap_ofObservations]

theorem ofObservations_ne_nil (h : observations ≠ []) : ofObservations observations ≠ [] := by
  intro hnil
  have hlength := length_flatMap_ofObservations observations
  rw [hnil] at hlength
  exact h (List.length_eq_zero_iff.mp hlength.symm)

-- An outcome that no status code has is the outcome of no group.
theorem length_ofObservations_le (observations : List Observation) : (ofObservations observations).length ≤ 6 := by
  have hsub : (ofObservations observations).map (·.outcome) ⊆ Outcome.possible := by
    intro outcome houtcome
    obtain ⟨g, hg, rfl⟩ := List.mem_map.mp houtcome
    obtain ⟨hsamples, hne⟩ := mem_ofObservations.mp hg
    obtain ⟨s, hs⟩ := List.exists_mem_of_ne_nil _ (hsamples ▸ hne)
    obtain ⟨obs, _, heq, _⟩ := mem_responses.mp hs
    exact heq ▸ Outcome.ofStatus_mem_possible obs.status
  simpa [Outcome.possible] using (List.subperm_of_subset (nodup_outcomes observations) hsub).length_le

-- The groups of any observations, and the outcomes of any status codes.
theorem ofObservations_partition (observations : List Observation) :
    ((ofObservations observations).map (·.outcome)).Nodup ∧
      (ofObservations observations).Pairwise (fun g h => g.outcome.Precedes h.outcome) ∧
      inOrder (filed observations) = ofObservations observations ∧
      (∀ g ∈ ofObservations observations, g.samples ≠ [] ∧
        g.samples = (observations.filter fun obs => Outcome.ofStatus obs.status = g.outcome).map (·.response)) ∧
      (pairs (ofObservations observations)).Perm
        (observations.map fun obs => (Outcome.ofStatus obs.status, obs.response)) ∧
      ((ofObservations observations).map (·.samples.length)).sum = observations.length ∧
      (ofObservations observations).length ≤ 6 ∧
      ∀ status : Option Int,
        ((Outcome.ofStatus status).bucket ∈ [Bucket.success, .redirect] → (Outcome.ofStatus status).isError = false) ∧
        ((Outcome.ofStatus status).bucket ∈ [Bucket.clientError, .serverError] →
          (Outcome.ofStatus status).isError = true) := by
  refine ⟨nodup_outcomes observations, ofObservations_pairwise observations, inOrder_filed observations, fun g hg => ?_,
    pairs_ofObservations observations, sum_ofObservations observations, length_ofObservations_le observations, fun status => ?_⟩
  · obtain ⟨hsamples, hne⟩ := mem_ofObservations.mp hg
    exact ⟨hne, hsamples⟩
  · have hpossible : ∀ outcome ∈ Outcome.possible,
        (outcome.bucket ∈ [Bucket.success, .redirect] → outcome.isError = false) ∧
          (outcome.bucket ∈ [Bucket.clientError, .serverError] → outcome.isError = true) := by decide
    exact hpossible _ (Outcome.ofStatus_mem_possible status)

-- Codes of every range and a missing one; each response tells its code.
def answered (status : Option Int) : Observation :=
  ⟨"jobs", .ofLeaf (.integer (status.getD 0)), status, default, "GET", none⟩

def mixedArrivals : List Observation :=
  [some 700, some 404, none, some 200, some (-5), some 503, some 301, some 599].map answered

theorem ofObservations_mixedArrivals :
    ∃ g ∈ ofObservations mixedArrivals, g.outcome = ⟨.other, false⟩ ∧ g.samples.length = 2 ∧
      g.samples = (mixedArrivals.filter fun obs => Outcome.ofStatus obs.status = g.outcome).map (·.response) ∧
      (ofObservations mixedArrivals).length ≤ 6 ∧
      (Outcome.ofStatus (some 599)).bucket ∈ [Bucket.clientError, .serverError] ∧
      (Outcome.ofStatus (some 599)).isError = true := by
  obtain ⟨_, _, _, hsamples, _, _, hlength, hstatus⟩ := ofObservations_partition mixedArrivals
  have hgroup : ⟨⟨.other, false⟩, [.ofLeaf (.integer 0), .ofLeaf (.integer (-5))]⟩ ∈ ofObservations mixedArrivals :=
    mem_ofObservations.mpr ⟨rfl, List.cons_ne_nil _ _⟩
  have hbucket : (Outcome.ofStatus (some 599)).bucket ∈ [Bucket.clientError, .serverError] := by decide
  exact ⟨_, hgroup, rfl, rfl, (hsamples _ hgroup).2, hlength, hbucket, (hstatus (some 599)).2 hbucket⟩

end Group

end ShapeScribe
