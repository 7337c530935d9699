import Mathlib.Data.Set.Card
import ShapeScribe.Options
import ShapeScribe.Proofs.Sample.Graph
import ShapeScribe.Sample.KeyOrder

/-!
Positions in a sample: a value and the containers that enclose it on a way from the root. No way goes on below a
container that encloses itself, so none passes through more containers than the sample reaches.
-/

namespace ShapeScribe

open Relation

-- A leaf of a kind that JSON has.
def Leaf.IsScalar : Leaf → Prop
  | .missing | .foreign _ => False
  | _ => True

instance : (l : Leaf) → Decidable l.IsScalar
  | .null | .boolean _ | .integer _ | .decimal _ | .text _ => inferInstanceAs (Decidable True)
  | .missing | .foreign _ => inferInstanceAs (Decidable False)

-- Leaves of these kinds are all that a value can be besides a container.
def Value.IsJson (v : Value) : Prop := ∀ l, v = .leaf l → l.IsScalar

instance : (v : Value) → Decidable v.IsJson
  | .leaf l => decidable_of_iff l.IsScalar (by simp [Value.IsJson])
  | .container _ => isTrue (by simp [Value.IsJson])

theorem Key.isText_iff {k : Key} : k.isText = true ↔ ∃ name, k = .text name := by
  cases k <;> simp [isText]

def Container.HasTextKeys : Container → Prop
  | .array .. => True
  | .object members => ∀ m ∈ members, m.1.isText = true

instance : (c : Container) → Decidable c.HasTextKeys
  | .array .. => inferInstanceAs (Decidable True)
  | .object members => inferInstanceAs (Decidable (∀ m ∈ members, m.1.isText = true))

-- The values in a container that are looked at.
def Container.looked (o : Options) : Container → List Value
  | .array _ items => o.sampled items
  | .object members => members.map (·.2)

theorem Options.mem_of_mem_sampled {α : Type} {o : Options} {xs : List α} {x : α} (h : x ∈ o.sampled xs) : x ∈ xs := by
  unfold sampled takeSigned at h
  split at h
  · exact h
  · split at h <;> exact List.mem_of_mem_take h

theorem Container.mem_values_of_looked {o : Options} {c : Container} {v : Value} (h : v ∈ c.looked o) :
    v ∈ c.values := by
  cases c with
  | array fixed items => exact Options.mem_of_mem_sampled h
  | object members => exact h

-- The enclosing containers, the innermost first, and the value.
structure Position where
  path : List Place
  value : Value

-- The container in the position is one of those that enclose it.
def Position.ClosesCycle (pos : Position) : Prop := ∃ p ∈ pos.path, pos.value = .container p

namespace Sample

-- A value that the root is or that some container within reach holds.
def Holds (s : Sample) (v : Value) : Prop := v = s.root ∨ ∃ p, s.Reaches p ∧ v ∈ (s.contents p).values

-- A graph of what JSON is made of, with cycles or without.
structure IsJson (s : Sample) : Prop where
  values : ∀ v, s.Holds v → v.IsJson
  keys : ∀ p, s.Reaches p → (s.contents p).HasTextKeys

-- How many containers are within reach, each counted once.
noncomputable def reachCount (s : Sample) : Nat := {p | s.Reaches p}.ncard

-- One step down, from a container that does not enclose itself to a value in it that is looked at.
inductive Descends (o : Options) (s : Sample) : Position → Position → Prop
  | step {path : List Place} {p : Place} {v : Value} (hnew : p ∉ path) (hv : v ∈ (s.contents p).looked o) :
    Descends o s ⟨path, .container p⟩ ⟨p :: path, v⟩

-- The positions that are looked at on the way down from the root.
def Visits (o : Options) (s : Sample) (pos : Position) : Prop := ReflTransGen (s.Descends o) ⟨[], s.root⟩ pos

variable {o : Options} {s : Sample} {pos pos' : Position} {path : List Place} {p q : Place} {v : Value}

theorem Holds.reaches (h : s.Holds (.container p)) : s.Reaches p := by
  rcases h with hroot | ⟨q, ⟨root, hroot, hpath⟩, hv⟩
  · exact ⟨p, hroot.symm, .refl⟩
  · exact ⟨root, hroot, hpath.tail hv⟩

theorem Reaches.holds (h : s.Reaches p) : s.Holds (.container p) := by
  obtain ⟨root, hroot, hpath⟩ := h
  rcases ReflTransGen.cases_tail hpath with rfl | ⟨q, hq, hv⟩
  · exact .inl hroot.symm
  · exact .inr ⟨q, ⟨root, hroot, hq⟩, hv⟩

-- Whatever is within reach is mentioned by the root or by a container that has been placed.
theorem finite_reaches (s : Sample) : {p | s.Reaches p}.Finite := by
  have hmentioned : {v | v ∈ s.root :: s.containers.toList.flatMap Container.values}.Finite := List.finite_toSet _
  have hplaces := hmentioned.preimage (f := Value.container) (fun _ _ _ _ h => Value.container.inj h)
  refine hplaces.subset fun p hp => ?_
  rcases Reaches.holds hp with hroot | ⟨q, _, hv⟩
  · simp [hroot]
  · rcases s.contents_eq_or q with hq | ⟨_, hq⟩
    · simp [hq, Container.values] at hv
    · exact List.mem_cons_of_mem _ (List.mem_flatMap.mpr ⟨_, hq.val, hv⟩)

-- What holds of every position that is visited.
structure OnWay (s : Sample) (pos : Position) : Prop where
  nodup : pos.path.Nodup
  reached : ∀ p ∈ pos.path, s.Reaches p
  held : s.Holds pos.value

theorem onWay_root (s : Sample) : s.OnWay ⟨[], s.root⟩ := ⟨List.nodup_nil, by simp, .inl rfl⟩

theorem OnWay.step (hpos : s.OnWay ⟨path, .container p⟩) (hnew : p ∉ path) (hv : v ∈ (s.contents p).values) :
    s.OnWay ⟨p :: path, v⟩ := by
  have hp : s.Reaches p := hpos.held.reaches
  exact ⟨List.nodup_cons.mpr ⟨hnew, hpos.nodup⟩, List.forall_mem_cons.mpr ⟨hp, hpos.reached⟩, .inr ⟨p, hp, hv⟩⟩

theorem Descends.onWay (h : s.Descends o pos pos') (hpos : s.OnWay pos) : s.OnWay pos' := by
  cases h with
  | step hnew hv => exact hpos.step hnew (Container.mem_values_of_looked hv)

theorem OnWay.descend (hpos : s.OnWay pos) (h : ReflTransGen (s.Descends o) pos pos') : s.OnWay pos' := by
  induction h with
  | refl => exact hpos
  | tail _ hstep ih => exact hstep.onWay ih

theorem path_ne_nil (h : ReflTransGen (s.Descends o) pos pos') (hpos : pos.path ≠ []) : pos'.path ≠ [] := by
  rcases ReflTransGen.cases_tail h with rfl | ⟨_, _, hstep⟩
  · exact hpos
  · cases hstep
    exact List.cons_ne_nil _ _

theorem OnWay.length_le (hpos : s.OnWay pos) : pos.path.length ≤ s.reachCount := by
  have hsubset : (pos.path.toFinset : Set Place) ⊆ {p | s.Reaches p} := by
    intro p hp
    exact hpos.reached p (by simpa using hp)
  have hcard := Set.ncard_le_ncard hsubset s.finite_reaches
  rwa [Set.ncard_coe_finset, List.toFinset_card_of_nodup hpos.nodup] at hcard

-- A container that is new to the path has to be counted as well.
theorem OnWay.length_lt (hpos : s.OnWay pos) (hvalue : pos.value = .container p) (hnew : p ∉ pos.path) :
    pos.path.length < s.reachCount := by
  have hp : s.Reaches p := by
    apply Holds.reaches
    rw [← hvalue]
    exact hpos.held
  have hlonger : s.OnWay ⟨p :: pos.path, pos.value⟩ :=
    ⟨List.nodup_cons.mpr ⟨hnew, hpos.nodup⟩, List.forall_mem_cons.mpr ⟨hp, hpos.reached⟩, hpos.held⟩
  exact hlonger.length_le

section Containers

variable (hroot : s.root.IsBefore s.containers.size)
  (hvalues : ∀ c ∈ s.containers.toList, ∀ v ∈ c.values, v.IsBefore s.containers.size)

include hroot hvalues

-- Where no place is left without a container, only those that have been placed are within reach.
theorem Reaches.lt_size (h : s.Reaches p) : p < s.containers.size := by
  rcases h.holds with hp | ⟨q, _, hp⟩
  · rwa [← hp] at hroot
  · rcases s.contents_eq_or q with hq | ⟨_, hq⟩
    · simp [hq, Container.values] at hp
    · exact hvalues _ hq.val _ hp

theorem reachCount_le_size : s.reachCount ≤ s.containers.size := by
  have hsubset : {p | s.Reaches p} ⊆ (Finset.range s.containers.size : Set Place) := by
    intro p hp
    simpa using Reaches.lt_size hroot hvalues hp
  have hcard := Set.ncard_le_ncard hsubset (Finset.finite_toSet _)
  rwa [Set.ncard_coe_finset, Finset.card_range] at hcard

end Containers

theorem isJson_of_containers (hroot : s.root.IsJson)
    (hcontainers : ∀ c ∈ s.containers.toList, (∀ v ∈ c.values, v.IsJson) ∧ c.HasTextKeys) : s.IsJson where
  values := by
    rintro v (rfl | ⟨p, _, hv⟩)
    · exact hroot
    · rcases s.contents_eq_or p with hp | ⟨_, hp⟩
      · simp [hp, Container.values] at hv
      · exact (hcontainers _ hp.val).1 v hv
  keys := by
    intro p _
    rcases s.contents_eq_or p with hp | ⟨_, hp⟩
    · rw [hp]
      trivial
    · exact (hcontainers _ hp.val).2

end Sample

end ShapeScribe
