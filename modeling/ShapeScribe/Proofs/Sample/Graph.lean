import Mathlib.Logic.Relation
import ShapeScribe.Sample.Basic

/-!
Samples as graphs: which container lies in which, and what a walk from the root meets on its path. A sample without
cycles never meets a container below itself.
-/

namespace ShapeScribe

open Relation

-- The values that lie directly in a container.
def Container.values : Container → List Value
  | .array _ items => items
  | .object members => members.map (·.2)

def Container.HasDistinctKeys : Container → Prop
  | .array .. => True
  | .object members => members.Pairwise fun m n => m.1.same n.1 = false

instance : (c : Container) → Decidable c.HasDistinctKeys
  | .array .. => inferInstanceAs (Decidable True)
  | .object members => inferInstanceAs (Decidable (members.Pairwise fun m n => m.1.same n.1 = false))

-- Members with the same keys, and related values under each key.
def SameMembers (R : Value → Value → Prop) (members others : List (Key × Value)) : Prop :=
  (∀ m ∈ members, ∃ n ∈ others, m.1 = n.1 ∧ R m.2 n.2) ∧ ∀ n ∈ others, ∃ m ∈ members, m.1 = n.1 ∧ R m.2 n.2

theorem SameMembers.mono {R R' : Value → Value → Prop} (hR : ∀ v w, R v w → R' v w) {members others : List (Key × Value)}
    (h : SameMembers R members others) : SameMembers R' members others := by
  obtain ⟨hthere, hback⟩ := h
  constructor
  · intro m hm
    obtain ⟨n, hn, hkey, hvalue⟩ := hthere m hm
    exact ⟨n, hn, hkey, hR _ _ hvalue⟩
  · intro n hn
    obtain ⟨m, hm, hkey, hvalue⟩ := hback n hn
    exact ⟨m, hm, hkey, hR _ _ hvalue⟩

-- A value that leads to no place from the given one on.
def Value.IsBefore (p : Place) : Value → Prop
  | .leaf _ => True
  | .container q => q < p

instance (p : Place) : (v : Value) → Decidable (v.IsBefore p)
  | .leaf _ => inferInstanceAs (Decidable True)
  | .container q => inferInstanceAs (Decidable (q < p))

namespace Sample

def Encloses (s : Sample) (p q : Place) : Prop := .container q ∈ (s.contents p).values

def Reaches (s : Sample) (p : Place) : Prop := ∃ q, s.root = .container q ∧ ReflTransGen s.Encloses q p

def Acyclic (s : Sample) : Prop := ∀ p, s.Reaches p → ¬ TransGen s.Encloses p p

-- No two members of an object have the same key.
def HasDistinctKeys (s : Sample) : Prop := ∀ p, (s.contents p).HasDistinctKeys

theorem contents_eq_or (s : Sample) (p : Place) :
    s.contents p = .array false [] ∨ p < s.containers.size ∧ s.contents p ∈ s.containers := by
  by_cases hp : p < s.containers.size
  · exact .inr ⟨hp, by simp [contents, Array.getD, hp]⟩
  · exact .inl (by simp [contents, Array.getD, hp])

theorem hasDistinctKeys_of_containers {s : Sample} (h : ∀ c ∈ s.containers, c.HasDistinctKeys) :
    s.HasDistinctKeys := by
  intro p
  rcases s.contents_eq_or p with hp | ⟨_, hp⟩
  · simp [hp, Container.HasDistinctKeys]
  · exact h _ hp

-- Containers that hold earlier ones only are in no cycle.
theorem acyclic_of_isBefore {s : Sample}
    (h : ∀ p < s.containers.size, ∀ v ∈ (s.contents p).values, v.IsBefore p) : s.Acyclic := by
  have hedge : ∀ p q, s.Encloses p q → q < p := by
    intro p q hq
    rcases s.contents_eq_or p with hp | ⟨hp, _⟩
    · simp [Encloses, hp, Container.values] at hq
    · exact h p hp _ hq
  intro p _ hcycle
  have hlt : ∀ q, TransGen s.Encloses p q → q < p := by
    intro q hq
    induction hq with
    | single hq => exact hedge _ _ hq
    | tail _ hq ih => exact Nat.lt_trans (hedge _ _ hq) ih
  exact Nat.lt_irrefl p (hlt p hcycle)

-- A value that is met below the containers of a path: each of them encloses it, directly or not.
def MeetsBelow (s : Sample) (path : List Place) (v : Value) : Prop :=
  ∀ p, v = .container p → s.Reaches p ∧ ∀ q ∈ path, TransGen s.Encloses q p

theorem meetsBelow_root (s : Sample) : s.MeetsBelow [] s.root := by
  intro p hp
  exact ⟨⟨p, hp, .refl⟩, by simp⟩

theorem MeetsBelow.notMem {s : Sample} {path : List Place} {p : Place} (h : s.MeetsBelow path (.container p))
    (hs : s.Acyclic) : p ∉ path := by
  intro hp
  obtain ⟨hreach, habove⟩ := h p rfl
  exact hs p hreach (habove p hp)

theorem MeetsBelow.step {s : Sample} {path : List Place} {p : Place} {v : Value}
    (h : s.MeetsBelow path (.container p)) (hv : v ∈ (s.contents p).values) : s.MeetsBelow (p :: path) v := by
  rintro q rfl
  obtain ⟨⟨root, hroot, hpath⟩, habove⟩ := h p rfl
  refine ⟨⟨root, hroot, hpath.tail hv⟩, ?_⟩
  intro r hr
  rcases List.mem_cons.mp hr with rfl | hr
  · exact .single hv
  · exact (habove r hr).tail hv

end Sample

end ShapeScribe
