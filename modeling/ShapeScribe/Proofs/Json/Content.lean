import ShapeScribe.Proofs.Field.Stats
import ShapeScribe.Proofs.Json.Arranged
import ShapeScribe.Proofs.Number.Written
import ShapeScribe.Proofs.Sample.Graph
import ShapeScribe.Sample.Json

/-!
Canonical texts identify content: two samples are written alike exactly when they agree in everything but the order of
members, the kind of their arrays and the sharing of containers.
-/

namespace ShapeScribe

open Attempt

namespace Json

-- Finite numbers as they are, all others as one.
def finiteOr (x : Binary64) : Binary64 := if x.isFinite then x else default

theorem not_isFractional_written {x : Binary64} (hx : x.isFinite = false) :
    ¬ IsFractional (x.written numberStyle).toList := by
  unfold Binary64.written IsFractional
  split
  · decide
  · rw [if_pos (by simp [hx]), String.toList_ofList]
    cases x.isNegative <;> decide

-- No number that is not finite is written like one that is.
theorem finiteOr_eq_of_written {x y : Binary64} (h : x.written numberStyle = y.written numberStyle) :
    finiteOr x = finiteOr y := by
  unfold finiteOr
  cases hx : x.isFinite <;> cases hy : y.isFinite
  · rfl
  · exact absurd (h ▸ (decimal_spec hy).2) (not_isFractional_written hx)
  · exact absurd (h ▸ (decimal_spec hx).2) (not_isFractional_written hy)
  · exact Binary64.written_inj hx hy h

theorem arranged_finiteOr {j : Json} (hj : j.fault? = none) : j.arranged finiteOr = j.arranged id := by
  induction j using induct with
  | decimal x => rw [arranged, arranged, finiteOr, if_pos (isFinite_of_fault? hj), id]
  | array items ih =>
      rw [fault?_array] at hj
      rw [arranged, arranged, arrangedItems_eq_map, arrangedItems_eq_map]
      exact congrArg array (List.map_congr_left fun i hi => ih i hi (hj i hi))
  | object members ih =>
      rw [fault?_object] at hj
      rw [arranged, arranged, arrangedMembers_eq_map, arrangedMembers_eq_map]
      congr 2
      exact List.map_congr_left fun m hm => by rw [ih m hm (hj m hm)]
  | _ => rfl

-- The text is the same exactly when the arranged value is.
theorem canonical_eq_iff {j k : Json} {a b : String} (hj : j.canonical = .ok a) (hk : k.canonical = .ok b) :
    a = b ↔ j.arranged id = k.arranged id := by
  constructor
  · rintro rfl
    have hsame := arranged_eq_of_canonical (fun _ _ => finiteOr_eq_of_written) hj hk
    rwa [arranged_finiteOr (canonical_eq_ok.mp hj).1, arranged_finiteOr (canonical_eq_ok.mp hk).1] at hsame
  · intro hsame
    exact Except.ok.inj ((canonical_of_arranged hsame hj).symm.trans hk)

end Json

namespace Sample

variable {s s' : Sample}

-- One level of two values. Elements of arrays agree in order, members of objects by their keys.
def ContentLevel (s s' : Sample) (R : Value → Value → Prop) : Value → Value → Prop
  | .leaf l, .leaf m => l = m
  | .container p, .container q =>
    match s.contents p, s'.contents q with
    | .array _ items, .array _ others => List.Forall₂ R items others
    | .object members, .object others => SameMembers R members others
    | _, _ => False
  | _, _ => False

theorem ContentLevel.mono {R R' : Value → Value → Prop} (hR : ∀ v w, R v w → R' v w) (v w : Value)
    (h : ContentLevel s s' R v w) : ContentLevel s s' R' v w := by
  unfold ContentLevel at h ⊢
  split at h
  · exact h
  · split at h
    · exact h.imp hR
    · exact h.mono hR
    · exact h
  · exact h

-- Values agree on every level down to the leaves.
def SameContent (s s' : Sample) (v w : Value) : Prop := ContentLevel s s' (SameContent s s') v w
inductive_fixpoint monotonicity fun _ _ => ContentLevel.mono

@[simp] theorem sameContent_leaf {l m : Leaf} : SameContent s s' (.leaf l) (.leaf m) ↔ l = m := by
  rw [SameContent, ContentLevel]

@[simp] theorem not_sameContent_leaf_container {l : Leaf} {p : Place} : ¬ SameContent s s' (.leaf l) (.container p) := by
  rw [SameContent, ContentLevel] <;> simp

@[simp] theorem not_sameContent_container_leaf {p : Place} {l : Leaf} : ¬ SameContent s s' (.container p) (.leaf l) := by
  rw [SameContent, ContentLevel] <;> simp

theorem sameContent_array {p q : Place} {fixed fixed' : Bool} {items others : List Value}
    (hp : s.contents p = .array fixed items) (hq : s'.contents q = .array fixed' others) :
    SameContent s s' (.container p) (.container q) ↔ List.Forall₂ (SameContent s s') items others := by
  rw [SameContent, ContentLevel, hp, hq]

theorem sameContent_object {p q : Place} {members others : List (Key × Value)} (hp : s.contents p = .object members)
    (hq : s'.contents q = .object others) :
    SameContent s s' (.container p) (.container q) ↔ SameMembers (SameContent s s') members others := by
  rw [SameContent, ContentLevel, hp, hq]

theorem leafJson_eq_iff {l m : Leaf} {j k : Json} (hj : leafJson l = .ok j) (hk : leafJson m = .ok k) :
    j.arranged id = k.arranged id ↔ l = m := by
  cases l <;> cases m <;> simp only [leafJson, Except.ok.injEq, reduceCtorEq] at hj hk <;> subst hj hk <;>
    simp [Json.arranged]

section Containers

variable {jsonOf jsonOf' : Value → Except Fault Json} {j k : Json} {fixed fixed' : Bool} {items others : List Value}
  {members members' : List (Key × Value)} {R : Value → Value → Prop}

theorem ne_containerJson {l : Leaf} {c : Container} (hj : leafJson l = .ok j) (hk : containerJson jsonOf c = .ok k) :
    j.arranged id ≠ k.arranged id := by
  cases c with
  | array fixed items =>
      obtain ⟨_, _, rfl⟩ := containerJson_array_eq_ok.mp hk
      cases l <;> simp only [leafJson, Except.ok.injEq, reduceCtorEq] at hj <;> subst hj <;> simp [Json.arranged]
  | object members =>
      obtain ⟨_, _, rfl⟩ := containerJson_object_eq_ok.mp hk
      cases l <;> simp only [leafJson, Except.ok.injEq, reduceCtorEq] at hj <;> subst hj <;> simp [Json.arranged]

theorem arrayJson_ne_objectJson (hj : containerJson jsonOf (.array fixed items) = .ok j)
    (hk : containerJson jsonOf' (.object members) = .ok k) : j.arranged id ≠ k.arranged id := by
  obtain ⟨_, _, rfl⟩ := containerJson_array_eq_ok.mp hj
  obtain ⟨_, _, rfl⟩ := containerJson_object_eq_ok.mp hk
  simp [Json.arranged]

-- Elements are compared in order.
theorem arrayJson_eq_iff
    (hvalues : ∀ v w j k, jsonOf v = .ok j → jsonOf' w = .ok k → (j.arranged id = k.arranged id ↔ R v w))
    (hj : containerJson jsonOf (.array fixed items) = .ok j)
    (hk : containerJson jsonOf' (.array fixed' others) = .ok k) :
    j.arranged id = k.arranged id ↔ List.Forall₂ R items others := by
  obtain ⟨js, hjs, rfl⟩ := containerJson_array_eq_ok.mp hj
  obtain ⟨ks, hks, rfl⟩ := containerJson_array_eq_ok.mp hk
  rw [Json.arranged_array_inj]
  constructor
  · exact fun hsame => forall₂_of_results hjs hks hsame fun v j w k hv hw => (hvalues v w j k hv hw).mp
  · exact fun hsame => forall₂_of_results hjs.flip hks.flip hsame fun j v k w hv hw => (hvalues v w j k hv hw).mpr

theorem forall₂_arrangedMembers {named : List (String × Json)}
    (h : List.Forall₂ (fun m n => m.1 = .text n.1 ∧ jsonOf m.2 = .ok n.2) members named) :
    List.Forall₂ (fun m n => m.1 = .text n.1 ∧ ∃ j, jsonOf m.2 = .ok j ∧ n.2 = j.arranged id) members
      (Json.arrangedMembers id named) := by
  rw [Json.arrangedMembers_eq_map, List.forall₂_map_right_iff]
  exact h.imp fun m n hmn => ⟨hmn.1, n.2, hmn.2, rfl⟩

-- Members are compared by their keys.
theorem objectJson_eq_iff (hkeys : (Container.object members).HasDistinctKeys)
    (hkeys' : (Container.object members').HasDistinctKeys)
    (hvalues : ∀ v w j k, jsonOf v = .ok j → jsonOf' w = .ok k → (j.arranged id = k.arranged id ↔ R v w))
    (hj : containerJson jsonOf (.object members) = .ok j) (hk : containerJson jsonOf' (.object members') = .ok k) :
    j.arranged id = k.arranged id ↔ SameMembers R members members' := by
  obtain ⟨ms, hms, rfl⟩ := containerJson_object_eq_ok.mp hj
  obtain ⟨ns, hns, rfl⟩ := containerJson_object_eq_ok.mp hk
  have hfields := forall₂_arrangedMembers hms
  have hothers := forall₂_arrangedMembers hns
  have hnames := Key.nodup_names hkeys (hfields.imp fun _ _ => And.left)
  have hnames' := Key.nodup_names hkeys' (hothers.imp fun _ _ => And.left)
  rw [Json.arranged, Json.arranged, Json.object.injEq, Named.inOrder_eq_iff hnames hnames']
  refine mem_iff_of_results hfields hothers ?_
  rintro m _ n _ ⟨name, _⟩ ⟨other, _⟩ ⟨hmname, j, hj, rfl⟩ ⟨hnname, k, hk, rfl⟩
  simp [hmname, hnname, hvalues m.2 n.2 j k hj hk]

end Containers

theorem containerJson_eq_iff {jsonOf jsonOf' : Value → Except Fault Json} {p q : Place} {j k : Json}
    (hs : s.HasDistinctKeys) (hs' : s'.HasDistinctKeys)
    (hvalues : ∀ v w j k, jsonOf v = .ok j → jsonOf' w = .ok k → (j.arranged id = k.arranged id ↔ SameContent s s' v w))
    (hj : containerJson jsonOf (s.contents p) = .ok j) (hk : containerJson jsonOf' (s'.contents q) = .ok k) :
    j.arranged id = k.arranged id ↔ SameContent s s' (.container p) (.container q) := by
  have hp := hs p
  have hq := hs' q
  rw [SameContent, ContentLevel]
  cases hc : s.contents p <;> cases hd : s'.contents q <;> rw [hc] at hj hp <;> rw [hd] at hk hq
  case array.array => exact arrayJson_eq_iff hvalues hj hk
  case array.object => simpa using arrayJson_ne_objectJson hj hk
  case object.array => simpa using (arrayJson_ne_objectJson hk hj).symm
  case object.object => exact objectJson_eq_iff hp hq hvalues hj hk

theorem jsonBelow_leaf (limit : Int) (room : Nat) (path : List Place) (l : Leaf) :
    s.jsonBelow limit room path (.leaf l) = leafJson l := by
  cases room <;> rfl

theorem exists_containerJson {limit : Int} {room : Nat} {path : List Place} {p : Place} {j : Json}
    (h : s.jsonBelow limit room path (.container p) = .ok j) :
    ∃ rest, room = rest + 1 ∧ containerJson (s.jsonBelow limit rest (p :: path)) (s.contents p) = .ok j := by
  cases room with
  | zero => cases h
  | succ rest =>
      rw [jsonBelow] at h
      split at h
      · cases h
      · exact ⟨rest, rfl, h⟩

-- The room on the two sides may differ: it only decides whether there is a value at all.
theorem jsonBelow_eq_iff (hs : s.HasDistinctKeys) (hs' : s'.HasDistinctKeys) {limit limit' : Int} {room room' : Nat}
    {path path' : List Place} {v w : Value} {j k : Json} (hj : s.jsonBelow limit room path v = .ok j)
    (hk : s'.jsonBelow limit' room' path' w = .ok k) : j.arranged id = k.arranged id ↔ SameContent s s' v w := by
  induction room using Nat.strongRecOn generalizing room' path path' v w j k with
  | ind room ih =>
      cases v with
      | leaf l =>
          rw [jsonBelow_leaf] at hj
          cases w with
          | leaf m =>
              rw [jsonBelow_leaf] at hk
              exact (leafJson_eq_iff hj hk).trans sameContent_leaf.symm
          | container q =>
              obtain ⟨_, _, hq⟩ := exists_containerJson hk
              simpa using ne_containerJson hj hq
      | container p =>
          obtain ⟨rest, rfl, hp⟩ := exists_containerJson hj
          cases w with
          | leaf m =>
              rw [jsonBelow_leaf] at hk
              simpa using (ne_containerJson hk hp).symm
          | container q =>
              obtain ⟨_, _, hq⟩ := exists_containerJson hk
              exact containerJson_eq_iff hs hs' (fun v w j k hv hw => ih rest (Nat.lt_succ_self rest) hv hw) hp hq

end Sample

-- Texts of samples are the same exactly when the samples agree.
theorem serialize_eq_iff {s s' : Sample} {maxDepth maxDepth' : Int} {a b : String} (hs : s.HasDistinctKeys)
    (hs' : s'.HasDistinctKeys) (ha : s.serialize maxDepth = .ok a) (hb : s'.serialize maxDepth' = .ok b) :
    a = b ↔ Sample.SameContent s s' s.root s'.root := by
  obtain ⟨j, hj, ha⟩ := bind_eq_ok.mp ha
  obtain ⟨k, hk, hb⟩ := bind_eq_ok.mp hb
  rw [Json.canonical_eq_iff ha hb]
  exact Sample.jsonBelow_eq_iff hs hs' hj hk

-- One array under two names, and a zero below zero.
def sharedSums : Sample :=
  ⟨#[.array true [.leaf (.integer 1), .leaf (.decimal ⟨0x3FF0000000000000⟩)],
    .object [(.text "net", .container 0), (.text "\"", .leaf (.decimal (.zero true))), (.text "all", .container 0)]],
    .container 1⟩

-- An array for each name, and the names in another order.
def separateSums : Sample :=
  ⟨#[.array false [.leaf (.integer 1), .leaf (.decimal ⟨0x3FF0000000000000⟩)],
    .array true [.leaf (.integer 1), .leaf (.decimal ⟨0x3FF0000000000000⟩)],
    .object [(.text "all", .container 1), (.text "net", .container 0), (.text "\"", .leaf (.decimal (.zero true)))]],
    .container 2⟩

def unsignedSums : Sample :=
  ⟨#[.array true [.leaf (.integer 1), .leaf (.decimal ⟨0x3FF0000000000000⟩)],
    .object [(.text "net", .container 0), (.text "\"", .leaf (.decimal (.zero false))), (.text "all", .container 0)]],
    .container 1⟩

theorem serialize_sums :
    (∃ a, sharedSums.serialize 2 = .ok a ∧ separateSums.serialize 64 = .ok a) ∧
      ∃ a b, sharedSums.serialize 2 = .ok a ∧ unsignedSums.serialize 2 = .ok b ∧ a ≠ b := by
  have hcontainers : ∀ s ∈ [sharedSums, separateSums, unsignedSums], ∀ c ∈ s.containers.toList, c.HasDistinctKeys := by
    decide
  have hkeys : ∀ s ∈ [sharedSums, separateSums, unsignedSums], s.HasDistinctKeys := fun s hs =>
    Sample.hasDistinctKeys_of_containers fun c hc => hcontainers s hs c (by simpa using hc)
  obtain ⟨a, ha⟩ : ∃ a, sharedSums.serialize 2 = .ok a :=
    ⟨_, bind_eq_ok.mpr ⟨_, rfl, Json.canonical_eq_ok.mpr ⟨by simp; decide, rfl⟩⟩⟩
  obtain ⟨b, hb⟩ : ∃ b, separateSums.serialize 64 = .ok b :=
    ⟨_, bind_eq_ok.mpr ⟨_, rfl, Json.canonical_eq_ok.mpr ⟨by simp; decide, rfl⟩⟩⟩
  obtain ⟨c, hc⟩ : ∃ c, unsignedSums.serialize 2 = .ok c :=
    ⟨_, bind_eq_ok.mpr ⟨_, rfl, Json.canonical_eq_ok.mpr ⟨by simp; decide, rfl⟩⟩⟩
  have hnet : Sample.SameContent sharedSums separateSums (.container 0) (.container 0) :=
    (Sample.sameContent_array rfl rfl).mpr (by simp)
  have hall : Sample.SameContent sharedSums separateSums (.container 0) (.container 1) :=
    (Sample.sameContent_array rfl rfl).mpr (by simp)
  have hsame : Sample.SameContent sharedSums separateSums sharedSums.root separateSums.root :=
    (Sample.sameContent_object rfl rfl).mpr (by simp [SameMembers, hnet, hall])
  have hzero : Binary64.zero true ≠ Binary64.zero false := by decide
  have hother : ¬ Sample.SameContent sharedSums unsignedSums sharedSums.root unsignedSums.root := fun h => by
    simpa [SameMembers, hzero] using (Sample.sameContent_object rfl rfl).mp h
  have hab := (serialize_eq_iff (hkeys _ (by simp)) (hkeys _ (by simp)) ha hb).mpr hsame
  have hac := (serialize_eq_iff (hkeys _ (by simp)) (hkeys _ (by simp)) ha hc).not.mpr hother
  exact ⟨⟨a, ha, hab ▸ hb⟩, a, c, ha, hc, hac⟩

end ShapeScribe
