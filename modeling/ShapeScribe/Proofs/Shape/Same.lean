import ShapeScribe.Proofs.Field.Stats
import ShapeScribe.Proofs.Named
import ShapeScribe.Proofs.Sample.Graph
import ShapeScribe.Proofs.Token.Order

/-!
Tokens identify shapes: two samples without cycles have the same token exactly when they have the same shape. Neither
the order of members and elements nor repetition, fixed arrays or shared containers have a part in it.
-/

namespace ShapeScribe

open Attempt

def Leaf.isDate : Leaf → Bool
  | .text s => DateText.isDate s
  | _ => false

-- Leaves of one kind, and both dates or neither when dates are told from other texts.
def Leaf.Alike (o : Options) (l m : Leaf) : Prop := l.kind = m.kind ∧ (o.detectDates → l.isDate = m.isDate)

instance (o : Options) (l m : Leaf) : Decidable (l.Alike o m) :=
  inferInstanceAs (Decidable (l.kind = m.kind ∧ (o.detectDates → l.isDate = m.isDate)))

theorem Leaf.alike_iff {o : Options} {l m : Leaf} {t u : Token} (hl : l.shape o = .ok t) (hm : m.shape o = .ok u) :
    t = u ↔ l.Alike o m := by
  cases l <;> cases m <;> simp only [shape, Except.ok.injEq, reduceCtorEq] at hl hm
  all_goals
    subst hl hm
    simp [Alike, kind, isDate, Token.null, Token.undefined, Token.boolean, Token.number, Token.string, Token.date]
  all_goals grind

namespace Sample

variable {o : Options} {s s' : Sample}

-- One level of two values. Where they lie does not matter, only what is in them, and the relation says which of that
-- agrees.
def SameLevel (o : Options) (s s' : Sample) (R : Value → Value → Prop) : Value → Value → Prop
  | .leaf l, .leaf m => l.Alike o m
  | .container p, .container q =>
    match s.contents p, s'.contents q with
    | .array _ items, .array _ others => (∀ x ∈ items, ∃ y ∈ others, R x y) ∧ ∀ y ∈ others, ∃ x ∈ items, R x y
    | .object members, .object others => SameMembers R members others
    | _, _ => False
  | _, _ => False

theorem SameLevel.mono {R R' : Value → Value → Prop} (hR : ∀ v w, R v w → R' v w) (v w : Value)
    (h : SameLevel o s s' R v w) : SameLevel o s s' R' v w := by
  unfold SameLevel at h ⊢
  split at h
  · exact h
  · split at h
    · exact h.imp (fun h x hx => (h x hx).imp fun y => .imp_right (hR x y)) fun h y hy =>
        (h y hy).imp fun x => .imp_right (hR x y)
    · exact h.mono hR
    · exact h
  · exact h

-- Values agree on every level down to the leaves. Nothing in a cycle has a shape in this sense.
def SameShape (o : Options) (s s' : Sample) (v w : Value) : Prop := SameLevel o s s' (SameShape o s s') v w
inductive_fixpoint monotonicity fun _ _ => SameLevel.mono

@[simp] theorem sameShape_leaf {l m : Leaf} : SameShape o s s' (.leaf l) (.leaf m) ↔ l.Alike o m := by
  rw [SameShape, SameLevel]

@[simp] theorem not_sameShape_leaf_container {l : Leaf} {p : Place} :
    ¬ SameShape o s s' (.leaf l) (.container p) := by
  rw [SameShape, SameLevel] <;> simp

@[simp] theorem not_sameShape_container_leaf {p : Place} {l : Leaf} :
    ¬ SameShape o s s' (.container p) (.leaf l) := by
  rw [SameShape, SameLevel] <;> simp

theorem sameShape_array {p q : Place} {fixed fixed' : Bool} {items others : List Value}
    (hp : s.contents p = .array fixed items) (hq : s'.contents q = .array fixed' others) :
    SameShape o s s' (.container p) (.container q) ↔
      (∀ x ∈ items, ∃ y ∈ others, SameShape o s s' x y) ∧ ∀ y ∈ others, ∃ x ∈ items, SameShape o s s' x y := by
  rw [SameShape, SameLevel, hp, hq]

theorem sameShape_object {p q : Place} {members others : List (Key × Value)} (hp : s.contents p = .object members)
    (hq : s'.contents q = .object others) :
    SameShape o s s' (.container p) (.container q) ↔ SameMembers (SameShape o s s') members others := by
  rw [SameShape, SameLevel, hp, hq]

section Containers

variable {shapeOf shapeOf' : Value → Except Fault Token} {t u : Token} {fixed fixed' : Bool} {items others : List Value}
  {members members' : List (Key × Value)} {R : Value → Value → Prop}

theorem ne_containerShape {l : Leaf} {c : Container} (ht : l.shape o = .ok t)
    (hu : containerShape o shapeOf c = .ok u) : t ≠ u := by
  have hscalar : ∃ name text, t = .scalar name text := by
    cases l <;> simp only [Leaf.shape, Except.ok.injEq, reduceCtorEq] at ht
    case text =>
      subst ht
      split <;> exact ⟨_, _, rfl⟩
    all_goals exact ⟨_, _, ht.symm⟩
  obtain ⟨name, text, rfl⟩ := hscalar
  cases c with
  | array fixed items =>
      obtain ⟨_, _, rfl⟩ := containerShape_array_eq_ok.mp hu
      simp
  | object members =>
      obtain ⟨_, _, rfl⟩ := containerShape_object_eq_ok.mp hu
      simp

theorem arrayShape_ne_objectShape (ht : containerShape o shapeOf (.array fixed items) = .ok t)
    (hu : containerShape o shapeOf' (.object members) = .ok u) : t ≠ u := by
  obtain ⟨_, _, rfl⟩ := containerShape_array_eq_ok.mp ht
  obtain ⟨_, _, rfl⟩ := containerShape_object_eq_ok.mp hu
  simp

-- The token of an array is the set of the tokens of its elements.
theorem arrayShape_eq_iff (ho : o.analyzeAllArrayElements = true)
    (hvalues : ∀ v ∈ items, ∀ w ∈ others, ∀ t u, shapeOf v = .ok t → shapeOf' w = .ok u → (t = u ↔ R v w))
    (ht : containerShape o shapeOf (.array fixed items) = .ok t)
    (hu : containerShape o shapeOf' (.array fixed' others) = .ok u) :
    t = u ↔ (∀ x ∈ items, ∃ y ∈ others, R x y) ∧ ∀ y ∈ others, ∃ x ∈ items, R x y := by
  obtain ⟨ts, hts, rfl⟩ := containerShape_array_eq_ok.mp ht
  obtain ⟨us, hus, rfl⟩ := containerShape_array_eq_ok.mp hu
  rw [Options.sampled_eq ho] at hts hus
  rw [Token.array.injEq, Token.normalize_eq_iff, mem_iff_of_results hts hus hvalues]

-- The token of an object is the map from its keys to the tokens of its values.
theorem objectShape_eq_iff (hkeys : (Container.object members).HasDistinctKeys)
    (hkeys' : (Container.object members').HasDistinctKeys)
    (hvalues : ∀ m ∈ members, ∀ n ∈ members', ∀ t u, shapeOf m.2 = .ok t → shapeOf' n.2 = .ok u → (t = u ↔ R m.2 n.2))
    (ht : containerShape o shapeOf (.object members) = .ok t)
    (hu : containerShape o shapeOf' (.object members') = .ok u) : t = u ↔ SameMembers R members members' := by
  obtain ⟨fs, hfs, rfl⟩ := containerShape_object_eq_ok.mp ht
  obtain ⟨gs, hgs, rfl⟩ := containerShape_object_eq_ok.mp hu
  have hnames := Key.nodup_names hkeys (hfs.imp fun _ _ => And.left)
  have hnames' := Key.nodup_names hkeys' (hgs.imp fun _ _ => And.left)
  rw [Token.record.injEq, Named.inOrder_eq_iff hnames hnames']
  refine mem_iff_of_results hfs hgs ?_
  rintro m hm n hn ⟨name, ts⟩ ⟨other, us⟩ ⟨hmname, t, ht, rfl⟩ ⟨hnname, u, hu, rfl⟩
  simp [hmname, hnname, ← hvalues m hm n hn t u ht hu]

end Containers

-- One level of two samples: containers with the same token when that holds of the values in them.
theorem containerShape_eq_iff {shapeOf shapeOf' : Value → Except Fault Token} {p q : Place} {t u : Token}
    (ho : o.analyzeAllArrayElements = true) (hs : s.HasDistinctKeys) (hs' : s'.HasDistinctKeys)
    (hvalues : ∀ v ∈ (s.contents p).values, ∀ w ∈ (s'.contents q).values, ∀ t u, shapeOf v = .ok t →
      shapeOf' w = .ok u → (t = u ↔ SameShape o s s' v w))
    (ht : containerShape o shapeOf (s.contents p) = .ok t)
    (hu : containerShape o shapeOf' (s'.contents q) = .ok u) :
    t = u ↔ SameShape o s s' (.container p) (.container q) := by
  have hp := hs p
  have hq := hs' q
  rw [SameShape, SameLevel]
  cases hc : s.contents p <;> cases hd : s'.contents q <;> rw [hc] at ht hp hvalues <;> rw [hd] at hu hq hvalues
  case array.array => exact arrayShape_eq_iff ho hvalues ht hu
  case array.object => simpa using arrayShape_ne_objectShape ht hu
  case object.array => simpa using (arrayShape_ne_objectShape hu ht).symm
  case object.object =>
    refine objectShape_eq_iff hp hq (fun m hm n hn => ?_) ht hu
    exact hvalues m.2 (List.mem_map_of_mem hm) n.2 (List.mem_map_of_mem hn)

-- The induction is on the room that is left, which is the same on both sides as long as the walks go down together.
theorem shapeBelow_eq_iff (ho : o.analyzeAllArrayElements = true) (hs : s.HasDistinctKeys) (hs' : s'.HasDistinctKeys)
    (hacyclic : s.Acyclic) (hacyclic' : s'.Acyclic) {room : Nat} {path path' : List Place} {v w : Value} {t u : Token}
    (hv : s.MeetsBelow path v) (hw : s'.MeetsBelow path' w) (ht : s.shapeBelow o room path v = .ok t)
    (hu : s'.shapeBelow o room path' w = .ok u) : t = u ↔ SameShape o s s' v w := by
  induction room generalizing path path' v w t u with
  | zero =>
      cases v with
      | leaf l =>
          cases w with
          | leaf m => exact (Leaf.alike_iff ht hu).trans sameShape_leaf.symm
          | container q => simp [shapeBelow, hw.notMem hacyclic'] at hu
      | container p => simp [shapeBelow, hv.notMem hacyclic] at ht
  | succ room ih =>
      cases v with
      | leaf l =>
          cases w with
          | leaf m => exact (Leaf.alike_iff ht hu).trans sameShape_leaf.symm
          | container q =>
              simp only [shapeBelow, hw.notMem hacyclic', if_false] at hu
              simpa using ne_containerShape ht hu
      | container p =>
          simp only [shapeBelow, hv.notMem hacyclic, if_false] at ht
          cases w with
          | leaf m =>
              simpa using (ne_containerShape hu ht).symm
          | container q =>
              simp only [shapeBelow, hw.notMem hacyclic', if_false] at hu
              exact containerShape_eq_iff ho hs hs' (fun x hx y hy t u ht hu => ih (hv.step hx) (hw.step hy) ht hu) ht hu

-- Samples without cycles have the same token exactly when they have the same shape.
theorem shape_eq_iff_sameShape (ho : o.analyzeAllArrayElements = true) (hs : s.HasDistinctKeys)
    (hs' : s'.HasDistinctKeys) (hacyclic : s.Acyclic) (hacyclic' : s'.Acyclic) {t u : Token} (ht : s.shape o = .ok t)
    (hu : s'.shape o = .ok u) : t = u ↔ SameShape o s s' s.root s'.root :=
  shapeBelow_eq_iff ho hs hs' hacyclic hacyclic' s.meetsBelow_root s'.meetsBelow_root ht hu

-- One place in two roles: as a member, and three times in a fixed array.
def foldedSpan : Sample :=
  ⟨#[.object [(.text "on", .leaf (.text "2024-02-29")), (.text "n", .leaf (.integer 1))],
    .array true [.container 0, .leaf .null, .container 0, .container 0],
    .object [(.text "all", .container 1), (.text "last", .container 0)]], .container 2⟩

-- Each role with a place and an order of its own.
def unfoldedSpan : Sample :=
  ⟨#[.object [(.text "n", .leaf (.decimal ⟨0⟩)), (.text "on", .leaf (.text "1999-12-31"))],
    .object [(.text "on", .leaf (.text "2000-01-01")), (.text "n", .leaf (.integer (-7)))],
    .array false [.leaf .null, .container 1],
    .object [(.text "last", .container 0), (.text "all", .container 2)]], .container 3⟩

def datelessSpan : Sample :=
  ⟨#[.object [(.text "on", .leaf (.text "2023-02-29")), (.text "n", .leaf (.integer 1))],
    .array true [.container 0, .leaf .null],
    .object [(.text "all", .container 1), (.text "last", .container 0)]], .container 2⟩

theorem spans_eq_iff :
    (∃ t, foldedSpan.shape {} = .ok t ∧ unfoldedSpan.shape {} = .ok t) ∧
      ∃ t u, foldedSpan.shape {} = .ok t ∧ datelessSpan.shape {} = .ok u ∧ t ≠ u := by
  have hcontainers : ∀ s ∈ [foldedSpan, unfoldedSpan, datelessSpan], ∀ c ∈ s.containers.toList, c.HasDistinctKeys := by
    decide
  have hplaces : ∀ s ∈ [foldedSpan, unfoldedSpan, datelessSpan], ∀ p < s.containers.size,
      ∀ v ∈ (s.contents p).values, v.IsBefore p := by decide
  have hkeys : ∀ s ∈ [foldedSpan, unfoldedSpan, datelessSpan], s.HasDistinctKeys := fun s hs =>
    hasDistinctKeys_of_containers fun c hc => hcontainers s hs c (by simpa using hc)
  have hacyclic : ∀ s ∈ [foldedSpan, unfoldedSpan, datelessSpan], s.Acyclic := fun s hs =>
    acyclic_of_isBefore (hplaces s hs)
  have hlast : SameShape {} foldedSpan unfoldedSpan (.container 0) (.container 0) :=
    (sameShape_object rfl rfl).mpr (by simp [SameMembers]; decide)
  have hitem : SameShape {} foldedSpan unfoldedSpan (.container 0) (.container 1) :=
    (sameShape_object rfl rfl).mpr (by simp [SameMembers]; decide)
  have hall : SameShape {} foldedSpan unfoldedSpan (.container 1) (.container 2) :=
    (sameShape_array rfl rfl).mpr (by simp [hitem]; decide)
  have hsame : SameShape {} foldedSpan unfoldedSpan foldedSpan.root unfoldedSpan.root :=
    (sameShape_object rfl rfl).mpr (by simp [SameMembers, hall, hlast])
  have hdate : ¬ Leaf.Alike {} (.text "2024-02-29") (.text "2023-02-29") := by decide
  have hdateless : ¬ SameShape {} foldedSpan datelessSpan (.container 0) (.container 0) := fun h => by
    simpa [SameMembers, hdate] using (sameShape_object rfl rfl).mp h
  have hother : ¬ SameShape {} foldedSpan datelessSpan foldedSpan.root datelessSpan.root := fun h => by
    simpa [SameMembers, hdateless] using (sameShape_object rfl rfl).mp h
  obtain ⟨t, ht⟩ : ∃ t, foldedSpan.shape {} = .ok t := ⟨_, rfl⟩
  obtain ⟨u, hu⟩ : ∃ u, unfoldedSpan.shape {} = .ok u := ⟨_, rfl⟩
  obtain ⟨w, hw⟩ : ∃ w, datelessSpan.shape {} = .ok w := ⟨_, rfl⟩
  refine ⟨⟨t, ht, ?_⟩, t, w, ht, hw, ?_⟩
  · rw [hu, (shape_eq_iff_sameShape rfl (hkeys _ (by simp)) (hkeys _ (by simp)) (hacyclic _ (by simp))
      (hacyclic _ (by simp)) ht hu).mpr hsame]
  · rwa [Ne, shape_eq_iff_sameShape rfl (hkeys _ (by simp)) (hkeys _ (by simp)) (hacyclic _ (by simp))
      (hacyclic _ (by simp)) ht hw]

end Sample

end ShapeScribe
