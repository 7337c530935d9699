import Mathlib.Data.List.Forall2
import ShapeScribe.Sample.Json

/-!
Samples up to the places of their containers. No place has a part in what a sample is read as, so samples that differ in
their places alone have the same JSON value, or none for the same reason.
-/

namespace ShapeScribe

variable {R : Place → Place → Prop}

-- Values that agree where the relation says which places stand for which.
inductive Value.Alike (R : Place → Place → Prop) : Value → Value → Prop
  | leaf (l : Leaf) : Alike R (.leaf l) (.leaf l)
  | container {p q : Place} (h : R p q) : Alike R (.container p) (.container q)

-- Whether an array is fixed does not count.
inductive Container.Alike (R : Place → Place → Prop) : Container → Container → Prop
  | array {fixed fixed' : Bool} {items others : List Value} (h : List.Forall₂ (Value.Alike R) items others) :
    Alike R (.array fixed items) (.array fixed' others)
  | object {members others : List (Key × Value)}
    (h : List.Forall₂ (fun m n => m.1 = n.1 ∧ m.2.Alike R n.2) members others) :
    Alike R (.object members) (.object others)

namespace Sample

variable {s s' : Sample}

-- One sample is the other with its containers in different places; what neither can reach does not count.
def Same (s s' : Sample) : Prop :=
  ∃ R : Place → Place → Prop, Relator.BiUnique R ∧ s.root.Alike R s'.root ∧
    ∀ p q, R p q → (s.contents p).Alike R (s'.contents q)

theorem Same.refl (s : Sample) : s.Same s := by
  have hvalue : ∀ v : Value, v.Alike Eq v := fun v => by
    cases v with
    | leaf l => exact .leaf l
    | container p => exact .container rfl
  refine ⟨Eq, ⟨fun _ _ _ h h' => h.trans h'.symm, fun _ _ _ h h' => h.symm.trans h'⟩, hvalue s.root, ?_⟩
  rintro p _ rfl
  cases s.contents p with
  | array fixed items => exact .array (List.forall₂_same.mpr fun v _ => hvalue v)
  | object members => exact .object (List.forall₂_same.mpr fun m _ => ⟨rfl, hvalue m.2⟩)

theorem itemsJson_congr {jsonOf jsonOf' : Value → Except Fault Json} {items others : List Value}
    (h : List.Forall₂ (fun v w => jsonOf v = jsonOf' w) items others) :
    itemsJson jsonOf items = itemsJson jsonOf' others := by
  induction h with
  | nil => rfl
  | cons hvw _ ih => simp only [itemsJson, hvw, ih]

theorem membersJson_congr {jsonOf jsonOf' : Value → Except Fault Json} {members others : List (Key × Value)}
    (h : List.Forall₂ (fun m n => m.1 = n.1 ∧ jsonOf m.2 = jsonOf' n.2) members others) :
    membersJson jsonOf members = membersJson jsonOf' others := by
  induction h with
  | nil => rfl
  | @cons m n _ _ hmn _ ih =>
      obtain ⟨key, v⟩ := m
      obtain ⟨key', w⟩ := n
      obtain ⟨rfl, hvalue⟩ := hmn
      cases key <;> simp only [membersJson, hvalue, ih]

theorem containerJson_congr {jsonOf jsonOf' : Value → Except Fault Json} {c d : Container} (h : c.Alike R d)
    (hvalues : ∀ v w, v.Alike R w → jsonOf v = jsonOf' w) : containerJson jsonOf c = containerJson jsonOf' d := by
  cases h with
  | array h => simp only [containerJson, itemsJson_congr (h.imp hvalues)]
  | object h => simp only [containerJson, membersJson_congr (h.imp fun m n hmn => ⟨hmn.1, hvalues _ _ hmn.2⟩)]

-- The induction is on the room that is left. A container is met again on its path exactly when the one that it stands
-- for is, because no two places stand for one.
theorem jsonBelow_congr (hR : Relator.BiUnique R) (hcontents : ∀ p q, R p q → (s.contents p).Alike R (s'.contents q))
    (limit : Int) {room : Nat} {path path' : List Place} {v w : Value} (hpath : List.Forall₂ R path path')
    (hvw : v.Alike R w) : jsonBelow limit s room path v = jsonBelow limit s' room path' w := by
  induction room generalizing path path' v w with
  | zero =>
      cases hvw with
      | leaf l => rfl
      | container h => simp only [jsonBelow, List.rel_mem hR h hpath]
  | succ room ih =>
      cases hvw with
      | leaf l => rfl
      | container h =>
          have hbelow := containerJson_congr (hcontents _ _ h) fun v w hvw => ih (.cons h hpath) hvw
          simp only [jsonBelow, List.rel_mem hR h hpath, hbelow]

theorem Same.toJson_eq (h : s.Same s') (maxDepth : Int) : s.toJson maxDepth = s'.toJson maxDepth := by
  obtain ⟨R, hR, hroot, hcontents⟩ := h
  exact jsonBelow_congr hR hcontents maxDepth .nil hroot

end Sample

end ShapeScribe
