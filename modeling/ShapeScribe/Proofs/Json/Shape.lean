import ShapeScribe.Proofs.Field.Presence
import ShapeScribe.Proofs.Json.Arranged

/-!
Shapes of JSON values. Wherever a sample is a JSON value, its shape and its fields are those of the value, which do
not depend on the order of members, on the numbers, or on the places of containers.
-/

namespace ShapeScribe

open Attempt

-- The options that have a bearing on shapes are equal.
structure Options.SameView (o q : Options) : Prop where
  all : o.analyzeAllArrayElements = q.analyzeAllArrayElements
  dates : o.detectDates = q.detectDates
  limit : o.maxArraySamples = q.maxArraySamples

namespace Options

variable {α β : Type} {o q : Options}

theorem SameView.sampled (h : o.SameView q) (xs : List α) : o.sampled xs = q.sampled xs := by
  simp [Options.sampled, h.all, h.limit]

theorem sampled_map (o : Options) (f : α → β) (xs : List α) : o.sampled (xs.map f) = (o.sampled xs).map f := by
  simp only [sampled, takeSigned, List.length_map]
  repeat' split
  all_goals simp

theorem sampled_forall₂ (o : Options) {R : α → β → Prop} {xs : List α} {ys : List β} (h : List.Forall₂ R xs ys) :
    List.Forall₂ R (o.sampled xs) (o.sampled ys) := by
  simp only [sampled, takeSigned, h.length_eq]
  repeat' split
  · exact h
  · exact List.forall₂_take _ h
  · exact List.forall₂_take _ h

end Options

namespace Json

mutual

def shape (o : Options) : Json → Token
  | .null => .null
  | .boolean _ => .boolean
  | .integer _ | .decimal _ => .number
  | .text s => if o.detectDates && DateText.isDate s then .date else .string
  | .array items => .array (Token.normalize (o.sampled (shapes o items)))
  | .object members => .record (Named.inOrder (fields o members))

def shapes (o : Options) : List Json → List Token
  | [] => []
  | j :: rest => shape o j :: shapes o rest

def fields (o : Options) : List (String × Json) → List (String × List Token)
  | [] => []
  | (name, j) :: rest => Sample.soleField name (shape o j) :: fields o rest

end

variable {o q : Options}

theorem shapes_eq_map (items : List Json) : shapes o items = items.map (shape o) := by
  induction items with
  | nil => rfl
  | cons j rest ih => simp [shapes, ih]

theorem fields_eq_map (members : List (String × Json)) :
    fields o members = members.map fun m => (m.1, [m.2.shape o]) := by
  induction members with
  | nil => rfl
  | cons m rest ih => simp [fields, Sample.soleField, ih]

theorem shape_array (items : List Json) :
    (Json.array items).shape o = .array (Token.normalize ((o.sampled items).map (shape o))) := by
  rw [shape, shapes_eq_map, Options.sampled_map]

theorem shape_object (members : List (String × Json)) :
    (Json.object members).shape o = .record ((Named.inOrder members).map fun m => (m.1, [m.2.shape o])) := by
  rw [shape, fields_eq_map, Named.inOrder_map fun j : Json => [j.shape o]]

theorem shape_arranged (decimal : Binary64 → Binary64) (j : Json) : (j.arranged decimal).shape o = j.shape o := by
  induction j using induct with
  | array items ih =>
      rw [arranged, arrangedItems_eq_map, shape, shape, shapes_eq_map, shapes_eq_map, List.map_map]
      congr 3
      exact List.map_congr_left ih
  | object members ih =>
      rw [arranged_object, shape_object, shape_object,
        Named.inOrder_map (fun j : Json => j.arranged decimal), Named.inOrder_inOrder, List.map_map]
      congr 1
      apply List.map_congr_left
      intro m hm
      simp [ih m (Named.mem_inOrder.mp hm)]
  | _ => simp [arranged, shape]

theorem shape_congr (h : o.SameView q) (j : Json) : j.shape o = j.shape q := by
  induction j using induct with
  | text s => simp [shape, h.dates]
  | array items ih =>
      rw [shape, shape, shapes_eq_map, shapes_eq_map, h.sampled, List.map_congr_left ih]
  | object members ih =>
      rw [shape, shape, fields_eq_map, fields_eq_map]
      congr 2
      exact List.map_congr_left fun m hm => by rw [ih m hm]
  | _ => simp [shape]

-- What a member says about its field: a null has no token of its own.
def reading (o : Options) : Json → Option Token
  | .null => none
  | j => some (j.shape o)

def readings (o : Options) : Json → List (Key × Option Token)
  | .object members => members.map fun m => (.text m.1, m.2.reading o)
  | _ => []

def isObject : Json → Bool
  | .object _ => true
  | _ => false

theorem reading_arranged (decimal : Binary64 → Binary64) (j : Json) : (j.arranged decimal).reading o = j.reading o := by
  have hshape := shape_arranged (o := o) decimal j
  cases j <;> simp [arranged, reading] at hshape ⊢
  all_goals exact hshape

theorem reading_congr (h : o.SameView q) (j : Json) : j.reading o = j.reading q := by
  cases j <;> simp [reading, shape_congr h]

theorem readingsOf_readings (name : String) (members : List (String × Json)) :
    readingsOf name ((Json.object members).readings o) =
      (members.filter (·.1 = name)).map fun m => m.2.reading o := by
  simp only [readings, readingsOf, List.filter_map, List.map_map]
  simp [Function.comp_def, Key.name?]

theorem readings_congr (h : o.SameView q) (j : Json) : j.readings o = j.readings q := by
  cases j <;> simp [readings, reading_congr h]

theorem isObject_arranged (decimal : Binary64 → Binary64) (j : Json) : (j.arranged decimal).isObject = j.isObject := by
  cases j <;> rfl

theorem readingsOf_arranged (decimal : Binary64 → Binary64) (name : String) (j : Json) :
    readingsOf name ((j.arranged decimal).readings o) = readingsOf name (j.readings o) := by
  cases j with
  | object members =>
      rw [arranged_object, readingsOf_readings, readingsOf_readings, ← Named.filter_inOrder name members,
        List.filter_map, List.map_map]
      exact List.map_congr_left fun m _ => reading_arranged decimal m.2
  | _ => rfl

end Json

theorem Leaf.shape_of_leafJson {o : Options} {l : Leaf} {j : Json} (h : Sample.leafJson l = .ok j) :
    l.shape o = .ok (j.shape o) := by
  cases l <;> simp [Sample.leafJson] at h <;> subst h <;> simp [Leaf.shape, Json.shape]

namespace Sample

variable {o : Options} {s : Sample}

theorem containerShape_of_containerJson {shapeOf : Value → Except Fault Token} {jsonOf : Value → Except Fault Json}
    (hvalue : ∀ v j, jsonOf v = .ok j → shapeOf v = .ok (j.shape o)) {c : Container} {j : Json}
    (h : containerJson jsonOf c = .ok j) : containerShape o shapeOf c = .ok (j.shape o) := by
  cases c with
  | array fixed items =>
      obtain ⟨js, hjs, rfl⟩ := containerJson_array_eq_ok.mp h
      rw [Json.shape_array]
      refine containerShape_array_eq_ok.mpr ⟨_, ?_, rfl⟩
      exact List.forall₂_map_right_iff.mpr ((o.sampled_forall₂ hjs).imp hvalue)
  | object members =>
      obtain ⟨named, hnamed, rfl⟩ := containerJson_object_eq_ok.mp h
      rw [Json.shape, Json.fields_eq_map]
      refine containerShape_object_eq_ok.mpr ⟨_, ?_, rfl⟩
      exact List.forall₂_map_right_iff.mpr (hnamed.imp fun m n hm => ⟨hm.1, _, hvalue _ _ hm.2, rfl⟩)

-- The induction is on the room that is left, which both walks use up alike.
theorem shapeBelow_of_jsonBelow {limit : Int} {room : Nat} {path : List Place} {v : Value} {j : Json}
    (h : s.jsonBelow limit room path v = .ok j) : s.shapeBelow o room path v = .ok (j.shape o) := by
  induction room generalizing path v j with
  | zero =>
      cases v with
      | leaf l => exact Leaf.shape_of_leafJson h
      | container p => simp [jsonBelow] at h
  | succ room ih =>
      cases v with
      | leaf l => exact Leaf.shape_of_leafJson h
      | container p =>
          simp only [jsonBelow] at h
          split at h
          · cases h
          · rename_i hp
            simp only [shapeBelow, hp, if_false]
            exact containerShape_of_containerJson (fun v j hv => ih hv) h

theorem shape_of_toJson {j : Json} (h : s.toJson o.maxDepth = .ok j) : s.shape o = .ok (j.shape o) := by
  simpa [shape, Options.room] using shapeBelow_of_jsonBelow h

-- Inside JSON nothing is absent, and only a null is written as null.
theorem presence_of_jsonBelow {limit : Int} {room : Nat} {path : List Place} {v : Value} {j : Json}
    (h : s.jsonBelow limit room path v = .ok j) : v ≠ .leaf .missing ∧ (v = .leaf .null ↔ j = .null) := by
  cases v with
  | leaf l =>
      replace h : leafJson l = .ok j := by cases room <;> exact h
      cases l <;> simp [leafJson] at h <;> simp [← h]
  | container p =>
      cases room with
      | zero => simp [jsonBelow] at h
      | succ room =>
          simp only [jsonBelow] at h
          split at h
          · cases h
          · cases hc : s.contents p with
            | array fixed items =>
                obtain ⟨js, _, rfl⟩ := map_eq_ok.mp (hc ▸ h)
                simp
            | object members =>
                obtain ⟨named, _, rfl⟩ := map_eq_ok.mp (hc ▸ h)
                simp

theorem reading_of_jsonBelow {limit : Int} {room : Nat} {path : List Place} {v : Value} {j : Json}
    (h : s.jsonBelow limit room path v = .ok j) : reading (s.shapeBelow o room path) v = .ok (j.reading o) := by
  have hnull := (presence_of_jsonBelow h).2
  unfold reading
  split
  · rename_i hv
    rw [hnull.mp hv, Json.reading]
  · rename_i hv
    rw [shapeBelow_of_jsonBelow h]
    cases j with
    | null => exact absurd (hnull.mpr rfl) hv
    | _ => rfl

theorem toJson_of_object? {maxDepth : Int} {p : Place} {members : List (Key × Value)} {j : Json}
    (hs : s.object? = some (p, members)) (h : s.toJson maxDepth = .ok j) :
    ∃ room named, maxDepth.toNat = room + 1 ∧ j = .object named ∧
      List.Forall₂ (fun m n => m.1 = .text n.1 ∧ s.jsonBelow maxDepth room [p] m.2 = .ok n.2) members named := by
  obtain ⟨hroot, hcontents⟩ := object?_eq_some.mp hs
  rw [toJson, hroot] at h
  cases hroom : maxDepth.toNat with
  | zero => simp [hroom, jsonBelow] at h
  | succ room =>
      simp only [hroom, jsonBelow, List.not_mem_nil, if_false, hcontents] at h
      obtain ⟨named, hnamed, rfl⟩ := containerJson_object_eq_ok.mp h
      exact ⟨room, named, rfl, rfl, hnamed⟩

theorem isObject_of_toJson {maxDepth : Int} {j : Json} (h : s.toJson maxDepth = .ok j) : j.isObject = s.isObject := by
  cases hs : s.object? with
  | some object =>
      obtain ⟨_, _, _, rfl, _⟩ := toJson_of_object? hs h
      simp [isObject, hs, Json.isObject]
  | none =>
      have hobject : s.isObject = false := by simp [isObject, hs]
      rw [hobject]
      cases j with
      | object members =>
          unfold toJson at h
          cases hroot : s.root with
          | leaf l =>
              cases hroom : maxDepth.toNat <;> rw [hroot, hroom] at h <;> cases l <;> simp [jsonBelow, leafJson] at h
          | container p =>
              cases hroom : maxDepth.toNat with
              | zero => simp [hroot, hroom, jsonBelow] at h
              | succ room =>
                  simp only [hroot, hroom, jsonBelow, List.not_mem_nil, if_false] at h
                  cases hc : s.contents p with
                  | array fixed items => simp [hc, containerJson] at h
                  | object members => simp [object?, hroot, hc] at hs
      | _ => rfl

theorem fieldReadings_of_toJson {j : Json} (h : s.toJson o.maxDepth = .ok j) : s.fieldReadings o = .ok (j.readings o) := by
  cases hs : s.object? with
  | none =>
      have hobject := isObject_of_toJson h
      rw [fieldReadings_of_object?_eq_none hs]
      cases j <;> simp [isObject, hs, Json.isObject, Json.readings] at hobject ⊢
  | some object =>
      obtain ⟨p, members⟩ := object
      obtain ⟨room, named, hroom, rfl, hnamed⟩ := toJson_of_object? hs h
      have hsame : o.room 1 = room := by
        simp only [Options.room]
        omega
      have hpresent : members.filter (fun m => m.2 ≠ .leaf .missing) = members := by
        apply List.filter_eq_self.mpr
        intro m hm
        obtain ⟨n, _, _, hvalue⟩ := exists_result hnamed hm
        simpa using (presence_of_jsonBelow hvalue).1
      rw [fieldReadings_eq_ok hs, hpresent, hsame, Json.readings, List.forall₂_map_right_iff]
      exact hnamed.imp fun m n hm => ⟨hm.1, reading_of_jsonBelow hm.2⟩

end Sample

end ShapeScribe
