import Mathlib.Data.List.Forall2
import ShapeScribe.Definition
import ShapeScribe.Signature
import ShapeScribe.Validation.Issue

/-!
Attempts: steps that end in a value or in a fault. A sequence of steps succeeds exactly when each of them does, and
a list is worked through exactly when every element is.
-/

namespace ShapeScribe.Attempt

variable {ε α β : Type}

@[simp] theorem bind_eq_ok {x : Except ε α} {f : α → Except ε β} {b : β} :
    x >>= f = .ok b ↔ ∃ a, x = .ok a ∧ f a = .ok b := by
  cases x <;> simp [bind, Except.bind]

@[simp] theorem pure_eq_ok {a b : α} : (pure a : Except ε α) = .ok b ↔ a = b := by
  simp [pure, Except.pure]

@[simp] theorem map_eq_ok {x : Except ε α} {f : α → β} {b : β} :
    f <$> x = .ok b ↔ ∃ a, x = .ok a ∧ f a = b := by
  cases x <;> simp [Functor.map, Except.map]

@[simp] theorem except_map_eq_ok {x : Except ε α} {f : α → β} {b : β} :
    x.map f = .ok b ↔ ∃ a, x = .ok a ∧ f a = b := map_eq_ok

@[simp] theorem mapError_eq_ok {ε' : Type} {x : Except ε α} {f : ε → ε'} {a : α} : x.mapError f = .ok a ↔ x = .ok a := by
  cases x <;> simp [Except.mapError]

theorem bind_eq_error {x : Except ε α} {f : α → Except ε β} {e : ε} :
    x >>= f = .error e ↔ x = .error e ∨ ∃ a, x = .ok a ∧ f a = .error e := by
  cases x <;> simp [bind, Except.bind]

theorem map_eq_error {x : Except ε α} {f : α → β} {e : ε} : f <$> x = .error e ↔ x = .error e := by
  cases x <;> simp [Functor.map, Except.map]

theorem ok_or_error (x : Except ε α) : (∃ a, x = .ok a) ∨ ∃ e, x = .error e := by
  cases x with
  | error e => exact .inr ⟨e, rfl⟩
  | ok a => exact .inl ⟨a, rfl⟩

theorem toOption_eq_some {x : Except ε α} {a : α} : x.toOption = some a ↔ x = .ok a := by
  cases x <;> simp [Except.toOption]

-- A walk takes the elements of a list one after another and stops at the first fault.
theorem walk_eq_ok (walk : List α → Except ε (List β)) (step : α → Except ε β)
    (hnil : walk [] = .ok [])
    (hcons : ∀ a rest, walk (a :: rest) = step a >>= fun b => walk rest >>= fun bs => pure (b :: bs))
    {items : List α} {results : List β} :
    walk items = .ok results ↔ List.Forall₂ (fun a b => step a = .ok b) items results := by
  induction items generalizing results with
  | nil => simp [hnil, eq_comm]
  | cons a rest ih => cases results <;> simp [hcons, ih]

-- A walk that fails has the fault of one of its items.
theorem walk_error (walk : List α → Except ε (List β)) (step : α → Except ε β)
    (hnil : walk [] = .ok [])
    (hcons : ∀ a rest, walk (a :: rest) = step a >>= fun b => walk rest >>= fun bs => pure (b :: bs))
    {items : List α} {e : ε} (h : walk items = .error e) : ∃ a ∈ items, step a = .error e := by
  induction items with
  | nil => simp [hnil] at h
  | cons a rest ih =>
      simp only [hcons, bind_eq_error] at h
      rcases h with h | ⟨_, _, h | ⟨_, _, h⟩⟩
      · exact ⟨a, List.mem_cons_self, h⟩
      · obtain ⟨b, hb, hstep⟩ := ih h
        exact ⟨b, List.mem_cons_of_mem _ hb, hstep⟩
      · cases h

theorem exists_result {R : α → β → Prop} {items : List α} {results : List β} (h : List.Forall₂ R items results)
    {a : α} (ha : a ∈ items) : ∃ b ∈ results, R a b := by
  induction h with
  | nil => simp at ha
  | cons hab _ ih =>
      rcases List.mem_cons.mp ha with rfl | ha
      · exact ⟨_, List.mem_cons_self, hab⟩
      · obtain ⟨b, hb, hr⟩ := ih ha
        exact ⟨b, List.mem_cons_of_mem _ hb, hr⟩

theorem exists_item {R : α → β → Prop} {items : List α} {results : List β} (h : List.Forall₂ R items results)
    {b : β} (hb : b ∈ results) : ∃ a ∈ items, R a b :=
  exists_result (List.Forall₂.flip h) hb

theorem mem_results_iff {step : α → Except ε β} {items : List α} {results : List β}
    (h : List.Forall₂ (fun a b => step a = .ok b) items results) {b : β} :
    b ∈ results ↔ ∃ a ∈ items, step a = .ok b := by
  constructor
  · exact exists_item h
  · rintro ⟨a, ha, hb⟩
    obtain ⟨c, hc, hsame⟩ := exists_result h ha
    obtain rfl := Except.ok.inj (hb.symm.trans hsame)
    exact hc

theorem exists_results {R : α → β → Prop} {items : List α} (h : ∀ a ∈ items, ∃ b, R a b) :
    ∃ results, List.Forall₂ R items results := by
  induction items with
  | nil => exact ⟨[], .nil⟩
  | cons a rest ih =>
      obtain ⟨b, hb⟩ := h a List.mem_cons_self
      obtain ⟨results, hresults⟩ := ih fun a ha => h a (List.mem_cons_of_mem _ ha)
      exact ⟨b :: results, .cons hb hresults⟩

theorem forall₂_of_mem {P Q : α → β → Prop} {xs : List α} {ys : List β} (h : List.Forall₂ P xs ys)
    (himp : ∀ x ∈ xs, ∀ y ∈ ys, P x y → Q x y) : List.Forall₂ Q xs ys := by
  induction h with
  | nil => exact .nil
  | cons hxy _ ih =>
      refine .cons (himp _ List.mem_cons_self _ List.mem_cons_self hxy) (ih fun x hx y hy => ?_)
      exact himp x (List.mem_cons_of_mem _ hx) y (List.mem_cons_of_mem _ hy)

-- What the results of two walks have to do with each other, told of their items.
theorem forall₂_of_results {γ δ : Type} {R : α → β → Prop} {S : γ → δ → Prop} {T : β → δ → Prop} {U : α → γ → Prop}
    {items : List α} {results : List β} {others : List γ} {outcomes : List δ} (hR : List.Forall₂ R items results)
    (hS : List.Forall₂ S others outcomes) (hT : List.Forall₂ T results outcomes)
    (h : ∀ a b c d, R a b → S c d → T b d → U a c) : List.Forall₂ U items others := by
  induction hT generalizing items others with
  | nil =>
      cases hR
      cases hS
      exact .nil
  | cons hbd _ ih =>
      cases hR with
      | cons hab hR =>
          cases hS with
          | cons hcd hS => exact .cons (h _ _ _ _ hab hcd hbd) (ih hR hS)

-- Results have the same elements when each item of either list has a counterpart in the other.
theorem mem_iff_of_results {γ : Type} {P : α → γ → Prop} {Q : β → γ → Prop} {R : α → β → Prop} {items : List α}
    {others : List β} {ts us : List γ} (hts : List.Forall₂ P items ts) (hus : List.Forall₂ Q others us)
    (h : ∀ a ∈ items, ∀ b ∈ others, ∀ t u, P a t → Q b u → (t = u ↔ R a b)) :
    (∀ t, t ∈ ts ↔ t ∈ us) ↔ (∀ a ∈ items, ∃ b ∈ others, R a b) ∧ ∀ b ∈ others, ∃ a ∈ items, R a b := by
  constructor
  · intro hsame
    refine ⟨fun a ha => ?_, fun b hb => ?_⟩
    · obtain ⟨t, ht, hat⟩ := exists_result hts ha
      obtain ⟨b, hb, hbt⟩ := exists_item hus ((hsame t).mp ht)
      exact ⟨b, hb, (h a ha b hb t t hat hbt).mp rfl⟩
    · obtain ⟨u, hu, hbu⟩ := exists_result hus hb
      obtain ⟨a, ha, hau⟩ := exists_item hts ((hsame u).mpr hu)
      exact ⟨a, ha, (h a ha b hb u u hau hbu).mp rfl⟩
  · rintro ⟨hthere, hback⟩ t
    constructor
    · intro ht
      obtain ⟨a, ha, hat⟩ := exists_item hts ht
      obtain ⟨b, hb, hab⟩ := hthere a ha
      obtain ⟨u, hu, hbu⟩ := exists_result hus hb
      rwa [(h a ha b hb t u hat hbu).mpr hab]
    · intro ht
      obtain ⟨b, hb, hbt⟩ := exists_item hus ht
      obtain ⟨a, ha, hab⟩ := hback b hb
      obtain ⟨u, hu, hau⟩ := exists_result hts ha
      rwa [← (h a ha b hb u t hau hbt).mpr hab]

end ShapeScribe.Attempt

namespace ShapeScribe

open Attempt

theorem Validated.and_eq_ok {α β : Type} {a : Validated α} {b : Validated β} {r : α × β} :
    a.and b = .ok r ↔ a = .ok r.1 ∧ b = .ok r.2 := by
  obtain ⟨x, y⟩ := r
  cases a <;> cases b <;> simp [Validated.and]

theorem Options.sampled_eq {α : Type} {o : Options} (ho : o.analyzeAllArrayElements = true) (xs : List α) :
    o.sampled xs = xs := by
  rw [sampled, if_pos ho]

namespace Sample

theorem itemShapes_eq_ok {shapeOf : Value → Except Fault Token} {items : List Value} {ts : List Token} :
    itemShapes shapeOf items = .ok ts ↔ List.Forall₂ (fun v t => shapeOf v = .ok t) items ts :=
  walk_eq_ok (itemShapes shapeOf) shapeOf rfl fun _ _ => rfl

theorem itemsJson_eq_ok {jsonOf : Value → Except Fault Json} {items : List Value} {js : List Json} :
    itemsJson jsonOf items = .ok js ↔ List.Forall₂ (fun v j => jsonOf v = .ok j) items js :=
  walk_eq_ok (itemsJson jsonOf) jsonOf rfl fun _ _ => rfl

-- Members need texts for keys besides.
theorem memberShapes_eq_ok {shapeOf : Value → Except Fault Token} {members : List (Key × Value)}
    {fields : List (String × List Token)} :
    memberShapes shapeOf members = .ok fields ↔
      List.Forall₂ (fun m f => m.1 = .text f.1 ∧ ∃ t, shapeOf m.2 = .ok t ∧ f.2 = [t]) members fields := by
  induction members generalizing fields with
  | nil => simp [memberShapes, eq_comm]
  | cons m rest ih =>
      obtain ⟨key, v⟩ := m
      cases key with
      | text name =>
          rcases fields with _ | ⟨⟨n, union⟩, fields⟩
          · simp [memberShapes]
          · simp only [memberShapes, bind_eq_ok, pure_eq_ok, soleField, ih, List.forall₂_cons]
            grind
      | _ => cases fields <;> simp [memberShapes]

theorem membersJson_eq_ok {jsonOf : Value → Except Fault Json} {members : List (Key × Value)}
    {others : List (String × Json)} :
    membersJson jsonOf members = .ok others ↔
      List.Forall₂ (fun m n => m.1 = .text n.1 ∧ jsonOf m.2 = .ok n.2) members others := by
  induction members generalizing others with
  | nil => simp [membersJson, eq_comm]
  | cons m rest ih =>
      obtain ⟨key, v⟩ := m
      cases key with
      | text name =>
          rcases others with _ | ⟨⟨n, j⟩, others⟩
          · simp [membersJson]
          · simp only [membersJson, bind_eq_ok, pure_eq_ok, ih, List.forall₂_cons]
            grind
      | _ => cases others <;> simp [membersJson]

variable {shapeOf : Value → Except Fault Token} {jsonOf : Value → Except Fault Json} {t : Token} {j : Json}
  {fixed : Bool} {items : List Value} {members : List (Key × Value)}

theorem containerShape_array_eq_ok {o : Options} :
    containerShape o shapeOf (.array fixed items) = .ok t ↔
      ∃ ts, List.Forall₂ (fun v u => shapeOf v = .ok u) (o.sampled items) ts ∧ .array (Token.normalize ts) = t := by
  simp only [containerShape, bind_eq_ok, itemShapes_eq_ok, pure_eq_ok]

theorem containerShape_object_eq_ok {o : Options} :
    containerShape o shapeOf (.object members) = .ok t ↔
      ∃ fields, List.Forall₂ (fun m f => m.1 = .text f.1 ∧ ∃ u, shapeOf m.2 = .ok u ∧ f.2 = [u]) members fields ∧
        .record (Named.inOrder fields) = t := by
  simp only [containerShape, bind_eq_ok, memberShapes_eq_ok, pure_eq_ok]

theorem containerJson_array_eq_ok :
    containerJson jsonOf (.array fixed items) = .ok j ↔
      ∃ js, List.Forall₂ (fun v k => jsonOf v = .ok k) items js ∧ .array js = j := by
  simp only [containerJson, map_eq_ok, itemsJson_eq_ok]

theorem containerJson_object_eq_ok :
    containerJson jsonOf (.object members) = .ok j ↔
      ∃ named, List.Forall₂ (fun m n => m.1 = .text n.1 ∧ jsonOf m.2 = .ok n.2) members named ∧ .object named = j := by
  simp only [containerJson, map_eq_ok, membersJson_eq_ok]

-- What holds of the shapes of leaves, and passes on from elements and from fields, holds of every shape.
theorem shapeBelow_induct {P : Token → Prop} {o : Options} {s : Sample} (hleaf : ∀ (l : Leaf) u, l.shape o = .ok u → P u)
    (hcircular : P .circular) (harray : ∀ ts, (∀ u ∈ ts, P u) → P (.array (Token.normalize ts)))
    (hrecord : ∀ fields : List (String × List Token), (∀ f ∈ fields, ∃ u, f.2 = [u] ∧ P u) → P (.record fields))
    {room : Nat} {path : List Place} {v : Value} (h : s.shapeBelow o room path v = .ok t) : P t := by
  induction room generalizing path v t with
  | zero =>
      cases v with
      | leaf l => exact hleaf l t h
      | container p =>
          simp only [shapeBelow] at h
          split at h <;> cases h
          exact hcircular
  | succ room ih =>
      cases v with
      | leaf l => exact hleaf l t h
      | container p =>
          simp only [shapeBelow] at h
          split at h
          · cases h
            exact hcircular
          · cases hc : s.contents p with
            | array fixed items =>
                rw [hc] at h
                obtain ⟨ts, hts, rfl⟩ := containerShape_array_eq_ok.mp h
                refine harray ts fun u hu => ?_
                obtain ⟨w, _, hw⟩ := exists_item hts hu
                exact ih hw
            | object members =>
                rw [hc] at h
                obtain ⟨fields, hfields, rfl⟩ := containerShape_object_eq_ok.mp h
                refine hrecord _ fun f hf => ?_
                obtain ⟨m, _, _, u, hu, hunion⟩ := exists_item hfields (List.mem_mergeSort.mp hf)
                exact ⟨u, hunion, ih hu⟩

end Sample

theorem Definition.sampleShapes_eq_ok {o : Options} {samples : List Sample} {ts : List Token} :
    sampleShapes o samples = .ok ts ↔ List.Forall₂ (fun s t => s.shape o = .ok t) samples ts :=
  walk_eq_ok (sampleShapes o) (Sample.shape o) rfl fun _ _ => rfl

theorem Definition.textFields_eq_ok {fields : List (Key × String)} {named : List (String × String)} :
    textFields fields = .ok named ↔ List.Forall₂ (fun f g => f.1 = .text g.1 ∧ f.2 = g.2) fields named := by
  induction fields generalizing named with
  | nil => simp [textFields, eq_comm]
  | cons f rest ih =>
      obtain ⟨key, text⟩ := f
      cases key with
      | text name =>
          rcases named with _ | ⟨⟨n, t⟩, named⟩
          · simp [textFields]
          · simp only [textFields, bind_eq_ok, pure_eq_ok, ih, List.forall₂_cons]
            grind
      | _ => cases named <;> simp [textFields]

theorem Definition.textFields_text (fields : List (String × String)) :
    textFields (fields.map fun f => (Key.text f.1, f.2)) = .ok fields := by
  rw [textFields_eq_ok, List.forall₂_map_left_iff]
  exact List.forall₂_same.mpr fun f _ => ⟨rfl, rfl⟩

-- What a group with an object in it is written from.
theorem Definition.group_eq_ok_of_object {o : Options} {name : String} {samples : List Sample} {text : List Char}
    (hobject : samples.any Sample.isObject = true) :
    group o name samples = .ok text ↔
      ∃ stats sorted fields, collectFields o samples = .ok stats ∧ Key.inOrder stats = .ok sorted ∧
        textFields (sorted.map fun f => (f.1, f.2.text)) = .ok fields ∧ interface name fields = text := by
  have hne : samples.isEmpty = false := by
    cases samples <;> simp at hobject ⊢
  simp only [group, hne, hobject, fieldMap, bind_eq_ok, pure_eq_ok, Bool.false_eq_true, Bool.not_true, if_false]
  constructor
  · rintro ⟨_, ⟨stats, hstats, sorted, hsorted, rfl⟩, fields, hfields, htext⟩
    exact ⟨stats, sorted, fields, hstats, hsorted, hfields, htext⟩
  · rintro ⟨stats, sorted, fields, hstats, hsorted, hfields, htext⟩
    exact ⟨_, ⟨stats, hstats, sorted, hsorted, rfl⟩, fields, hfields, htext⟩

theorem Definition.group_of_fieldMap {o : Options} {samples : List Sample} {fields : List (String × String)}
    (hobject : samples.any Sample.isObject = true)
    (h : fieldMap o samples = .ok (fields.map fun f => (.text f.1, f.2))) (name : String) :
    group o name samples = .ok (interface name fields) := by
  have hne : samples.isEmpty = false := by
    cases samples <;> simp at hobject ⊢
  simp [group, hne, hobject, h, textFields_text]

theorem Definition.group_of_no_object {o : Options} {name : String} {samples : List Sample} (hne : samples ≠ [])
    (hobject : samples.any Sample.isObject = false) : group o name samples = synonym o name samples := by
  have hempty : samples.isEmpty = false := by simpa using hne
  simp [group, hempty, hobject]

theorem Signature.samplesJson_eq_ok {maxDepth : Int} {samples : List Sample} {js : List Json} :
    samplesJson maxDepth samples = .ok js ↔ List.Forall₂ (fun s j => s.toJson maxDepth = .ok j) samples js :=
  walk_eq_ok (samplesJson maxDepth) (Sample.toJson maxDepth) rfl fun _ _ => rfl

theorem Signature.groupsJson_eq_ok {maxDepth : Int} {gs : List Group} {js : List Json} :
    groupsJson maxDepth gs = .ok js ↔ List.Forall₂ (fun g j => groupJson maxDepth g = .ok j) gs js :=
  walk_eq_ok (groupsJson maxDepth) (groupJson maxDepth) rfl fun _ _ => rfl

end ShapeScribe
