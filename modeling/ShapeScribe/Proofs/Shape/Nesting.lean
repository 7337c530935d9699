import Mathlib.Data.List.MinMax
import ShapeScribe.Proofs.Field.Refusal
import ShapeScribe.Proofs.Json.Arranged

/-!
Nesting. A sample without cycles that is made of what JSON is made of is refused for nothing but its depth: by every
walk exactly when it is nested deeper than the guard allows, so that no walk cuts anything off.
-/

namespace ShapeScribe

open Attempt

-- The guard against depth is what made an attempt fail.
def Exceeds {α : Type} (x : Except Fault α) : Prop := ∃ fault, x = .error fault ∧ fault.family = .exceeded

-- What is nested no deeper than the limit allows is taken, and anything else is refused for its depth.
structure StopsAt {α : Type} (limit : Int) (nesting : Nat) (x : Except Fault α) : Prop where
  within : nesting ≤ limit → ∃ a, x = .ok a
  beyond : limit < nesting → x = .error (.tooDeep limit)

theorem StopsAt.exceeds_iff {α : Type} {limit : Int} {nesting : Nat} {x : Except Fault α} (h : StopsAt limit nesting x) :
    Exceeds x ↔ limit < nesting := by
  constructor
  · rintro ⟨fault, hfault, _⟩
    by_contra hwithin
    obtain ⟨a, ha⟩ := h.within (by omega)
    simp [ha] at hfault
  · intro hbeyond
    exact ⟨_, h.beyond hbeyond, rfl⟩

theorem Json.family_of_fault? {j : Json} {fault : Fault} (h : j.fault? = some fault) : fault.family = .malformed := by
  induction j using induct with
  | null | boolean | text => simp at h
  | integer n | decimal x =>
      simp only [fault?, scalarFault] at h
      split at h
      all_goals cases h
      all_goals rfl
  | array items ih =>
      rw [fault?, itemFaults_eq_map] at h
      obtain ⟨_, hmem, hfault⟩ := List.exists_of_findSome?_eq_some h
      obtain ⟨j, hj, rfl⟩ := List.mem_map.mp hmem
      exact ih j hj hfault
  | object members ih =>
      rw [fault?, memberFaults_eq_map] at h
      obtain ⟨_, hmem, hfault⟩ := List.exists_of_findSome?_eq_some h
      obtain ⟨m, hm, rfl⟩ := List.mem_map.mp (Named.mem_inOrder.mp hmem)
      exact ih m hm hfault

theorem Json.family_of_canonical {j : Json} {fault : Fault} (h : j.canonical = .error fault) :
    fault.family = .malformed := by
  unfold canonical at h
  split at h
  · cases h
    exact family_of_fault? ‹_›
  · cases h

theorem Container.looked_eq {o : Options} (ho : o.analyzeAllArrayElements = true) (c : Container) :
    c.looked o = c.values := by
  cases c with
  | array fixed items => exact Options.sampled_eq ho items
  | object members => rfl

namespace Sample

-- How many containers lie inside one another in a value: none in a leaf, and in a container one more than in the value
-- in it that is nested most deeply.
inductive HasNesting (s : Sample) : Value → Nat → Prop
  | leaf (l : Leaf) : HasNesting s (.leaf l) 0
  | container (p : Place) (nesting : Value → Nat)
    (h : ∀ v ∈ (s.contents p).values, HasNesting s v (nesting v)) :
    HasNesting s (.container p) (((s.contents p).values.map nesting).foldr max 0 + 1)

variable {α : Type} {o : Options} {s : Sample} {path : List Place} {p : Place} {v : Value} {n m : Nat} {fault : Fault}
  {limit : Int} {below : Nat → List Place → Value → Except Fault α} {jsonOf : Value → Except Fault Json}
  {c : Container}

theorem HasNesting.unique (h : s.HasNesting v n) (h' : s.HasNesting v m) : n = m := by
  induction h generalizing m with
  | leaf l =>
      cases h'
      rfl
  | container p nesting _ ih =>
      cases h' with
      | container _ nesting' h' =>
          have hsame : (s.contents p).values.map nesting = (s.contents p).values.map nesting' :=
            List.map_congr_left fun v hv => ih v hv (h' v hv)
          rw [hsame]

theorem HasNesting.eq_zero {l : Leaf} (h : s.HasNesting (.leaf l) n) : n = 0 := by
  cases h
  rfl

theorem HasNesting.pos_of_isObject (h : s.HasNesting s.root n) (hobject : s.isObject) : 0 < n := by
  obtain ⟨⟨p, members⟩, hmembers⟩ := Option.isSome_iff_exists.mp hobject
  rw [(object?_eq_some.mp hmembers).1] at h
  cases h
  omega

theorem HasNesting.exists_nesting (h : s.HasNesting (.container p) n) :
    ∃ nesting : Value → Nat, (∀ v ∈ (s.contents p).values, s.HasNesting v (nesting v)) ∧
      ∀ k, n ≤ k + 1 ↔ ∀ v ∈ (s.contents p).values, nesting v ≤ k := by
  cases h with
  | container _ nesting h =>
      refine ⟨nesting, h, fun k => ⟨fun hle v hv => ?_, fun hle => ?_⟩⟩
      · have hmax := List.le_max_of_le (List.mem_map_of_mem (f := nesting) hv) (le_refl (nesting v))
        rw [Nat.bot_eq_zero] at hmax
        omega
      · have hmax := List.max_le_of_forall_le ((s.contents p).values.map nesting) k (by simpa using hle)
        rw [Nat.bot_eq_zero] at hmax
        omega

-- Without cycles every value has a nesting. The recursion is on the containers that the path has not been through.
theorem exists_hasNesting (hs : s.Acyclic) (path : List Place) (v : Value) (hway : s.OnWay ⟨path, v⟩)
    (hmeets : s.MeetsBelow path v) : ∃ n, s.HasNesting v n := by
  cases v with
  | leaf l => exact ⟨0, .leaf l⟩
  | container p =>
      have hnew := hmeets.notMem hs
      have hlt := hway.length_lt rfl hnew
      have hinner : ∀ v, ∃ n, v ∈ (s.contents p).values → s.HasNesting v n := by
        intro v
        by_cases hv : v ∈ (s.contents p).values
        · obtain ⟨n, hn⟩ := exists_hasNesting hs (p :: path) v (hway.step hnew hv) (hmeets.step hv)
          exact ⟨n, fun _ => hn⟩
        · exact ⟨0, fun h => absurd h hv⟩
      choose nesting h using hinner
      exact ⟨_, .container p nesting h⟩
termination_by s.reachCount - path.length
decreasing_by
  simp only [List.length_cons] at hlt ⊢
  omega

-- A walk that goes down as long as there is room, and fails where a value in a container is refused or the room has
-- been used up.
structure Guarded (s : Sample) (limit : Int) (below : Nat → List Place → Value → Except Fault α) : Prop where
  leaf : ∀ room path l, l.IsScalar → ∃ a, below room path (.leaf l) = .ok a
  full : ∀ path p, p ∉ path → below 0 path (.container p) = .error (.tooDeep limit)
  ok_of_container : ∀ room path p a, p ∉ path → below (room + 1) path (.container p) = .ok a →
    ∀ v ∈ (s.contents p).values, ∃ b, below room (p :: path) v = .ok b
  error_of_container : ∀ room path p fault, p ∉ path → (s.contents p).HasTextKeys →
    below (room + 1) path (.container p) = .error fault →
    ∃ v ∈ (s.contents p).values, below room (p :: path) v = .error fault

-- Such a walk ends well exactly when the room is enough for the nesting. The induction is on the room.
theorem Guarded.exact (h : s.Guarded limit below) (hs : s.Acyclic) (hjson : s.IsJson) (room : Nat)
    (hnesting : s.HasNesting v n) (hheld : s.Holds v) (hmeets : s.MeetsBelow path v) :
    (n ≤ room → ∃ a, below room path v = .ok a) ∧ (room < n → below room path v = .error (.tooDeep limit)) := by
  induction room generalizing path v n with
  | zero =>
      cases v with
      | leaf l =>
          obtain rfl := hnesting.eq_zero
          exact ⟨fun _ => h.leaf 0 path l (hjson.values _ hheld l rfl), fun hlt => absurd hlt (by omega)⟩
      | container p =>
          refine ⟨fun hle => ?_, fun _ => h.full path p (hmeets.notMem hs)⟩
          cases hnesting
          omega
  | succ room ih =>
      cases v with
      | leaf l =>
          obtain rfl := hnesting.eq_zero
          exact ⟨fun _ => h.leaf _ path l (hjson.values _ hheld l rfl), fun hlt => absurd hlt (by omega)⟩
      | container p =>
          have hnew := hmeets.notMem hs
          obtain ⟨nesting, hvalues, hle_iff⟩ := hnesting.exists_nesting
          have hinner : ∀ v ∈ (s.contents p).values,
              (nesting v ≤ room → ∃ a, below room (p :: path) v = .ok a) ∧
                (room < nesting v → below room (p :: path) v = .error (.tooDeep limit)) := fun v hv =>
            ih (hvalues v hv) (.inr ⟨p, hheld.reaches, hv⟩) (hmeets.step hv)
          rcases ok_or_error (below (room + 1) path (.container p)) with ⟨a, ha⟩ | ⟨fault, hfault⟩
          · refine ⟨fun _ => ⟨a, ha⟩, fun hlt => ?_⟩
            have hdeep := mt (hle_iff room).mpr (by omega)
            simp only [not_forall] at hdeep
            obtain ⟨v, hv, hvdeep⟩ := hdeep
            obtain ⟨b, hb⟩ := h.ok_of_container room path p a hnew ha v hv
            simp [(hinner v hv).2 (by omega)] at hb
          · obtain ⟨v, hv, hvfault⟩ := h.error_of_container room path p fault hnew (hjson.keys p hheld.reaches) hfault
            refine ⟨fun hle => ?_, fun _ => ?_⟩
            · obtain ⟨a, ha⟩ := (hinner v hv).1 ((hle_iff room).mp hle v hv)
              simp [ha] at hvfault
            · by_cases hvdeep : nesting v ≤ room
              · obtain ⟨a, ha⟩ := (hinner v hv).1 hvdeep
                simp [ha] at hvfault
              · rw [hfault, ← hvfault, (hinner v hv).2 (by omega)]

theorem guarded_shape (ho : o.analyzeAllArrayElements = true) : s.Guarded o.maxDepth (s.shapeBelow o) where
  leaf room path l hl := by
    obtain ⟨t, ht⟩ := Leaf.exists_shape hl o
    exact ⟨t, by cases room <;> exact ht⟩
  full path p hnew := by simp [shapeBelow, hnew]
  ok_of_container room path p t hnew h v hv := by
    simp only [shapeBelow, hnew, if_false] at h
    exact exists_shape_of_looked h (by rwa [Container.looked_eq ho])
  error_of_container room path p fault hnew hkeys h := by
    simp only [shapeBelow, hnew, if_false] at h
    rcases containerShape_error h with ⟨v, hv, hfault⟩ | ⟨members, m, hc, hm, hkey, _⟩
    · exact ⟨v, by rwa [Container.looked_eq ho] at hv, hfault⟩
    · rw [hc] at hkeys
      obtain ⟨name, hname⟩ := Key.isText_iff.mp (hkeys m hm)
      exact absurd hname (hkey name)

theorem containerJson_error (h : containerJson jsonOf c = .error fault) (hkeys : c.HasTextKeys) :
    ∃ v ∈ c.values, jsonOf v = .error fault := by
  cases c with
  | array fixed items =>
      simp only [containerJson, map_eq_error] at h
      exact walk_error (itemsJson jsonOf) jsonOf rfl (fun _ _ => rfl) h
  | object members =>
      simp only [containerJson, map_eq_error] at h
      have hnamed : ∀ key v rest, (∀ name, key ≠ .text name) →
          membersJson jsonOf ((key, v) :: rest) = .error (.keyNotText key.type) := by
        intro key v rest hkey
        cases key with
        | text name => exact absurd rfl (hkey name)
        | _ => rfl
      obtain ⟨m, hm, hfault | ⟨hkey, _⟩⟩ :=
        walkMembers_error (membersJson jsonOf) jsonOf Prod.mk rfl (fun _ _ _ => rfl) hnamed h
      · exact ⟨m.2, List.mem_map_of_mem hm, hfault⟩
      · obtain ⟨name, hname⟩ := Key.isText_iff.mp (hkeys m hm)
        exact absurd hname (hkey name)

theorem exists_json_of_container {j : Json} (h : containerJson jsonOf c = .ok j) (hv : v ∈ c.values) :
    ∃ k, jsonOf v = .ok k := by
  cases c with
  | array fixed items =>
      obtain ⟨js, hjs, _⟩ := containerJson_array_eq_ok.mp h
      obtain ⟨k, _, hk⟩ := exists_result hjs hv
      exact ⟨k, hk⟩
  | object members =>
      obtain ⟨named, hnamed, _⟩ := containerJson_object_eq_ok.mp h
      obtain ⟨m, hm, rfl⟩ := List.mem_map.mp hv
      obtain ⟨k, _, _, hk⟩ := exists_result hnamed hm
      exact ⟨k.2, hk⟩

theorem guarded_json (limit : Int) : s.Guarded limit (s.jsonBelow limit) where
  leaf room path l hl := by
    have hleaf : ∃ j, leafJson l = .ok j := by
      cases l with
      | missing | foreign => exact hl.elim
      | _ => exact ⟨_, rfl⟩
    obtain ⟨j, hj⟩ := hleaf
    exact ⟨j, by cases room <;> exact hj⟩
  full path p hnew := by simp [jsonBelow, hnew]
  ok_of_container room path p j hnew h v hv := by
    simp only [jsonBelow, hnew, if_false] at h
    exact exists_json_of_container h hv
  error_of_container room path p fault hnew hkeys h := by
    simp only [jsonBelow, hnew, if_false] at h
    exact containerJson_error h hkeys

theorem Guarded.stopsAt (h : s.Guarded limit below) (hs : s.Acyclic) (hjson : s.IsJson) (hlimit : 0 ≤ limit)
    (hnesting : s.HasNesting s.root n) : StopsAt limit n (below limit.toNat [] s.root) := by
  obtain ⟨hwithin, hbeyond⟩ := h.exact hs hjson limit.toNat hnesting (.inl rfl) s.meetsBelow_root
  exact ⟨fun hle => hwithin (by omega), fun hlt => hbeyond (by omega)⟩

theorem stopsAt_shape (hs : s.Acyclic) (hjson : s.IsJson) (ho : o.analyzeAllArrayElements = true)
    (hdepth : 0 ≤ o.maxDepth) (hnesting : s.HasNesting s.root n) : StopsAt o.maxDepth n (s.shape o) := by
  have h := (guarded_shape ho).stopsAt hs hjson hdepth hnesting
  simpa [shape, Options.room] using h

theorem exceeds_serialize_iff (hs : s.Acyclic) (hjson : s.IsJson) (hlimit : 0 ≤ limit)
    (hnesting : s.HasNesting s.root n) : Exceeds (s.serialize limit) ↔ limit < n := by
  have hwalk : StopsAt limit n (s.toJson limit) := (guarded_json limit).stopsAt hs hjson hlimit hnesting
  constructor
  · rintro ⟨fault, hfault, hfamily⟩
    rcases bind_eq_error.mp hfault with hfault | ⟨j, _, hfault⟩
    · exact hwalk.exceeds_iff.mp ⟨fault, hfault, hfamily⟩
    · simp [Json.family_of_canonical hfault] at hfamily
  · intro hlt
    exact ⟨_, bind_eq_error.mpr (.inl (hwalk.beyond hlt)), rfl⟩

-- The sample counts as one container, so that its fields are refused where its shape is.
theorem stopsAt_collectFields (hs : s.Acyclic) (hjson : s.IsJson) (ho : o.analyzeAllArrayElements = true)
    (hdepth : 1 ≤ o.maxDepth) (hobject : s.isObject) (hnesting : s.HasNesting s.root n) :
    StopsAt o.maxDepth n (collectFields o [s]) := by
  have hshape := stopsAt_shape hs hjson ho (by omega) hnesting
  obtain ⟨⟨p, members⟩, hmembers⟩ := Option.isSome_iff_exists.mp hobject
  obtain ⟨hroot, hcontents⟩ := object?_eq_some.mp hmembers
  have hkeys := hjson.hasNames p hroot
  rw [hcontents] at hkeys
  have hfaults : ∀ fault, collectFields o [s] = .error fault ↔ s.shape o = .error fault := by
    intro fault
    rw [collectFields_error_iff, ← fieldReadings_error_iff hmembers (by omega) hkeys]
    simp [allReadings, bind_eq_error]
  refine ⟨fun hwithin => ?_, fun hbeyond => (hfaults _).mpr (hshape.beyond hbeyond)⟩
  rcases ok_or_error (collectFields o [s]) with hstats | ⟨fault, hfault⟩
  · exact hstats
  · obtain ⟨t, ht⟩ := hshape.within hwithin
    simp [(hfaults fault).mp hfault] at ht

end Sample

-- Every guard stops what is nested deeper than the limit, and nothing else.
theorem guards_of_nesting {s : Sample} (hs : s.Acyclic) (hjson : s.IsJson) :
    ∃ n, (∀ m, s.HasNesting s.root m ↔ m = n) ∧
      ∀ o : Options, o.analyzeAllArrayElements = true → 0 ≤ o.maxDepth →
        (Exceeds (s.shape o) ↔ o.maxDepth < n) ∧
        (Exceeds (s.serialize o.maxDepth) ↔ o.maxDepth < n) ∧
        (s.isObject → 1 ≤ o.maxDepth → (Exceeds (collectFields o [s]) ↔ o.maxDepth < n)) ∧
        (n ≤ o.maxDepth → (∃ t, s.shape o = .ok t) ∧ (∃ j, s.toJson o.maxDepth = .ok j) ∧
          (s.isObject → ∃ stats, collectFields o [s] = .ok stats)) := by
  obtain ⟨n, hn⟩ := Sample.exists_hasNesting hs [] s.root s.onWay_root s.meetsBelow_root
  refine ⟨n, fun m => ⟨fun hm => hm.unique hn, fun hm => hm ▸ hn⟩, fun o ho hdepth => ?_⟩
  have hshape := Sample.stopsAt_shape hs hjson ho hdepth hn
  have hwalk : StopsAt o.maxDepth n (s.toJson o.maxDepth) :=
    (Sample.guarded_json o.maxDepth).stopsAt hs hjson hdepth hn
  refine ⟨hshape.exceeds_iff, Sample.exceeds_serialize_iff hs hjson hdepth hn, fun hobject hone => ?_, fun hle => ?_⟩
  · exact (Sample.stopsAt_collectFields hs hjson ho hone hobject hn).exceeds_iff
  · refine ⟨hshape.within hle, hwalk.within hle, fun hobject => ?_⟩
    have hpos := hn.pos_of_isObject hobject
    exact (Sample.stopsAt_collectFields hs hjson ho (by omega) hobject hn).within hle

-- An array in an array in an object, beside a shallower member and with the inner array met again.
def nestedSample : Sample :=
  ⟨#[.array false [], .array true [.leaf (.integer 1), .container 0],
    .object [(.text "a", .container 0), (.text "b", .container 1), (.text "c", .leaf .null)]], .container 2⟩

theorem guards_of_nestedSample :
    nestedSample.HasNesting nestedSample.root 3 ∧
      Exceeds (nestedSample.shape { maxDepth := 2 }) ∧ Exceeds (nestedSample.serialize 2) ∧
      Exceeds (collectFields { maxDepth := 2 } [nestedSample]) ∧
      (∃ j, nestedSample.toJson 3 = .ok j) ∧ ∃ stats, collectFields { maxDepth := 3 } [nestedSample] = .ok stats := by
  have hacyclic : nestedSample.Acyclic := Sample.acyclic_of_isBefore (by decide)
  have hjson : nestedSample.IsJson := Sample.isJson_of_containers (by decide) (by decide)
  obtain ⟨n, hn, hguards⟩ := guards_of_nesting hacyclic hjson
  obtain ⟨hshape, hserialize, hfields, _⟩ := hguards { maxDepth := 2 } rfl (by decide)
  have hbeyond : (2 : Int) < n := hshape.mp ⟨_, rfl, rfl⟩
  have hwithin : (n : Int) ≤ 3 := by
    by_contra hdeep
    obtain ⟨fault, hfault, _⟩ := (hguards { maxDepth := 3 } rfl (by decide)).1.mpr (Int.not_le.mp hdeep)
    cases hfault
  obtain ⟨_, _, _, hall⟩ := hguards { maxDepth := 3 } rfl (by decide)
  obtain ⟨_, hwalk, hstats⟩ := hall hwithin
  exact ⟨(hn 3).mpr (by omega), hshape.mpr hbeyond, hserialize.mpr hbeyond, (hfields rfl (by decide)).mpr hbeyond, hwalk,
    hstats rfl⟩

end ShapeScribe
