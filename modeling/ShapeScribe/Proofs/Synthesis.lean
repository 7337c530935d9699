import ShapeScribe.Proofs.Outcome
import ShapeScribe.Proofs.Signature
import ShapeScribe.Synthesis

/-!
What synthesis declares of a route. Two runs that sign the same payload declare the same but for what the name of the
route gives.
-/

namespace ShapeScribe

open Attempt Synthesis

variable {route : Route} {observations others : List Observation} {o q : Options} {d : Declaration} {text : String}

namespace Group

theorem length_flatMap_inOrder (groups : List Group) :
    ((inOrder groups).flatMap (·.samples)).length = (groups.flatMap (·.samples)).length :=
  ((List.mergeSort_perm groups _).flatMap_right _).length_eq

theorem length_flatMap_of_alike {decimal : Binary64 → Binary64} {maxDepth bound : Int} {gs hs : List Group}
    (h : List.Forall₂ (Alike decimal maxDepth bound) gs hs) :
    (gs.flatMap (·.samples)).length = (hs.flatMap (·.samples)).length := by
  induction h with
  | nil => rfl
  | cons hgh _ ih => simp only [List.flatMap_cons, List.length_append, hgh.length_eq, ih]

-- As many observations as the payload has samples.
theorem length_eq_of_alike {decimal : Binary64 → Binary64} {maxDepth bound : Int}
    (h : List.Forall₂ (Alike decimal maxDepth bound) (inOrder (ofObservations observations))
      (inOrder (ofObservations others))) : observations.length = others.length := by
  have hlength := length_flatMap_of_alike h
  rw [length_flatMap_inOrder, length_flatMap_inOrder] at hlength
  rwa [length_flatMap_ofObservations, length_flatMap_ofObservations] at hlength

end Group

namespace Definition

theorem declarations_ne_none {base : String} {gs : List Group} (h : gs ≠ []) : declarations o base gs ≠ .ok none := by
  have hempty : gs.isEmpty = false := by simpa using h
  simp [declarations, hempty]

end Definition

namespace Route

-- What is signed for a route.
def payload (route : Route) (observations : List Observation) (o : Options) : Except Fault String :=
  Signature.payload route.id (Group.ofObservations (window route observations o)) o

-- What synthesis declares of a route that has nothing in the store.
def Declares (route : Route) (observations : List Observation) (o : Options) (d : Declaration) : Prop :=
  ∃ event, synthesize route observations o none = .ok ⟨event, some d⟩

variable {previous : Option String} {event : Option Event}

theorem synthesize_eq_ok {result : Synthesis} (h : window route observations o ≠ []) :
    synthesize route observations o previous = .ok result ↔
      ∃ text, route.payload observations o = .ok text ∧
        if previous = some (hashText text) then result = ⟨some (.signatureUnchanged (hashText text)), none⟩
        else ∃ definition, Definition.declarations o (baseTypeName route.name)
            (Group.ofObservations (window route observations o)) = .ok (some definition) ∧
          result = ⟨some (.declarationGenerated (hashText text) previous (window route observations o).length
              ((Group.ofObservations (window route observations o)).map (·.outcome.label))),
            some (declarationFor route (window route observations o) definition (hashText text))⟩ := by
  have hempty : (window route observations o).isEmpty = false := by simpa using h
  have hgroups : Definition.declarations o (baseTypeName route.name)
      (Group.ofObservations (window route observations o)) ≠ .ok none :=
    Definition.declarations_ne_none (Group.ofObservations_ne_nil h)
  simp only [synthesize, hempty, signature, bind_eq_ok, except_map_eq_ok, Bool.false_eq_true, if_false]
  constructor
  · rintro ⟨_, ⟨text, htext, rfl⟩, hresult⟩
    refine ⟨text, htext, ?_⟩
    split at hresult
    · rename_i hprevious
      rw [if_pos hprevious]
      exact (pure_eq_ok.mp hresult).symm
    · rename_i hprevious
      rw [if_neg hprevious]
      obtain ⟨definition, hdefinition, hresult⟩ := bind_eq_ok.mp hresult
      cases definition with
      | none => exact absurd hdefinition hgroups
      | some definition => exact ⟨definition, hdefinition, (pure_eq_ok.mp hresult).symm⟩
  · rintro ⟨text, htext, hresult⟩
    refine ⟨_, ⟨text, htext, rfl⟩, ?_⟩
    split at hresult
    · rename_i hprevious
      rw [if_pos hprevious, hresult]
      rfl
    · rename_i hprevious
      obtain ⟨definition, hdefinition, rfl⟩ := hresult
      rw [if_neg hprevious, hdefinition]
      rfl

theorem synthesize_of_signed (hwindow : window route observations o ≠ []) (h : route.payload observations o = .ok text) :
    synthesize route observations o (some (hashText text)) = .ok ⟨some (.signatureUnchanged (hashText text)), none⟩ :=
  (synthesize_eq_ok hwindow).mpr ⟨text, h, by rw [if_pos rfl]⟩

theorem declares_iff :
    route.Declares observations o d ↔ window route observations o ≠ [] ∧
      ∃ text definition, route.payload observations o = .ok text ∧
        Definition.declarations o (baseTypeName route.name) (Group.ofObservations (window route observations o)) =
          .ok (some definition) ∧
        d = declarationFor route (window route observations o) definition (hashText text) := by
  have hfirst : ∀ signed : String, (none : Option String) ≠ some signed := by simp
  constructor
  · rintro ⟨event, h⟩
    have hwindow : window route observations o ≠ [] := by
      intro hnil
      simp [synthesize, hnil] at h
    obtain ⟨text, htext, hresult⟩ := (synthesize_eq_ok hwindow).mp h
    rw [if_neg (hfirst _)] at hresult
    obtain ⟨definition, hdefinition, hresult⟩ := hresult
    cases hresult
    exact ⟨hwindow, text, definition, htext, hdefinition, rfl⟩
  · rintro ⟨hwindow, text, definition, htext, hdefinition, rfl⟩
    apply Exists.intro
    apply (synthesize_eq_ok hwindow).mpr
    refine ⟨text, htext, ?_⟩
    rw [if_neg (hfirst _)]
    exact ⟨definition, hdefinition, rfl⟩

theorem Declares.routeId_eq (h : route.Declares observations o d) : d.routeId = route.id := by
  obtain ⟨_, _, _, _, _, rfl⟩ := declares_iff.mp h
  rfl

theorem Declares.routeName_eq (h : route.Declares observations o d) : d.routeName = route.name := by
  obtain ⟨_, _, _, _, _, rfl⟩ := declares_iff.mp h
  rfl

theorem Declares.unique {d' : Declaration} (h : route.Declares observations o d) (h' : route.Declares observations o d') :
    d = d' := by
  obtain ⟨_, h⟩ := h
  obtain ⟨_, h'⟩ := h'
  have hsame := h.symm.trans h'
  cases hsame
  rfl

-- The signature in the store decides whether there is a declaration, not which one.
theorem synthesize_cases {result : Synthesis} (hwindow : window route observations o ≠ [])
    (h : synthesize route observations o previous = .ok result) :
    ∃ text, route.payload observations o = .ok text ∧
      (previous = some (hashText text) ∧ result.declaration = none ∨
        ∃ d, route.Declares observations o d ∧ result.declaration = some d) := by
  obtain ⟨text, htext, hresult⟩ := (synthesize_eq_ok hwindow).mp h
  refine ⟨text, htext, ?_⟩
  split at hresult
  · rename_i hprevious
    exact .inl ⟨hprevious, by rw [hresult]⟩
  · obtain ⟨definition, hdefinition, rfl⟩ := hresult
    exact .inr ⟨_, declares_iff.mpr ⟨hwindow, text, definition, htext, hdefinition, rfl⟩, rfl⟩

theorem synthesize_of_empty_window (hwindow : window route observations o = []) :
    synthesize route observations o previous =
      .ok ⟨some (.noSamples (observations.filter (·.routeId = route.id)).length), none⟩ := by
  simp only [synthesize, hwindow, List.isEmpty_nil, if_true]
  rfl

theorem declaration_of_empty_window {result : Synthesis} (hwindow : window route observations o = [])
    (h : synthesize route observations o previous = .ok result) : result.declaration = none := by
  rw [synthesize_of_empty_window hwindow] at h
  cases h
  rfl

theorem routeId_eq_of_synthesize (h : synthesize route observations o previous = .ok ⟨event, some d⟩) :
    d.routeId = route.id := by
  by_cases hwindow : window route observations o = []
  · cases declaration_of_empty_window hwindow h
  · obtain ⟨_, _, ⟨_, hnone⟩ | ⟨_, hdeclares, hsome⟩⟩ := synthesize_cases hwindow h
    · cases hnone
    · cases hsome
      exact hdeclares.routeId_eq

-- Whoever signs what a declaration was signed with declares the same under the old name.
theorem declares_of_payload {other : Route} (h : other.Declares others q d) (hid : other.id = route.id)
    (hwindow : window route observations o ≠ []) (hother : other.payload others q = .ok text)
    (hroute : route.payload observations o = .ok text) : Declares ⟨route.id, other.name⟩ observations o d := by
  obtain ⟨_, text', definition, htext', hdefinition, rfl⟩ := declares_iff.mp h
  obtain rfl := Except.ok.inj (hother.symm.trans htext')
  obtain ⟨_, hview, halike⟩ := Signature.payload_inj (fun _ => default) (fun _ _ _ => rfl) hother hroute
  obtain ⟨same, hsame, hsame'⟩ := exists_declarations_of_alike hview halike (baseTypeName other.name)
  obtain rfl := Except.ok.inj (hsame.symm.trans hdefinition)
  refine declares_iff.mpr ⟨hwindow, text, definition, hroute, hsame', ?_⟩
  simp only [declarationFor, hid, Group.length_eq_of_alike halike]
  rfl

end Route

end ShapeScribe
