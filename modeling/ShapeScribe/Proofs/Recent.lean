import Mathlib.Data.List.DropRight
import ShapeScribe.Proofs.Definition.Shapes
import ShapeScribe.Proofs.Sample.Renaming

/-!
What synthesis reads of the observations: for every outcome the recent responses of the route with that outcome, and
nothing else of them. How the outcomes alternate cannot be told from a declaration, nor when, how and whereto the
requests were sent.
-/

namespace ShapeScribe

open Attempt Synthesis

variable {route : Route} {o : Options} {observations others : List Observation}

namespace Sample

variable {samples samples' : List Sample}

theorem samplesJson_congr (h : List.Forall₂ Same samples samples') (maxDepth : Int) :
    Signature.samplesJson maxDepth samples = Signature.samplesJson maxDepth samples' := by
  induction h with
  | nil => rfl
  | cons hs _ ih => simp only [Signature.samplesJson, hs.toJson_eq, ih]

end Sample

namespace Signature

theorem groupsJson_congr {gs hs : List Group}
    (h : List.Forall₂ (fun g h => g.outcome = h.outcome ∧ List.Forall₂ Sample.Same g.samples h.samples) gs hs)
    (maxDepth : Int) : groupsJson maxDepth gs = groupsJson maxDepth hs := by
  induction h with
  | nil => rfl
  | @cons g h _ _ hgh _ ih =>
      have hgroup : groupJson maxDepth g = groupJson maxDepth h := by
        simp only [groupJson, hgh.1, Sample.samplesJson_congr hgh.2, hgh.2.length_eq]
      simp only [groupsJson, hgroup, ih]

end Signature

namespace Route

-- The responses with one outcome among the last observations of the route that have a body.
def answers (route : Route) (o : Options) (observations : List Observation) (outcome : Outcome) : List Sample :=
  let own := observations.filter fun obs => obs.routeId = route.id ∧ obs.response.root ≠ .leaf .null
  ((own.rtake o.windowSize.toNat).filter (·.outcome = outcome)).map (·.response)

theorem window_eq (route : Route) (observations : List Observation) (o : Options) :
    window route observations o =
      (observations.filter fun obs => obs.routeId = route.id ∧ obs.response.root ≠ .leaf .null).rtake
        o.windowSize.toNat := by
  have hbodies : (observations.filter (·.routeId = route.id)).filter Observation.hasBody =
      observations.filter fun obs => obs.routeId = route.id ∧ obs.response.root ≠ .leaf .null := by
    rw [List.filter_filter]
    refine List.filter_congr fun obs _ => ?_
    rw [Bool.eq_iff_iff]
    simp [Observation.hasBody, Sample.isBody, and_comm]
  simp only [window, Observation.recent, hbodies, List.rtake]

theorem responses_window (route : Route) (observations : List Observation) (o : Options) (outcome : Outcome) :
    Group.responses (window route observations o) outcome = route.answers o observations outcome := by
  rw [Group.responses, window_eq]
  rfl

-- As many observations as there are answers with any outcome.
theorem length_window_eq
    (h : ∀ outcome, List.Forall₂ Sample.Same (route.answers o observations outcome) (route.answers o others outcome)) :
    (window route observations o).length = (window route others o).length := by
  rw [← Group.length_flatMap_responses (window route observations o),
    ← Group.length_flatMap_responses (window route others o)]
  have hlength : ∀ outcome, (Group.responses (window route observations o) outcome).length =
      (Group.responses (window route others o) outcome).length := fun outcome => by
    rw [responses_window, responses_window, (h outcome).length_eq]
  simp only [List.length_flatMap, hlength]

theorem payload_eq_of_answers
    (h : ∀ outcome, List.Forall₂ Sample.Same (route.answers o observations outcome) (route.answers o others outcome)) :
    route.payload observations o = route.payload others o := by
  have hempty : ∀ outcome, (Group.responses (window route observations o) outcome).isEmpty =
      (Group.responses (window route others o) outcome).isEmpty := fun outcome => by
    rw [responses_window, responses_window, Bool.eq_iff_iff, List.isEmpty_iff_length_eq_zero,
      List.isEmpty_iff_length_eq_zero, (h outcome).length_eq]
  have hsame : ∀ outcome, List.Forall₂ Sample.Same (Group.responses (window route observations o) outcome)
      (Group.responses (window route others o) outcome) := fun outcome => by
    rw [responses_window, responses_window]
    exact h outcome
  have hgroups := Group.forall₂_ofObservations hempty hsame
  simp only [payload, Signature.payload, Group.inOrder_ofObservations, Signature.groupsJson_congr hgroups]

variable {previous : Option String} {text : String}

theorem synthesize_of_unsigned {fault : Fault} (hwindow : window route observations o ≠ [])
    (h : route.payload observations o = .error fault) : synthesize route observations o previous = .error fault := by
  refine synthesize_eq_error.mpr ⟨hwindow, ?_⟩
  exact congrArg (Except.map hashText) h

-- A signature that is not in the store yet comes with a declaration.
theorem exists_declaration (hwindow : window route observations o ≠ []) (h : route.payload observations o = .ok text)
    (hprevious : previous ≠ some (hashText text)) :
    ∃ d, route.Declares observations o d ∧
      (synthesize route observations o previous).map (·.declaration) = .ok (some d) := by
  obtain ⟨result, hresult⟩ := exists_synthesis hwindow h previous
  obtain ⟨text', htext', ⟨hsigned, _⟩ | ⟨d, hd, hdeclaration⟩⟩ := synthesize_cases hwindow hresult
  · obtain rfl := Except.ok.inj (h.symm.trans htext')
    exact absurd hsigned hprevious
  · exact ⟨d, hd, by rw [hresult, Except.map, hdeclaration]⟩

end Route

-- Nothing but the recent answers of the route decides what comes of it: a fault, no declaration, or which one.
theorem declaration_eq_of_answers
    (h : ∀ outcome, List.Forall₂ Sample.Same (route.answers o observations outcome) (route.answers o others outcome))
    (previous : Option String) :
    (synthesize route observations o previous).map (·.declaration) =
      (synthesize route others o previous).map (·.declaration) := by
  have hlength := Route.length_window_eq h
  have hpayload := Route.payload_eq_of_answers h
  by_cases hwindow : window route observations o = []
  · have hwindow' : window route others o = [] := by
      rw [hwindow] at hlength
      exact List.eq_nil_of_length_eq_zero hlength.symm
    rw [Route.synthesize_of_empty_window hwindow, Route.synthesize_of_empty_window hwindow']
    rfl
  · have hwindow' : window route others o ≠ [] := fun hnil =>
      hwindow (List.eq_nil_of_length_eq_zero (by rw [hlength, hnil, List.length_nil]))
    cases hsigned : route.payload observations o with
    | error fault =>
        rw [Route.synthesize_of_unsigned hwindow hsigned, Route.synthesize_of_unsigned hwindow' (hpayload ▸ hsigned)]
    | ok text =>
        have hsigned' := hpayload ▸ hsigned
        by_cases hprevious : previous = some (hashText text)
        · rw [hprevious, Route.synthesize_of_signed hwindow hsigned, Route.synthesize_of_signed hwindow' hsigned']
        · obtain ⟨d, hd, hdeclaration⟩ := Route.exists_declaration hwindow hsigned hprevious
          obtain ⟨d', hd', hdeclaration'⟩ := Route.exists_declaration hwindow' hsigned' hprevious
          have hother := Route.declares_of_payload hd rfl hwindow' hsigned hsigned'
          rw [hdeclaration, hdeclaration', hd'.unique hother]

-- The start of a job read from a longer line, with another line between its containers.
def movedStart : Sample :=
  ⟨#[.object [(.text "done", .leaf .null), (.text "errors", .container 2)], .array true [.container 1], .array true []],
    .container 0⟩

theorem same_movedStart : started.Same movedStart := by
  refine ⟨fun p q => p = 1 ∧ q = 0 ∨ p = 0 ∧ q = 2, ⟨?_, ?_⟩, .container (.inl ⟨rfl, rfl⟩), ?_⟩
  · rintro p q r (⟨rfl, rfl⟩ | ⟨rfl, rfl⟩) (⟨rfl, hr⟩ | ⟨rfl, hr⟩) <;> simp_all
  · rintro p q r (⟨rfl, rfl⟩ | ⟨rfl, rfl⟩) (⟨hr, rfl⟩ | ⟨hr, rfl⟩) <;> simp_all
  · rintro p q (⟨rfl, rfl⟩ | ⟨rfl, rfl⟩)
    · exact .object (.cons ⟨rfl, .leaf _⟩ (.cons ⟨rfl, .container (.inr ⟨rfl, rfl⟩)⟩ .nil))
    · exact .array .nil

-- An answer too old, one to another route and one without a body among the three that count.
def mixedAnswers : List Observation := [
  answer 200 (refused "old"),
  { answer 500 (refused "down") with timestamp := ⟨1⟩, method := "PUT", url := some "/jobs" },
  { answer 503 (refused "busy") with routeId := "users" },
  answer 200 (ended true),
  answer 204 ⟨#[], .leaf .null⟩,
  answer 299 movedStart]

theorem same_answers (outcome : Outcome) :
    List.Forall₂ Sample.Same (jobs.answers { windowSize := 3 } firstAnswers outcome)
      (jobs.answers { windowSize := 3 } mixedAnswers outcome) := by
  obtain ⟨bucket, isError⟩ := outcome
  cases bucket <;> cases isError
  case success.false => exact .cons (.refl _) (.cons same_movedStart .nil)
  case serverError.true => exact .cons (.refl _) .nil
  all_goals exact .nil

theorem declaration_of_mixedAnswers :
    ∃ d, (synthesize jobs firstAnswers { windowSize := 3 } none).map (·.declaration) = .ok (some d) ∧
      (synthesize jobs mixedAnswers { windowSize := 3 } none).map (·.declaration) = .ok (some d) := by
  obtain ⟨text, htext⟩ : ∃ text, jobs.payload firstAnswers { windowSize := 3 } = .ok text :=
    Route.exists_payload [⟨.ofStatus (some 200), [ended true, started]⟩, ⟨.ofStatus (some 503), [refused "down"]⟩] rfl rfl
      (by simp [Signature.optionsJson]) (by simp)
  have hwindow : window jobs firstAnswers { windowSize := 3 } ≠ [] := List.cons_ne_nil _ _
  have hfirst : none ≠ some (hashText text) := by simp
  obtain ⟨d, _, hd⟩ := Route.exists_declaration hwindow htext hfirst
  exact ⟨d, hd, (declaration_eq_of_answers same_answers none).symm.trans hd⟩

end ShapeScribe
