import ShapeScribe.Proofs.Sample.Position
import ShapeScribe.Proofs.Synthesis
import ShapeScribe.Proofs.Token.Order
import ShapeScribe.Proofs.Token.Parts

/-!
What a signature guarantees. Groups that can be signed can be described, and their tokens hold nothing circular and
nothing absent, so that a route can only fail at its signature.
-/

namespace ShapeScribe

open Attempt Synthesis

variable {o : Options}

namespace Json

theorem isPlain_shape (j : Json) : (j.shape o).IsPlain := by
  induction j using induct with
  | array items ih =>
      rw [shape_array]
      apply Token.IsPlain.array
      intro t ht
      obtain ⟨item, hitem, rfl⟩ := List.mem_map.mp (Token.mem_normalize.mp ht)
      exact ih item (Options.mem_of_mem_sampled hitem)
  | object members ih =>
      rw [shape_object]
      apply Token.IsPlain.record
      intro f hf t ht
      obtain ⟨m, hm, rfl⟩ := List.mem_map.mp hf
      obtain rfl := List.mem_singleton.mp ht
      exact ih m (Named.mem_inOrder.mp hm)
  | text s =>
      rw [shape]
      split
      · exact .scalar (by decide) (by decide)
      · exact .scalar (by decide) (by decide)
  | _ =>
      rw [shape]
      exact .scalar (by decide) (by decide)

end Json

-- Neither the shape of a sample nor what it says of its fields shows a cycle or an absence.
structure Sample.IsPlain (o : Options) (s : Sample) : Prop where
  shape : ∃ t, s.shape o = .ok t ∧ t.IsPlain
  fields : ∃ readings, s.fieldReadings o = .ok readings ∧ ∀ r ∈ readings, ∀ t, r.2 = some t → t.IsPlain

theorem Sample.isPlain_of_toJson {s : Sample} {j : Json} (h : s.toJson o.maxDepth = .ok j) : s.IsPlain o where
  shape := ⟨_, shape_of_toJson h, j.isPlain_shape⟩
  fields := by
    refine ⟨_, fieldReadings_of_toJson h, ?_⟩
    intro r hr t ht
    cases j with
    | object members =>
        obtain ⟨⟨name, value⟩, _, rfl⟩ := List.mem_map.mp hr
        cases value with
        | null => cases ht
        | _ =>
            cases ht
            exact Json.isPlain_shape _
    | _ => cases hr

-- Groups that are signed are like themselves, and what is like has the same definition.
theorem exists_declarations_of_payload {routeId text : String} {gs : List Group} (hgs : gs ≠ [])
    (h : Signature.payload routeId gs o = .ok text) (base : String) :
    ∃ definition, Definition.declarations o base gs = .ok (some definition) := by
  obtain ⟨js, hjs, _⟩ := Signature.payload_eq_ok.mp h
  have hself : ∀ g ∈ Group.inOrder gs, Group.Alike id o.maxDepth o.maxDepth g g := by
    intro g hg
    obtain ⟨_, _, hj⟩ := exists_result (Signature.groupsJson_eq_ok.mp hjs) hg
    obtain ⟨ks, hks, _⟩ := Signature.groupJson_eq_ok.mp hj
    exact ⟨rfl, ks, ks, hks, hks, List.forall₂_same.mpr fun _ _ => rfl⟩
  obtain ⟨definition, hdefinition, _⟩ := exists_declarations_of_alike ⟨rfl, rfl, rfl⟩ (List.forall₂_same.mpr hself) base
  cases definition with
  | none => exact absurd hdefinition (Definition.declarations_ne_none hgs)
  | some definition => exact ⟨definition, hdefinition⟩

namespace Route

variable {route : Route} {observations : List Observation} {text : String}

theorem exists_definition (hwindow : window route observations o ≠ []) (h : route.payload observations o = .ok text) :
    ∃ definition, Definition.declarations o (baseTypeName route.name)
      (Group.ofObservations (window route observations o)) = .ok (some definition) :=
  exists_declarations_of_payload (Group.ofObservations_ne_nil hwindow) h _

theorem exists_declares (hwindow : window route observations o ≠ []) (h : route.payload observations o = .ok text) :
    ∃ d, route.Declares observations o d := by
  obtain ⟨definition, hdefinition⟩ := exists_definition hwindow h
  exact ⟨_, declares_iff.mpr ⟨hwindow, text, definition, h, hdefinition, rfl⟩⟩

-- Whatever signature the store holds.
theorem exists_synthesis (hwindow : window route observations o ≠ []) (h : route.payload observations o = .ok text)
    (previous : Option String) : ∃ result, synthesize route observations o previous = .ok result := by
  by_cases hprevious : previous = some (hashText text)
  · exact ⟨_, hprevious ▸ synthesize_of_signed hwindow h⟩
  · obtain ⟨definition, hdefinition⟩ := exists_definition hwindow h
    apply Exists.intro
    apply (synthesize_eq_ok hwindow).mpr
    refine ⟨text, h, ?_⟩
    rw [if_neg hprevious]
    exact ⟨definition, hdefinition, rfl⟩

theorem synthesize_eq_error {previous : Option String} {fault : Fault} :
    synthesize route observations o previous = .error fault ↔ window route observations o ≠ [] ∧
      signature route.id (Group.ofObservations (window route observations o)) o = .error fault := by
  by_cases hwindow : window route observations o = []
  · simp [synthesize_of_empty_window hwindow, hwindow]
  · have hempty : (window route observations o).isEmpty = false := by simpa using hwindow
    cases hs : signature route.id (Group.ofObservations (window route observations o)) o with
    | error e => simp [synthesize, hempty, hs, hwindow, bind, Except.bind]
    | ok signed =>
        obtain ⟨text, htext, _⟩ := except_map_eq_ok.mp hs
        obtain ⟨result, hresult⟩ := exists_synthesis hwindow htext previous
        simp [hresult]

end Route

-- Signing goes first, and nothing after it can fail.
theorem renders_of_signature (o : Options) :
    (∀ (routeId base : String) (gs : List Group) (signed : String), gs ≠ [] → signature routeId gs o = .ok signed →
      (∃ definition, Definition.declarations o base gs = .ok (some definition)) ∧
        ∀ g ∈ gs, ∀ s ∈ g.samples, s.IsPlain o) ∧
    ∀ (route : Route) (observations : List Observation) (previous : Option String) (fault : Fault),
      synthesize route observations o previous = .error fault ↔ window route observations o ≠ [] ∧
        signature route.id (Group.ofObservations (window route observations o)) o = .error fault := by
  refine ⟨?_, fun route observations previous fault => Route.synthesize_eq_error⟩
  intro routeId base gs signed hgs hs
  obtain ⟨text, htext, _⟩ := except_map_eq_ok.mp hs
  refine ⟨exists_declarations_of_payload hgs htext base, ?_⟩
  intro g hg s hsample
  obtain ⟨j, hj⟩ := Signature.exists_toJson_of_payload htext hg hsample
  exact Sample.isPlain_of_toJson hj

-- One array under two names, as deep as the guard allows, of which only the first item is looked at.
def sharedResponse : Sample :=
  ⟨#[.array true [.leaf (.text "2024-05-01"), .leaf .null],
    .object [(.text "from", .container 0), (.text "to", .container 0)]], .container 1⟩

def shallowOptions : Options := { maxDepth := 2, maxArraySamples := 1, analyzeAllArrayElements := false }

theorem renders_sharedResponse :
    (∃ signed, signature "r" [⟨.ofStatus (some 200), [sharedResponse]⟩] shallowOptions = .ok signed) ∧
      (∃ definition, Definition.declarations shallowOptions "Span" [⟨.ofStatus (some 200), [sharedResponse]⟩] =
        .ok (some definition)) ∧
      sharedResponse.IsPlain shallowOptions := by
  obtain ⟨text, htext⟩ : ∃ text, Signature.payload "r" [⟨.ofStatus (some 200), [sharedResponse]⟩] shallowOptions =
      .ok text := by
    refine ⟨_, Signature.payload_eq_ok.mpr ⟨_, by rw [Group.inOrder, List.mergeSort_singleton]; rfl,
      Json.canonical_eq_ok.mpr ⟨?_, rfl⟩⟩⟩
    simp [Signature.optionsJson, shallowOptions]
  obtain ⟨signed, hs⟩ : ∃ signed, signature "r" [⟨.ofStatus (some 200), [sharedResponse]⟩] shallowOptions =
      .ok signed := ⟨hashText text, except_map_eq_ok.mpr ⟨text, htext, rfl⟩⟩
  obtain ⟨hdefinition, hplain⟩ := (renders_of_signature shallowOptions).1 "r" "Span" _ signed (by simp) hs
  exact ⟨⟨signed, hs⟩, hdefinition, hplain _ (List.mem_singleton.mpr rfl) _ (List.mem_singleton.mpr rfl)⟩

end ShapeScribe
