import Mathlib.Data.Set.Basic
import ShapeScribe.Proofs.Definition.Signed
import ShapeScribe.Proofs.Field.Record

/-!
What a definition depends on. For every outcome the set of the shapes of its responses is enough: neither how often a
shape was met nor the order in which the responses arrived can be told from the definition.
-/

namespace ShapeScribe

open Attempt Synthesis

variable {o : Options} {samples others : List Sample} {name : String}

-- A sample with a shape that tells all its fields.
structure Sample.Regular (o : Options) (s : Sample) : Prop where
  keys : s.HasDistinctKeys
  complete : s.IsComplete
  shape : ∃ u, s.shape o = .ok u

theorem Sample.regular_of_toJson {s : Sample} {j : Json} (hkeys : s.HasDistinctKeys)
    (h : s.toJson o.maxDepth = .ok j) : s.Regular o where
  keys := hkeys
  shape := ⟨_, shape_of_toJson h⟩
  complete := by
    intro p members hs m hm
    obtain ⟨_, _, _, _, hnamed⟩ := toJson_of_object? hs h
    obtain ⟨_, _, _, hvalue⟩ := exists_result hnamed hm
    exact (presence_of_jsonBelow hvalue).1

-- Two lists of samples in which the same shapes occur.
def SameShapes (o : Options) (samples others : List Sample) : Prop :=
  ∀ u, (∃ s ∈ samples, s.shape o = .ok u) ↔ ∃ s ∈ others, s.shape o = .ok u

namespace SameShapes

-- What can be told from the shape of a sample is met in both lists or in none.
theorem exists_iff (h : SameShapes o samples others) (hsamples : ∀ s ∈ samples, s.Regular o)
    (hothers : ∀ s ∈ others, s.Regular o) {P : Sample → Prop}
    (hP : ∀ s t : Sample, s.Regular o → t.Regular o → s.shape o = t.shape o → P s → P t) :
    (∃ s ∈ samples, P s) ↔ ∃ s ∈ others, P s := by
  constructor
  · rintro ⟨s, hs, hPs⟩
    obtain ⟨u, hu⟩ := (hsamples s hs).shape
    obtain ⟨t, ht, hsame⟩ := (h u).mp ⟨s, hs, hu⟩
    exact ⟨t, ht, hP s t (hsamples s hs) (hothers t ht) (hu.trans hsame.symm) hPs⟩
  · rintro ⟨s, hs, hPs⟩
    obtain ⟨u, hu⟩ := (hothers s hs).shape
    obtain ⟨t, ht, hsame⟩ := (h u).mpr ⟨s, hs, hu⟩
    exact ⟨t, ht, hP s t (hothers s hs) (hsamples t ht) (hu.trans hsame.symm) hPs⟩

theorem isEmpty_eq (h : SameShapes o samples others) (hsamples : ∀ s ∈ samples, s.Regular o)
    (hothers : ∀ s ∈ others, s.Regular o) : samples.isEmpty = others.isEmpty := by
  have hany := h.exists_iff hsamples hothers (P := fun _ => True) fun _ _ _ _ _ => id
  cases samples <;> cases others <;> simp at hany ⊢

end SameShapes

namespace Sample

variable {s t : Sample} {token : Token}

theorem showsField_congr (h : s.shape o = t.shape o) : s.ShowsField o name token ↔ t.ShowsField o name token := by
  unfold ShowsField
  rw [h]

theorem Regular.hasField_congr (hs : s.Regular o) (ht : t.Regular o) (h : s.shape o = t.shape o) :
    s.HasField name ↔ t.HasField name := by
  have hshows : ∀ {v : Sample}, v.Regular o → (v.HasField name ↔ ∃ token, v.ShowsField o name token) := by
    intro v hv
    obtain ⟨u, hu⟩ := hv.shape
    exact ⟨exists_showsField hu, fun ⟨_, hshows⟩ => hv.complete.hasField hshows⟩
  rw [hshows hs, hshows ht]
  exact exists_congr fun _ => showsField_congr h

theorem Regular.isObject_of_shape (hs : s.Regular o) (h : s.shape o = t.shape o) (hobject : s.isObject) :
    t.isObject := by
  obtain ⟨⟨p, members⟩, hs'⟩ := Option.isSome_iff_exists.mp hobject
  obtain ⟨u, hu⟩ := hs.shape
  obtain ⟨_, _, _, rfl⟩ := (shape_of_object? hs').mp hu
  obtain ⟨q, others, ht⟩ := exists_object_of_shape (h.symm.trans hu)
  simp [isObject, ht]

end Sample

theorem FieldsOf.of_sameShapes {fields : List (String × List Token)} (hfields : FieldsOf o samples fields)
    (h : SameShapes o samples others) (hsamples : ∀ s ∈ samples, s.Regular o) (hothers : ∀ s ∈ others, s.Regular o) :
    FieldsOf o others fields := by
  have hhas : ∀ name, (∃ s ∈ samples, s.HasField name) ↔ ∃ s ∈ others, s.HasField name := fun name =>
    h.exists_iff hsamples hothers fun s t hs ht hsame => (hs.hasField_congr ht hsame).mp
  have hlacks : ∀ name, (∃ s ∈ samples, ¬ s.HasField name) ↔ ∃ s ∈ others, ¬ s.HasField name := fun name =>
    h.exists_iff hsamples hothers fun s t hs ht hsame => (hs.hasField_congr ht hsame).not.mp
  have hshows : ∀ name token, (∃ s ∈ samples, s.HasField name ∧ s.ShowsField o name token) ↔
      ∃ s ∈ others, s.HasField name ∧ s.ShowsField o name token := fun name token =>
    h.exists_iff hsamples hothers fun s t hs ht hsame =>
      ((hs.hasField_congr ht hsame).and (Sample.showsField_congr hsame)).mp
  exact {
    rising := hfields.rising
    names := fun name => (hfields.names name).trans (hhas name)
    tokens := fun f hf t => by rw [hfields.tokens f hf, hshows, hlacks]
    optional := fun f hf => (hfields.optional f hf).trans (hlacks f.1) }

theorem fieldMap_eq_of_sameShapes (h : SameShapes o samples others) (hsamples : ∀ s ∈ samples, s.Regular o)
    (hothers : ∀ s ∈ others, s.Regular o) : fieldMap o samples = fieldMap o others := by
  obtain ⟨fields, hfields, hmap⟩ := exists_fieldsOf (fun s hs => (hsamples s hs).keys) fun s hs _ => (hsamples s hs).shape
  have hsame := hfields.of_sameShapes h hsamples hothers
  rw [hmap, hsame.fieldMap_eq (fun s hs => (hothers s hs).keys) fun s hs _ => (hothers s hs).shape]

namespace Definition

theorem synonym_eq_of_sameShapes (h : SameShapes o samples others) (hsamples : ∀ s ∈ samples, s.Regular o)
    (hothers : ∀ s ∈ others, s.Regular o) : synonym o name samples = synonym o name others := by
  obtain ⟨shapes, hshapes⟩ := exists_results fun s hs => (hsamples s hs).shape
  obtain ⟨shapes', hshapes'⟩ := exists_results fun s hs => (hothers s hs).shape
  have hmem : ∀ u, u ∈ shapes ↔ u ∈ shapes' := by
    intro u
    rw [mem_results_iff hshapes, mem_results_iff hshapes']
    exact h u
  rw [synonym, synonym, sampleShapes_eq_ok.mpr hshapes, sampleShapes_eq_ok.mpr hshapes']
  exact congrArg (fun text => Except.ok ("type ".toList ++ name.toList ++ " = ".toList ++ String.toList text ++ [';']))
    (Token.unionText_congr .unknown hmem)

theorem group_eq_of_sameShapes (h : SameShapes o samples others) (hsamples : ∀ s ∈ samples, s.Regular o)
    (hothers : ∀ s ∈ others, s.Regular o) (name : String) : group o name samples = group o name others := by
  have hobject : samples.any Sample.isObject = others.any Sample.isObject := by
    rw [Bool.eq_iff_iff, List.any_eq_true, List.any_eq_true]
    exact h.exists_iff hsamples hothers fun s t hs _ => hs.isObject_of_shape
  simp only [group, h.isEmpty_eq hsamples hothers, hobject, fieldMap_eq_of_sameShapes h hsamples hothers,
    synonym_eq_of_sameShapes h hsamples hothers]

theorem groups_congr {gs hs : List Group} (base : String)
    (h : List.Forall₂ (fun g h => g.outcome = h.outcome ∧ ∀ name, group o name g.samples = group o name h.samples)
      gs hs) : groups o base gs = groups o base hs := by
  induction h with
  | nil => rfl
  | cons hgh _ ih => simp only [groups, hgh.1, hgh.2, ih]

end Definition

namespace Group

variable {window window' : List Observation}

-- Groups of the same outcomes, related as the responses with each outcome are.
theorem forall₂_ofObservations {P : List Sample → List Sample → Prop}
    (hempty : ∀ outcome, (responses window outcome).isEmpty = (responses window' outcome).isEmpty)
    (h : ∀ outcome, P (responses window outcome) (responses window' outcome)) :
    List.Forall₂ (fun g h => g.outcome = h.outcome ∧ P g.samples h.samples) (ofObservations window)
      (ofObservations window') := by
  unfold ofObservations
  induction Outcome.all with
  | nil => exact .nil
  | cons outcome rest ih =>
      have hgroup := h outcome
      have hsame := hempty outcome
      rw [List.filterMap_cons, List.filterMap_cons]
      cases hs : responses window outcome <;> cases hs' : responses window' outcome <;> rw [hs, hs'] at hsame hgroup
      · exact ih
      · cases hsame
      · cases hsame
      · exact .cons ⟨rfl, hgroup⟩ ih

theorem forall₂_of_sameShapes (hshapes : ∀ outcome, SameShapes o (responses window outcome) (responses window' outcome))
    (hwindow : ∀ obs ∈ window, obs.response.Regular o) (hwindow' : ∀ obs ∈ window', obs.response.Regular o) :
    List.Forall₂ (fun g h => g.outcome = h.outcome ∧
      ∀ name, Definition.group o name g.samples = Definition.group o name h.samples)
      (ofObservations window) (ofObservations window') := by
  have hregular : ∀ {observations : List Observation}, (∀ obs ∈ observations, obs.response.Regular o) →
      ∀ outcome, ∀ s ∈ responses observations outcome, s.Regular o := by
    intro observations hobservations outcome s hs
    obtain ⟨obs, hobs, rfl⟩ := List.mem_map.mp hs
    exact hobservations obs (List.mem_filter.mp hobs).1
  apply forall₂_ofObservations (P := fun ss ts => ∀ name, Definition.group o name ss = Definition.group o name ts)
  · exact fun outcome => (hshapes outcome).isEmpty_eq (hregular hwindow outcome) (hregular hwindow' outcome)
  · exact fun outcome => Definition.group_eq_of_sameShapes (hshapes outcome) (hregular hwindow outcome)
      (hregular hwindow' outcome)

end Group

-- The shapes of the responses with one outcome.
def shapesOf (o : Options) (window : List Observation) (outcome : Outcome) : Set Token :=
  {t | ∃ obs ∈ window, obs.outcome = outcome ∧ obs.response.shape o = .ok t}

theorem sameShapes_responses {window window' : List Observation} {outcome : Outcome}
    (h : shapesOf o window outcome = shapesOf o window' outcome) :
    SameShapes o (Group.responses window outcome) (Group.responses window' outcome) := by
  have hmem : ∀ (observations : List Observation) (u : Token),
      (∃ s ∈ Group.responses observations outcome, s.shape o = .ok u) ↔ u ∈ shapesOf o observations outcome := by
    intro observations u
    simp [Group.responses, shapesOf, and_assoc]
  intro u
  rw [hmem, hmem, h]

variable {route : Route} {observations observations' : List Observation} {d d' : Declaration}

theorem Route.Declares.regular (h : route.Declares observations o d)
    (hkeys : ∀ obs ∈ window route observations o, obs.response.HasDistinctKeys) :
    ∀ obs ∈ window route observations o, obs.response.Regular o := by
  intro obs hobs
  obtain ⟨_, _, _, hpayload, _⟩ := declares_iff.mp h
  have hresponse : obs.response ∈ Group.responses (window route observations o) obs.outcome :=
    List.mem_map_of_mem (List.mem_filter.mpr ⟨hobs, by simp⟩)
  have hgroup : ⟨obs.outcome, Group.responses (window route observations o) obs.outcome⟩ ∈
      Group.ofObservations (window route observations o) :=
    Group.mem_ofObservations.mpr ⟨rfl, List.ne_nil_of_mem hresponse⟩
  obtain ⟨j, hj⟩ := Signature.exists_toJson_of_payload hpayload hgroup hresponse
  exact Sample.regular_of_toJson (hkeys obs hobs) hj

theorem Route.Declares.text_eq (h : route.Declares observations o d) (h' : route.Declares observations' o d')
    (hkeys : ∀ obs ∈ window route observations o, obs.response.HasDistinctKeys)
    (hkeys' : ∀ obs ∈ window route observations' o, obs.response.HasDistinctKeys)
    (hshapes : ∀ outcome, shapesOf o (window route observations o) outcome =
      shapesOf o (window route observations' o) outcome) :
    d.typeDefinition = d'.typeDefinition ∧ d.typeName = d'.typeName := by
  have hgroups := Definition.groups_congr (baseTypeName route.name) (Group.forall₂_of_sameShapes
    (fun outcome => sameShapes_responses (hshapes outcome)) (h.regular hkeys) (h'.regular hkeys'))
  obtain ⟨hwindow, _, definition, _, hdefinition, rfl⟩ := declares_iff.mp h
  obtain ⟨hwindow', _, definition', _, hdefinition', rfl⟩ := declares_iff.mp h'
  have hsome : ∀ {w : List Observation}, w ≠ [] → (Group.ofObservations w).isEmpty = false := fun hw => by
    simpa using Group.ofObservations_ne_nil hw
  simp only [Definition.declarations, hsome hwindow, hsome hwindow', Group.inOrder_ofObservations, hgroups]
    at hdefinition hdefinition'
  have hsame := Except.ok.inj (hdefinition.symm.trans hdefinition')
  exact ⟨Option.some.inj hsame, rfl⟩

theorem shapesOf_subset {window window' : List Observation}
    (h : ∀ obs ∈ window, ∃ obs' ∈ window', obs'.outcome = obs.outcome ∧ obs'.response.shape o = obs.response.shape o)
    (outcome : Outcome) : shapesOf o window outcome ⊆ shapesOf o window' outcome := by
  rintro t ⟨obs, hobs, houtcome, hshape⟩
  obtain ⟨obs', hobs', houtcome', hshape'⟩ := h obs hobs
  exact ⟨obs', hobs', houtcome'.trans houtcome, hshape'.trans hshape⟩

-- Equal sets of shapes have equal definitions; so do the same observations in another order, or met again.
theorem definition_eq_of_shapes {event event' : Option Event}
    (h : synthesize route observations o none = .ok ⟨event, some d⟩)
    (h' : synthesize route observations' o none = .ok ⟨event', some d'⟩)
    (hkeys : ∀ obs ∈ window route observations o, obs.response.HasDistinctKeys)
    (hkeys' : ∀ obs ∈ window route observations' o, obs.response.HasDistinctKeys) :
    ((∀ outcome, shapesOf o (window route observations o) outcome = shapesOf o (window route observations' o) outcome) →
      d.typeDefinition = d'.typeDefinition ∧ d.typeName = d'.typeName) ∧
    ((∀ obs, obs ∈ window route observations o ↔ obs ∈ window route observations' o) →
      d.typeDefinition = d'.typeDefinition ∧ d.typeName = d'.typeName) := by
  have hshapes := Route.Declares.text_eq ⟨event, h⟩ ⟨event', h'⟩ hkeys hkeys'
  refine ⟨hshapes, fun hsame => hshapes fun outcome => ?_⟩
  apply Set.Subset.antisymm
  · exact shapesOf_subset (fun obs hobs => ⟨obs, (hsame obs).mp hobs, rfl, rfl⟩) outcome
  · exact shapesOf_subset (fun obs hobs => ⟨obs, (hsame obs).mpr hobs, rfl, rfl⟩) outcome

def jobs : Route := ⟨"jobs", "Jobs"⟩

def answer (code : Int) (response : Sample) : Observation := ⟨"jobs", response, some code, default, "GET", none⟩

def ended (done : Bool) : Sample :=
  ⟨#[.object [(.text "done", .leaf (.boolean done)), (.text "errors", .leaf .null)]], .container 0⟩

def started : Sample :=
  ⟨#[.array false [], .object [(.text "done", .leaf .null), (.text "errors", .container 0)]], .container 1⟩

def refused (reason : String) : Sample := ⟨#[], .leaf (.text reason)⟩

def firstAnswers : List Observation := [answer 200 (ended true), answer 201 started, answer 503 (refused "down")]

-- Other values of the same shapes in another order, one shape met twice.
def laterAnswers : List Observation :=
  [answer 500 (refused "busy"), answer 202 started, answer 200 (ended false), answer 200 (ended true)]

theorem hasDistinctKeys_answers : ∀ obs ∈ firstAnswers ++ laterAnswers, obs.response.HasDistinctKeys := by
  have hcontainers : ∀ obs ∈ firstAnswers ++ laterAnswers, ∀ c ∈ obs.response.containers.toList, c.HasDistinctKeys := by
    decide
  exact fun obs hobs => Sample.hasDistinctKeys_of_containers fun c hc => hcontainers obs hobs c (Array.mem_def.mp hc)

theorem shapesOf_answers (outcome : Outcome) :
    shapesOf {} (window jobs firstAnswers {}) outcome = shapesOf {} (window jobs laterAnswers {}) outcome := by
  apply Set.Subset.antisymm
  · apply shapesOf_subset
    change ∀ obs ∈ firstAnswers, ∃ obs' ∈ laterAnswers, _
    simp only [firstAnswers, laterAnswers, List.forall_mem_cons]
    refine ⟨⟨_, .tail _ (.tail _ (.tail _ (.head _))), rfl, rfl⟩, ⟨_, .tail _ (.head _), rfl, rfl⟩,
      ⟨_, .head _, rfl, rfl⟩, by simp⟩
  · apply shapesOf_subset
    change ∀ obs ∈ laterAnswers, ∃ obs' ∈ firstAnswers, _
    simp only [firstAnswers, laterAnswers, List.forall_mem_cons]
    refine ⟨⟨_, .tail _ (.tail _ (.head _)), rfl, rfl⟩, ⟨_, .tail _ (.head _), rfl, rfl⟩,
      ⟨_, .head _, rfl, rfl⟩, ⟨_, .head _, rfl, rfl⟩, by simp⟩

theorem Route.exists_payload (gs : List Group) {js : List Json}
    (hgroups : Group.ofObservations (window route observations o) = gs) (hjs : Signature.groupsJson o.maxDepth gs = .ok js)
    (hoptions : (Signature.optionsJson o).fault? = none) (hfault : (Json.array js).fault? = none) :
    ∃ text, route.payload observations o = .ok text := by
  refine ⟨_, Signature.payload_eq_ok.mpr ⟨js, ?_, Json.canonical_eq_ok.mpr ⟨?_, rfl⟩⟩⟩
  · rw [Group.inOrder_ofObservations, hgroups]
    exact hjs
  · simpa [hoptions] using hfault

theorem exists_declares_answers : (∃ d, jobs.Declares firstAnswers {} d) ∧ ∃ d, jobs.Declares laterAnswers {} d := by
  constructor
  · obtain ⟨text, htext⟩ : ∃ text, jobs.payload firstAnswers {} = .ok text :=
      Route.exists_payload [⟨.ofStatus (some 200), [ended true, started]⟩, ⟨.ofStatus (some 503), [refused "down"]⟩] rfl rfl
        (by simp [Signature.optionsJson]) (by simp)
    exact Route.exists_declares (List.cons_ne_nil _ _) htext
  · obtain ⟨text, htext⟩ : ∃ text, jobs.payload laterAnswers {} = .ok text :=
      Route.exists_payload [⟨.ofStatus (some 200), [started, ended false, ended true]⟩,
        ⟨.ofStatus (some 503), [refused "busy"]⟩] rfl rfl (by simp [Signature.optionsJson]) (by simp)
    exact Route.exists_declares (List.cons_ne_nil _ _) htext

theorem definition_eq_of_laterAnswers :
    ∃ event d event' d',
      synthesize jobs firstAnswers {} none = .ok ⟨event, some d⟩ ∧
      synthesize jobs laterAnswers {} none = .ok ⟨event', some d'⟩ ∧
      (∀ outcome, shapesOf {} (window jobs firstAnswers {}) outcome = shapesOf {} (window jobs laterAnswers {}) outcome) ∧
      d.typeDefinition = d'.typeDefinition ∧ d.typeName = d'.typeName := by
  obtain ⟨⟨d, event, h⟩, ⟨d', event', h'⟩⟩ := exists_declares_answers
  refine ⟨event, d, event', d', h, h', shapesOf_answers, ?_⟩
  refine (definition_eq_of_shapes h h' ?_ ?_).1 shapesOf_answers
  · exact fun obs hobs => hasDistinctKeys_answers obs (List.mem_append_left _ hobs)
  · exact fun obs hobs => hasDistinctKeys_answers obs (List.mem_append_right _ hobs)

end ShapeScribe
