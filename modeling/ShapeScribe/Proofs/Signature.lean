import ShapeScribe.Proofs.Field.Interface
import ShapeScribe.Proofs.Json.Shape

/-!
What a signature covers. The payload that is hashed tells everything that the definition of its groups depends on:
the options, the outcomes, and the samples up to what definitions do not show.
-/

namespace ShapeScribe

open Attempt

variable {o q : Options} {samples others : List Sample} {decimal : Binary64 → Binary64}

theorem Bucket.label_inj {b c : Bucket} (h : b.label = c.label) : b = c := by
  cases b <;> cases c <;> first | rfl | simp [label] at h

namespace Sample

variable {js ks : List Json}

theorem allReadings_of_samplesJson (h : Signature.samplesJson o.maxDepth samples = .ok js) :
    allReadings o samples = .ok (js.flatMap (·.readings o)) := by
  apply allReadings_eq_ok.mpr
  refine ⟨js.map (·.readings o), ?_, rfl⟩
  exact List.forall₂_map_right_iff.mpr
    ((Signature.samplesJson_eq_ok.mp h).imp fun _ _ hj => fieldReadings_of_toJson hj)

theorem sampleShapes_of_samplesJson (h : Signature.samplesJson o.maxDepth samples = .ok js) :
    Definition.sampleShapes o samples = .ok (js.map (·.shape o)) := by
  apply Definition.sampleShapes_eq_ok.mpr
  exact List.forall₂_map_right_iff.mpr ((Signature.samplesJson_eq_ok.mp h).imp fun _ _ hj => shape_of_toJson hj)

theorem any_isObject_of_samplesJson {maxDepth : Int} (h : Signature.samplesJson maxDepth samples = .ok js) :
    samples.any isObject = js.any Json.isObject := by
  have hall := Signature.samplesJson_eq_ok.mp h
  clear h
  induction hall with
  | nil => rfl
  | cons hj _ ih => simp [ih, isObject_of_toJson hj]

end Sample

-- Two groups that stand in their payloads for the same content.
def Group.Alike (decimal : Binary64 → Binary64) (maxDepth bound : Int) (g h : Group) : Prop :=
  g.outcome = h.outcome ∧ ∃ js ks, Signature.samplesJson maxDepth g.samples = .ok js ∧
    Signature.samplesJson bound h.samples = .ok ks ∧
    List.Forall₂ (fun j k => j.arranged decimal = k.arranged decimal) js ks

theorem Group.Alike.length_eq {maxDepth bound : Int} {g h : Group} (hgh : g.Alike decimal maxDepth bound h) :
    g.samples.length = h.samples.length := by
  obtain ⟨_, js, ks, hjs, hks, hsame⟩ := hgh
  rw [(Signature.samplesJson_eq_ok.mp hjs).length_eq, (Signature.samplesJson_eq_ok.mp hks).length_eq, hsame.length_eq]

namespace Signature

theorem groupJson_eq_ok {maxDepth : Int} {g : Group} {j : Json} :
    groupJson maxDepth g = .ok j ↔ ∃ js, samplesJson maxDepth g.samples = .ok js ∧
      j = .object [("bucket", .text g.outcome.bucket.label), ("isError", .boolean g.outcome.isError),
        ("count", .integer g.samples.length), ("samples", .array js)] := by
  simp only [groupJson, bind_eq_ok, pure_eq_ok]
  exact exists_congr fun js => and_congr_right fun _ => eq_comm

theorem payload_eq_ok {routeId text : String} {gs : List Group} :
    payload routeId gs o = .ok text ↔ ∃ js, groupsJson o.maxDepth (Group.inOrder gs) = .ok js ∧
      Json.canonical (.object [("routeId", .text routeId), ("options", optionsJson o), ("normalized", .array js)]) =
        .ok text := by
  simp [payload]

-- Only JSON values are signed.
theorem exists_toJson_of_payload {routeId text : String} {gs : List Group} (h : payload routeId gs o = .ok text)
    {g : Group} (hg : g ∈ gs) {s : Sample} (hs : s ∈ g.samples) : ∃ j, s.toJson o.maxDepth = .ok j := by
  obtain ⟨_, hjs, _⟩ := payload_eq_ok.mp h
  obtain ⟨_, _, hgroup⟩ := exists_result (groupsJson_eq_ok.mp hjs) (List.mem_mergeSort.mpr hg)
  obtain ⟨_, hsamples, _⟩ := groupJson_eq_ok.mp hgroup
  obtain ⟨j, _, hj⟩ := exists_result (samplesJson_eq_ok.mp hsamples) hs
  exact ⟨j, hj⟩

theorem alike_of_arranged {maxDepth bound : Int} {g h : Group} {j k : Json} (hj : groupJson maxDepth g = .ok j)
    (hk : groupJson bound h = .ok k) (hjk : j.arranged decimal = k.arranged decimal) :
    Group.Alike decimal maxDepth bound g h := by
  obtain ⟨js, hjs, rfl⟩ := groupJson_eq_ok.mp hj
  obtain ⟨ks, hks, rfl⟩ := groupJson_eq_ok.mp hk
  have hlabel := Json.arranged_eq_of_member hjk "bucket" (j := .text g.outcome.bucket.label)
    (k := .text h.outcome.bucket.label) (by simp) (by simp)
  have hflag := Json.arranged_eq_of_member hjk "isError" (j := .boolean g.outcome.isError)
    (k := .boolean h.outcome.isError) (by simp) (by simp)
  have hitems := Json.arranged_eq_of_member hjk "samples" (j := .array js) (k := .array ks) (by simp) (by simp)
  simp only [Json.arranged, Json.text.injEq, Json.boolean.injEq] at hlabel hflag
  have houtcome : g.outcome = h.outcome := by
    obtain ⟨⟨b, e⟩, _⟩ := g
    obtain ⟨⟨c, f⟩, _⟩ := h
    simp only at hlabel hflag
    rw [Bucket.label_inj hlabel, hflag]
  exact ⟨houtcome, js, ks, hjs, hks, Json.arranged_array_inj.mp hitems⟩

theorem payload_inj (decimal : Binary64 → Binary64)
    (hdecimal : ∀ x y : Binary64, x.written Json.numberStyle = y.written Json.numberStyle → decimal x = decimal y)
    {routeId otherId text : String} {gs hs : List Group} (hg : payload routeId gs o = .ok text)
    (hh : payload otherId hs q = .ok text) :
    routeId = otherId ∧ o.SameView q ∧
      List.Forall₂ (Group.Alike decimal o.maxDepth q.maxDepth) (Group.inOrder gs) (Group.inOrder hs) := by
  obtain ⟨js, hjs, hj⟩ := payload_eq_ok.mp hg
  obtain ⟨ks, hks, hk⟩ := payload_eq_ok.mp hh
  have hsame := Json.arranged_eq_of_canonical hdecimal hj hk
  have hroute := Json.arranged_eq_of_member hsame "routeId" (j := .text routeId) (k := .text otherId) (by simp) (by simp)
  have hoptions := Json.arranged_eq_of_member hsame "options" (j := optionsJson o) (k := optionsJson q) (by simp) (by simp)
  have hgroups := Json.arranged_eq_of_member hsame "normalized" (j := .array js) (k := .array ks) (by simp) (by simp)
  refine ⟨by simpa [Json.arranged] using hroute, ?_, ?_⟩
  · have hall := Json.arranged_eq_of_member hoptions "analyzeAllArrayElements" (j := .boolean o.analyzeAllArrayElements)
      (k := .boolean q.analyzeAllArrayElements) (by simp) (by simp)
    have hdates := Json.arranged_eq_of_member hoptions "detectDates" (j := .boolean o.detectDates)
      (k := .boolean q.detectDates) (by simp) (by simp)
    have hlimit := Json.arranged_eq_of_member hoptions "maxArraySamples" (j := .integer o.maxArraySamples)
      (k := .integer q.maxArraySamples) (by simp) (by simp)
    simp only [Json.arranged, Json.boolean.injEq, Json.integer.injEq] at hall hdates hlimit
    exact ⟨hall, hdates, hlimit⟩
  · exact forall₂_of_results (groupsJson_eq_ok.mp hjs) (groupsJson_eq_ok.mp hks) (Json.arranged_array_inj.mp hgroups)
      fun _ _ _ _ => alike_of_arranged

theorem exists_groupJson_of_alike {maxDepth bound : Int} {g h : Group} {j : Json}
    (hgh : Group.Alike id maxDepth bound g h) (hj : groupJson maxDepth g = .ok j) :
    ∃ k, groupJson bound h = .ok k ∧ j.arranged id = k.arranged id := by
  have hlength := hgh.length_eq
  obtain ⟨houtcome, js, ks, hjs, hks, hsame⟩ := hgh
  obtain ⟨_, hjs', rfl⟩ := groupJson_eq_ok.mp hj
  obtain rfl := Except.ok.inj (hjs.symm.trans hjs')
  refine ⟨_, groupJson_eq_ok.mpr ⟨ks, hks, rfl⟩, ?_⟩
  have hitems := Json.arranged_array_inj.mpr hsame
  simp only [Json.arranged, Json.array.injEq] at hitems
  simp only [Json.arranged, Json.arrangedMembers, hitems, houtcome, hlength]

theorem exists_groupsJson_of_alike {maxDepth bound : Int} {gs hs : List Group} {js : List Json}
    (h : List.Forall₂ (Group.Alike id maxDepth bound) gs hs) (hjs : groupsJson maxDepth gs = .ok js) :
    ∃ ks, groupsJson bound hs = .ok ks ∧ List.Forall₂ (fun j k => j.arranged id = k.arranged id) js ks := by
  induction h generalizing js with
  | nil => exact ⟨[], rfl, by cases hjs; exact .nil⟩
  | cons hgh _ ih =>
      simp only [groupsJson, bind_eq_ok, pure_eq_ok] at hjs
      obtain ⟨j, hj, rest, hrest, rfl⟩ := hjs
      obtain ⟨k, hk, hjk⟩ := exists_groupJson_of_alike hgh hj
      obtain ⟨ks, hks, hsame⟩ := ih hrest
      exact ⟨k :: ks, by simp [groupsJson, hk, hks], .cons hjk hsame⟩

-- The payload shows nothing else: neither the order of members nor the guards.
theorem payload_of_alike {routeId text : String} {gs hs : List Group} (hview : o.SameView q)
    (h : List.Forall₂ (Group.Alike id o.maxDepth q.maxDepth) (Group.inOrder gs) (Group.inOrder hs))
    (hg : payload routeId gs o = .ok text) : payload routeId hs q = .ok text := by
  obtain ⟨js, hjs, hj⟩ := payload_eq_ok.mp hg
  obtain ⟨ks, hks, hsame⟩ := exists_groupsJson_of_alike h hjs
  refine payload_eq_ok.mpr ⟨ks, hks, Json.canonical_of_arranged ?_ hj⟩
  have hitems := Json.arranged_array_inj.mpr hsame
  simp only [Json.arranged, Json.array.injEq] at hitems
  simp only [Json.arranged, Json.arrangedMembers, hitems, optionsJson, hview.all, hview.dates, hview.limit]

end Signature

variable {g h : Group} {name : String}

theorem readingsOf_eq_of_alike (hview : o.SameView q) {js ks : List Json}
    (hsame : List.Forall₂ (fun j k => j.arranged decimal = k.arranged decimal) js ks) (field : String) :
    readingsOf field (js.flatMap (·.readings o)) = readingsOf field (ks.flatMap (·.readings q)) := by
  induction hsame with
  | nil => rfl
  | cons hjk _ ih =>
      simp only [List.flatMap_cons, readingsOf_append, ih]
      rw [← Json.readingsOf_arranged decimal, hjk, Json.readingsOf_arranged, Json.readings_congr hview]

theorem shapes_eq_of_alike (hview : o.SameView q) {js ks : List Json}
    (hsame : List.Forall₂ (fun j k => j.arranged decimal = k.arranged decimal) js ks) :
    js.map (·.shape o) = ks.map (·.shape q) := by
  induction hsame with
  | nil => rfl
  | cons hjk _ ih =>
      simp only [List.map_cons, ih]
      rw [← Json.shape_arranged decimal, hjk, Json.shape_arranged, Json.shape_congr hview]

theorem any_isObject_of_alike {js ks : List Json}
    (hsame : List.Forall₂ (fun j k => j.arranged decimal = k.arranged decimal) js ks) :
    js.any Json.isObject = ks.any Json.isObject := by
  induction hsame with
  | nil => rfl
  | cons hjk _ ih => rw [List.any_cons, List.any_cons, ih, ← Json.isObject_arranged decimal, hjk, Json.isObject_arranged]

-- The statistics of a field are those of its readings, and so is its text.
theorem text_eq_of_alike (hview : o.SameView q) {js ks : List Json}
    (hsame : List.Forall₂ (fun j k => j.arranged decimal = k.arranged decimal) js ks)
    (hlength : samples.length = others.length) {stats stats' : FieldStats}
    (hrs : Sample.allReadings o samples = .ok (js.flatMap (·.readings o)))
    (hrs' : Sample.allReadings q others = .ok (ks.flatMap (·.readings q)))
    (hstats : collectFields o samples = .ok stats) (hstats' : collectFields q others = .ok stats') (field : String) :
    (stats.get? field).map FieldStat.text = (stats'.get? field).map FieldStat.text := by
  rw [get?_collectFields hrs hstats, get?_collectFields hrs' hstats', readingsOf_eq_of_alike hview hsame, hlength]

theorem named_readings (js : List Json) : ∀ r ∈ js.flatMap (·.readings o), ∃ field, r.1 = .text field := by
  intro r hr
  obtain ⟨j, _, hr⟩ := List.mem_flatMap.mp hr
  cases j with
  | object members =>
      obtain ⟨m, _, rfl⟩ := List.mem_map.mp hr
      exact ⟨m.1, rfl⟩
  | _ => simp [Json.readings] at hr

theorem exists_group_of_alike (hview : o.SameView q) (hgh : Group.Alike decimal o.maxDepth q.maxDepth g h)
    (name : String) :
    ∃ text, Definition.group o name g.samples = .ok text ∧ Definition.group q name h.samples = .ok text := by
  have hlength := hgh.length_eq
  obtain ⟨_, js, ks, hjs, hks, hsame⟩ := hgh
  have hany := any_isObject_of_alike hsame
  rw [← Sample.any_isObject_of_samplesJson hjs, ← Sample.any_isObject_of_samplesJson hks] at hany
  cases hobject : g.samples.any Sample.isObject with
  | true =>
      have hrs := Sample.allReadings_of_samplesJson hjs
      have hrs' := Sample.allReadings_of_samplesJson hks
      have hstats := collectFields_eq_ok.mpr ⟨_, hrs, rfl⟩
      have hstats' := collectFields_eq_ok.mpr ⟨_, hrs', rfl⟩
      exact exists_group_of_text_eq hobject (hany ▸ hobject) hstats hstats'
        (named_of_readings hrs (named_readings js) hstats) (named_of_readings hrs' (named_readings ks) hstats')
        (text_eq_of_alike hview hsame hlength hrs hrs' hstats hstats') name
  | false =>
      by_cases hempty : g.samples = []
      · have hempty' : h.samples = [] := List.eq_nil_of_length_eq_zero (by rw [← hlength, hempty, List.length_nil])
        exact ⟨_, by rw [hempty]; rfl, by rw [hempty']; rfl⟩
      · have hempty' : h.samples ≠ [] := fun hnil => hempty (List.eq_nil_of_length_eq_zero (by simp [hlength, hnil]))
        rw [Definition.group_of_no_object hempty hobject, Definition.group_of_no_object hempty' (hany ▸ hobject)]
        simp only [Definition.synonym, Sample.sampleShapes_of_samplesJson hjs, Sample.sampleShapes_of_samplesJson hks,
          shapes_eq_of_alike hview hsame]
        exact ⟨_, rfl, rfl⟩

theorem exists_groups_of_alike (hview : o.SameView q) {gs hs : List Group}
    (h : List.Forall₂ (Group.Alike decimal o.maxDepth q.maxDepth) gs hs) (base : String) :
    ∃ texts, Definition.groups o base gs = .ok texts ∧ Definition.groups q base hs = .ok texts := by
  induction h with
  | nil => exact ⟨[], rfl, rfl⟩
  | @cons g h _ _ hgh _ ih =>
      obtain ⟨texts, hgs, hhs⟩ := ih
      obtain ⟨text, hg, hh⟩ := exists_group_of_alike hview hgh (declarationName base g.outcome)
      rw [hgh.1] at hh
      exact ⟨text :: texts, by simp [Definition.groups, hg, hgs], by simp [Definition.groups, hh, hhs]⟩

theorem exists_declarations_of_alike (hview : o.SameView q) {gs hs : List Group}
    (h : List.Forall₂ (Group.Alike decimal o.maxDepth q.maxDepth) (Group.inOrder gs) (Group.inOrder hs))
    (base : String) :
    ∃ definition, Definition.declarations o base gs = .ok definition ∧
      Definition.declarations q base hs = .ok definition := by
  have hempty : gs.isEmpty = hs.isEmpty := by
    have hlength := h.length_eq
    simp only [Group.inOrder, List.length_mergeSort] at hlength
    cases gs <;> cases hs <;> simp at hlength ⊢
  obtain ⟨texts, hgs, hhs⟩ := exists_groups_of_alike hview h base
  cases hnone : gs.isEmpty with
  | true => exact ⟨none, by simp [Definition.declarations, hnone], by simp [Definition.declarations, ← hempty, hnone]⟩
  | false =>
      refine ⟨some (String.ofList (Token.joined ['\n', '\n'] texts)), ?_, ?_⟩
      · simp [Definition.declarations, hnone, hgs]
      · simp [Definition.declarations, ← hempty, hnone, hhs]

-- Equal payloads have equal definitions, whatever guards the samples were checked against.
theorem declarations_eq_of_payload {routeId text : String} {gs hs : List Group}
    (hg : Signature.payload routeId gs o = .ok text) (hh : Signature.payload routeId hs q = .ok text) (base : String) :
    ∃ definition, Definition.declarations o base gs = .ok definition ∧
      Definition.declarations q base hs = .ok definition := by
  obtain ⟨_, hview, hgroups⟩ := Signature.payload_inj (fun _ => default) (fun _ _ _ => rfl) hg hh
  exact exists_declarations_of_alike hview hgroups base

-- One response with its members in either order.
def straightResponse : Sample :=
  ⟨#[.array true [.leaf (.integer 1)], .object [(.text "a", .leaf .null), (.text "b", .container 0)]], .container 1⟩

def turnedResponse : Sample :=
  ⟨#[.array false [.leaf (.integer 1)], .object [(.text "b", .container 0), (.text "a", .leaf .null)]], .container 1⟩

theorem declarations_of_turnedResponse :
    ∃ text definition,
      Signature.payload "r" [⟨.ofStatus (some 200), [straightResponse]⟩] {} = .ok text ∧
      Signature.payload "r" [⟨.ofStatus (some 200), [turnedResponse]⟩] { maxDepth := 2, windowSize := 1 } = .ok text ∧
      Definition.declarations {} "Pair" [⟨.ofStatus (some 200), [straightResponse]⟩] = .ok definition ∧
      Definition.declarations { maxDepth := 2, windowSize := 1 } "Pair" [⟨.ofStatus (some 200), [turnedResponse]⟩] =
        .ok definition := by
  have hgroup : ∀ g : Group, Group.inOrder [g] = [g] := fun g => List.mergeSort_singleton g
  obtain ⟨text, hg⟩ : ∃ text, Signature.payload "r" [⟨.ofStatus (some 200), [straightResponse]⟩] {} = .ok text := by
    refine ⟨_, Signature.payload_eq_ok.mpr ⟨_, by rw [hgroup]; rfl, Json.canonical_eq_ok.mpr ⟨?_, rfl⟩⟩⟩
    simp [Signature.optionsJson]
  have halike : Group.Alike id 64 2 ⟨.ofStatus (some 200), [straightResponse]⟩
      ⟨.ofStatus (some 200), [turnedResponse]⟩ := by
    refine ⟨rfl, _, _, rfl, rfl, .cons ?_ .nil⟩
    rw [Json.arranged_object, Json.arranged_object, Named.inOrder_eq_of_perm (.swap _ _ _) (by decide)]
  have hh : Signature.payload "r" [⟨.ofStatus (some 200), [turnedResponse]⟩] { maxDepth := 2, windowSize := 1 } =
      .ok text := by
    refine Signature.payload_of_alike (o := {}) ⟨rfl, rfl, rfl⟩ ?_ hg
    rw [hgroup, hgroup]
    exact .cons halike .nil
  obtain ⟨definition, hdefinition⟩ := declarations_eq_of_payload hg hh "Pair"
  exact ⟨text, definition, hg, hh, hdefinition⟩

end ShapeScribe
