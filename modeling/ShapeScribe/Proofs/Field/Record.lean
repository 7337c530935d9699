import ShapeScribe.Proofs.Field.Interface
import ShapeScribe.Proofs.Token.Order

/-!
Fields and records. The walk over the members of an object finds the tokens that the record of the object has, so the
union of a field is told by the shapes of the samples: it has the tokens of the field in their records, and is
optional when some sample lacks the field.
-/

namespace ShapeScribe

open Attempt

namespace Sample

variable {o : Options} {s : Sample} {p : Place} {members : List (Key × Value)} {name : String} {t : Token}

-- The record that is the shape of the sample has this token for the field.
def ShowsField (o : Options) (s : Sample) (name : String) (t : Token) : Prop :=
  ∃ fields, s.shape o = .ok (.record fields) ∧ (name, [t]) ∈ fields

-- No member of the sample is marked as absent.
def IsComplete (s : Sample) : Prop :=
  ∀ p members, s.object? = some (p, members) → ∀ m ∈ members, m.2 ≠ .leaf .missing

theorem shape_of_object? (hs : s.object? = some (p, members)) :
    s.shape o = .ok t ↔ 0 < o.maxDepth ∧ ∃ fields,
      memberShapes (s.shapeBelow o (o.room 1) [p]) members = .ok fields ∧ t = .record (Named.inOrder fields) := by
  obtain ⟨hroot, hcontents⟩ := object?_eq_some.mp hs
  rw [shape, hroot]
  cases hroom : o.room 0 with
  | zero =>
      have hdepth : ¬ 0 < o.maxDepth := by
        simp only [Options.room] at hroom
        omega
      simp [shapeBelow, hdepth]
  | succ room =>
      have hdepth : 0 < o.maxDepth := by
        simp only [Options.room] at hroom
        omega
      have hbelow : o.room 1 = room := by
        simp only [Options.room] at hroom ⊢
        omega
      simp only [shapeBelow, List.not_mem_nil, if_false, hcontents, containerShape, bind_eq_ok, pure_eq_ok, hbelow, hdepth,
        true_and]
      exact exists_congr fun fields => and_congr_right fun _ => eq_comm

theorem showsField_of_object? (hs : s.object? = some (p, members)) {fields : List (String × List Token)}
    (h : memberShapes (s.shapeBelow o (o.room 1) [p]) members = .ok fields) (hdepth : 0 < o.maxDepth) :
    s.ShowsField o name t ↔ (name, [t]) ∈ fields := by
  have hshape : s.shape o = .ok (.record (Named.inOrder fields)) := (shape_of_object? hs).mpr ⟨hdepth, fields, h, rfl⟩
  unfold ShowsField
  simp [hshape]

-- Only objects have records for shapes.
theorem exists_object_of_shape {fields : List (String × List Token)} (h : s.shape o = .ok (.record fields)) :
    ∃ p members, s.object? = some (p, members) := by
  unfold shape at h
  cases hroot : s.root with
  | leaf l =>
      have hleaf : l.shape o = .ok (.record fields) := by
        rw [hroot] at h
        cases hroom : o.room 0 <;> rw [hroom] at h <;> exact h
      cases l <;> simp [Leaf.shape, Token.null, Token.undefined, Token.boolean, Token.number] at hleaf
      split at hleaf <;> simp [Token.date, Token.string] at hleaf
  | container p =>
      cases hc : s.contents p with
      | object members => exact ⟨p, members, object?_eq_some.mpr ⟨hroot, hc⟩⟩
      | array fixed items =>
          cases hroom : o.room 0 <;> simp [hroot, hroom, shapeBelow, hc, containerShape] at h

-- Which member the token of a field comes from.
theorem showsField_iff (hs : s.object? = some (p, members)) {u : Token} (hshape : s.shape o = .ok u) :
    s.ShowsField o name t ↔ ∃ v, (.text name, v) ∈ members ∧ s.shapeBelow o (o.room 1) [p] v = .ok t := by
  obtain ⟨hdepth, fields, hfields, rfl⟩ := (shape_of_object? hs).mp hshape
  rw [showsField_of_object? hs hfields hdepth]
  have hall := memberShapes_eq_ok.mp hfields
  constructor
  · intro hmem
    obtain ⟨⟨key, v⟩, hm, hkey, w, hw, hunion⟩ := exists_item hall hmem
    simp only [List.cons.injEq, and_true] at hkey hunion
    exact ⟨v, hkey ▸ hm, hunion ▸ hw⟩
  · rintro ⟨v, hm, hv⟩
    obtain ⟨⟨n, union⟩, hf, hkey, w, hw, hunion⟩ := exists_result hall hm
    simp only [Key.text.injEq] at hkey hw hunion
    obtain rfl := Except.ok.inj (hv.symm.trans hw)
    rwa [hkey, ← hunion]

-- The members of an object that has a shape are named, and each has a shape.
theorem exists_shape_of_member (hs : s.object? = some (p, members)) {u : Token} (hshape : s.shape o = .ok u)
    {m : Key × Value} (hm : m ∈ members) :
    ∃ field t, m.1 = .text field ∧ s.shapeBelow o (o.room 1) [p] m.2 = .ok t := by
  obtain ⟨_, fields, hfields, rfl⟩ := (shape_of_object? hs).mp hshape
  obtain ⟨f, _, hkey, t, ht, _⟩ := exists_result (memberShapes_eq_ok.mp hfields) hm
  exact ⟨f.1, t, hkey, ht⟩

-- A null has the token of nulls, and no other value has a reading without a token.
theorem getD_reading {path : List Place} {v : Value} {r : Option Token}
    (hreading : reading (s.shapeBelow o (o.room 1) path) v = .ok r)
    (hv : s.shapeBelow o (o.room 1) path v = .ok t) : r.getD .null = t := by
  unfold reading at hreading
  split at hreading
  · rename_i hnull
    cases hreading
    subst hnull
    have hnull : s.shapeBelow o (o.room 1) path (.leaf .null) = .ok .null := by
      cases o.room 1 <;> rfl
    exact Except.ok.inj (hnull.symm.trans hv)
  · obtain ⟨u, hu, rfl⟩ := map_eq_ok.mp hreading
    exact Except.ok.inj (hu.symm.trans hv)

theorem exists_fieldReadings (hshape : s.isObject → ∃ u, s.shape o = .ok u) :
    ∃ rs, s.fieldReadings o = .ok rs ∧ ∀ r ∈ rs, ∃ field, r.1 = .text field := by
  cases hs : s.object? with
  | none => exact ⟨[], fieldReadings_of_object?_eq_none hs, by simp⟩
  | some object =>
      obtain ⟨p, members⟩ := object
      obtain ⟨u, hu⟩ := hshape (by simp [isObject, hs])
      have hsteps : ∀ m ∈ members.filter fun m => m.2 ≠ .leaf .missing, ∃ r : Key × Option Token,
          m.1 = r.1 ∧ reading (s.shapeBelow o (o.room 1) [p]) m.2 = .ok r.2 := by
        intro m hm
        obtain ⟨field, t, _, ht⟩ := exists_shape_of_member hs hu (List.mem_filter.mp hm).1
        by_cases hnull : m.2 = .leaf .null
        · exact ⟨(m.1, none), rfl, by simp [reading, hnull]⟩
        · exact ⟨(m.1, some t), rfl, by simp [reading, hnull, ht]⟩
      obtain ⟨rs, hrs⟩ := exists_results hsteps
      refine ⟨rs, (fieldReadings_eq_ok hs).mpr hrs, fun r hr => ?_⟩
      obtain ⟨m, hm, hkey, _⟩ := exists_item hrs hr
      obtain ⟨field, _, hfield, _⟩ := exists_shape_of_member hs hu (List.mem_filter.mp hm).1
      exact ⟨field, hkey ▸ hfield⟩

theorem nodup_keys (hkeys : s.HasDistinctKeys) (hs : s.object? = some (p, members)) {u : Token}
    (hshape : s.shape o = .ok u) : (members.map (·.1)).Nodup := by
  have hmembers := hkeys p
  rw [(object?_eq_some.mp hs).2] at hmembers
  refine Key.nodup_of_distinct hmembers fun m hm => ?_
  obtain ⟨field, _, hfield, _⟩ := exists_shape_of_member hs hshape hm
  exact ⟨field, hfield⟩

theorem value_unique (hkeys : s.HasDistinctKeys) (hs : s.object? = some (p, members)) {u : Token}
    (hshape : s.shape o = .ok u) {key : Key} {v w : Value} (hv : (key, v) ∈ members) (hw : (key, w) ∈ members) :
    v = w :=
  congrArg Prod.snd (List.inj_on_of_nodup_map (nodup_keys hkeys hs hshape) hv hw rfl)

-- A record names each field once, in rising order, and gives it one token.
theorem record_of_shape (hkeys : s.HasDistinctKeys) {fields : List (String × List Token)}
    (hshape : s.shape o = .ok (.record fields)) :
    (fields.map (·.1)).Pairwise (· < ·) ∧ ∀ f ∈ fields, ∃ t, f.2 = [t] := by
  obtain ⟨p, members, hs⟩ := exists_object_of_shape hshape
  obtain ⟨_, named, hnamed, hfields⟩ := (shape_of_object? hs).mp hshape
  obtain rfl := Token.record.inj hfields
  have hmembers := hkeys p
  rw [(object?_eq_some.mp hs).2] at hmembers
  have hall := memberShapes_eq_ok.mp hnamed
  have hnodup := Key.nodup_names hmembers (hall.imp fun _ _ => And.left)
  refine ⟨Named.inOrder_pairwise_lt hnodup, fun f hf => ?_⟩
  obtain ⟨_, _, _, t, _, hunion⟩ := exists_item hall (Named.mem_inOrder.mp hf)
  exact ⟨t, hunion⟩

theorem IsComplete.hasField (hcomplete : s.IsComplete) (hshows : s.ShowsField o name t) : s.HasField name := by
  have ⟨fields, hshape, _⟩ := hshows
  obtain ⟨p, members, hs⟩ := exists_object_of_shape hshape
  obtain ⟨v, hm, _⟩ := (showsField_iff hs hshape).mp hshows
  exact ⟨v, p, members, hs, hm, hcomplete p members hs _ hm⟩

theorem exists_showsField {u : Token} (hshape : s.shape o = .ok u) (hfield : s.HasField name) :
    ∃ t, s.ShowsField o name t := by
  obtain ⟨v, p, members, hs, hm, _⟩ := hfield
  obtain ⟨_, t, _, ht⟩ := exists_shape_of_member hs hshape hm
  exact ⟨t, (showsField_iff hs hshape).mpr ⟨v, hm, ht⟩⟩

-- What an object says about a field that it has is what its shape says.
theorem mem_fieldReadings_iff (hkeys : s.HasDistinctKeys) (hshape : s.isObject → ∃ u, s.shape o = .ok u)
    {rs : List (Key × Option Token)} (hrs : s.fieldReadings o = .ok rs) :
    (∃ r, (.text name, r) ∈ rs ∧ r.getD .null = t) ↔ s.HasField name ∧ s.ShowsField o name t := by
  constructor
  · rintro ⟨r, hr, rfl⟩
    obtain ⟨p, members, v, hs, hm, hv, hreading⟩ := exists_member_of_reading hrs hr
    obtain ⟨u, hu⟩ := hshape (by simp [isObject, hs])
    obtain ⟨_, t, _, ht⟩ := exists_shape_of_member hs hu hm
    refine ⟨⟨v, p, members, hs, hm, hv⟩, (showsField_iff hs hu).mpr ⟨v, hm, ?_⟩⟩
    rw [getD_reading hreading ht, ht]
  · rintro ⟨⟨v, p, members, hs, hm, hv⟩, hshows⟩
    obtain ⟨u, hu⟩ := hshape (by simp [isObject, hs])
    obtain ⟨w, hw, ht⟩ := (showsField_iff hs hu).mp hshows
    obtain rfl := value_unique hkeys hs hu hm hw
    obtain ⟨r, hr, hreading⟩ := exists_reading_of_member hrs hs hm hv
    exact ⟨r, hr, getD_reading hreading ht⟩

-- Only an absent member has the undefined token.
theorem eq_missing_of_shapeBelow {room : Nat} {path : List Place} {v : Value}
    (h : s.shapeBelow o room path v = .ok .undefined) : v = .leaf .missing := by
  cases v with
  | leaf l =>
      have hleaf : l.shape o = .ok .undefined := by
        cases room <;> exact h
      cases l <;> simp [Leaf.shape, Token.null, Token.undefined, Token.boolean, Token.number] at hleaf ⊢
      split at hleaf <;> simp [Token.date, Token.string] at hleaf
  | container p =>
      cases room with
      | zero =>
          simp only [shapeBelow] at h
          split at h <;> simp [Token.circular, Token.undefined] at h
      | succ room =>
          simp only [shapeBelow] at h
          split at h
          · simp [Token.circular, Token.undefined] at h
          · cases hc : s.contents p <;> simp [hc, containerShape, Token.undefined] at h

-- A field that an object has is there, so its token is another one.
theorem not_showsField_undefined (hkeys : s.HasDistinctKeys) (hfield : s.HasField name) :
    ¬ s.ShowsField o name .undefined := by
  intro hshows
  obtain ⟨v, p, members, hs, hm, hv⟩ := hfield
  have ⟨fields, hshape, _⟩ := hshows
  obtain ⟨w, hw, hundefined⟩ := (showsField_iff hs hshape).mp hshows
  obtain rfl := value_unique hkeys hs hshape hm hw
  exact hv (eq_missing_of_shapeBelow hundefined)

theorem mem_allReadings_iff {samples : List Sample} {rs : List (Key × Option Token)}
    (hrs : allReadings o samples = .ok rs) {r : Key × Option Token} :
    r ∈ rs ↔ ∃ s ∈ samples, ∃ part, s.fieldReadings o = .ok part ∧ r ∈ part := by
  obtain ⟨parts, hparts, rfl⟩ := allReadings_eq_ok.mp hrs
  simp only [List.mem_flatten, mem_results_iff hparts]
  constructor
  · rintro ⟨part, ⟨s, hs, hpart⟩, hr⟩
    exact ⟨s, hs, part, hpart, hr⟩
  · rintro ⟨s, hs, part, hpart, hr⟩
    exact ⟨part, ⟨s, hs, hpart⟩, hr⟩

end Sample

variable {o : Options} {samples : List Sample} {stats : FieldStats} {name : String} {t : Token}

-- Every object that has a shape has readings with names, so there are statistics to collect.
theorem exists_collectFields (hshapes : ∀ s ∈ samples, s.isObject → ∃ u, s.shape o = .ok u) :
    ∃ stats, collectFields o samples = .ok stats ∧ ∀ f ∈ stats, ∃ field, f.1 = .text field := by
  obtain ⟨parts, hparts⟩ := exists_results fun s hs => Sample.exists_fieldReadings (hshapes s hs)
  have hrs : Sample.allReadings o samples = .ok parts.flatten :=
    Sample.allReadings_eq_ok.mpr ⟨parts, hparts.imp fun _ _ h => h.1, rfl⟩
  have hstats := collectFields_eq_ok.mpr ⟨_, hrs, rfl⟩
  refine ⟨_, hstats, named_of_readings hrs (fun r hr => ?_) hstats⟩
  obtain ⟨part, hpart, hr⟩ := List.mem_flatten.mp hr
  obtain ⟨s, _, _, hnamed⟩ := exists_item hparts hpart
  exact hnamed r hr

theorem exists_get?_iff (hstats : collectFields o samples = .ok stats) :
    (∃ stat, stats.get? name = some stat) ↔ ∃ s ∈ samples, s.HasField name := by
  obtain ⟨rs, hrs, _⟩ := collectFields_eq_ok.mp hstats
  rw [get?_collectFields hrs hstats]
  constructor
  · intro hstat
    have hne : readingsOf name rs ≠ [] := fun hnil => by simp [hnil] at hstat
    obtain ⟨r, hr⟩ := List.exists_mem_of_ne_nil _ hne
    obtain ⟨s, hs, part, hpart, hr⟩ := (Sample.mem_allReadings_iff hrs).mp (mem_readingsOf.mp hr)
    obtain ⟨p, members, v, hobject, hm, hv, _⟩ := Sample.exists_member_of_reading hpart hr
    exact ⟨s, hs, v, p, members, hobject, hm, hv⟩
  · rintro ⟨s, hs, v, p, members, hobject, hm, hv⟩
    obtain ⟨parts, hparts, rfl⟩ := Sample.allReadings_eq_ok.mp hrs
    obtain ⟨part, hpart, hreadings⟩ := exists_result hparts hs
    obtain ⟨r, hr, _⟩ := Sample.exists_reading_of_member hreadings hobject hm hv
    have hmem : r ∈ readingsOf name parts.flatten := mem_readingsOf.mpr (List.mem_flatten_of_mem hpart hr)
    rw [if_neg (List.ne_nil_of_mem hmem)]
    exact ⟨_, rfl⟩

-- The union of a field has the tokens of the field in the records of those that have it, and is optional when some
-- sample has not.
theorem mem_union_iff (hkeys : ∀ s ∈ samples, s.HasDistinctKeys)
    (hshapes : ∀ s ∈ samples, s.isObject → ∃ u, s.shape o = .ok u) (hstats : collectFields o samples = .ok stats)
    {stat : FieldStat} (hstat : stats.get? name = some stat) :
    t ∈ stat.union ↔ (∃ s ∈ samples, s.HasField name ∧ s.ShowsField o name t) ∨
      (∃ s ∈ samples, ¬ s.HasField name) ∧ t = .undefined := by
  obtain ⟨rs, hrs, _⟩ := collectFields_eq_ok.mp hstats
  have htokens : (∃ r ∈ readingsOf name rs, r.getD .null = t) ↔
      ∃ s ∈ samples, s.HasField name ∧ s.ShowsField o name t := by
    constructor
    · rintro ⟨r, hr, ht⟩
      obtain ⟨s, hs, part, hpart, hr⟩ := (Sample.mem_allReadings_iff hrs).mp (mem_readingsOf.mp hr)
      exact ⟨s, hs, (Sample.mem_fieldReadings_iff (hkeys s hs) (hshapes s hs) hpart).mp ⟨r, hr, ht⟩⟩
    · rintro ⟨s, hs, hshown⟩
      obtain ⟨part, hpart, _⟩ := Sample.exists_fieldReadings (hshapes s hs)
      obtain ⟨r, hr, ht⟩ := (Sample.mem_fieldReadings_iff (hkeys s hs) (hshapes s hs) hpart).mpr hshown
      exact ⟨r, mem_readingsOf.mpr ((Sample.mem_allReadings_iff hrs).mpr ⟨s, hs, part, hpart, hr⟩), ht⟩
  obtain ⟨parts, hparts, rfl⟩ := Sample.allReadings_eq_ok.mp hrs
  rw [mem_union_of_get? hrs hstats hstat, (Sample.length_readingsOf_flatten hparts hkeys).2, htokens]

-- The fields of a list of samples, each with the union that the shapes of the samples make of it.
structure FieldsOf (o : Options) (samples : List Sample) (fields : List (String × List Token)) : Prop where
  rising : (fields.map (·.1)).Pairwise (· < ·)
  names : ∀ name, name ∈ fields.map (·.1) ↔ ∃ s ∈ samples, s.HasField name
  tokens : ∀ f ∈ fields, ∀ t, t ∈ f.2 ↔ (∃ s ∈ samples, s.HasField f.1 ∧ s.ShowsField o f.1 t) ∨
    (∃ s ∈ samples, ¬ s.HasField f.1) ∧ t = .undefined
  optional : ∀ f ∈ fields, .undefined ∈ f.2 ↔ ∃ s ∈ samples, ¬ s.HasField f.1

theorem exists_fieldsOf (hkeys : ∀ s ∈ samples, s.HasDistinctKeys)
    (hshapes : ∀ s ∈ samples, s.isObject → ∃ u, s.shape o = .ok u) :
    ∃ fields, FieldsOf o samples fields ∧
      fieldMap o samples = .ok (fields.map fun f => (.text f.1, Token.unionText .unknown f.2)) := by
  obtain ⟨stats, hstats, hnamed⟩ := exists_collectFields hshapes
  obtain ⟨entries, hmap, hrising, hentries⟩ := exists_fieldMap hstats hnamed
  have hunion : ∀ f ∈ entries.map fun f => (f.1, f.2.union), ∀ t, t ∈ f.2 ↔
      (∃ s ∈ samples, s.HasField f.1 ∧ s.ShowsField o f.1 t) ∨ (∃ s ∈ samples, ¬ s.HasField f.1) ∧ t = .undefined := by
    intro f hf t
    obtain ⟨⟨name, stat⟩, hentry, rfl⟩ := List.mem_map.mp hf
    exact mem_union_iff hkeys hshapes hstats ((hentries _ _).mp hentry)
  refine ⟨entries.map fun f => (f.1, f.2.union), ⟨?_, fun name => ?_, hunion, fun f hf => ?_⟩, ?_⟩
  · rwa [List.map_map]
  · rw [← exists_get?_iff hstats]
    simp [← hentries]
  · rw [hunion f hf]
    constructor
    · rintro (⟨s, hs, hfield, hshows⟩ | ⟨hlacks, _⟩)
      · exact absurd hshows (Sample.not_showsField_undefined (hkeys s hs) hfield)
      · exact hlacks
    · exact fun hlacks => .inr ⟨hlacks, rfl⟩
  · rw [hmap, List.map_map]
    rfl

-- The samples leave no choice of their fields, and none of what is written for them.
theorem FieldsOf.text_eq {fields fields' : List (String × List Token)} (h : FieldsOf o samples fields)
    (h' : FieldsOf o samples fields') :
    (fields.map fun f => (f.1, Token.unionText .unknown f.2)) =
      fields'.map fun f => (f.1, Token.unionText .unknown f.2) := by
  have hsub : ∀ {fs gs : List (String × List Token)}, FieldsOf o samples fs → FieldsOf o samples gs →
      ∀ p ∈ fs.map (fun f => (f.1, Token.unionText .unknown f.2)),
        p ∈ gs.map fun f => (f.1, Token.unionText .unknown f.2) := by
    intro fs gs hfs hgs p hp
    obtain ⟨f, hf, rfl⟩ := List.mem_map.mp hp
    have hname : f.1 ∈ gs.map (·.1) := (hgs.names _).mpr ((hfs.names _).mp (List.mem_map_of_mem hf))
    obtain ⟨g, hg, hsame⟩ := List.mem_map.mp hname
    refine List.mem_map.mpr ⟨g, hg, Prod.ext hsame (Token.unionText_congr _ fun t => ?_)⟩
    rw [hgs.tokens g hg, hfs.tokens f hf, hsame]
  apply Named.eq_of_pairwise_lt
  · rw [List.map_map]
    exact h.rising
  · rw [List.map_map]
    exact h'.rising
  · exact fun p => ⟨hsub h h' p, hsub h' h p⟩

theorem FieldsOf.fieldMap_eq {fields : List (String × List Token)} (h : FieldsOf o samples fields)
    (hkeys : ∀ s ∈ samples, s.HasDistinctKeys) (hshapes : ∀ s ∈ samples, s.isObject → ∃ u, s.shape o = .ok u) :
    fieldMap o samples = .ok (fields.map fun f => (.text f.1, Token.unionText .unknown f.2)) := by
  obtain ⟨others, hothers, hmap⟩ := exists_fieldsOf hkeys hshapes
  rw [hmap]
  simpa [Function.comp_def] using congrArg (List.map fun f => (Key.text f.1, f.2)) (hothers.text_eq h)

-- A complete object that is the only sample has the fields of its own record.
theorem FieldsOf.of_single {s : Sample} (hkeys : s.HasDistinctKeys) (hcomplete : s.IsComplete)
    {fields : List (String × List Token)} (hshape : s.shape o = .ok (.record fields)) : FieldsOf o [s] fields := by
  obtain ⟨hrising, htokens⟩ := Sample.record_of_shape hkeys hshape
  have hshows : ∀ {name t}, s.ShowsField o name t ↔ (name, [t]) ∈ fields := by
    intro name t
    constructor
    · rintro ⟨others, hothers, hf⟩
      obtain rfl := Token.record.inj (Except.ok.inj (hshape.symm.trans hothers))
      exact hf
    · exact fun hf => ⟨fields, hshape, hf⟩
  have hhas : ∀ name union, (name, union) ∈ fields → s.HasField name := by
    intro name union hf
    obtain ⟨t, ht⟩ := htokens _ hf
    obtain rfl : union = [t] := ht
    exact hcomplete.hasField (hshows.mpr hf)
  have hsole : ∀ f ∈ fields, ∀ t, t ∈ f.2 ↔ s.ShowsField o f.1 t := by
    rintro ⟨name, union⟩ hf t
    obtain ⟨u, hu⟩ := htokens _ hf
    obtain rfl : union = [u] := hu
    rw [hshows, List.mem_singleton]
    constructor
    · rintro rfl
      exact hf
    · intro ht
      have hnodup : (fields.map (·.1)).Nodup := hrising.imp String.ne_of_lt
      simpa using List.inj_on_of_nodup_map hnodup ht hf rfl
  refine ⟨hrising, fun name => ?_, fun f hf t => ?_, fun f hf => ?_⟩
  · simp only [List.mem_singleton, exists_eq_left, List.mem_map]
    constructor
    · rintro ⟨f, hf, rfl⟩
      exact hhas _ _ hf
    · intro hfield
      obtain ⟨t, ht⟩ := Sample.exists_showsField hshape hfield
      exact ⟨_, hshows.mp ht, rfl⟩
  · simp [hsole f hf, hhas _ _ hf]
  · simp [hsole f hf, hhas _ _ hf, Sample.not_showsField_undefined hkeys (hhas _ _ hf)]

-- The map of the fields is told by the shapes of the samples, and for one complete object it is the record of its shape.
theorem fieldMap_of_shapes (hkeys : ∀ s ∈ samples, s.HasDistinctKeys)
    (hshapes : ∀ s ∈ samples, s.isObject → ∃ u, s.shape o = .ok u) :
    (∃ fields, FieldsOf o samples fields ∧
      fieldMap o samples = .ok (fields.map fun f => (.text f.1, Token.unionText .unknown f.2))) ∧
    ∀ s, samples = [s] → s.isObject → s.IsComplete →
      ∃ fields, s.shape o = .ok (.record fields) ∧
        fieldMap o samples = .ok (fields.map fun f => (.text f.1, Token.unionText .unknown f.2)) ∧
        ∀ name, Definition.group o name samples =
          .ok (Definition.interface name (fields.map fun f => (f.1, Token.unionText .unknown f.2))) := by
  refine ⟨exists_fieldsOf hkeys hshapes, ?_⟩
  rintro s rfl hobject hcomplete
  have hmem := List.mem_singleton_self s
  obtain ⟨⟨p, members⟩, hs⟩ := Option.isSome_iff_exists.mp hobject
  obtain ⟨u, hu⟩ := hshapes s hmem hobject
  obtain ⟨_, named, _, rfl⟩ := (Sample.shape_of_object? hs).mp hu
  have hmap := (FieldsOf.of_single (hkeys s hmem) hcomplete hu).fieldMap_eq hkeys hshapes
  refine ⟨_, hu, hmap, Definition.group_of_fieldMap (by simpa using hobject) ?_⟩
  rw [hmap, List.map_map]
  rfl

-- An object that holds itself and marks a member as absent, an object in which nothing is absent, and an array.
def cyclicSample : Sample :=
  ⟨#[.object [(.text "self", .container 0), (.text "a", .leaf .null), (.text "c", .leaf .missing)]], .container 0⟩

def completeSample : Sample :=
  ⟨#[.object [(.text "b", .container 1), (.text "a", .leaf (.boolean true))], .array false []], .container 0⟩

def arraySample : Sample := ⟨#[.array true []], .container 0⟩

theorem fieldMap_of_cyclicSample :
    (∃ fields, FieldsOf { maxDepth := 2 } [cyclicSample, completeSample, arraySample] fields ∧
      fieldMap { maxDepth := 2 } [cyclicSample, completeSample, arraySample] =
        .ok (fields.map fun f => (.text f.1, Token.unionText .unknown f.2))) ∧
    ∃ fields, completeSample.shape { maxDepth := 2 } = .ok (.record fields) ∧
      fieldMap { maxDepth := 2 } [completeSample] =
        .ok (fields.map fun f => (.text f.1, Token.unionText .unknown f.2)) ∧
      ∀ name, Definition.group { maxDepth := 2 } name [completeSample] =
        .ok (Definition.interface name (fields.map fun f => (f.1, Token.unionText .unknown f.2))) := by
  have hcontainers : ∀ s ∈ [cyclicSample, completeSample, arraySample], ∀ c ∈ s.containers.toList,
      c.HasDistinctKeys := by decide
  have hkeys : ∀ s ∈ [cyclicSample, completeSample, arraySample], s.HasDistinctKeys := fun s hs =>
    Sample.hasDistinctKeys_of_containers fun c hc => hcontainers s hs c (by simpa using hc)
  have hshapes : ∀ s ∈ [cyclicSample, completeSample, arraySample], s.isObject →
      ∃ u, s.shape { maxDepth := 2 } = .ok u := by
    intro s hs _
    simp only [List.mem_cons, List.not_mem_nil, or_false] at hs
    rcases hs with rfl | rfl | rfl
    all_goals exact ⟨_, rfl⟩
  have hcomplete : completeSample.IsComplete := by
    rintro p members hs m hm
    cases hs
    simp only [List.mem_cons, List.not_mem_nil, or_false] at hm
    rcases hm with rfl | rfl
    all_goals simp
  refine ⟨(fieldMap_of_shapes hkeys hshapes).1, ?_⟩
  have hsole : ∀ s ∈ [completeSample], s ∈ [cyclicSample, completeSample, arraySample] := by simp
  exact (fieldMap_of_shapes (fun s hs => hkeys s (hsole s hs)) fun s hs => hshapes s (hsole s hs)).2 completeSample rfl
    rfl hcomplete

end ShapeScribe
