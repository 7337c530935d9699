import ShapeScribe.Proofs.Field.Record
import ShapeScribe.Proofs.Shape.Refusal

/-!
Which samples the fields cannot be collected from. The members of an object are walked for the fields in the same order
as for its shape, so both walks end at the same fault, except that only the walk for the shape asks for names. What it
would refuse for a name is let through to the fields, or leaves keys that cannot be put in order.
-/

namespace ShapeScribe

open Attempt Relation

namespace Sample

variable {o : Options} {s : Sample} {samples : List Sample} {p : Place} {members : List (Key × Value)} {fault : Fault}
  {shapeOf : Value → Except Fault Token}

-- The members of the sample, if it is an object, are named.
def HasNames (s : Sample) : Prop := ∀ p, s.root = .container p → (s.contents p).HasTextKeys

theorem IsJson.hasNames (hs : s.IsJson) : s.HasNames := fun p hp => hs.keys p ⟨p, hp, .refl⟩

-- Values that are null or absent have a shape, so it makes no difference that they are not asked for one.
theorem readings_error_iff (hnull : ∃ t, shapeOf (.leaf .null) = .ok t) (hmissing : ∃ t, shapeOf (.leaf .missing) = .ok t)
    (hkeys : ∀ m ∈ members, m.1.isText = true) :
    readings shapeOf members = .error fault ↔ memberShapes shapeOf members = .error fault := by
  fun_induction readings shapeOf members with
  | case1 => simp [memberShapes]
  | case2 rest key ih =>
      obtain ⟨hkey, hrest⟩ := List.forall_mem_cons.mp hkeys
      obtain ⟨name, rfl⟩ := Key.isText_iff.mp hkey
      obtain ⟨u, hu⟩ := hmissing
      simp [memberShapes, bind_eq_error, map_eq_error, hu, ih hrest]
  | case3 rest key ih =>
      obtain ⟨hkey, hrest⟩ := List.forall_mem_cons.mp hkeys
      obtain ⟨name, rfl⟩ := Key.isText_iff.mp hkey
      obtain ⟨t, ht⟩ := hnull
      simp [memberShapes, bind_eq_error, map_eq_error, ht, ih hrest]
  | case4 rest key v hpresent hvalue ih =>
      obtain ⟨hkey, hrest⟩ := List.forall_mem_cons.mp hkeys
      obtain ⟨name, rfl⟩ := Key.isText_iff.mp hkey
      simp [memberShapes, bind_eq_error, map_eq_error, ih hrest]

theorem shape_eq_tokenAt : s.shape o = s.tokenAt o ⟨[], s.root⟩ := rfl

theorem shape_error_of_object? (hs : s.object? = some (p, members)) (hdepth : 0 < o.maxDepth) :
    s.shape o = .error fault ↔ memberShapes (s.shapeBelow o (o.room 1) [p]) members = .error fault := by
  obtain ⟨hroot, hcontents⟩ := object?_eq_some.mp hs
  have hwalk : (fun v => s.tokenAt o ⟨[p], v⟩) = s.shapeBelow o (o.room 1) [p] := rfl
  rw [shape_eq_tokenAt, hroot, tokenAt_container List.not_mem_nil (by simpa using hdepth), hcontents, hwalk]
  simp [containerShape, map_eq_error]

-- Where the members are named, the fields of an object are refused for the fault that its shape is refused for.
theorem fieldReadings_error_iff (hs : s.object? = some (p, members)) (hdepth : 0 < o.maxDepth)
    (hkeys : ∀ m ∈ members, m.1.isText = true) :
    s.fieldReadings o = .error fault ↔ s.shape o = .error fault := by
  have hleaf : ∀ l t, l.shape o = .ok t → ∃ t, s.shapeBelow o (o.room 1) [p] (.leaf l) = .ok t := by
    intro l t ht
    exact ⟨t, (tokenAt_leaf [p] l).trans ht⟩
  rw [shape_error_of_object? hs hdepth, fieldReadings, hs]
  exact readings_error_iff (hleaf .null _ rfl) (hleaf .missing _ rfl) hkeys

-- Whatever the keys are, a fault is that of a member.
theorem exists_member_of_readings_error (h : readings shapeOf members = .error fault) :
    ∃ m ∈ members, shapeOf m.2 = .error fault := by
  fun_induction readings shapeOf members with
  | case1 => cases h
  | case2 rest key ih =>
      obtain ⟨m, hm, hfault⟩ := ih h
      exact ⟨m, List.mem_cons_of_mem _ hm, hfault⟩
  | case3 rest key ih =>
      simp only [bind_pure_comp, map_eq_error] at h
      obtain ⟨m, hm, hfault⟩ := ih h
      exact ⟨m, List.mem_cons_of_mem _ hm, hfault⟩
  | case4 rest key v hpresent hvalue ih =>
      simp only [bind_pure_comp, bind_eq_error, map_eq_error] at h
      rcases h with h | ⟨_, _, h⟩
      · exact ⟨_, List.mem_cons_self, h⟩
      · obtain ⟨m, hm, hfault⟩ := ih h
        exact ⟨m, List.mem_cons_of_mem _ hm, hfault⟩

-- The samples are read one after another, up to the first that is refused.
theorem allReadings_error_iff :
    allReadings o samples = .error fault ↔
      ∃ earlier s later, samples = earlier ++ s :: later ∧ (∀ e ∈ earlier, ∃ rs, e.fieldReadings o = .ok rs) ∧
        s.fieldReadings o = .error fault := by
  induction samples with
  | nil => simp [allReadings]
  | cons s rest ih =>
      simp only [allReadings, bind_pure_comp, bind_eq_error, map_eq_error, ih]
      constructor
      · rintro (h | ⟨rs, hrs, earlier, t, later, rfl, hearlier, h⟩)
        · exact ⟨[], s, rest, rfl, by simp, h⟩
        · exact ⟨s :: earlier, t, later, rfl, List.forall_mem_cons.mpr ⟨⟨rs, hrs⟩, hearlier⟩, h⟩
      · rintro ⟨earlier, t, later, hsplit, hearlier, h⟩
        cases earlier with
        | nil =>
            obtain ⟨rfl, rfl⟩ := List.cons.inj hsplit
            exact .inl h
        | cons e earlier =>
            obtain ⟨rfl, rfl⟩ := List.cons.inj hsplit
            obtain ⟨⟨rs, hrs⟩, hearlier⟩ := List.forall_mem_cons.mp hearlier
            exact .inr ⟨rs, hrs, earlier, t, later, rfl, hearlier, h⟩

-- Something below the object stands in the way of a shape.
def IsRefusedWithin (o : Options) (s : Sample) : Prop :=
  s.isObject ∧ ∃ pos fault, s.Visits o pos ∧ pos.path ≠ [] ∧ s.FailsAt o pos fault

-- What is below an object is below one of its members.
theorem isRefusedWithin_iff (hs : s.object? = some (p, members)) :
    s.IsRefusedWithin o ↔ ∃ m ∈ members, ∃ fault, s.tokenAt o ⟨[p], m.2⟩ = .error fault := by
  obtain ⟨hroot, hcontents⟩ := object?_eq_some.mp hs
  have hobject : s.isObject := by simp [isObject, hs]
  simp only [tokenAt_fails_iff, IsRefusedWithin, hobject, true_and, Visits, hroot]
  constructor
  · rintro ⟨pos, fault, hvisit, hpath, hfails⟩
    rcases ReflTransGen.cases_head hvisit with rfl | ⟨_, hstep, hbelow⟩
    · exact absurd rfl hpath
    · cases hstep with
      | step _ hv =>
          rw [hcontents] at hv
          obtain ⟨m, hm, rfl⟩ := List.mem_map.mp hv
          exact ⟨m, hm, pos, fault, hbelow, hfails⟩
  · rintro ⟨m, hm, pos, fault, hbelow, hfails⟩
    have hstep : s.Descends o ⟨[], .container p⟩ ⟨[p], m.2⟩ := by
      refine .step List.not_mem_nil ?_
      rw [hcontents]
      exact List.mem_map_of_mem hm
    exact ⟨pos, fault, .head hstep hbelow, path_ne_nil hbelow (by simp), hfails⟩

theorem fieldReadings_fails_iff :
    (∃ fault, s.fieldReadings o = .error fault) ↔ s.IsRefusedWithin o := by
  cases hs : s.object? with
  | none =>
      have hobject : ¬ s.isObject := by simp [isObject, hs]
      simp [fieldReadings_of_object?_eq_none hs, IsRefusedWithin, hobject]
  | some object =>
      obtain ⟨p, members⟩ := object
      rw [isRefusedWithin_iff hs]
      constructor
      · rintro ⟨fault, h⟩
        rw [fieldReadings, hs] at h
        obtain ⟨m, hm, hfault⟩ := exists_member_of_readings_error h
        exact ⟨m, hm, fault, hfault⟩
      · rintro ⟨m, hm, fault, hfault⟩
        rcases ok_or_error (s.fieldReadings o) with ⟨rs, hrs⟩ | herror
        · have hpresent : m.2 ≠ .leaf .missing := by
            intro hmissing
            rw [hmissing, tokenAt_leaf] at hfault
            cases hfault
          obtain ⟨r, _, hreading⟩ := exists_reading_of_member hrs hs hm hpresent
          have hread : reading (s.shapeBelow o (o.room 1) [p]) m.2 = .error fault := by
            unfold reading
            split
            · rename_i hnull
              rw [hnull, tokenAt_leaf] at hfault
              cases hfault
            · exact map_eq_error.mpr hfault
          simp [hread] at hreading
        · exact herror

-- The walk for the shape refuses an object for a key as well.
theorem shape_fails_iff (hobject : s.isObject) (hdepth : 0 < o.maxDepth) :
    (∃ fault, s.shape o = .error fault) ↔ s.IsRefusedWithin o ∨ ¬ s.HasNames := by
  obtain ⟨⟨p, members⟩, hs⟩ := Option.isSome_iff_exists.mp hobject
  obtain ⟨hroot, hcontents⟩ := object?_eq_some.mp hs
  by_cases hnames : s.HasNames
  · have hkeys := hnames p hroot
    rw [hcontents] at hkeys
    simp only [hnames, not_true_eq_false, or_false, ← fieldReadings_fails_iff, fieldReadings_error_iff hs hdepth hkeys]
  · refine iff_of_true ?_ (.inr hnames)
    rcases ok_or_error (s.shape o) with ⟨t, ht⟩ | herror
    · refine absurd (fun q hq => ?_) hnames
      obtain rfl := Value.container.inj (hroot.symm.trans hq)
      rw [hcontents]
      intro m hm
      obtain ⟨field, _, hfield, _⟩ := exists_shape_of_member hs ht hm
      exact Key.isText_iff.mpr ⟨field, hfield⟩
    · exact herror

end Sample

variable {o : Options} {samples : List Sample} {stats : FieldStats} {fault : Fault}

theorem collectFields_error_iff :
    collectFields o samples = .error fault ↔ Sample.allReadings o samples = .error fault := by
  simp [collectFields, map_eq_error]

theorem collectFields_fails_iff :
    (∃ fault, collectFields o samples = .error fault) ↔ ∃ s ∈ samples, s.IsRefusedWithin o := by
  simp only [collectFields_error_iff, ← Sample.fieldReadings_fails_iff]
  constructor
  · rintro ⟨fault, h⟩
    obtain ⟨earlier, s, later, rfl, _, hfault⟩ := Sample.allReadings_error_iff.mp h
    exact ⟨s, by simp, fault, hfault⟩
  · rintro ⟨s, hs, fault, hfault⟩
    rcases ok_or_error (Sample.allReadings o samples) with ⟨rs, hrs⟩ | herror
    · obtain ⟨parts, hparts, _⟩ := Sample.allReadings_eq_ok.mp hrs
      obtain ⟨part, _, hpart⟩ := exists_result hparts hs
      simp [hfault] at hpart
    · exact herror

theorem fieldMap_error_iff :
    fieldMap o samples = .error fault ↔ collectFields o samples = .error fault ∨
      ∃ stats, collectFields o samples = .ok stats ∧ Key.inOrder stats = .error fault := by
  simp [fieldMap, bind_eq_error, map_eq_error]

theorem family_of_collectFields (h : collectFields o samples = .error fault) : fault.family ≠ .mixedKeys := by
  obtain ⟨_, s, _, _, _, hfault⟩ := Sample.allReadings_error_iff.mp (collectFields_error_iff.mp h)
  cases hs : s.object? with
  | none => simp [Sample.fieldReadings_of_object?_eq_none hs] at hfault
  | some object =>
      obtain ⟨p, members⟩ := object
      rw [Sample.fieldReadings, hs] at hfault
      obtain ⟨m, _, hvalue⟩ := Sample.exists_member_of_readings_error hfault
      obtain ⟨_, _, hfails⟩ := Sample.exists_failsAt [p] m.2 hvalue
      rcases hfails.family with hfamily | hfamily
      all_goals simp [hfamily]

-- The keys of the statistics are those of the members.
theorem named_collectFields (hnames : ∀ s ∈ samples, s.isObject → s.HasNames)
    (hstats : collectFields o samples = .ok stats) : ∀ f ∈ stats, ∃ name, f.1 = .text name := by
  obtain ⟨rs, hrs, _⟩ := collectFields_eq_ok.mp hstats
  refine named_of_readings hrs (fun r hr => ?_) hstats
  obtain ⟨parts, hparts, rfl⟩ := Sample.allReadings_eq_ok.mp hrs
  obtain ⟨part, hpart, hr⟩ := List.mem_flatten.mp hr
  obtain ⟨s, hs, hreadings⟩ := exists_item hparts hpart
  obtain ⟨p, members, v, hmembers, hm, _⟩ := Sample.exists_member_of_reading hreadings hr
  obtain ⟨hroot, hcontents⟩ := Sample.object?_eq_some.mp hmembers
  have hkeys := hnames s hs (by simp [Sample.isObject, hmembers]) p hroot
  rw [hcontents] at hkeys
  exact Key.isText_iff.mp (hkeys _ hm)

theorem exists_unnamed {s : Sample} {key : Key} {v : Value} (hs : s ∈ samples) (hm : s.HasMember key v)
    (hkey : key.isText = false) (hstats : collectFields o samples = .ok stats) : ∃ f ∈ stats, f.1.isText = false := by
  obtain ⟨rs, hrs, rfl⟩ := collectFields_eq_ok.mp hstats
  obtain ⟨parts, hparts, rfl⟩ := Sample.allReadings_eq_ok.mp hrs
  obtain ⟨part, hpart, hreadings⟩ := exists_result hparts hs
  obtain ⟨p, members, hmembers, hmember, hv⟩ := hm
  obtain ⟨r, hr, _⟩ := Sample.exists_reading_of_member hreadings hmembers hmember hv
  obtain ⟨k, stat, hk, hsame⟩ := FieldStats.exists_mem_gathered (List.mem_flatten.mpr ⟨part, hpart, hr⟩)
  refine ⟨(k, stat.marked samples.length), List.mem_map_of_mem hk, ?_⟩
  rcases hsame with rfl | hsame
  · exact hkey
  · cases k with
    | text name =>
        obtain rfl : key = .text name := Key.text_same.mp hsame
        cases hkey
    | _ => rfl

-- Where the members of objects are named, the first object without a shape decides.
theorem fieldMap_error_iff_of_names (hdepth : 0 < o.maxDepth) (hnames : ∀ s ∈ samples, s.isObject → s.HasNames) :
    fieldMap o samples = .error fault ↔
      ∃ earlier s later, samples = earlier ++ s :: later ∧ (∀ e ∈ earlier, e.isObject → ∃ t, e.shape o = .ok t) ∧
        s.isObject ∧ s.shape o = .error fault := by
  have hreadings : ∀ s ∈ samples, ∀ fault, s.fieldReadings o = .error fault ↔ s.isObject ∧ s.shape o = .error fault := by
    intro s hs fault
    cases hmembers : s.object? with
    | none => simp [Sample.fieldReadings_of_object?_eq_none hmembers, Sample.isObject, hmembers]
    | some object =>
        obtain ⟨p, members⟩ := object
        have hobject : s.isObject := by simp [Sample.isObject, hmembers]
        obtain ⟨hroot, hcontents⟩ := Sample.object?_eq_some.mp hmembers
        have hkeys := hnames s hs hobject p hroot
        rw [hcontents] at hkeys
        simp [Sample.fieldReadings_error_iff hmembers hdepth hkeys, hobject]
  have hearlier : ∀ s ∈ samples, (∃ rs, s.fieldReadings o = .ok rs) ↔ (s.isObject → ∃ t, s.shape o = .ok t) := by
    intro s hs
    constructor
    · rintro ⟨rs, hrs⟩ hobject
      rcases ok_or_error (s.shape o) with ht | ⟨fault, hfault⟩
      · exact ht
      · simp [(hreadings s hs fault).mpr ⟨hobject, hfault⟩] at hrs
    · intro hshape
      rcases ok_or_error (s.fieldReadings o) with hrs | ⟨fault, hfault⟩
      · exact hrs
      · obtain ⟨hobject, hfault⟩ := (hreadings s hs fault).mp hfault
        obtain ⟨t, ht⟩ := hshape hobject
        simp [ht] at hfault
  have hordered : ¬ ∃ stats, collectFields o samples = .ok stats ∧ Key.inOrder stats = .error fault := by
    rintro ⟨stats, hstats, hfault⟩
    rw [Key.inOrder_of_isText fun f hf => Key.isText_iff.mpr (named_collectFields hnames hstats f hf)] at hfault
    cases hfault
  rw [fieldMap_error_iff, or_iff_left hordered, collectFields_error_iff, Sample.allReadings_error_iff]
  constructor
  · rintro ⟨earlier, s, later, rfl, hbefore, hfault⟩
    exact ⟨earlier, s, later, rfl, fun e he => (hearlier e (by simp [he])).mp (hbefore e he),
      (hreadings s (by simp) fault).mp hfault⟩
  · rintro ⟨earlier, s, later, rfl, hbefore, hfault⟩
    exact ⟨earlier, s, later, rfl, fun e he => (hearlier e (by simp [he])).mpr (hbefore e he),
      (hreadings s (by simp) fault).mpr hfault⟩

theorem fieldMap_refused_iff :
    (∃ fault, fieldMap o samples = .error fault ∧ fault.family ≠ .mixedKeys) ↔ ∃ s ∈ samples, s.IsRefusedWithin o := by
  rw [← collectFields_fails_iff]
  constructor
  · rintro ⟨fault, hfault, hfamily⟩
    rcases fieldMap_error_iff.mp hfault with hcollect | ⟨_, _, horder⟩
    · exact ⟨fault, hcollect⟩
    · exact absurd (Key.family_of_inOrder horder) hfamily
  · rintro ⟨fault, hfault⟩
    exact ⟨fault, fieldMap_error_iff.mpr (.inl hfault), family_of_collectFields hfault⟩

-- A member without a name gets as far as the fields: it is one of them, or it cannot be put in order with the others.
theorem fieldMap_of_unnamed (hrefused : ¬ ∃ s ∈ samples, s.IsRefusedWithin o)
    (hunnamed : ∃ s ∈ samples, ∃ key v, s.HasMember key v ∧ key.isText = false) :
    (∃ fields, fieldMap o samples = .ok fields ∧ ∃ f ∈ fields, f.1.isText = false) ∨
      ∃ fault, fieldMap o samples = .error fault ∧ fault.family = .mixedKeys := by
  obtain ⟨s, hs, key, v, hm, hkey⟩ := hunnamed
  rcases ok_or_error (collectFields o samples) with ⟨stats, hstats⟩ | hfails
  · obtain ⟨f, hf, hunnamed⟩ := exists_unnamed hs hm hkey hstats
    rcases ok_or_error (Key.inOrder stats) with ⟨sorted, hsorted⟩ | ⟨fault, hfault⟩
    · refine .inl ⟨_, by simp [fieldMap, hstats, hsorted]; rfl, _, List.mem_map_of_mem ?_, hunnamed⟩
      exact (Key.inOrder_perm hsorted).mem_iff.mpr hf
    · exact .inr ⟨fault, fieldMap_error_iff.mpr (.inr ⟨stats, hstats, hfault⟩), Key.family_of_inOrder hfault⟩
  · exact absurd (collectFields_fails_iff.mp hfails) hrefused

-- The fields of samples are refused for what stands in the way of a shape below an object. Among named members they are
-- refused exactly where the shape of an object is, and for the same fault; other members of the objects themselves are
-- let through, although no shape is.
theorem refusals_of_fieldMap (hdepth : 0 < o.maxDepth) :
    (∀ s : Sample, s.isObject → ((∃ fault, s.shape o = .error fault) ↔ s.IsRefusedWithin o ∨ ¬ s.HasNames)) ∧
    ∀ samples : List Sample,
      ((∃ fault, fieldMap o samples = .error fault ∧ fault.family ≠ .mixedKeys) ↔
        ∃ s ∈ samples, s.IsRefusedWithin o) ∧
      ((∀ s ∈ samples, s.isObject → s.HasNames) →
        (∀ fault, fieldMap o samples = .error fault ↔
          ∃ earlier s later, samples = earlier ++ s :: later ∧
            (∀ e ∈ earlier, e.isObject → ∃ t, e.shape o = .ok t) ∧ s.isObject ∧ s.shape o = .error fault) ∧
        ∀ fields, fieldMap o samples = .ok fields → ∀ f ∈ fields, f.1.isText = true) ∧
      ((∃ s ∈ samples, ∃ key v, s.HasMember key v ∧ key.isText = false) →
        (¬ ∃ s ∈ samples, s.IsRefusedWithin o) →
        (∃ fields, fieldMap o samples = .ok fields ∧ ∃ f ∈ fields, f.1.isText = false) ∨
          ∃ fault, fieldMap o samples = .error fault ∧ fault.family = .mixedKeys) := by
  refine ⟨fun s hobject => Sample.shape_fails_iff hobject hdepth, fun samples => ⟨fieldMap_refused_iff, fun hnames => ?_,
    fun hunnamed hrefused => fieldMap_of_unnamed hrefused hunnamed⟩⟩
  refine ⟨fun fault => fieldMap_error_iff_of_names hdepth hnames, fun fields hfields f hf => ?_⟩
  simp only [fieldMap, bind_pure_comp, bind_eq_ok, map_eq_ok] at hfields
  obtain ⟨stats, hstats, sorted, hsorted, rfl⟩ := hfields
  obtain ⟨g, hg, rfl⟩ := List.mem_map.mp hf
  exact Key.isText_iff.mpr (named_collectFields hnames hstats g ((Key.inOrder_perm hsorted).mem_iff.mp hg))

-- An object with a number for a key, and one in which such an object is a member.
def unnamedSample : Sample := ⟨#[.object [(.integer 1, .leaf (.text "x"))]], .container 0⟩

def unnamedWithinSample : Sample :=
  ⟨#[.object [(.integer 1, .leaf (.text "x"))], .object [(.text "a", .container 0)]], .container 1⟩

theorem refusals_of_unnamedSample :
    (∃ fault, unnamedSample.shape {} = .error fault) ∧
      (∃ text, fieldMap {} [unnamedSample] = .ok [(.integer 1, text)]) ∧
      (∃ fault, unnamedWithinSample.shape {} = .error fault) ∧
      ∃ fault, fieldMap {} [unnamedSample, unnamedWithinSample] = .error fault ∧ fault.family ≠ .mixedKeys := by
  obtain ⟨hshape, hfields⟩ := refusals_of_fieldMap (o := {}) (by decide)
  have hnames : ¬ unnamedSample.HasNames := fun h => absurd (h 0 rfl) (by decide)
  have hwithin : unnamedWithinSample.IsRefusedWithin {} :=
    (Sample.isRefusedWithin_iff rfl).mpr ⟨_, List.mem_singleton_self _, _, rfl⟩
  refine ⟨(hshape _ rfl).mpr (.inr hnames), ⟨_, rfl⟩, (hshape _ rfl).mpr (.inl hwithin), ?_⟩
  exact (hfields _).1.mpr ⟨_, by simp, hwithin⟩

end ShapeScribe
