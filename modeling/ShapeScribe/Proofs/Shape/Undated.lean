import ShapeScribe.Proofs.Field.Presence
import ShapeScribe.Proofs.Named
import ShapeScribe.Proofs.Token.Undated

/-!
Reading samples without an eye for dates. The walk is the same, with the same faults, and what it says is what it would
say of a sample with dates, once every date is taken for a string. So it is with the fields of many samples. Where no
date is seen there is no difference.
-/

namespace ShapeScribe

open Attempt

-- The options with dates told from other texts, or not.
def Options.dating (o : Options) (detect : Bool) : Options := { o with detectDates := detect }

namespace Sample

variable {o : Options} {s : Sample} {samples : List Sample} {shapeOf undatedOf : Value → Except Fault Token}

theorem itemShapes_undated (hvalue : ∀ v, undatedOf v = (shapeOf v).map Token.undated) (items : List Value) :
    itemShapes undatedOf items = (itemShapes shapeOf items).map (List.map Token.undated) := by
  induction items with
  | nil => rfl
  | cons v rest ih =>
      rw [itemShapes, itemShapes, hvalue, ih]
      cases shapeOf v with
      | error fault => rfl
      | ok t => cases itemShapes shapeOf rest <;> rfl

theorem memberShapes_undated (hvalue : ∀ v, undatedOf v = (shapeOf v).map Token.undated) (members : List (Key × Value)) :
    memberShapes undatedOf members = (memberShapes shapeOf members).map (List.map Token.undatedField) := by
  induction members with
  | nil => rfl
  | cons m rest ih =>
      obtain ⟨key, v⟩ := m
      cases key with
      | text name =>
          rw [memberShapes, memberShapes, hvalue, ih]
          cases shapeOf v with
          | error fault => rfl
          | ok t => cases memberShapes shapeOf rest <;> rfl
      | _ => rfl

theorem containerShape_undated (hvalue : ∀ v, undatedOf v = (shapeOf v).map Token.undated) (c : Container) :
    containerShape (o.dating false) undatedOf c = (containerShape (o.dating true) shapeOf c).map Token.undated := by
  cases c with
  | array fixed items =>
      have hitems := itemShapes_undated hvalue ((o.dating true).sampled items)
      have hsampled : (o.dating false).sampled items = (o.dating true).sampled items := rfl
      rw [containerShape, containerShape, hsampled, hitems]
      cases itemShapes shapeOf ((o.dating true).sampled items) with
      | error fault => rfl
      | ok ts =>
          have harray : (Token.array (Token.normalize ts)).undated = .array (Token.normalize (ts.map Token.undated)) := by
            rw [Token.undated_array, Token.normalize_map_normalize]
          exact congrArg Except.ok harray.symm
  | object members =>
      rw [containerShape, containerShape, memberShapes_undated hvalue members]
      cases memberShapes shapeOf members with
      | error fault => rfl
      | ok fields =>
          have hrecord : (Token.record (Named.inOrder fields)).undated =
              .record (Named.inOrder (fields.map Token.undatedField)) := by
            rw [Token.undated_record]
            exact congrArg Token.record (Named.inOrder_map (List.map Token.undated) fields).symm
          exact congrArg Except.ok hrecord.symm

end Sample

theorem Leaf.shape_undated (l : Leaf) (o : Options) :
    l.shape (o.dating false) = (l.shape (o.dating true)).map Token.undated := by
  cases l with
  | text s =>
      by_cases hdate : DateText.isDate s = true
      · simp [shape, Options.dating, hdate, Except.map, Token.undated_date]
      · have hstring : Token.string.undated = .string := Token.undated_scalar_of_ne (by decide)
        simp [shape, Options.dating, hdate, Except.map, hstring]
  | foreign f => rfl
  | null | missing | boolean | integer | decimal =>
      exact congrArg Except.ok (Token.undated_scalar_of_ne (by decide)).symm

namespace Sample

variable {o : Options} {s : Sample} {samples : List Sample}

-- The induction is on the room that is left. Cycles and exhausted guards do not depend on what texts say.
theorem shapeBelow_undated (o : Options) (s : Sample) (room : Nat) (path : List Place) (v : Value) :
    s.shapeBelow (o.dating false) room path v = (s.shapeBelow (o.dating true) room path v).map Token.undated := by
  have hcircular : Token.circular.undated = .circular := Token.undated_scalar_of_ne (by decide)
  induction room generalizing path v with
  | zero =>
      cases v with
      | leaf l => exact l.shape_undated o
      | container p =>
          rw [shapeBelow, shapeBelow]
          by_cases hp : p ∈ path
          · rw [if_pos hp, if_pos hp, Except.map, hcircular]
          · rw [if_neg hp, if_neg hp]
            rfl
  | succ room ih =>
      cases v with
      | leaf l => exact l.shape_undated o
      | container p =>
          rw [shapeBelow, shapeBelow]
          by_cases hp : p ∈ path
          · rw [if_pos hp, if_pos hp, Except.map, hcircular]
          · rw [if_neg hp, if_neg hp]
            exact containerShape_undated (ih (p :: path)) (s.contents p)

theorem shape_undated (o : Options) (s : Sample) :
    s.shape (o.dating false) = (s.shape (o.dating true)).map Token.undated :=
  shapeBelow_undated o s _ _ _

theorem isNormal_of_shapeBelow {room : Nat} {path : List Place} {v : Value} {t : Token}
    (h : s.shapeBelow o room path v = .ok t) : t.IsNormal := by
  apply shapeBelow_induct (P := Token.IsNormal) _ _ _ _ h
  · intro l u hu
    cases l <;> simp only [Leaf.shape, Except.ok.injEq, reduceCtorEq] at hu <;> subst hu
    case text => split <;> exact .scalar _ _
    all_goals exact .scalar _ _
  · exact .scalar _ _
  · intro ts hts
    exact .array (Token.normalize_normalize ts) fun t ht => hts t (Token.mem_normalize.mp ht)
  · intro fields hfields
    refine .record fun f hf t ht => ?_
    obtain ⟨u, hunion, hu⟩ := hfields f hf
    rw [hunion, List.mem_singleton] at ht
    exact ht ▸ hu

-- What is read of the members of an object: the same fields, the tokens without their dates.
theorem readings_undated {shapeOf undatedOf : Value → Except Fault Token}
    (hvalue : ∀ v, undatedOf v = (shapeOf v).map Token.undated) (members : List (Key × Value)) :
    readings undatedOf members =
      (readings shapeOf members).map (List.map fun r => (r.1, r.2.map Token.undated)) := by
  induction members with
  | nil => rfl
  | cons m rest ih =>
      obtain ⟨key, v⟩ := m
      match v with
      | .leaf .missing => exact ih
      | .leaf .null =>
          rw [readings, readings, ih]
          cases readings shapeOf rest <;> rfl
      | .leaf (.boolean _) | .leaf (.integer _) | .leaf (.decimal _) | .leaf (.text _) | .leaf (.foreign _)
      | .container _ =>
          rw [readings, readings, hvalue, ih]
          · cases shapeOf _ with
            | error fault => rfl
            | ok t => cases readings shapeOf rest <;> rfl
          all_goals simp

theorem fieldReadings_undated (o : Options) (s : Sample) :
    s.fieldReadings (o.dating false) =
      (s.fieldReadings (o.dating true)).map (List.map fun r => (r.1, r.2.map Token.undated)) := by
  cases hs : s.object? with
  | none => rw [fieldReadings_of_object?_eq_none hs, fieldReadings_of_object?_eq_none hs]; rfl
  | some object =>
      simp only [fieldReadings, hs]
      exact readings_undated (shapeBelow_undated o s _ _) _

theorem allReadings_undated (o : Options) (samples : List Sample) :
    allReadings (o.dating false) samples =
      (allReadings (o.dating true) samples).map (List.map fun r => (r.1, r.2.map Token.undated)) := by
  induction samples with
  | nil => rfl
  | cons s rest ih =>
      rw [allReadings, allReadings, fieldReadings_undated, ih]
      cases s.fieldReadings (o.dating true) with
      | error fault => rfl
      | ok part =>
          cases allReadings (o.dating true) rest with
          | error fault => rfl
          | ok others => exact congrArg Except.ok List.map_append.symm

theorem isNormal_of_allReadings {rs : List (Key × Option Token)} (hrs : allReadings o samples = .ok rs) {key : Key}
    {t : Token} (h : (key, some t) ∈ rs) : t.IsNormal := by
  obtain ⟨parts, hparts, rfl⟩ := allReadings_eq_ok.mp hrs
  obtain ⟨part, hpart, hmem⟩ := List.mem_flatten.mp h
  obtain ⟨s, _, hs⟩ := exists_item hparts hpart
  obtain ⟨p, members, v, _, _, _, hreading⟩ := exists_member_of_reading hs hmem
  unfold reading at hreading
  split at hreading
  · cases hreading
  · obtain ⟨u, hu, hsame⟩ := map_eq_ok.mp hreading
    exact Option.some.inj hsame ▸ isNormal_of_shapeBelow hu

end Sample

namespace FieldStat

def undated (stat : FieldStat) : FieldStat := { stat with tokens := stat.tokens.map Token.undated }

theorem undated_add (stat : FieldStat) (r : Option Token) :
    (stat.add r).undated = stat.undated.add (r.map Token.undated) := by
  cases r with
  | none => rfl
  | some t => simp [add, undated]

theorem union_undated (stat : FieldStat) :
    stat.undated.union = Token.normalize (stat.union.map Token.undated) := by
  have hnull : Token.null.undated = .null := Token.undated_scalar_of_ne (by decide)
  have hundefined : Token.undefined.undated = .undefined := Token.undated_scalar_of_ne (by decide)
  rw [union, union, Token.normalize_map_normalize, undated]
  cases stat.nullable <;> cases stat.optional <;> simp [hnull, hundefined]

end FieldStat

namespace FieldStats

def undated (stats : FieldStats) : FieldStats := stats.map fun f => (f.1, f.2.undated)

theorem undated_add (key : Key) (r : Option Token) (stats : FieldStats) :
    undated (add key r stats) = add key (r.map Token.undated) stats.undated := by
  induction stats with
  | nil =>
      have hempty : FieldStat.undated {} = {} := rfl
      simp [undated, add, FieldStat.undated_add, hempty]
  | cons f rest ih =>
      obtain ⟨k, stat⟩ := f
      by_cases hk : k.same key = true
      · simp [undated, add, hk, FieldStat.undated_add]
      · simpa [undated, add, hk] using ih

theorem undated_gathered (readings : List (Key × Option Token)) :
    undated (gathered readings) = gathered (readings.map fun r => (r.1, r.2.map Token.undated)) := by
  induction readings using List.reverseRecOn with
  | nil => rfl
  | append_singleton readings r ih =>
      rw [gathered_append, undated_add, ih, List.map_append, List.map_cons, List.map_nil, gathered_append]

theorem token_of_add {key k : Key} {r : Option Token} {stats : FieldStats} {stat : FieldStat} {t : Token}
    (h : (k, stat) ∈ add key r stats) (ht : t ∈ stat.tokens) : r = some t ∨ ∃ old, (k, old) ∈ stats ∧ t ∈ old.tokens := by
  have hstat : ∀ {old : FieldStat}, t ∈ (old.add r).tokens → r = some t ∨ t ∈ old.tokens := fun {old} ht => by
    cases r with
    | none => exact .inr ht
    | some u => simpa [FieldStat.add, or_comm, eq_comm] using ht
  induction stats with
  | nil =>
      obtain ⟨rfl, rfl⟩ := Prod.mk.inj (List.mem_singleton.mp h)
      exact (hstat ht).imp_right fun hnone => absurd hnone List.not_mem_nil
  | cons f rest ih =>
      obtain ⟨l, old⟩ := f
      rw [add] at h
      by_cases hl : l.same key = true
      · rw [if_pos hl] at h
        rcases List.mem_cons.mp h with h | h
        · obtain ⟨rfl, rfl⟩ := Prod.mk.inj h
          exact (hstat ht).imp_right fun hold => ⟨old, List.mem_cons_self, hold⟩
        · exact .inr ⟨stat, List.mem_cons_of_mem _ h, ht⟩
      · rw [if_neg hl] at h
        rcases List.mem_cons.mp h with h | h
        · obtain ⟨rfl, rfl⟩ := Prod.mk.inj h
          exact .inr ⟨_, List.mem_cons_self, ht⟩
        · rcases ih h with hr | ⟨other, hother, hmem⟩
          · exact .inl hr
          · exact .inr ⟨other, List.mem_cons_of_mem _ hother, hmem⟩

-- Every token of an entry was read.
theorem exists_reading_of_token {readings : List (Key × Option Token)} {key : Key} {stat : FieldStat} {t : Token}
    (h : (key, stat) ∈ gathered readings) (ht : t ∈ stat.tokens) : ∃ k, (k, some t) ∈ readings := by
  induction readings using List.reverseRecOn generalizing stat with
  | nil => exact absurd h List.not_mem_nil
  | append_singleton readings r ih =>
      rw [gathered_append] at h
      rcases token_of_add h ht with hr | ⟨old, hold, hmem⟩
      · exact ⟨r.1, List.mem_append_right _ (List.mem_singleton.mpr (Prod.ext rfl hr.symm))⟩
      · obtain ⟨k, hk⟩ := ih hold hmem
        exact ⟨k, List.mem_append_left _ hk⟩

-- The unions of all fields, in the order in which the fields first appeared.
def unions (stats : FieldStats) : List (Key × List Token) := stats.map fun f => (f.1, f.2.union)

theorem unions_undated (stats : FieldStats) :
    stats.undated.unions = stats.unions.map fun f => (f.1, Token.normalize (f.2.map Token.undated)) := by
  simp only [unions, undated, List.map_map, Function.comp_def, FieldStat.union_undated]

end FieldStats

variable {o : Options} {samples : List Sample} {stats : FieldStats}

theorem collectFields_undated (o : Options) (samples : List Sample) :
    collectFields (o.dating false) samples = (collectFields (o.dating true) samples).map FieldStats.undated := by
  rw [collectFields, collectFields, Sample.allReadings_undated]
  cases Sample.allReadings (o.dating true) samples with
  | error fault => rfl
  | ok rs =>
      have hgathered := FieldStats.undated_gathered rs
      refine congrArg Except.ok ?_
      change (FieldStats.gathered _).map _ = FieldStats.undated ((FieldStats.gathered rs).map _)
      rw [← hgathered, FieldStats.undated, FieldStats.undated, List.map_map, List.map_map]
      rfl

theorem stats_undated_eq (h : collectFields o samples = .ok stats)
    (hdate : ∀ f ∈ stats, ∀ t ∈ f.2.union, ¬ t.Contains .date) : stats.undated = stats := by
  obtain ⟨rs, hrs, rfl⟩ := collectFields_eq_ok.mp h
  have hsame : ∀ f ∈ (FieldStats.gathered rs).map (fun f => (f.1, f.2.marked samples.length)),
      (f.1, f.2.undated) = id f := by
    intro f hf
    have htokens : ∀ t ∈ f.2.tokens, t.undated = id t := by
      intro t ht
      obtain ⟨⟨key, stat⟩, hstat, rfl⟩ := List.mem_map.mp hf
      obtain ⟨k, hk⟩ := FieldStats.exists_reading_of_token hstat ht
      exact (Sample.isNormal_of_allReadings hrs hk).undated_eq (hdate _ hf t (FieldStat.mem_union.mpr (.inl ht)))
    rw [FieldStat.undated, List.map_congr_left htokens, List.map_id, id]
  rw [FieldStats.undated, List.map_congr_left hsame, List.map_id]

-- Without an eye for dates, a sample has the shape that it has without its dates, or the same fault; and every field of a
-- list of samples has the union that it has without its dates.
theorem undated_of_samples (o : Options) :
    (∀ s : Sample, s.shape (o.dating false) = (s.shape (o.dating true)).map Token.undated) ∧
      (∀ samples, (collectFields (o.dating false) samples).map FieldStats.unions =
        (collectFields (o.dating true) samples).map fun stats =>
          stats.unions.map fun f => (f.1, Token.normalize (f.2.map Token.undated))) ∧
      (∀ (s : Sample) t, s.shape (o.dating true) = .ok t → ¬ t.Contains .date → s.shape (o.dating false) = .ok t) ∧
      ∀ samples stats, collectFields (o.dating true) samples = .ok stats →
        (∀ f ∈ stats, ∀ t ∈ f.2.union, ¬ t.Contains .date) → collectFields (o.dating false) samples = .ok stats := by
  refine ⟨Sample.shape_undated o, fun samples => ?_, fun s t ht hdate => ?_, fun samples stats hstats hdate => ?_⟩
  · rw [collectFields_undated]
    cases collectFields (o.dating true) samples with
    | error fault => rfl
    | ok stats => exact congrArg Except.ok stats.unions_undated
  · have hnormal : t.IsNormal := Sample.isNormal_of_shapeBelow ht
    rw [Sample.shape_undated, ht, Except.map, hnormal.undated_eq hdate]
  · rw [collectFields_undated, hstats, Except.map, stats_undated_eq hstats hdate]

-- An object that holds itself, and texts that are no dates.
def selfTagged : Sample :=
  ⟨#[.object [(.text "self", .container 0), (.text "tags", .container 1)], .array false [.leaf (.text "x"), .leaf .null]],
    .container 0⟩

theorem undated_of_selfTagged :
    (∃ t, selfTagged.shape (Options.dating {} true) = .ok t ∧ ¬ t.Contains .date ∧
      selfTagged.shape (Options.dating {} false) = .ok t) ∧
    ∃ stats, collectFields (Options.dating {} true) [selfTagged] = .ok stats ∧
      (∀ f ∈ stats, ∀ t ∈ f.2.union, ¬ t.Contains .date) ∧
      collectFields (Options.dating {} false) [selfTagged] = .ok stats := by
  have htags : ¬ (Token.array (Token.normalize [.string, .null])).Contains .date := by
    intro h
    cases h with
    | element ht hpart =>
        simp only [Token.mem_normalize, List.mem_cons, List.not_mem_nil, or_false] at ht
        rcases ht with rfl | rfl
        · exact absurd (Token.contains_scalar_iff.mp hpart) (by decide)
        · exact absurd (Token.contains_scalar_iff.mp hpart) (by decide)
  have hself : ¬ Token.circular.Contains .date := fun h => absurd (Token.contains_scalar_iff.mp h) (by decide)
  constructor
  · have hshape : selfTagged.shape (Options.dating {} true) =
        .ok (.record (Named.inOrder [("self", [.circular]), ("tags", [.array (Token.normalize [.string, .null])])])) := rfl
    have hdate : ¬ (Token.record (Named.inOrder
        [("self", [.circular]), ("tags", [.array (Token.normalize [.string, .null])])])).Contains .date := by
      intro h
      cases h with
      | field hf ht hpart =>
          simp only [Named.mem_inOrder, List.mem_cons, List.not_mem_nil, or_false] at hf
          rcases hf with rfl | rfl
          · exact hself (List.mem_singleton.mp ht ▸ hpart)
          · exact htags (List.mem_singleton.mp ht ▸ hpart)
    exact ⟨_, hshape, hdate, (undated_of_samples {}).2.2.1 _ _ hshape hdate⟩
  · have hstats : collectFields (Options.dating {} true) [selfTagged] =
        .ok [(.text "self", { tokens := [.circular], present := 1 }),
          (.text "tags", { tokens := [.array (Token.normalize [.string, .null])], present := 1 })] := rfl
    have hdate : ∀ f ∈ [(Key.text "self", { tokens := [Token.circular], present := 1 : FieldStat }),
        (.text "tags", { tokens := [.array (Token.normalize [.string, .null])], present := 1 })],
        ∀ t ∈ f.2.union, ¬ t.Contains .date := by
      intro f hf t ht
      simp only [List.mem_cons, List.not_mem_nil, or_false] at hf
      rcases hf with rfl | rfl
      · obtain rfl : t = .circular := by simpa [FieldStat.mem_union] using ht
        exact hself
      · obtain rfl : t = .array (Token.normalize [.string, .null]) := by simpa [FieldStat.mem_union] using ht
        exact htags
    exact ⟨_, hstats, hdate, (undated_of_samples {}).2.2.2 _ _ hstats hdate⟩

end ShapeScribe
