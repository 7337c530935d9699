import ShapeScribe.Proofs.Field.Stats
import ShapeScribe.Proofs.Sample.Graph

/-!
Fields as samples show them. Which fields are collected, with which tokens, is told by the members of the object
samples; a field is optional exactly when some sample of the list does not have it.
-/

namespace ShapeScribe

open Attempt

namespace Sample

-- A member of an object sample that is not marked as absent.
def HasMember (s : Sample) (key : Key) (v : Value) : Prop :=
  ∃ p members, s.object? = some (p, members) ∧ (key, v) ∈ members ∧ v ≠ .leaf .missing

def HasField (s : Sample) (name : String) : Prop := ∃ v, s.HasMember (.text name) v

-- What a member says about its field.
def reading (shapeOf : Value → Except Fault Token) (v : Value) : Except Fault (Option Token) :=
  if v = .leaf .null then .ok none else some <$> shapeOf v

theorem readings_eq_ok {shapeOf : Value → Except Fault Token} {members : List (Key × Value)}
    {rs : List (Key × Option Token)} :
    readings shapeOf members = .ok rs ↔
      List.Forall₂ (fun m r => m.1 = r.1 ∧ reading shapeOf m.2 = .ok r.2)
        (members.filter fun m => m.2 ≠ .leaf .missing) rs := by
  induction members generalizing rs with
  | nil => simp [readings, eq_comm]
  | cons m rest ih =>
      obtain ⟨key, v⟩ := m
      match v with
      | .leaf .missing => simp [readings, ih]
      | .leaf .null | .leaf (.boolean _) | .leaf (.integer _) | .leaf (.decimal _) | .leaf (.text _)
      | .leaf (.foreign _) | .container _ =>
          rcases rs with _ | ⟨⟨k, r⟩, rs⟩
          · simp [readings]
          · simp only [readings, bind_eq_ok, pure_eq_ok, ih, reading]
            simp
            grind

theorem object?_eq_some {s : Sample} {p : Place} {members : List (Key × Value)} :
    s.object? = some (p, members) ↔ s.root = .container p ∧ s.contents p = .object members := by
  unfold object?
  cases s.root with
  | leaf l => simp
  | container q => cases hq : s.contents q <;> simp <;> grind

variable {o : Options} {s : Sample} {samples : List Sample} {name : String}

theorem fieldReadings_eq_ok {rs : List (Key × Option Token)} {p : Place} {members : List (Key × Value)}
    (hs : s.object? = some (p, members)) :
    s.fieldReadings o = .ok rs ↔
      List.Forall₂ (fun m r => m.1 = r.1 ∧ reading (s.shapeBelow o (o.room 1) [p]) m.2 = .ok r.2)
        (members.filter fun m => m.2 ≠ .leaf .missing) rs := by
  simp only [fieldReadings, hs, readings_eq_ok]

theorem fieldReadings_of_object?_eq_none (hs : s.object? = none) : s.fieldReadings o = .ok [] := by
  simp [fieldReadings, hs]

theorem exists_member_of_reading {rs : List (Key × Option Token)} (h : s.fieldReadings o = .ok rs) {key : Key}
    {r : Option Token} (hr : (key, r) ∈ rs) :
    ∃ p members v, s.object? = some (p, members) ∧ (key, v) ∈ members ∧ v ≠ .leaf .missing ∧
      reading (s.shapeBelow o (o.room 1) [p]) v = .ok r := by
  cases hs : s.object? with
  | none =>
      rw [fieldReadings_of_object?_eq_none hs] at h
      cases h
      simp at hr
  | some object =>
      obtain ⟨p, members⟩ := object
      obtain ⟨⟨k, v⟩, hm, rfl, hv⟩ := exists_item ((fieldReadings_eq_ok hs).mp h) hr
      obtain ⟨hm, hpresent⟩ := List.mem_filter.mp hm
      exact ⟨p, members, v, rfl, hm, by simpa using hpresent, hv⟩

theorem exists_reading_of_member {rs : List (Key × Option Token)} (h : s.fieldReadings o = .ok rs) {p : Place}
    {members : List (Key × Value)} (hs : s.object? = some (p, members)) {key : Key} {v : Value}
    (hm : (key, v) ∈ members) (hv : v ≠ .leaf .missing) :
    ∃ r, (key, r) ∈ rs ∧ reading (s.shapeBelow o (o.room 1) [p]) v = .ok r := by
  have hfilter : (key, v) ∈ members.filter fun m => m.2 ≠ .leaf .missing := List.mem_filter.mpr ⟨hm, by simpa using hv⟩
  obtain ⟨⟨k, r⟩, hr, hkey, hreading⟩ := exists_result ((fieldReadings_eq_ok hs).mp h) hfilter
  simp only at hkey
  subst hkey
  exact ⟨r, hr, hreading⟩

theorem readingsOf_eq_nil_iff {rs : List (Key × Option Token)} (h : s.fieldReadings o = .ok rs) :
    readingsOf name rs = [] ↔ ¬ s.HasField name := by
  rw [List.eq_nil_iff_forall_not_mem]
  constructor
  · rintro hnone ⟨v, p, members, hs, hm, hv⟩
    obtain ⟨r, hr, _⟩ := exists_reading_of_member h hs hm hv
    exact hnone r (mem_readingsOf.mpr hr)
  · intro hfield r hr
    obtain ⟨p, members, v, hs, hm, hv, _⟩ := exists_member_of_reading h (mem_readingsOf.mp hr)
    exact hfield ⟨v, p, members, hs, hm, hv⟩

theorem keys_fieldReadings {rs : List (Key × Option Token)} (h : s.fieldReadings o = .ok rs) {p : Place}
    {members : List (Key × Value)} (hs : s.object? = some (p, members)) :
    rs.map (·.1) = (members.filter fun m => m.2 ≠ .leaf .missing).map (·.1) := by
  have hreadings := (fieldReadings_eq_ok hs).mp h
  clear h
  generalize members.filter _ = present at hreadings ⊢
  induction hreadings with
  | nil => rfl
  | cons hm _ ih => simp [hm.1, ih]

-- Distinct keys make a sample count at most once for a field.
theorem length_readingsOf_le_one {rs : List (Key × Option Token)} (h : s.fieldReadings o = .ok rs)
    (hkeys : s.HasDistinctKeys) : (readingsOf name rs).length ≤ 1 := by
  cases hs : s.object? with
  | none =>
      rw [fieldReadings_of_object?_eq_none hs] at h
      cases h
      simp [readingsOf]
  | some object =>
      obtain ⟨p, members⟩ := object
      have hdistinct : (rs.map (·.1)).Pairwise fun k l => k.same l = false := by
        rw [keys_fieldReadings h hs, List.pairwise_map]
        have hmembers := hkeys p
        rw [(object?_eq_some.mp hs).2] at hmembers
        exact hmembers.sublist List.filter_sublist
      have hnamed : (rs.filter fun r => r.1.name? = some name).Pairwise fun r t => r.1.same t.1 = false :=
        (List.pairwise_map.mp hdistinct).sublist List.filter_sublist
      have hname : ∀ r ∈ rs.filter fun r => r.1.name? = some name, r.1 = .text name := by
        simp [Key.name?_eq_some]
      rw [readingsOf, List.length_map]
      rcases hlist : rs.filter fun r => r.1.name? = some name with _ | ⟨r, _ | ⟨t, rest⟩⟩
      · simp [hlist]
      · simp [hlist]
      · rw [hlist] at hnamed hname
        have hsame : r.1.same t.1 = false := (List.pairwise_cons.mp hnamed).1 t (by simp)
        rw [hname r (by simp), hname t (by simp), Key.same_text.mpr rfl] at hsame
        cases hsame

theorem allReadings_eq_ok {rs : List (Key × Option Token)} :
    allReadings o samples = .ok rs ↔
      ∃ parts, List.Forall₂ (fun s part => s.fieldReadings o = .ok part) samples parts ∧ rs = parts.flatten := by
  induction samples generalizing rs with
  | nil => simp [allReadings, eq_comm]
  | cons s rest ih =>
      simp only [allReadings, bind_eq_ok, pure_eq_ok, ih, List.forall₂_cons_left_iff]
      constructor
      · rintro ⟨part, hpart, _, ⟨parts, hparts, rfl⟩, rfl⟩
        exact ⟨part :: parts, ⟨part, parts, hpart, hparts, rfl⟩, rfl⟩
      · rintro ⟨_, ⟨part, parts, hpart, hparts, rfl⟩, rfl⟩
        exact ⟨part, hpart, parts.flatten, ⟨parts, hparts, rfl⟩, rfl⟩

-- Every sample adds at most one to the count of a field, so the count is full exactly when none adds nothing.
theorem length_readingsOf_flatten {parts : List (List (Key × Option Token))}
    (h : List.Forall₂ (fun s part => s.fieldReadings o = .ok part) samples parts)
    (hkeys : ∀ s ∈ samples, s.HasDistinctKeys) :
    (readingsOf name parts.flatten).length ≤ samples.length ∧
      ((readingsOf name parts.flatten).length < samples.length ↔ ∃ s ∈ samples, ¬ s.HasField name) := by
  induction h with
  | nil => simp [readingsOf]
  | @cons s part rest parts hpart _ ih =>
      obtain ⟨hle, hlt⟩ := ih fun s hs => hkeys s (by simp [hs])
      have hone : (readingsOf name part).length ≤ 1 := length_readingsOf_le_one hpart (hkeys s (by simp))
      have hnil : readingsOf name part = [] ↔ ¬ s.HasField name := readingsOf_eq_nil_iff hpart
      rw [← List.length_eq_zero_iff] at hnil
      simp only [List.flatten_cons, readingsOf_append, List.length_append, List.length_cons, List.mem_cons,
        exists_eq_or_imp, ← hlt, ← hnil]
      omega

end Sample

def FieldStat.marked (total : Nat) (stat : FieldStat) : FieldStat := { stat with optional := stat.present < total }

theorem FieldStat.mem_union_ofReadings {rs : List (Option Token)} {total : Nat} {t : Token} :
    t ∈ ((ofReadings rs).marked total).union ↔ (∃ r ∈ rs, r.getD .null = t) ∨ rs.length < total ∧ t = .undefined := by
  rw [mem_union]
  simp only [marked, ofReadings, List.mem_filterMap, id_eq, decide_eq_true_eq, List.contains_iff_mem]
  constructor
  · rintro (⟨r, hr, rfl⟩ | ⟨hnull, rfl⟩ | hoptional)
    · exact .inl ⟨some t, hr, rfl⟩
    · exact .inl ⟨none, hnull, rfl⟩
    · exact .inr hoptional
  · rintro (⟨r, hr, rfl⟩ | hoptional)
    · cases r with
      | none => exact .inr (.inl ⟨hr, rfl⟩)
      | some t => exact .inl ⟨some t, hr, rfl⟩
    · exact .inr (.inr hoptional)

variable {o : Options} {samples : List Sample} {stats : FieldStats}

theorem collectFields_eq_ok :
    collectFields o samples = .ok stats ↔
      ∃ rs, Sample.allReadings o samples = .ok rs ∧
        stats = (FieldStats.gathered rs).map fun f => (f.1, f.2.marked samples.length) := by
  simp only [collectFields, bind_eq_ok, pure_eq_ok]
  exact exists_congr fun rs => and_congr_right fun _ => eq_comm

theorem FieldStats.get?_map (name : String) (mark : FieldStat → FieldStat) (stats : FieldStats) :
    FieldStats.get? name (stats.map fun f => (f.1, mark f.2)) = (stats.get? name).map mark := by
  simp [FieldStats.get?, List.find?_map, Function.comp_def]

-- An entry of a named field is the one that its name finds, and holds what the readings of the name amount to.
theorem get?_collectFields {rs : List (Key × Option Token)} (hrs : Sample.allReadings o samples = .ok rs)
    (h : collectFields o samples = .ok stats) (name : String) :
    stats.get? name =
      if readingsOf name rs = [] then none
      else some ((FieldStat.ofReadings (readingsOf name rs)).marked samples.length) := by
  obtain ⟨_, hrs', rfl⟩ := collectFields_eq_ok.mp h
  rw [hrs] at hrs'
  cases hrs'
  rw [FieldStats.get?_map, FieldStats.get?_gathered]
  split <;> rfl

theorem mem_union_of_get? {rs : List (Key × Option Token)} (hrs : Sample.allReadings o samples = .ok rs)
    (h : collectFields o samples = .ok stats) {name : String} {stat : FieldStat} (hstat : stats.get? name = some stat)
    {t : Token} :
    t ∈ stat.union ↔ (∃ r ∈ readingsOf name rs, r.getD .null = t) ∨
      (readingsOf name rs).length < samples.length ∧ t = .undefined := by
  have hget := get?_collectFields hrs h name
  rw [hstat] at hget
  split at hget
  · cases hget
  obtain rfl := Option.some.inj hget
  exact FieldStat.mem_union_ofReadings

theorem get?_of_mem_collectFields (h : collectFields o samples = .ok stats) {name : String} {stat : FieldStat}
    (hmem : (.text name, stat) ∈ stats) : stats.get? name = some stat := by
  obtain ⟨rs, _, rfl⟩ := collectFields_eq_ok.mp h
  apply FieldStats.get?_of_mem _ hmem
  exact List.pairwise_map.mpr (FieldStats.distinct_gathered rs)

end ShapeScribe
