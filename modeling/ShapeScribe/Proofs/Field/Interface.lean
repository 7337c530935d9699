import ShapeScribe.Proofs.Field.Presence
import ShapeScribe.Proofs.Named
import ShapeScribe.Proofs.Sample.KeyOrder

/-!
Interfaces as functions of the statistics of their fields. An interface can be written when its fields have names,
and then the text of each named field decides it, in whatever order the fields were met.
-/

namespace ShapeScribe

open Attempt

variable {o q : Options} {samples others : List Sample} {stats : FieldStats}

theorem FieldStats.mem_of_get? {name : String} {stat : FieldStat} (h : stats.get? name = some stat) :
    (.text name, stat) ∈ stats := by
  obtain ⟨⟨key, _⟩, hfind, rfl⟩ := Option.map_eq_some_iff.mp h
  have hkey := List.find?_some hfind
  obtain rfl : key = .text name := Key.same_text.mp hkey
  exact List.mem_of_find?_eq_some hfind

theorem nodup_keys_collectFields (h : collectFields o samples = .ok stats)
    (hnamed : ∀ f ∈ stats, ∃ field, f.1 = .text field) : (stats.map (·.1)).Nodup := by
  obtain ⟨rs, _, rfl⟩ := collectFields_eq_ok.mp h
  exact Key.nodup_of_distinct (List.pairwise_map.mpr (FieldStats.distinct_gathered rs)) hnamed

theorem named_of_readings {rs : List (Key × Option Token)} (hrs : Sample.allReadings o samples = .ok rs)
    (hnamed : ∀ r ∈ rs, ∃ field, r.1 = .text field) (hstats : collectFields o samples = .ok stats) :
    ∀ f ∈ stats, ∃ field, f.1 = .text field := by
  obtain ⟨_, hrs', rfl⟩ := collectFields_eq_ok.mp hstats
  obtain rfl := Except.ok.inj (hrs.symm.trans hrs')
  intro f hf
  obtain ⟨⟨key, stat⟩, hkey, rfl⟩ := List.mem_map.mp hf
  obtain ⟨r, hr, rfl⟩ := FieldStats.keys_gathered hkey
  exact hnamed r hr

-- The map of the fields has those with statistics, each once and with the text that its statistics amount to, in order
-- of their names.
theorem exists_fieldMap (hstats : collectFields o samples = .ok stats)
    (hnamed : ∀ f ∈ stats, ∃ field, f.1 = .text field) :
    ∃ fields : List (String × FieldStat),
      fieldMap o samples = .ok (fields.map fun f => (.text f.1, f.2.text)) ∧
      (fields.map (·.1)).Pairwise (· < ·) ∧
      ∀ field stat, (field, stat) ∈ fields ↔ stats.get? field = some stat := by
  obtain ⟨entries, rfl⟩ := Key.exists_text hnamed
  have hnodup : ((entries.map (·.1)).map Key.text).Nodup := by
    simpa [Function.comp_def] using nodup_keys_collectFields hstats hnamed
  refine ⟨Named.inOrder entries, ?_, Named.inOrder_pairwise_lt (hnodup.of_map _), fun field stat => ?_⟩
  · simp [fieldMap, hstats, Key.inOrder_text]
  · rw [Named.mem_inOrder]
    constructor
    · intro hmem
      exact get?_of_mem_collectFields hstats (List.mem_map_of_mem hmem)
    · intro hget
      obtain ⟨entry, hentry, hsame⟩ := List.mem_map.mp (FieldStats.mem_of_get? hget)
      simp only [Prod.mk.injEq, Key.text.injEq] at hsame
      rwa [← hsame.1, ← hsame.2]

-- The fields of an interface: those with statistics, each once and with the text that the statistics amount to.
theorem exists_fields (hobject : samples.any Sample.isObject = true) (hstats : collectFields o samples = .ok stats)
    (hnamed : ∀ f ∈ stats, ∃ field, f.1 = .text field) :
    ∃ fields : List (String × String),
      (∀ name, Definition.group o name samples = .ok (Definition.interface name fields)) ∧
      (fields.map (·.1)).Nodup ∧
      ∀ field text, (field, text) ∈ fields ↔ (stats.get? field).map FieldStat.text = some text := by
  obtain ⟨entries, hmap, hnames, hentries⟩ := exists_fieldMap hstats hnamed
  refine ⟨entries.map fun f => (f.1, f.2.text), Definition.group_of_fieldMap hobject ?_, ?_, fun field text => ?_⟩
  · rw [hmap, List.map_map]
    rfl
  · rw [List.map_map]
    exact hnames.imp String.ne_of_lt
  · rw [Option.map_eq_some_iff, List.mem_map]
    constructor
    · rintro ⟨⟨n, stat⟩, hmem, hsame⟩
      cases hsame
      exact ⟨stat, (hentries _ _).mp hmem, rfl⟩
    · rintro ⟨stat, hget, rfl⟩
      exact ⟨(field, stat), (hentries _ _).mpr hget, rfl⟩

theorem exists_group_of_text_eq (hobject : samples.any Sample.isObject = true)
    (hother : others.any Sample.isObject = true) {stats' : FieldStats} (hstats : collectFields o samples = .ok stats)
    (hstats' : collectFields q others = .ok stats') (hnamed : ∀ f ∈ stats, ∃ field, f.1 = .text field)
    (hnamed' : ∀ f ∈ stats', ∃ field, f.1 = .text field)
    (htext : ∀ field, (stats.get? field).map FieldStat.text = (stats'.get? field).map FieldStat.text) (name : String) :
    ∃ text, Definition.group o name samples = .ok text ∧ Definition.group q name others = .ok text := by
  obtain ⟨fields, hfields, hnodup, hmem⟩ := exists_fields hobject hstats hnamed
  obtain ⟨fields', hfields', hnodup', hmem'⟩ := exists_fields hother hstats' hnamed'
  have hperm : fields.Perm fields' := by
    apply (List.perm_ext_iff_of_nodup (hnodup.of_map _) (hnodup'.of_map _)).mpr
    rintro ⟨field, text⟩
    rw [hmem, hmem', htext]
  have horder := Named.inOrder_eq_of_perm hperm hnodup
  exact ⟨_, hfields name, by rw [hfields' name, Definition.interface, Definition.interface, horder]⟩

end ShapeScribe
