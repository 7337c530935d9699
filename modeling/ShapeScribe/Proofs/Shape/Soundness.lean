import ShapeScribe.Proofs.Field.Interface
import ShapeScribe.Proofs.Shape.Inhabits

/-!
Soundness of what is written for a group: its samples inhabit the types that are written for them, member by member
when the group holds an object, and as a whole when it does not.
-/

namespace ShapeScribe

open Attempt

variable {o : Options} {samples : List Sample} {stats : FieldStats}

theorem named_of_group {name : String} {text : List Char} (hobject : samples.any Sample.isObject = true)
    (h : Definition.group o name samples = .ok text) (hstats : collectFields o samples = .ok stats) :
    ∀ f ∈ stats, ∃ field, f.1 = .text field := by
  intro f hf
  obtain ⟨stats', sorted, fields, hstats', hsorted, hfields, _⟩ := (Definition.group_eq_ok_of_object hobject).mp h
  obtain rfl : stats = stats' := Except.ok.inj (hstats.symm.trans hstats')
  have hmem : (f.1, f.2.text) ∈ sorted.map fun f => (f.1, f.2.text) :=
    List.mem_map_of_mem ((Key.inOrder_perm hsorted).mem_iff.mpr hf)
  obtain ⟨g, _, hname, _⟩ := exists_result (Definition.textFields_eq_ok.mp hfields) hmem
  exact ⟨g.1, hname⟩

theorem reading_inhabited {s : Sample} (ho : o.analyzeAllArrayElements = true) (hs : s.Acyclic) {p : Place}
    {members : List (Key × Value)} (hobject : s.object? = some (p, members)) {m : Key × Value} (hm : m ∈ members)
    {r : Option Token} (hr : Sample.reading (s.shapeBelow o (o.room 1) [p]) m.2 = .ok r) :
    s.Inhabits (r.getD .null) m.2 := by
  obtain ⟨hroot, hcontents⟩ := Sample.object?_eq_some.mp hobject
  have hpath : s.MeetsBelow [p] m.2 := by
    apply Sample.MeetsBelow.step
    · exact hroot ▸ s.meetsBelow_root
    · rw [hcontents]
      exact List.mem_map_of_mem hm
  unfold Sample.reading at hr
  split at hr
  · rename_i hnull
    cases hr
    rw [hnull]
    exact Leaf.Fits.inhabits rfl
  · obtain ⟨t, ht, rfl⟩ := map_eq_ok.mp hr
    exact Sample.shapeBelow_inhabited ho hs hpath ht

-- When all entries have names, so has every member.
theorem exists_name_of_reading {rs : List (Key × Option Token)} (hrs : Sample.allReadings o samples = .ok rs)
    (hstats : collectFields o samples = .ok stats) (hnamed : ∀ f ∈ stats, ∃ field, f.1 = .text field)
    {r : Key × Option Token} (hr : r ∈ rs) : ∃ field, r.1 = .text field := by
  obtain ⟨_, hrs', rfl⟩ := collectFields_eq_ok.mp hstats
  obtain rfl := Except.ok.inj (hrs.symm.trans hrs')
  obtain ⟨k, stat, hk, hkey⟩ := FieldStats.exists_mem_gathered hr
  obtain ⟨field, hfield⟩ := hnamed _ (List.mem_map_of_mem hk)
  obtain rfl : k = .text field := hfield
  rcases hkey with hkey | hkey
  · exact ⟨field, hkey.symm⟩
  · exact ⟨field, Key.text_same.mp hkey⟩

theorem mem_union_of_reading {rs : List (Key × Option Token)} (hrs : Sample.allReadings o samples = .ok rs)
    (hstats : collectFields o samples = .ok stats) {field : String} {r : Option Token} (hr : (.text field, r) ∈ rs) :
    ∃ stat, stats.get? field = some stat ∧ r.getD .null ∈ stat.union := by
  have hreading := mem_readingsOf.mpr hr
  have hget := get?_collectFields hrs hstats field
  rw [if_neg (List.ne_nil_of_mem hreading)] at hget
  exact ⟨_, hget, (mem_union_of_get? hrs hstats hget).mpr (.inl ⟨r, hreading, rfl⟩)⟩

theorem member_inhabits_union (ho : o.analyzeAllArrayElements = true) {s : Sample} (hmem : s ∈ samples)
    (hs : s.Acyclic) (hstats : collectFields o samples = .ok stats) (hnamed : ∀ f ∈ stats, ∃ field, f.1 = .text field)
    {key : Key} {v : Value} (hv : s.HasMember key v) :
    ∃ field stat, key = .text field ∧ stats.get? field = some stat ∧ ∃ t ∈ stat.union, s.Inhabits t v := by
  obtain ⟨p, members, hobject, hm, hpresent⟩ := hv
  obtain ⟨rs, hrs, _⟩ := collectFields_eq_ok.mp hstats
  obtain ⟨parts, hparts, hflat⟩ := Sample.allReadings_eq_ok.mp hrs
  obtain ⟨part, hpart, hreadings⟩ := exists_result hparts hmem
  obtain ⟨r, hr, hreading⟩ := Sample.exists_reading_of_member hreadings hobject hm hpresent
  have hall : (key, r) ∈ rs := hflat ▸ List.mem_flatten_of_mem hpart hr
  obtain ⟨field, hfield⟩ := exists_name_of_reading hrs hstats hnamed hall
  obtain rfl : key = .text field := hfield
  obtain ⟨stat, hstat, hunion⟩ := mem_union_of_reading hrs hstats hall
  exact ⟨field, stat, rfl, hstat, _, hunion, reading_inhabited ho hs hobject hm hreading⟩

theorem undefined_mem_union (hkeys : ∀ s ∈ samples, s.HasDistinctKeys) (hstats : collectFields o samples = .ok stats)
    {s : Sample} (hmem : s ∈ samples) {field : String} {stat : FieldStat} (hstat : (.text field, stat) ∈ stats)
    (hlacks : ¬ s.HasField field) : .undefined ∈ stat.union := by
  obtain ⟨rs, hrs, _⟩ := collectFields_eq_ok.mp hstats
  obtain ⟨parts, hparts, rfl⟩ := Sample.allReadings_eq_ok.mp hrs
  have hlt := (Sample.length_readingsOf_flatten hparts hkeys).2.mpr ⟨s, hmem, hlacks⟩
  exact (mem_union_of_get? hrs hstats (get?_of_mem_collectFields hstats hstat)).mpr (.inr ⟨hlt, rfl⟩)

theorem samples_inhabit_group (ho : o.analyzeAllArrayElements = true) (hkeys : ∀ s ∈ samples, s.HasDistinctKeys)
    (hacyclic : ∀ s ∈ samples, s.Acyclic) {name : String} {text : List Char}
    (h : Definition.group o name samples = .ok text) :
    ((∃ s ∈ samples, s.isObject) →
      ∃ stats, collectFields o samples = .ok stats ∧
        ∀ s ∈ samples,
          (∀ key v, s.HasMember key v →
            ∃ field stat, key = .text field ∧ stats.get? field = some stat ∧ ∃ t ∈ stat.union, s.Inhabits t v) ∧
          ∀ f ∈ stats, (¬ ∃ v, s.HasMember f.1 v) → .undefined ∈ f.2.union) ∧
    ((∀ s ∈ samples, ¬ s.isObject) →
      ∃ shapes, Definition.sampleShapes o samples = .ok shapes ∧
        Definition.synonym o name samples =
          .ok ("type ".toList ++ name.toList ++ " = ".toList ++ (Token.unionText .unknown shapes).toList ++ [';']) ∧
        ∀ s ∈ samples, ∃ t ∈ Token.normalize shapes, s.Inhabits t s.root) := by
  constructor
  · rintro ⟨s₀, hs₀, hobject⟩
    have hany : samples.any Sample.isObject = true := List.any_eq_true.mpr ⟨s₀, hs₀, hobject⟩
    obtain ⟨stats, _, _, hstats, _⟩ := (Definition.group_eq_ok_of_object hany).mp h
    have hnamed := named_of_group hany h hstats
    refine ⟨stats, hstats, fun s hs => ⟨fun key v hv => ?_, fun f hf hlacks => ?_⟩⟩
    · exact member_inhabits_union ho hs (hacyclic s hs) hstats hnamed hv
    · obtain ⟨key, stat⟩ := f
      obtain ⟨field, hfield⟩ := hnamed _ hf
      obtain rfl : key = .text field := hfield
      exact undefined_mem_union hkeys hstats hs hf hlacks
  · intro hnone
    have hany : samples.any Sample.isObject = false := by simpa using hnone
    by_cases hempty : samples = []
    · subst hempty
      exact ⟨[], rfl, rfl, by simp⟩
    · rw [Definition.group_of_no_object hempty hany] at h
      obtain ⟨shapes, hshapes, _⟩ := bind_eq_ok.mp h
      refine ⟨shapes, hshapes, by simp [Definition.synonym, hshapes], fun s hs => ?_⟩
      obtain ⟨t, ht, hshape⟩ := exists_result (Definition.sampleShapes_eq_ok.mp hshapes) hs
      exact ⟨t, Token.mem_normalize.mpr ht, Sample.shape_inhabited ho (hacyclic s hs) hshape⟩

-- A list with a null, a shared array, an absent member and a sample that is no object.
def mixedSamples : List Sample := [
  ⟨#[.array false [.leaf (.integer 1), .leaf (.text "2024-01-15")],
    .object [(.text "b", .leaf .null), (.text "a", .container 0), (.text "c", .container 0)]], .container 1⟩,
  ⟨#[.object [(.text "a", .leaf .missing), (.text "b", .leaf (.boolean true))]], .container 0⟩,
  ⟨#[.array true []], .container 0⟩]

theorem mixedSamples_inhabit_group :
    ∃ stats, collectFields {} mixedSamples = .ok stats ∧
      ∀ s ∈ mixedSamples,
        (∀ key v, s.HasMember key v →
          ∃ field stat, key = .text field ∧ stats.get? field = some stat ∧ ∃ t ∈ stat.union, s.Inhabits t v) ∧
        ∀ f ∈ stats, (¬ ∃ v, s.HasMember f.1 v) → .undefined ∈ f.2.union := by
  have hkeys : ∀ s ∈ mixedSamples, s.HasDistinctKeys := by
    have hcontainers : ∀ s ∈ mixedSamples, ∀ c ∈ s.containers.toList, c.HasDistinctKeys := by decide
    exact fun s hs => Sample.hasDistinctKeys_of_containers fun c hc => hcontainers s hs c (by simpa using hc)
  have hacyclic : ∀ s ∈ mixedSamples, s.Acyclic := by
    have hplaces : ∀ s ∈ mixedSamples, ∀ p < s.containers.size, ∀ v ∈ (s.contents p).values, v.IsBefore p := by decide
    exact fun s hs => Sample.acyclic_of_isBefore (hplaces s hs)
  have hobject : mixedSamples.any Sample.isObject = true := by decide
  obtain ⟨rs, hrs, hnames⟩ : ∃ rs, Sample.allReadings {} mixedSamples = .ok rs ∧
      ∀ r ∈ rs, ∃ field, r.1 = Key.text field := ⟨_, rfl, by simp⟩
  have hstats := collectFields_eq_ok.mpr ⟨rs, hrs, rfl⟩
  obtain ⟨fields, hfields, _⟩ := exists_fields hobject hstats (named_of_readings hrs hnames hstats)
  exact (samples_inhabit_group rfl hkeys hacyclic (hfields "T")).1 ⟨_, List.mem_cons_self, by decide⟩

end ShapeScribe
