import Mathlib
import ShapeScribe.Proofs.Json.Reader
import ShapeScribe.Proofs.Settings.Field

/-!
Which source of a field wins. The file comes first, then the variable of the whole group, then the variable of the
field, then the default. Variables were meant to come before the file, and they look as if they did wherever the
sources do not contradict each other.
-/

namespace ShapeScribe.Settings

open Attempt

variable {α : Type} {content : Option (List UInt8)} {env : Environment}

namespace Field

-- What the file says about the field.
def inFile (f : Field α) (content : Option (List UInt8)) : Option Json :=
  (Named.get? f.group (fileMembers content)).bind (Json.member? f.name)

-- What the variable of the whole group says about it.
def inGroupVariable (f : Field α) (content : Option (List UInt8)) (env : Environment) : Option Json :=
  match variableGroup (rootScope (fileMembers content)) env f.group (fieldsOf f.group) with
  | .ok whole => whole.bind (Json.member? f.name)
  | .error _ => none

-- The variable that is named after the group and the field.
def inVariable (f : Field α) (env : Environment) : Option Json :=
  Scope.get? { leading := "ATD_" ++ f.group.toUpper ++ "_" } env f.name

-- The variable that is looked at, with the scope that is given for the group.
def inScope (f : Field α) (content : Option (List UInt8)) (env : Environment) : Option Json :=
  (groupScope f.group ((given? content env f.group).getD [])).get? env f.name

end Field

theorem nodup_of_file {group : String} {members : List (String × Json)}
    (h : Named.get? group (fileMembers content) = some (.object members)) : (members.map (·.1)).Nodup := by
  have hmem := Named.mem_of_get? h
  simp only [fileMembers] at hmem
  split at hmem
  · rename_i file hread
    obtain ⟨bytes, _, hread⟩ := Option.bind_eq_some_iff.mp hread
    obtain ⟨text, _, hread⟩ := Option.bind_eq_some_iff.mp hread
    cases Json.read?_hasDistinctNames hread with
    | object _ hmembers =>
        cases hmembers _ hmem with
        | object hnames _ => exact hnames
  · cases hmem

theorem nodup_of_variableGroup {scope : Scope} {group : String} {fields : List String}
    {members : List (String × Json)} (h : variableGroup scope env group fields = .ok (some (.object members))) :
    (members.map (·.1)).Nodup := by
  have hfields : ∀ given, fieldMembers scope fields given = .object members → (members.map (·.1)).Nodup := by
    intro given hgiven
    cases hgiven
    exact Named.nodup_ofPairs _
  simp only [variableGroup] at h
  split at h
  · split at h
    · cases h
    · exact hfields _ (Option.some.inj (Except.ok.inj h))
  · split at h
    · cases h
    · cases h
    · exact hfields _ (Option.some.inj (Except.ok.inj h))
    · rename_i hobject _
      exact absurd (Option.some.inj (Except.ok.inj h)) (hobject members)
  · rename_i hget
    obtain ⟨value, _, hreading⟩ := Option.map_eq_some_iff.mp hget
    unfold Scope.reading at hreading
    split at hreading <;> cases hreading <;> cases h

-- Of two members of one name the upper one counts.
theorem get?_overlaid {below above : Option Json} {given : List (String × Json)}
    (hbelow : ∀ members, below = some (.object members) → (members.map (·.1)).Nodup)
    (habove : ∀ members, above = some (.object members) → (members.map (·.1)).Nodup)
    (h : givenMembers? (overlaid below above) = some given) (name : String) :
    Named.get? name given = (above.bind (Json.member? name)).or (below.bind (Json.member? name)) := by
  unfold overlaid at h
  split at h
  · rename_i lower upper
    cases h
    rw [Named.get?_ofPairs, List.reverse_append, Named.get?_append, Named.get?_reverse (habove upper rfl),
      Named.get?_reverse (hbelow lower rfl)]
    rfl
  · rename_i hobjects
    cases above with
    | none =>
        match below with
        | none | some (.object _) => cases h; rfl
        | some .null | some (.boolean _) | some (.integer _) | some (.decimal _) | some (.text _) | some (.array _) =>
            cases h
    | some value =>
        cases value with
        | object upper =>
            cases h
            match below with
            | some (.object lower) => exact (hobjects _ _ rfl rfl).elim
            | none | some .null | some (.boolean _) | some (.integer _) | some (.decimal _) | some (.text _)
            | some (.array _) => simp [Json.member?]
        | _ => cases h

theorem get?_given {given : List (String × Json)} (f : Field α) (h : given? content env f.group = some given) :
    Named.get? f.name given = (f.inFile content).or (f.inGroupVariable content env) := by
  unfold given? at h
  split at h
  · cases h
  · rename_i whole hwhole
    rw [get?_overlaid (fun _ hmembers => nodup_of_variableGroup (hmembers ▸ hwhole)) (fun _ => nodup_of_file) h]
    simp only [Field.inFile, Field.inGroupVariable, hwhole]

theorem Field.resolved_eq (f : Field α) (h : Readable content env) :
    f.resolved content env =
      ((f.inFile content).or (f.inGroupVariable content env)).or (f.inScope content env) := by
  obtain ⟨given, hgiven, _⟩ := h.groups _ f.group_mem
  rw [Field.resolved, Field.source, Field.inScope, hgiven, Option.getD_some, get?_given f hgiven]

-- Nothing contradicts the order in which the variable of a field comes before the file: neither what comes before
-- the variable, nor what comes before the default, nor the scope that the variable is looked for in.
structure Field.Agrees (f : Field α) (content : Option (List UInt8)) (env : Environment) : Prop where
  ofVariable : ∀ i j, f.inVariable env = some i → (f.inFile content).or (f.inGroupVariable content env) = some j →
    f.read i.raw = f.read j.raw
  ofGroupVariable : ∀ j, f.inVariable env = none → f.inFile content = none →
    f.inGroupVariable content env = some j → f.read j.raw = .ok f.default
  ofScope : f.inFile content = none → f.inGroupVariable content env = none →
    f.outcome (f.inVariable env) = f.outcome (f.inScope content env)

theorem Field.agrees_iff (f : Field α) :
    f.Agrees content env ↔
      f.outcome ((f.inVariable env).or (f.inFile content)) =
        f.outcome (((f.inFile content).or (f.inGroupVariable content env)).or (f.inScope content env)) := by
  constructor
  · rintro ⟨hvariable, hgroup, hscope⟩
    cases hv : f.inVariable env <;> cases hf : f.inFile content <;> cases hg : f.inGroupVariable content env <;>
      simp_all
  · intro h
    refine ⟨fun i j hv hj => ?_, fun j hv hf hg => ?_, fun hf hg => ?_⟩
    · simpa [hv, hj] using h
    · simpa [hv, hf, hg, eq_comm] using h
    · simpa [hf, hg] using h

theorem Scope.ofMembers_of_plain {leading : String} {members : List (String × Json)}
    (h : ∀ m ∈ members, m.1 ∉ Scope.reserved) : Scope.ofMembers leading members = { leading } := by
  have hnone : ∀ name ∈ Scope.reserved, Named.get? name members = none := by
    intro name hname
    rw [Named.get?_eq_none, List.mem_map]
    rintro ⟨m, hm, rfl⟩
    exact h m hm hname
  simp [Scope.ofMembers, hnone _ (show "_env_prefix" ∈ Scope.reserved by decide),
    hnone _ (show "_case_sensitive" ∈ Scope.reserved by decide),
    hnone _ (show "_env_ignore_empty" ∈ Scope.reserved by decide),
    hnone _ (show "_env_nested_delimiter" ∈ Scope.reserved by decide),
    hnone _ (show "_env_nested_max_split" ∈ Scope.reserved by decide),
    hnone _ (show "_env_parse_none_str" ∈ Scope.reserved by decide)]

-- With nothing but fields and their own variables, the order is off where a variable and the file say different things.
theorem Field.agrees_iff_of_plain (f : Field α) (hreadable : Readable content env)
    (hplain : ∀ given, given? content env f.group = some given → ∀ m ∈ given, m.1 ∉ Scope.reserved)
    (hgroup : f.inGroupVariable content env = none) :
    f.Agrees content env ↔
      ∀ i j, f.inVariable env = some i → f.inFile content = some j → f.read i.raw = f.read j.raw := by
  obtain ⟨given, hgiven, _⟩ := hreadable.groups _ f.group_mem
  have hscope : f.inScope content env = f.inVariable env := by
    rw [Field.inScope, hgiven, Option.getD_some, groupScope, Scope.ofMembers_of_plain (hplain given hgiven)]
    rfl
  constructor
  · intro h i j hi hj
    exact h.ofVariable i j hi (by simp [hj])
  · intro h
    refine ⟨fun i j hi hj => h i j hi (by simpa [hgroup] using hj), by simp [hgroup], fun _ _ => by rw [hscope]⟩

theorem fileMembers_of_text {text : String} {members : List (String × Json)}
    (h : Json.read? text = some (.object members)) : fileMembers (some text.toUTF8.data.toList) = members := by
  have hbytes : String.fromUTF8? ⟨text.toByteArray.data⟩ = some text := by
    simp [String.fromUTF8?, text.isValidUTF8, String.fromUTF8]
  simp [fileMembers, hbytes, h]

-- Settings can be loaded when what counts for each field has a reading, and then that is its value.
theorem load_order (hreadable : Readable content env)
    (hvalid : ∀ (α : Type) (f : Field α), ∃ v, f.outcome (f.resolved content env) = .ok v) :
    ∃ s, load content env = .ok s ∧ ∀ (α : Type) (f : Field α),
      f.outcome (((f.inFile content).or (f.inGroupVariable content env)).or (f.inScope content env)) =
        .ok (f.value s) ∧
      (f.outcome ((f.inVariable env).or (f.inFile content)) = .ok (f.value s) ↔ f.Agrees content env) := by
  obtain ⟨maxArraySamples, hsamples⟩ := hvalid _ .maxArraySamples
  obtain ⟨analyzeAllArrayElements, hall⟩ := hvalid _ .analyzeAllArrayElements
  obtain ⟨detectDates, hdates⟩ := hvalid _ .detectDates
  obtain ⟨maxDepth, hdepth⟩ := hvalid _ .maxDepth
  obtain ⟨windowSize, hwindow⟩ := hvalid _ .windowSize
  obtain ⟨level, hlevel⟩ := hvalid _ .level
  obtain ⟨asJson, hasJson⟩ := hvalid _ .asJson
  obtain ⟨directory, hdirectory⟩ := hvalid _ .directory
  let s : Settings := {
    inference := { maxArraySamples, analyzeAllArrayElements, detectDates, maxDepth, windowSize }
    logging := { level, asJson }
    directory }
  have hvalues : ∀ (α : Type) (f : Field α), f.outcome (f.resolved content env) = .ok (f.value s) := by
    intro α f
    cases f <;> assumption
  refine ⟨s, load_eq_ok.mpr ⟨hreadable, hvalues⟩, fun α f => ?_⟩
  have hvalue := hvalues α f
  rw [f.resolved_eq hreadable] at hvalue
  exact ⟨hvalue, by rw [f.agrees_iff, hvalue]⟩

-- A file and an environment that disagree about the window.
def windowFile : String := "\x7b\"inference\": \x7b\"window_size\": 5\x7d\x7d"

def windowEnvironment : Environment := [("ATD_INFERENCE_WINDOW_SIZE", "7")]

theorem load_windowFile :
    ∃ s, load (some windowFile.toUTF8.data.toList) windowEnvironment = .ok s ∧ s.inference.windowSize = 5 ∧
      Field.windowSize.outcome ((Field.windowSize.inVariable windowEnvironment).or
        (Field.windowSize.inFile (some windowFile.toUTF8.data.toList))) = .ok 7 := by
  have hfile : fileMembers (some windowFile.toUTF8.data.toList) =
      [("inference", .object [("window_size", .integer 5)])] := by
    apply fileMembers_of_text
    cbv
  have hinference : given? (some windowFile.toUTF8.data.toList) windowEnvironment "inference" =
      some [("window_size", .integer 5)] := by
    rw [given?, hfile]
    rfl
  have hlogging : given? (some windowFile.toUTF8.data.toList) windowEnvironment "logging" = some [] := by
    rw [given?, hfile]
    rfl
  have hstore : given? (some windowFile.toUTF8.data.toList) windowEnvironment "store" = some [] := by
    rw [given?, hfile]
    rfl
  have hreadable : Readable (some windowFile.toUTF8.data.toList) windowEnvironment := by
    refine ⟨by rw [hfile]; rfl, ?_⟩
    simp only [groups, List.forall_mem_cons, List.not_mem_nil, false_imp_iff, implies_true, and_true]
    exact ⟨⟨_, hinference, rfl, by decide⟩, ⟨_, hlogging, rfl, by simp⟩, ⟨_, hstore, rfl, by simp⟩⟩
  have hupper : "inference".toUpper = "INFERENCE" ∧ "logging".toUpper = "LOGGING" ∧ "store".toUpper = "STORE" :=
    ⟨by decide +kernel, by decide +kernel, by decide +kernel⟩
  have hvalid : ∀ (α : Type) (f : Field α), ∃ v,
      f.outcome (f.resolved (some windowFile.toUTF8.data.toList) windowEnvironment) = .ok v := by
    intro α f
    rw [Field.resolved, Field.source, groupScope]
    cases f <;> simp only [Field.group, hinference, hlogging, hstore, hupper, Option.getD_some] <;> exact ⟨_, rfl⟩
  obtain ⟨s, hload, hfields⟩ := load_order hreadable hvalid
  have hfive : Field.windowSize.inFile (some windowFile.toUTF8.data.toList) = some (.integer 5) := by
    rw [Field.inFile, hfile]
    rfl
  have hseven : Field.windowSize.inVariable windowEnvironment = some (.text "7") := by
    simp only [Field.inVariable, Field.group, hupper]
    rfl
  have hvalue := (hfields _ .windowSize).1
  rw [hfive, Option.some_or, Option.some_or, Field.outcome_some,
    show Field.windowSize.read (Json.integer 5).raw = .ok 5 from rfl] at hvalue
  refine ⟨s, hload, (Except.ok.inj hvalue).symm, ?_⟩
  rw [hseven]
  rfl

end ShapeScribe.Settings
