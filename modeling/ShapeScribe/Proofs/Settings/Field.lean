import ShapeScribe.Proofs.Attempt
import ShapeScribe.Settings.Basic

/-!
The fields of settings, one by one. Settings can be loaded exactly when every group can be read as a whole and what
there is for each field has a reading, and each field then has this reading or its default.
-/

namespace ShapeScribe.Settings

open Attempt

inductive Field : Type → Type
  | maxArraySamples : Field Int
  | analyzeAllArrayElements : Field Bool
  | detectDates : Field Bool
  | maxDepth : Field Int
  | windowSize : Field Int
  | level : Field String
  | asJson : Field Bool
  | directory : Field (Option String)

namespace Field

variable {α : Type}

def group : Field α → String
  | maxArraySamples | analyzeAllArrayElements | detectDates | maxDepth | windowSize => "inference"
  | level | asJson => "logging"
  | directory => "store"

def name : Field α → String
  | maxArraySamples => "max_array_samples"
  | analyzeAllArrayElements => "analyze_all_array_elements"
  | detectDates => "detect_dates"
  | maxDepth => "max_depth"
  | windowSize => "window_size"
  | level => "level"
  | asJson => "json_output"
  | directory => "directory"

def read : Field α → Raw → Except Complaint α
  | maxArraySamples | windowSize => Raw.integerWithin 1 none
  | maxDepth => Raw.integerWithin 1 (some 256)
  | analyzeAllArrayElements | detectDates | asJson => Raw.asBoolean
  | level => Raw.asText
  | directory => Raw.optional Raw.asText

def default : Field α → α
  | maxArraySamples => 100
  | analyzeAllArrayElements | detectDates | asJson => true
  | maxDepth => 64
  | windowSize => 10
  | level => "INFO"
  | directory => none

def value : Field α → Settings → α
  | maxArraySamples, s => s.inference.maxArraySamples
  | analyzeAllArrayElements, s => s.inference.analyzeAllArrayElements
  | detectDates, s => s.inference.detectDates
  | maxDepth, s => s.inference.maxDepth
  | windowSize, s => s.inference.windowSize
  | level, s => s.logging.level
  | asJson, s => s.logging.asJson
  | directory, s => s.directory

-- What the field amounts to when it is taken from a source, or from none.
def outcome (f : Field α) : Option Json → Except Complaint α
  | some j => f.read j.raw
  | none => .ok f.default

@[simp] theorem outcome_some (f : Field α) (j : Json) : f.outcome (some j) = f.read j.raw := rfl

@[simp] theorem outcome_none (f : Field α) : f.outcome none = .ok f.default := rfl

end Field

def fieldsOf (group : String) : List String := (Named.get? group groups).getD []

-- The members of a group that is given as an object, or not at all.
def givenMembers? : Option Json → Option (List (String × Json))
  | none => some []
  | some (.object given) => some given
  | some _ => none

-- The members that are given for a group, by the file and by the group's own variable.
def given? (content : Option (List UInt8)) (env : Environment) (group : String) : Option (List (String × Json)) :=
  match variableGroup (rootScope (fileMembers content)) env group (fieldsOf group) with
  | .error _ => none
  | .ok whole => givenMembers? (overlaid whole (Named.get? group (fileMembers content)))

-- What a field is read from: the members given for its group, else its own variable as they make it look.
def Field.source {α : Type} (f : Field α) (env : Environment) (given : List (String × Json)) : Option Json :=
  (Named.get? f.name given).or ((groupScope f.group given).get? env f.name)

-- Nothing is given for a group that is no field of it and does not concern its scope either.
def GroupReadable (content : Option (List UInt8)) (env : Environment) (group : String) : Prop :=
  ∃ given, given? content env group = some given ∧ Scope.unusable? given = none ∧
    ∀ m ∈ given, m.1 ∈ fieldsOf group ∨ m.1 ∈ Scope.reserved

structure Readable (content : Option (List UInt8)) (env : Environment) : Prop where
  file : Scope.unusable? (fileMembers content) = none
  groups : ∀ g ∈ groups, GroupReadable content env g.1

theorem Source.unexpected_eq_ok {s : Source} {fields : List String} :
    s.unexpected fields = .ok () ↔ ∀ m ∈ s.given, m.1 ∈ fields ∨ m.1 ∈ Scope.reserved := by
  have hnames : (s.given.map (·.1)).filter (fun name => !fields.contains name && !Scope.reserved.contains name) = [] ↔
      ∀ m ∈ s.given, m.1 ∈ fields ∨ m.1 ∈ Scope.reserved := by
    rw [List.filter_eq_nil_iff, List.forall_mem_map]
    refine forall₂_congr fun m _ => ?_
    simp [or_iff_not_imp_left]
  unfold unexpected
  split
  · rename_i hnil
    exact iff_of_true rfl (hnames.mp hnil)
  · rename_i hne
    exact iff_of_false (by simp) fun h => hne (hnames.mpr h)

theorem Field.read_eq_ok {α : Type} (f : Field α) {group : String} (hgroup : f.group = group) {env : Environment}
    {given : List (String × Json)} {v : α} :
    (Source.ofGroup env group given).field f.name f.read f.default = .ok v ↔
      f.outcome (f.source env given) = .ok v := by
  subst hgroup
  have hget : (Source.ofGroup env f.group given).get? f.name = (f.source env given).map Json.raw := rfl
  rw [Source.field, hget]
  cases f.source env given with
  | none => simp [Validated.field, Field.outcome]
  | some j =>
      simp only [Option.map_some, Validated.field, Field.outcome]
      cases f.read j.raw <;> simp [Except.mapError]

variable {content : Option (List UInt8)} {env : Environment} {given : List (String × Json)} {s : Settings}

-- The fields of a group have the values that settings show.
def Shows (env : Environment) (group : String) (given : List (String × Json)) (s : Settings) : Prop :=
  ∀ (α : Type) (f : Field α), f.group = group → f.outcome (f.source env given) = .ok (f.value s)

theorem inferenceOf_eq_ok :
    inferenceOf (.ofGroup env "inference" given) = .ok s.inference ↔
      Shows env "inference" given s ∧ ∀ m ∈ given, m.1 ∈ inferenceFields ∨ m.1 ∈ Scope.reserved := by
  simp only [inferenceOf, except_map_eq_ok, Validated.and_eq_ok]
  constructor
  · rintro ⟨⟨samples, all, dates, depth, window, _⟩, ⟨hsamples, hall, hdates, hdepth, hwindow, hnames⟩, hs⟩
    refine ⟨fun _ f hf => ?_, Source.unexpected_eq_ok.mp hnames⟩
    cases f <;> simp only [Field.group, String.reduceEq] at hf <;> simp only [Field.value, ← hs]
    · exact (Field.read_eq_ok .maxArraySamples rfl).mp hsamples
    · exact (Field.read_eq_ok .analyzeAllArrayElements rfl).mp hall
    · exact (Field.read_eq_ok .detectDates rfl).mp hdates
    · exact (Field.read_eq_ok .maxDepth rfl).mp hdepth
    · exact (Field.read_eq_ok .windowSize rfl).mp hwindow
  · rintro ⟨hshows, hnames⟩
    have hfield {α : Type} (f : Field α) (h : f.group = "inference") := (f.read_eq_ok h).mpr (hshows α f h)
    exact ⟨(s.inference.maxArraySamples, s.inference.analyzeAllArrayElements, s.inference.detectDates,
      s.inference.maxDepth, s.inference.windowSize, ()), ⟨hfield .maxArraySamples rfl,
      hfield .analyzeAllArrayElements rfl, hfield .detectDates rfl, hfield .maxDepth rfl, hfield .windowSize rfl,
      Source.unexpected_eq_ok.mpr hnames⟩, rfl⟩

theorem loggingOf_eq_ok :
    loggingOf (.ofGroup env "logging" given) = .ok s.logging ↔
      Shows env "logging" given s ∧ ∀ m ∈ given, m.1 ∈ loggingFields ∨ m.1 ∈ Scope.reserved := by
  simp only [loggingOf, except_map_eq_ok, Validated.and_eq_ok]
  constructor
  · rintro ⟨⟨level, asJson, _⟩, ⟨hlevel, hasJson, hnames⟩, hs⟩
    refine ⟨fun _ f hf => ?_, Source.unexpected_eq_ok.mp hnames⟩
    cases f <;> simp only [Field.group, String.reduceEq] at hf <;> simp only [Field.value, ← hs]
    · exact (Field.read_eq_ok .level rfl).mp hlevel
    · exact (Field.read_eq_ok .asJson rfl).mp hasJson
  · rintro ⟨hshows, hnames⟩
    have hfield {α : Type} (f : Field α) (h : f.group = "logging") := (f.read_eq_ok h).mpr (hshows α f h)
    exact ⟨(s.logging.level, s.logging.asJson, ()), ⟨hfield .level rfl, hfield .asJson rfl,
      Source.unexpected_eq_ok.mpr hnames⟩, rfl⟩

theorem directoryOf_eq_ok :
    directoryOf (.ofGroup env "store" given) = .ok s.directory ↔
      Shows env "store" given s ∧ ∀ m ∈ given, m.1 ∈ storeFields ∨ m.1 ∈ Scope.reserved := by
  simp only [directoryOf, except_map_eq_ok, Validated.and_eq_ok]
  constructor
  · rintro ⟨⟨directory, _⟩, ⟨hdirectory, hnames⟩, hs⟩
    refine ⟨fun _ f hf => ?_, Source.unexpected_eq_ok.mp hnames⟩
    cases f <;> simp only [Field.group, String.reduceEq] at hf
    rw [Field.value, ← hs]
    exact (Field.read_eq_ok .directory rfl).mp hdirectory
  · rintro ⟨hshows, hnames⟩
    exact ⟨(s.directory, ()), ⟨(Field.read_eq_ok .directory rfl).mpr (hshows _ .directory rfl),
      Source.unexpected_eq_ok.mpr hnames⟩, rfl⟩

theorem usable_eq_ok {members : List (String × Json)} {u : Unit} :
    usable members = .ok u ↔ Scope.unusable? members = none := by
  unfold usable
  split <;> simp_all

theorem readGroup_eq_ok {α : Type} {group : String} {value : Option Json} {read : Source → Validated α} {a : α} :
    readGroup env group value read = .ok (.ok a) ↔
      ∃ given, givenMembers? value = some given ∧ Scope.unusable? given = none ∧
        read (.ofGroup env group given) = .ok a := by
  have hnil : Scope.unusable? [] = none := rfl
  match value with
  | none =>
      simp only [readGroup, givenMembers?, except_map_eq_ok, Option.some.injEq, exists_eq_left', hnil, true_and]
      cases read (.ofGroup env group []) <;> simp [Except.mapError]
  | some (.object given) =>
      simp only [readGroup, givenMembers?, bind_eq_ok, pure_eq_ok, Option.some.injEq, exists_eq_left']
      cases read (.ofGroup env group given) <;> simp [Except.mapError, usable_eq_ok]
  | some .null | some (.boolean _) | some (.integer _) | some (.decimal _) | some (.text _) | some (.array _) =>
      simp [readGroup, givenMembers?]

-- A group that is read from what is given for it.
theorem exists_readGroup_iff {α : Type} (content : Option (List UInt8)) (env : Environment) (s : Settings)
    (group : String) (fields : List String) (read : Source → Validated α) {a : α} (hfields : fieldsOf group = fields)
    (hread : ∀ given, read (.ofGroup env group given) = .ok a ↔
      Shows env group given s ∧ ∀ m ∈ given, m.1 ∈ fields ∨ m.1 ∈ Scope.reserved) :
    (∃ whole, variableGroup (rootScope (fileMembers content)) env group fields = .ok whole ∧
        readGroup env group (overlaid whole (Named.get? group (fileMembers content))) read = .ok (.ok a)) ↔
      GroupReadable content env group ∧ Shows env group ((given? content env group).getD []) s := by
  subst hfields
  simp only [readGroup_eq_ok, hread]
  constructor
  · rintro ⟨whole, hwhole, given, hgiven, husable, hshows, hnames⟩
    have hsome : given? content env group = some given := by simp [given?, hwhole, hgiven]
    exact ⟨⟨given, hsome, husable, hnames⟩, by simpa [hsome] using hshows⟩
  · rintro ⟨⟨given, hsome, husable, hnames⟩, hshows⟩
    rw [hsome, Option.getD_some] at hshows
    unfold given? at hsome
    split at hsome
    · cases hsome
    · rename_i whole hwhole
      exact ⟨whole, hwhole, given, hsome, husable, hshows, hnames⟩

-- What the field is read from in the end.
def Field.resolved {α : Type} (f : Field α) (content : Option (List UInt8)) (env : Environment) : Option Json :=
  f.source env ((given? content env f.group).getD [])

theorem Field.group_mem {α : Type} (f : Field α) : (f.group, fieldsOf f.group) ∈ groups := by
  cases f <;> simp [Field.group, fieldsOf, groups, Named.get?]

theorem shows_groups_iff {given : String → List (String × Json)} :
    (∀ g ∈ groups, Shows env g.1 (given g.1) s) ↔
      ∀ (α : Type) (f : Field α), f.outcome (f.source env (given f.group)) = .ok (f.value s) := by
  constructor
  · intro h α f
    exact h _ f.group_mem α f rfl
  · intro h g _ α f hg
    rw [← hg]
    exact h α f

theorem load_eq_ok :
    load content env = .ok s ↔
      Readable content env ∧ ∀ (α : Type) (f : Field α), f.outcome (f.resolved content env) = .ok (f.value s) := by
  have hinference := exists_readGroup_iff content env s "inference" inferenceFields inferenceOf rfl
    fun _ => inferenceOf_eq_ok
  have hlogging := exists_readGroup_iff content env s "logging" loggingFields loggingOf rfl fun _ => loggingOf_eq_ok
  have hstore := exists_readGroup_iff content env s "store" storeFields directoryOf rfl fun _ => directoryOf_eq_ok
  have hgroups := @shows_groups_iff env s fun group => (given? content env group).getD []
  simp only [groups, List.forall_mem_cons, List.not_mem_nil, false_imp_iff, implies_true, and_true] at hgroups
  simp only [load, bind_eq_ok, usable_eq_ok, exists_const]
  constructor
  · rintro ⟨hfile, _, hwi, _, hwl, _, hws, vi, hvi, vl, hvl, vs, hvs, h⟩
    split at h
    · rename_i heq
      cases h
      obtain ⟨rfl, hboth⟩ := Validated.and_eq_ok.mp heq
      obtain ⟨rfl, rfl⟩ := Validated.and_eq_ok.mp hboth
      have hi := hinference.mp ⟨_, hwi, hvi⟩
      have hl := hlogging.mp ⟨_, hwl, hvl⟩
      have hs := hstore.mp ⟨_, hws, hvs⟩
      refine ⟨⟨hfile, ?_⟩, hgroups.mp ⟨hi.2, hl.2, hs.2⟩⟩
      simp only [groups, List.forall_mem_cons, List.not_mem_nil, false_imp_iff, implies_true, and_true]
      exact ⟨hi.1, hl.1, hs.1⟩
    · cases h
  · rintro ⟨⟨hfile, hreadable⟩, hshows⟩
    simp only [groups, List.forall_mem_cons, List.not_mem_nil, false_imp_iff, implies_true, and_true] at hreadable
    obtain ⟨hi, hl, hs⟩ := hgroups.mpr hshows
    obtain ⟨_, hwi, hvi⟩ := hinference.mpr ⟨hreadable.1, hi⟩
    obtain ⟨_, hwl, hvl⟩ := hlogging.mpr ⟨hreadable.2.1, hl⟩
    obtain ⟨_, hws, hvs⟩ := hstore.mpr ⟨hreadable.2.2, hs⟩
    exact ⟨hfile, _, hwi, _, hwl, _, hws, _, hvi, _, hvl, _, hvs, rfl⟩

end ShapeScribe.Settings
