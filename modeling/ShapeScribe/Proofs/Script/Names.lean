import ShapeScribe.Proofs.Script.Members
import ShapeScribe.Proofs.Shape.Circular

/-!
Names that a reader of declarations sees. Where the keys of the samples are on one line, the members of an interface have
the names of the observed fields, and every record in a type has the names of an object that a sample reaches; no two
of them are the same.
-/

namespace ShapeScribe

open Attempt Relation Script

-- The records in a list of records, at any depth.
inductive Script.Shows : List (List Member) → List Member → Prop
  | here {records : List (List Member)} {record : List Member} (h : record ∈ records) : Shows records record
  | within {records : List (List Member)} {record inner : List Member} {m : Member} (h : record ∈ records) (hm : m ∈ record)
    (hinner : Shows m.records inner) : Shows records inner

def Container.NamesOnOneLine : Container → Prop
  | .array .. => True
  | .object members => ∀ m ∈ members, ∀ name ∈ m.1.name?, Script.OnOneLine name.toList

instance : (c : Container) → Decidable c.NamesOnOneLine
  | .array .. => inferInstanceAs (Decidable True)
  | .object members =>
    inferInstanceAs (Decidable (∀ m ∈ members, ∀ name ∈ m.1.name?, Script.OnOneLine name.toList))

namespace Token

variable {t u part : Token} {ts : List Token} {fields : List (String × List Token)} {record : List Member}

theorem Contains.trans (h : t.Contains u) (h' : u.Contains part) : t.Contains part := by
  induction h with
  | self => exact h'
  | element ht _ ih => exact .element ht (ih h')
  | field hf ht _ ih => exact .field hf ht (ih h')

theorem Legible.of_contains (h : t.Legible) (hpart : t.Contains part) : part.Legible := by
  induction hpart with
  | self => exact h
  | element ht _ ih =>
      cases h with
      | array hall => exact ih (hall _ ht)
  | field hf ht _ ih =>
      cases h with
      | record _ hall => exact ih (hall _ hf _ ht)

theorem not_contains_record {name text : String} : ¬ (scalar name text).Contains (.record fields) := by
  simp

-- The records in the text of a token are those that the token is made of.
theorem Legible.exists_record (h : t.Legible) (hrecord : record ∈ t.records) :
    ∃ fields, t.Contains (.record fields) ∧ record = members fields := by
  induction h with
  | word => cases hrecord
  | array _ ih =>
      rw [records, recordsAll_eq_flatMap] at hrecord
      obtain ⟨u, hu, hrecord⟩ := List.mem_flatMap.mp hrecord
      obtain ⟨fields, hpart, rfl⟩ := ih u hu hrecord
      exact ⟨fields, .element hu hpart, rfl⟩
  | @record fields _ _ _ =>
      cases fields with
      | nil => cases hrecord
      | cons f fs =>
          rw [records, List.mem_singleton] at hrecord
          exact ⟨f :: fs, .self _, hrecord⟩

theorem exists_part_of_shows (hts : ∀ t ∈ ts, t.Legible) (h : Shows (recordsAll ts) record) :
    ∃ t ∈ ts, ∃ fields, t.Contains (.record fields) ∧ record = members fields := by
  generalize hrecords : recordsAll ts = records at h
  have hfound : ∀ {ts : List Token} {record : List Member}, (∀ t ∈ ts, t.Legible) → record ∈ recordsAll ts →
      ∃ t ∈ ts, ∃ fields, t.Contains (.record fields) ∧ record = members fields := by
    intro ts record hts hrecord
    rw [recordsAll_eq_flatMap] at hrecord
    obtain ⟨t, ht, hrecord⟩ := List.mem_flatMap.mp hrecord
    exact ⟨t, ht, (hts t ht).exists_record hrecord⟩
  induction h generalizing ts with
  | here h => exact hfound hts (hrecords ▸ h)
  | within h hm _ ih =>
      obtain ⟨t, ht, fields, hpart, rfl⟩ := hfound hts (hrecords ▸ h)
      rw [members_eq_map] at hm
      obtain ⟨f, hf, rfl⟩ := List.mem_map.mp hm
      have hunion : ∀ u ∈ f.2, u.Legible := by
        intro u hu
        cases (hts t ht).of_contains hpart with
        | record _ hall => exact hall f hf u hu
      obtain ⟨u, hu, inner, hinner, rfl⟩ := ih hunion (recordsAll_eq_flatMap f.2)
      exact ⟨t, ht, inner, hpart.trans (.field hf hu hinner), rfl⟩

theorem names_members (fields : List (String × List Token)) :
    (members fields).map Member.name = (fields.map (·.1)).map Text.units := by
  simp [members_eq_map, Member.name]

end Token

namespace Sample

variable {o : Options} {s : Sample} {pos : Position} {t : Token} {fields : List (String × List Token)}

-- A record is the token of an object, in a position below.
theorem exists_object_of_contains (h : s.tokenAt o pos = .ok t) (hpart : t.Contains (.record fields)) :
    ∃ pos' p members named, ReflTransGen (s.Descends o) pos pos' ∧ pos'.value = .container p ∧
      s.contents p = .object members ∧ List.Forall₂ (fun m f => m.1 = .text f.1) members named ∧
      fields = Named.inOrder named := by
  obtain ⟨⟨path, v⟩, hpath, htoken⟩ := (contains_iff pos.path pos.value h).mp hpart
  cases v with
  | leaf l =>
      rw [tokenAt_leaf] at htoken
      obtain ⟨_, _, hscalar, _⟩ := Leaf.exists_scalar htoken
      cases hscalar
  | container p =>
      by_cases hp : p ∈ path
      · rw [tokenAt_again hp] at htoken
        cases htoken
      · have hdescribed := describedBy_of_tokenAt hp htoken
        cases hc : s.contents p with
        | array fixed items =>
            rw [hc] at hdescribed
            obtain ⟨_, _, hrecord⟩ := hdescribed
            cases hrecord
        | object members =>
            rw [hc] at hdescribed
            obtain ⟨named, hnamed, hrecord⟩ := hdescribed
            cases hrecord
            exact ⟨_, p, members, named, hpath, rfl, hc, hnamed.imp fun _ _ h => h.1, rfl⟩

def NamesOnOneLine (s : Sample) : Prop := ∀ p, s.Reaches p → (s.contents p).NamesOnOneLine

theorem namesOnOneLine_of_containers (h : ∀ c ∈ s.containers.toList, c.NamesOnOneLine) : s.NamesOnOneLine := by
  intro p _
  rcases s.contents_eq_or p with hp | ⟨_, hp⟩
  · rw [hp]
    trivial
  · exact h _ hp.val

theorem onOneLine_of_member (hlines : s.NamesOnOneLine) {p : Place} {members : List (Key × Value)} (hp : s.Reaches p)
    (hcontents : s.contents p = .object members) {m : Key × Value} (hm : m ∈ members) {name : String}
    (hname : m.1 = .text name) : Script.OnOneLine name.toList := by
  have hnames := hlines p hp
  rw [hcontents] at hnames
  exact hnames m hm name (Key.name?_eq_some.mpr hname)

-- The members have the names of an object that some sample reaches, each of them once.
def NamedAfter (samples : List Sample) (record : List Member) : Prop :=
  (record.map Member.name).Nodup ∧ ∃ s ∈ samples, ∃ p members, s.Reaches p ∧ s.contents p = .object members ∧
    ∀ units, units ∈ record.map Member.name ↔ ∃ name v, units = Text.units name ∧ (.text name, v) ∈ members

variable {samples : List Sample} {record : List Member} {stats : FieldStats} {stat : FieldStat}
  {field : String}

theorem legible_of_tokenAt (h : s.tokenAt o pos = .ok t) : t.Legible := legible_of_shapeBelow h

theorem onOneLine_of_tokenAt (hlines : s.NamesOnOneLine) (hway : s.OnWay pos) (h : s.tokenAt o pos = .ok t) :
    t.OnOneLine := by
  intro fields hpart f hf
  obtain ⟨pos', p, members, named, hpath, hvalue, hp, hnamed, rfl⟩ := exists_object_of_contains h hpart
  obtain ⟨m, hm, hname⟩ := exists_item hnamed (Named.mem_inOrder.mp hf)
  have hheld := (hway.descend hpath).held
  rw [hvalue] at hheld
  exact onOneLine_of_member hlines hheld.reaches hp hm hname

theorem namedAfter_of_contains (hs : s ∈ samples) (hkeys : s.HasDistinctKeys) (hway : s.OnWay pos)
    (h : s.tokenAt o pos = .ok t) (hpart : t.Contains (.record fields)) : NamedAfter samples (Token.members fields) := by
  obtain ⟨pos', p, members, named, hpath, hvalue, hp, hnamed, rfl⟩ := exists_object_of_contains h hpart
  have hheld := (hway.descend hpath).held
  rw [hvalue] at hheld
  have hdistinct := hkeys p
  rw [hp] at hdistinct
  have hnodup : ((Named.inOrder named).map (·.1)).Nodup :=
    ((Named.inOrder_perm named).map _).nodup_iff.mpr (Key.nodup_names hdistinct hnamed)
  refine ⟨?_, s, hs, p, members, hheld.reaches, hp, fun units => ?_⟩
  · rw [Token.names_members]
    exact hnodup.map fun _ _ h => Text.units_inj h
  · simp only [Token.names_members, List.mem_map, Named.mem_inOrder]
    constructor
    · rintro ⟨_, ⟨f, hf, rfl⟩, rfl⟩
      obtain ⟨⟨key, v⟩, hm, rfl⟩ := exists_item hnamed hf
      exact ⟨f.1, v, rfl, hm⟩
    · rintro ⟨name, v, rfl, hm⟩
      obtain ⟨f, hf, hname⟩ := exists_result hnamed hm
      exact ⟨f.1, ⟨f, hf, rfl⟩, by rw [Key.text.inj hname]⟩

end Sample

namespace Definition

variable {o : Options} {samples : List Sample} {name field : String} {text : List Char} {stats : FieldStats}
  {stat : FieldStat} {t : Token} {record : List Member}

-- A token without parts, or that of a value in a sample.
def IsObserved (o : Options) (samples : List Sample) (t : Token) : Prop :=
  (∃ name text, t = .scalar name text ∧ t.Legible) ∨ ∃ s ∈ samples, ∃ pos, s.OnWay pos ∧ s.tokenAt o pos = .ok t

theorem isObserved_of_union (hstats : collectFields o samples = .ok stats) (hstat : stats.get? field = some stat)
    (ht : t ∈ stat.union) : IsObserved o samples t := by
  rcases FieldStat.mem_union.mp ht with ht | ⟨_, rfl⟩ | ⟨_, rfl⟩
  · obtain ⟨s, hs, p, v, hroot, hm, _, htoken⟩ := (Sample.mem_tokens_iff hstats hstat).mp ht
    exact .inr ⟨s, hs, _, s.onWay_root.descend (hm.visits (o := o) hroot), htoken⟩
  · exact .inl ⟨_, _, rfl, .word (by decide)⟩
  · exact .inl ⟨_, _, rfl, .word (by decide)⟩

-- The statistics that an interface is written from, in order of name.
theorem exists_entries (hobject : samples.any Sample.isObject = true) (h : group o name samples = .ok text) :
    ∃ (stats : FieldStats) (entries : List (String × FieldStat)), collectFields o samples = .ok stats ∧
      text = interfaceText name (entries.map fun f => (f.1, f.2.union)) ∧ (entries.map (·.1)).Pairwise (· < ·) ∧
      ∀ field stat, (field, stat) ∈ entries ↔ stats.get? field = some stat := by
  obtain ⟨stats, sorted, fields, hstats, hsorted, hfields, _⟩ := (group_eq_ok_of_object hobject).mp h
  have hnamed : ∀ f ∈ stats, ∃ field, f.1 = .text field := by
    intro f hf
    have hmem := List.mem_map_of_mem (f := fun f => (f.1, f.2.text)) ((Key.inOrder_perm hsorted).mem_iff.mpr hf)
    obtain ⟨g, _, hkey, _⟩ := exists_result (textFields_eq_ok.mp hfields) hmem
    exact ⟨g.1, hkey⟩
  obtain ⟨entries, hmap, hrising, hentries⟩ := exists_fieldMap hstats hnamed
  refine ⟨stats, entries, hstats, ?_, hrising, hentries⟩
  have htexts : fieldMap o samples = .ok ((entries.map fun f => (f.1, f.2.text)).map fun f => (.text f.1, f.2)) := by
    rw [hmap, List.map_map]
    rfl
  rw [Except.ok.inj (h.symm.trans (group_of_fieldMap hobject htexts name)), interfaceText, List.map_map]
  rfl

section Names

variable (hsamples : ∀ s ∈ samples, s.HasDistinctKeys ∧ s.NamesOnOneLine)

include hsamples

theorem IsObserved.legible (h : IsObserved o samples t) : t.Legible ∧ t.OnOneLine := by
  rcases h with ⟨name, text, rfl, hlegible⟩ | ⟨s, hs, pos, hway, htoken⟩
  · exact ⟨hlegible, fun fields hpart => absurd hpart Token.not_contains_record⟩
  · exact ⟨Sample.legible_of_tokenAt htoken, Sample.onOneLine_of_tokenAt (hsamples s hs).2 hway htoken⟩

theorem namedAfter_of_shows {ts : List Token} (hts : ∀ t ∈ ts, IsObserved o samples t)
    (h : Shows (Token.recordsAll ts) record) : Sample.NamedAfter samples record := by
  obtain ⟨t, ht, fields, hpart, rfl⟩ := Token.exists_part_of_shows (fun t ht => ((hts t ht).legible hsamples).1) h
  rcases hts t ht with ⟨name, text, rfl, _⟩ | ⟨s, hs, pos, hway, htoken⟩
  · exact absurd hpart Token.not_contains_record
  · exact Sample.namedAfter_of_contains hs (hsamples s hs).1 hway htoken hpart

theorem members_of_interface (hobject : samples.any Sample.isObject = true) (h : group o name samples = .ok text) :
    ∃ body members, text = "interface ".toList ++ name.toList ++ [' ', '{'] ++ body ∧ members? body = some members ∧
      (members.map Member.name).Nodup ∧
      (∀ units, units ∈ members.map Member.name ↔
        ∃ field, units = Text.units field ∧ ∃ s ∈ samples, s.HasField field) ∧
      ∀ m ∈ members, ∀ record, Shows m.records record → Sample.NamedAfter samples record := by
  obtain ⟨stats, entries, hstats, htext, hrising, hentries⟩ := exists_entries hobject h
  have hobserved : ∀ f ∈ entries, ∀ t ∈ f.2.union, IsObserved o samples t := fun f hf t ht =>
    isObserved_of_union hstats ((hentries f.1 f.2).mp hf) ht
  have hfield : ∀ field, field ∈ entries.map (·.1) ↔ ∃ s ∈ samples, s.HasField field := by
    intro field
    rw [← exists_get?_iff hstats, List.mem_map]
    constructor
    · rintro ⟨f, hf, rfl⟩
      exact ⟨f.2, (hentries f.1 f.2).mp hf⟩
    · rintro ⟨stat, hstat⟩
      exact ⟨(field, stat), (hentries field stat).mpr hstat, rfl⟩
  have hlines : ∀ f ∈ entries.map fun f => (f.1, f.2.union), Script.OnOneLine f.1.toList := by
    refine List.forall_mem_map.mpr fun f hf => ?_
    obtain ⟨s, hs, v, p, members, hobject, hm, _⟩ := (hfield f.1).mp (List.mem_map_of_mem hf)
    obtain ⟨hroot, hcontents⟩ := Sample.object?_eq_some.mp hobject
    exact Sample.onOneLine_of_member (hsamples s hs).2 ⟨p, hroot, .refl⟩ hcontents hm rfl
  obtain ⟨body, hbody, hmembers⟩ := members?_interface name hlines
    (List.forall_mem_map.mpr fun f hf t ht => (hobserved f hf t ht).legible hsamples)
  have hnames : (membersOf (entries.map fun f => (f.1, f.2.union))).map Member.name =
      ((Named.inOrder entries).map (·.1)).map Text.units := by
    simp [membersOf, Token.names_members, Named.inOrder_map, Function.comp_def]
  have hnodup : ((Named.inOrder entries).map (·.1)).Nodup :=
    ((Named.inOrder_perm entries).map _).nodup_iff.mpr (hrising.imp String.ne_of_lt)
  refine ⟨body, _, htext.trans hbody, hmembers, ?_, fun units => ?_, fun m hm record hshows => ?_⟩
  · rw [hnames]
    exact hnodup.map fun _ _ h => Text.units_inj h
  · rw [hnames, List.mem_map]
    simp only [((Named.inOrder_perm entries).map Prod.fst).mem_iff, hfield]
    exact exists_congr fun field => ⟨fun h => ⟨h.2.symm, h.1⟩, fun h => ⟨h.2, h.1.symm⟩⟩
  · rw [membersOf, Token.members_eq_map, List.map_map] at hm
    obtain ⟨f, hf, rfl⟩ := List.mem_map.mp hm
    obtain ⟨e, he, rfl⟩ := List.mem_map.mp (Named.mem_inOrder.mp hf)
    have hunion : ∀ t ∈ Token.normalize e.2.union, IsObserved o samples t := fun t ht =>
      hobserved e he t (Token.mem_normalize.mp ht)
    refine namedAfter_of_shows hsamples hunion ?_
    rw [Token.recordsAll_eq_flatMap]
    exact hshows

theorem records_of_synonym (h : synonym o name samples = .ok text) :
    ∃ union records, text = "type ".toList ++ name.toList ++ " = ".toList ++ union ++ [';'] ∧
      records? union = some records ∧ ∀ record, Shows records record → Sample.NamedAfter samples record := by
  simp only [synonym, bind_eq_ok, pure_eq_ok] at h
  obtain ⟨shapes, hshapes, rfl⟩ := h
  have hobserved : ∀ t ∈ Token.normalize shapes, IsObserved o samples t := by
    intro t ht
    obtain ⟨s, hs, htoken⟩ := exists_item (sampleShapes_eq_ok.mp hshapes) (Token.mem_normalize.mp ht)
    exact .inr ⟨s, hs, _, s.onWay_root, htoken⟩
  have hread : Token.ReadAs (Token.writtenUnion ((Token.normalize shapes).map Token.written))
      (Token.recordsAll (Token.normalize shapes)) := by
    refine Token.readAs_union fun t ht => ?_
    obtain ⟨hlegible, hlines⟩ := (hobserved t ht).legible hsamples
    exact hlegible.readAs hlines
  refine ⟨_, _, rfl, ?_, fun record hshows => namedAfter_of_shows hsamples hobserved hshows⟩
  rw [Token.toList_unionText]
  exact hread.records?_eq

end Names

end Definition

namespace Script

variable {n : String}

theorem onOneLine_escaped {cs : List Char} (h : OnOneLine cs) : OnOneLine (cs.flatMap FieldName.escaped) := by
  intro d hd
  obtain ⟨c, hc, hd⟩ := List.mem_flatMap.mp hd
  unfold FieldName.escaped at hd
  split at hd
  · rcases List.mem_pair.mp hd with rfl | rfl
    · rfl
    · exact h d hc
  · rw [List.mem_singleton.mp hd]
    exact h c hc

theorem toList_safeFieldName (n : String) : (safeFieldName n).toList = FieldName.written n.toList := by
  rw [safeFieldName, String.toList_ofList]

-- A name on one line is written bare if it is an identifier, and as a literal of the same units otherwise.
theorem safeFieldName_cases (h : OnOneLine n.toList) :
    (safeFieldName n = n ∧ FieldName.isIdentifier n.toList = true) ∨
      ∃ inner, (safeFieldName n).toList = '"' :: inner ++ ['"'] ∧ OnOneLine inner ∧
        literal? (safeFieldName n).toList = some (Text.units n) := by
  cases hbare : FieldName.isBare n.toList with
  | true =>
      refine .inl ⟨?_, isIdentifier_of_isBare hbare h⟩
      simp [safeFieldName, FieldName.written, hbare]
  | false =>
      have hwritten : (safeFieldName n).toList = '"' :: n.toList.flatMap FieldName.escaped ++ ['"'] := by
        simp [toList_safeFieldName, FieldName.written, hbare]
      exact .inr ⟨_, hwritten, onOneLine_escaped h, hwritten ▸ literal?_quoted h⟩

theorem name?_safeFieldName_iff : name? (safeFieldName n).toList = some (Text.units n) ↔ OnOneLine n.toList := by
  rw [toList_safeFieldName]
  refine ⟨fun hread => ?_, name?_written⟩
  by_contra hlines
  rcases name?_broken hlines with ⟨name, _, hn, hwritten, hname⟩ | hnone
  · rw [hwritten, hname, Option.some.injEq] at hread
    have hsame := Text.flatMap_unitsOf_inj hread
    rw [hn] at hsame
    simp at hsame
  · simp [hnone] at hread

end Script

-- Names on one line are read as they are, those of members and those of the members in their types, and no two of them
-- are taken for one. A name with a line break is read as another one or not at all.
theorem names_of_declarations (o : Options) (samples : List Sample) :
    (∀ n : String, (name? (safeFieldName n).toList = some (Text.units n) ↔ Script.OnOneLine n.toList) ∧
      (Script.OnOneLine n.toList →
        (safeFieldName n = n ∧ FieldName.isIdentifier n.toList = true) ∨
          ∃ inner, (safeFieldName n).toList = '"' :: inner ++ ['"'] ∧ Script.OnOneLine inner ∧
            literal? (safeFieldName n).toList = some (Text.units n)) ∧
      (¬ Script.OnOneLine n.toList →
        (∃ name : String, FieldName.isIdentifier name.toList = true ∧ n = name ++ "\n" ∧ safeFieldName n = n ∧
          name? (safeFieldName n).toList = some (Text.units name)) ∨
        name? (safeFieldName n).toList = none)) ∧
    (∀ m n : String, Text.units m = Text.units n → m = n) ∧
    ((∀ s ∈ samples, s.HasDistinctKeys ∧ s.NamesOnOneLine) → ∀ name text, Definition.group o name samples = .ok text →
      (samples.any Sample.isObject = true →
        ∃ body members, text = "interface ".toList ++ name.toList ++ [' ', '{'] ++ body ∧
          members? body = some members ∧ (members.map Member.name).Nodup ∧
          (∀ units, units ∈ members.map Member.name ↔
            ∃ field, units = Text.units field ∧ ∃ s ∈ samples, s.HasField field) ∧
          ∀ m ∈ members, ∀ record, Shows m.records record → Sample.NamedAfter samples record) ∧
      (samples ≠ [] → samples.any Sample.isObject = false →
        ∃ union records, text = "type ".toList ++ name.toList ++ " = ".toList ++ union ++ [';'] ∧
          records? union = some records ∧ ∀ record, Shows records record → Sample.NamedAfter samples record)) := by
  refine ⟨fun n => ⟨name?_safeFieldName_iff, safeFieldName_cases, fun hlines => ?_⟩, fun m n => Text.units_inj,
    fun hsamples name text h =>
      ⟨fun hobject => Definition.members_of_interface hsamples hobject h, fun hne hobject => ?_⟩⟩
  · rw [toList_safeFieldName]
    refine (name?_broken hlines).imp_left fun ⟨name, hname, hn, hwritten, hread⟩ => ?_
    refine ⟨String.ofList name, by simpa using hname, String.toList_inj.mp (by simp [hn]), ?_, ?_⟩
    · rw [safeFieldName, hwritten, String.ofList_toList]
    · rw [hwritten, hread, Text.units, String.toList_ofList]
  · rw [Definition.group_of_no_object hne hobject] at h
    exact Definition.records_of_synonym hsamples h

-- An object with a name that is no identifier, and a quote in a name of an object in an array below it.
def dashedSample : Sample :=
  ⟨#[.object [(.text "x\"y", .leaf (.integer 1))], .array false [.container 0],
    .object [(.text "a-b", .container 1), (.text "c", .leaf .null)]], .container 2⟩

theorem names_of_dashedSample :
    name? (safeFieldName "x\"y").toList = some (Text.units "x\"y") ∧
      ∃ text body members, Definition.group {} "T" [dashedSample] = .ok text ∧
        text = "interface ".toList ++ "T".toList ++ [' ', '{'] ++ body ∧ members? body = some members ∧
        (members.map Member.name).Nodup ∧ Text.units "a-b" ∈ members.map Member.name ∧
        Text.units "c" ∈ members.map Member.name ∧ Text.units "x" ∉ members.map Member.name := by
  have hdistinct : ∀ c ∈ dashedSample.containers, c.HasDistinctKeys := by decide
  have hkeys : dashedSample.HasDistinctKeys := Sample.hasDistinctKeys_of_containers hdistinct
  have hlines : dashedSample.NamesOnOneLine := Sample.namesOnOneLine_of_containers (by decide)
  have hsamples : ∀ s ∈ [dashedSample], s.HasDistinctKeys ∧ s.NamesOnOneLine := by simp [hkeys, hlines]
  obtain ⟨hnames, hunits, hgroups⟩ := names_of_declarations {} [dashedSample]
  have hshape : ∃ t, dashedSample.shape {} = .ok t := ⟨_, rfl⟩
  obtain ⟨stats, hstats, hnamed⟩ := exists_collectFields (o := {}) fun s (hs : s ∈ [dashedSample]) _ =>
    List.mem_singleton.mp hs ▸ hshape
  obtain ⟨fields, hgroup, _⟩ := exists_fields rfl hstats hnamed
  obtain ⟨body, members, hbody, hmembers, hnodup, hfields, _⟩ := (hgroups hsamples "T" _ (hgroup "T")).1 rfl
  have hfield : ∀ name, dashedSample.HasField name ↔ name = "a-b" ∨ name = "c" := by
    intro name
    constructor
    · rintro ⟨v, p, ms, hobject, hm, _⟩
      cases hobject
      have hname : name = "a-b" ∧ v = .container 1 ∨ name = "c" ∧ v = .leaf .null := by simpa using hm
      exact hname.imp And.left And.left
    · rintro (rfl | rfl)
      · exact ⟨.container 1, 2, _, rfl, by simp, by simp⟩
      · exact ⟨.leaf .null, 2, _, rfl, by simp, by simp⟩
  have hmem : ∀ name, Text.units name ∈ members.map Member.name ↔ name = "a-b" ∨ name = "c" := by
    intro name
    rw [hfields, ← hfield]
    constructor
    · rintro ⟨field, hsame, s, hs, hfield⟩
      rw [hunits _ _ hsame]
      rwa [List.mem_singleton.mp hs] at hfield
    · intro hfield
      exact ⟨name, rfl, dashedSample, by simp, hfield⟩
  refine ⟨(hnames "x\"y").1.mpr (by decide), _, body, members, hgroup "T", hbody, hmembers, hnodup, ?_, ?_, ?_⟩
  · exact (hmem "a-b").mpr (.inl rfl)
  · exact (hmem "c").mpr (.inr rfl)
  · rw [hmem]
    decide

end ShapeScribe
