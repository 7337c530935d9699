import ShapeScribe.Proofs.Field.Record
import ShapeScribe.Proofs.Shape.Refusal
import ShapeScribe.Proofs.Token.Parts

/-!
Cycles. A walk that may go down as many containers as there are within reach ends on every graph. It says circular in
exactly those positions whose container encloses itself, and describes every other container in full, however often it
is met.
-/

namespace ShapeScribe

open Attempt Relation

-- A token that is put together from the tokens of all that is looked at in a container.
def Container.DescribedBy (o : Options) (tokenOf : Value → Except Fault Token) : Container → Token → Prop
  | .array _ items, t =>
    ∃ ts, List.Forall₂ (fun v u => tokenOf v = .ok u) (o.sampled items) ts ∧ t = .array (Token.normalize ts)
  | .object members, t =>
    ∃ fields, List.Forall₂ (fun m f => m.1 = .text f.1 ∧ ∃ u, tokenOf m.2 = .ok u ∧ f.2 = [u]) members fields ∧
      t = .record (Named.inOrder fields)

theorem Leaf.exists_scalar {o : Options} {l : Leaf} {t : Token} (h : l.shape o = .ok t) :
    ∃ name text, t = .scalar name text ∧ t ≠ .circular := by
  cases l <;> simp only [shape, Except.ok.injEq, reduceCtorEq] at h
  case text =>
    subst h
    split
    · exact ⟨_, _, rfl, by decide⟩
    · exact ⟨_, _, rfl, by decide⟩
  all_goals
    subst h
    exact ⟨_, _, rfl, by decide⟩

namespace Container

variable {o : Options} {c : Container} {tokenOf : Value → Except Fault Token} {t : Token}

theorem describedBy_of_shape (h : Sample.containerShape o tokenOf c = .ok t) : c.DescribedBy o tokenOf t := by
  cases c with
  | array fixed items =>
      obtain ⟨ts, hts, rfl⟩ := Sample.containerShape_array_eq_ok.mp h
      exact ⟨ts, hts, rfl⟩
  | object members =>
      obtain ⟨fields, hfields, rfl⟩ := Sample.containerShape_object_eq_ok.mp h
      exact ⟨fields, hfields, rfl⟩

theorem DescribedBy.ne_circular (h : c.DescribedBy o tokenOf t) : t ≠ .circular := by
  cases c with
  | array fixed items =>
      obtain ⟨_, _, rfl⟩ := h
      simp [Token.circular]
  | object members =>
      obtain ⟨_, _, rfl⟩ := h
      simp [Token.circular]

-- Its parts are those of the tokens that it is put together from.
theorem DescribedBy.contains_iff {part : Token} (h : c.DescribedBy o tokenOf t) :
    t.Contains part ↔ part = t ∨ ∃ v ∈ c.looked o, ∃ u, tokenOf v = .ok u ∧ u.Contains part := by
  cases c with
  | array fixed items =>
      obtain ⟨ts, hts, rfl⟩ := h
      constructor
      · intro hpart
        cases hpart with
        | self => exact .inl rfl
        | element hu hpart =>
            obtain ⟨v, hv, htoken⟩ := exists_item hts (Token.mem_normalize.mp hu)
            exact .inr ⟨v, hv, _, htoken, hpart⟩
      · rintro (rfl | ⟨v, hv, u, hu, hpart⟩)
        · exact .self _
        · exact .element (Token.mem_normalize.mpr ((mem_results_iff hts).mpr ⟨v, hv, hu⟩)) hpart
  | object members =>
      obtain ⟨fields, hfields, rfl⟩ := h
      constructor
      · intro hpart
        cases hpart with
        | self => exact .inl rfl
        | field hf hu hpart =>
            obtain ⟨m, hm, _, u, htoken, hunion⟩ := exists_item hfields (Named.mem_inOrder.mp hf)
            rw [hunion, List.mem_singleton] at hu
            exact .inr ⟨m.2, List.mem_map_of_mem hm, u, htoken, hu ▸ hpart⟩
      · rintro (rfl | ⟨v, hv, u, hu, hpart⟩)
        · exact .self _
        · obtain ⟨m, hm, rfl⟩ := List.mem_map.mp hv
          obtain ⟨f, hf, _, w, hw, hunion⟩ := exists_result hfields hm
          obtain rfl := Except.ok.inj (hu.symm.trans hw)
          exact .field (Named.mem_inOrder.mpr hf) (by simp [hunion]) hpart

end Container

namespace Sample

variable {o : Options} {s : Sample} {samples : List Sample} {pos : Position} {path : List Place} {p : Place}
  {v : Value} {t : Token} {name : String}

-- What the token in a position tells: whether the container there encloses itself, whether anything below it does, and
-- all that is looked at in a container that does not.
structure TellsAt (o : Options) (s : Sample) (pos : Position) (t : Token) : Prop where
  said : s.tokenAt o pos = .ok t
  circular : t = .circular ↔ pos.ClosesCycle
  below : t.Contains .circular ↔ ∃ pos', ReflTransGen (s.Descends o) pos pos' ∧ pos'.ClosesCycle
  full : ∀ p, pos.value = .container p → p ∉ pos.path →
    (s.contents p).DescribedBy o (fun v => s.tokenAt o ⟨p :: pos.path, v⟩) t

theorem describedBy_of_tokenAt (hnew : p ∉ path) (h : s.tokenAt o ⟨path, .container p⟩ = .ok t) :
    (s.contents p).DescribedBy o (fun v => s.tokenAt o ⟨p :: path, v⟩) t := by
  by_cases hdeep : o.maxDepth ≤ path.length
  · simp [tokenAt_deep hnew hdeep] at h
  · rw [tokenAt_container hnew (by omega)] at h
    exact Container.describedBy_of_shape h

theorem closesCycle_leaf {l : Leaf} : ¬ (⟨path, .leaf l⟩ : Position).ClosesCycle := by
  simp [Position.ClosesCycle]

theorem closesCycle_container : (⟨path, .container p⟩ : Position).ClosesCycle ↔ p ∈ path := by
  simp [Position.ClosesCycle]

theorem eq_circular_iff (h : s.tokenAt o pos = .ok t) : t = .circular ↔ pos.ClosesCycle := by
  obtain ⟨path, v⟩ := pos
  cases v with
  | leaf l =>
      rw [tokenAt_leaf] at h
      refine iff_of_false ?_ closesCycle_leaf
      obtain ⟨_, _, _, hne⟩ := Leaf.exists_scalar h
      exact hne
  | container p =>
      rw [closesCycle_container]
      by_cases hp : p ∈ path
      · rw [tokenAt_again hp] at h
        cases h
        simp [hp]
      · exact iff_of_false (describedBy_of_tokenAt hp h).ne_circular hp

theorem exists_below_iff {P : Position → Prop} (hend : ∀ pos', ¬ s.Descends o pos pos') :
    (∃ pos', ReflTransGen (s.Descends o) pos pos' ∧ P pos') ↔ P pos := by
  constructor
  · rintro ⟨pos', hpath, h⟩
    rcases ReflTransGen.cases_head hpath with rfl | ⟨next, hstep, _⟩
    · exact h
    · exact absurd hstep (hend next)
  · intro h
    exact ⟨pos, .refl, h⟩

-- The parts of a token are the tokens in the positions below. The recursion is on the room that is left.
theorem contains_iff (path : List Place) (v : Value) {t part : Token} (h : s.tokenAt o ⟨path, v⟩ = .ok t) :
    t.Contains part ↔ ∃ pos, ReflTransGen (s.Descends o) ⟨path, v⟩ pos ∧ s.tokenAt o pos = .ok part := by
  cases v with
  | leaf l =>
      have hend : ∀ pos', ¬ s.Descends o ⟨path, .leaf l⟩ pos' := by
        rintro pos' ⟨⟩
      rw [exists_below_iff hend, h, Except.ok.injEq]
      rw [tokenAt_leaf] at h
      obtain ⟨name, text, rfl, _⟩ := Leaf.exists_scalar h
      rw [Token.contains_scalar_iff, eq_comm]
  | container p =>
      by_cases hp : p ∈ path
      · have hend : ∀ pos', ¬ s.Descends o ⟨path, .container p⟩ pos' := by
          rintro pos' ⟨hnew, _⟩
          exact hnew hp
        rw [exists_below_iff hend, h, Except.ok.injEq]
        rw [tokenAt_again hp] at h
        cases h
        rw [Token.circular, Token.contains_scalar_iff, eq_comm]
      by_cases hdeep : o.maxDepth ≤ path.length
      · simp [tokenAt_deep hp hdeep] at h
      rw [(describedBy_of_tokenAt hp h).contains_iff]
      constructor
      · rintro (rfl | ⟨v, hv, u, hu, hpart⟩)
        · exact ⟨_, .refl, h⟩
        · obtain ⟨pos, hpath, htoken⟩ := (contains_iff (p :: path) v hu).mp hpart
          exact ⟨pos, .head (.step hp hv) hpath, htoken⟩
      · rintro ⟨pos, hpath, htoken⟩
        rcases ReflTransGen.cases_head hpath with rfl | ⟨_, hstep, hpath⟩
        · exact .inl (Except.ok.inj (htoken.symm.trans h))
        · cases hstep with
          | step _ hv =>
              obtain ⟨u, hu⟩ := (Descends.step hp hv).exists_token h
              exact .inr ⟨_, hv, u, hu, (contains_iff (p :: path) _ hu).mpr ⟨pos, hpath, htoken⟩⟩
termination_by o.room path.length
decreasing_by
  all_goals
    simp only [Options.room, List.length_cons]
    omega

-- So a token is circular somewhere exactly when a cycle closes below.
theorem contains_circular_iff (h : s.tokenAt o pos = .ok t) :
    t.Contains .circular ↔ ∃ pos', ReflTransGen (s.Descends o) pos pos' ∧ pos'.ClosesCycle := by
  rw [contains_iff pos.path pos.value h]
  refine exists_congr fun pos' => and_congr_right fun hpath => ?_
  obtain ⟨u, hu⟩ := exists_token_of_descends hpath h
  rw [← eq_circular_iff hu, hu, Except.ok.injEq]

theorem tellsAt_iff : s.TellsAt o pos t ↔ s.tokenAt o pos = .ok t := by
  refine ⟨TellsAt.said, fun h => ⟨h, eq_circular_iff h, contains_circular_iff h, ?_⟩⟩
  intro p hp hnew
  obtain ⟨path, v⟩ := pos
  obtain rfl : v = .container p := hp
  exact describedBy_of_tokenAt hnew h

-- The guard does not come into play where it allows for as many containers as are within reach.
theorem Visits.family_ne_exceeded (hvisit : s.Visits o pos) (hcount : s.reachCount ≤ o.maxDepth) {fault : Fault}
    (h : s.tokenAt o pos = .error fault) : fault.family ≠ .exceeded := by
  obtain ⟨pos', hpath, hfails⟩ := exists_failsAt pos.path pos.value h
  exact hfails.family_ne_exceeded (s.onWay_root.descend (hvisit.trans hpath)) hcount

theorem Visits.exists_token (hvisit : s.Visits o pos) (hs : s.IsJson) (hcount : s.reachCount ≤ o.maxDepth) :
    ∃ t, s.tokenAt o pos = .ok t := by
  rcases ok_or_error (s.tokenAt o pos) with htoken | ⟨fault, h⟩
  · exact htoken
  · obtain ⟨pos', hpath, hfails⟩ := exists_failsAt pos.path pos.value h
    obtain ⟨rfl, _⟩ := hfails.eq_tooDeep (s.onWay_root.descend (hvisit.trans hpath)) hs
    exact absurd rfl (hvisit.family_ne_exceeded hcount h)

-- The tokens of a field are those in the positions of its members, one step below the samples themselves.
theorem mem_tokens_iff {stats : FieldStats} (hstats : collectFields o samples = .ok stats) {stat : FieldStat}
    (hstat : stats.get? name = some stat) :
    t ∈ stat.tokens ↔ ∃ s ∈ samples, ∃ p v, s.root = .container p ∧ s.HasMember (.text name) v ∧ v ≠ .leaf .null ∧
      s.tokenAt o ⟨[p], v⟩ = .ok t := by
  obtain ⟨rs, hrs, _⟩ := collectFields_eq_ok.mp hstats
  have hget := get?_collectFields hrs hstats name
  rw [hstat] at hget
  split at hget
  · cases hget
  cases hget
  have hreading : ∀ {s : Sample} {p : Place} {v : Value},
      reading (s.shapeBelow o (o.room 1) [p]) v = .ok (some t) ↔ v ≠ .leaf .null ∧ s.tokenAt o ⟨[p], v⟩ = .ok t := by
    intro s p v
    unfold reading
    split
    · simp_all
    · simp_all [tokenAt]
  have htokens : t ∈ ((FieldStat.ofReadings (readingsOf name rs)).marked samples.length).tokens ↔
      (.text name, some t) ∈ rs := by
    rw [← mem_readingsOf]
    simp [FieldStat.marked, FieldStat.ofReadings]
  rw [htokens, mem_allReadings_iff hrs]
  constructor
  · rintro ⟨s, hs, part, hpart, hr⟩
    obtain ⟨p, members, v, hobject, hm, hv, hread⟩ := exists_member_of_reading hpart hr
    exact ⟨s, hs, p, v, (object?_eq_some.mp hobject).1, ⟨p, members, hobject, hm, hv⟩, hreading.mp hread⟩
  · rintro ⟨s, hs, p, v, hroot, ⟨q, members, hobject, hm, hv⟩, hread⟩
    obtain rfl := Value.container.inj (hroot.symm.trans (object?_eq_some.mp hobject).1)
    obtain ⟨parts, hparts, _⟩ := allReadings_eq_ok.mp hrs
    obtain ⟨part, _, hpart⟩ := exists_result hparts hs
    obtain ⟨r, hr, hreads⟩ := exists_reading_of_member hpart hobject hm hv
    obtain rfl := Except.ok.inj (hreads.symm.trans (hreading.mpr hread))
    exact ⟨s, hs, part, hpart, hr⟩

-- Below an object lie its members.
theorem HasMember.visits {key : Key} (hroot : s.root = .container p) (h : s.HasMember key v) :
    s.Visits o ⟨[p], v⟩ := by
  obtain ⟨q, members, hobject, hm, _⟩ := h
  obtain ⟨hq, hcontents⟩ := object?_eq_some.mp hobject
  obtain rfl := Value.container.inj (hroot.symm.trans hq)
  refine .single ?_
  rw [hroot]
  refine .step List.not_mem_nil ?_
  rw [hcontents]
  exact List.mem_map_of_mem hm

end Sample

-- On every graph the walk ends in time, for a sample and for the fields of samples, and tells the cycles.
theorem shapes_of_graphs (o : Options) :
    (∀ s : Sample, s.reachCount ≤ o.maxDepth → ∀ fault, s.shape o = .error fault → fault.family ≠ .exceeded) ∧
    (∀ s : Sample, s.IsJson → s.reachCount ≤ o.maxDepth →
      (∃ t, s.shape o = .ok t) ∧ ∀ pos, s.Visits o pos → ∃ t, s.TellsAt o pos t) ∧
    ∀ samples : List Sample, (∀ s ∈ samples, s.isObject → s.IsJson ∧ s.reachCount ≤ o.maxDepth) →
      ∃ stats, collectFields o samples = .ok stats ∧ ∀ name,
        ((∃ stat, stats.get? name = some stat) ↔ ∃ s ∈ samples, s.HasField name) ∧
        ∀ stat, stats.get? name = some stat →
          (∀ t, t ∈ stat.tokens ↔ ∃ s ∈ samples, ∃ p v, s.root = .container p ∧ s.HasMember (.text name) v ∧
            v ≠ .leaf .null ∧ s.Visits o ⟨[p], v⟩ ∧ s.TellsAt o ⟨[p], v⟩ t) ∧
          (.circular ∈ stat.tokens ↔
            ∃ s ∈ samples, ∃ p, s.root = .container p ∧ s.HasMember (.text name) (.container p)) := by
  have hroot : ∀ s : Sample, s.Visits o ⟨[], s.root⟩ := fun s => .refl
  refine ⟨fun s hcount fault h => (hroot s).family_ne_exceeded hcount h, fun s hs hcount => ⟨?_, fun pos hvisit => ?_⟩, ?_⟩
  · exact (hroot s).exists_token hs hcount
  · obtain ⟨t, ht⟩ := hvisit.exists_token hs hcount
    exact ⟨t, Sample.tellsAt_iff.mpr ht⟩
  · intro samples hsamples
    obtain ⟨stats, hstats, _⟩ := exists_collectFields (o := o) fun s hs hobject =>
      (hroot s).exists_token (hsamples s hs hobject).1 (hsamples s hs hobject).2
    refine ⟨stats, hstats, fun name => ⟨exists_get?_iff hstats, fun stat hstat => ⟨fun t => ?_, ?_⟩⟩⟩
    · simp only [Sample.tellsAt_iff, Sample.mem_tokens_iff hstats hstat]
      constructor
      · rintro ⟨s, hs, p, v, hp, hm, hv, ht⟩
        exact ⟨s, hs, p, v, hp, hm, hv, hm.visits hp, ht⟩
      · rintro ⟨s, hs, p, v, hp, hm, hv, _, ht⟩
        exact ⟨s, hs, p, v, hp, hm, hv, ht⟩
    · rw [Sample.mem_tokens_iff hstats hstat]
      constructor
      · rintro ⟨s, hs, p, v, hp, hm, _, ht⟩
        obtain ⟨q, hq, rfl⟩ := (Sample.eq_circular_iff ht).mp rfl
        obtain rfl := List.mem_singleton.mp hq
        exact ⟨s, hs, q, hp, hm⟩
      · rintro ⟨s, hs, p, hp, hm⟩
        exact ⟨s, hs, p, _, hp, hm, by simp, Sample.tokenAt_again List.mem_cons_self⟩

-- Children that know their parent and their siblings, one of them met in three places.
def familySample : Sample :=
  ⟨#[.object [(.text "name", .leaf (.text "root")), (.text "self", .container 0), (.text "children", .container 1),
      (.text "first", .container 2)],
    .array true [.container 2, .leaf (.integer 1), .container 1, .container 2],
    .object [(.text "parent", .container 0), (.text "siblings", .container 1)]], .container 0⟩

theorem shapes_of_family :
    (∃ t, familySample.shape { maxDepth := 3 } = .ok t) ∧
      (∀ pos, familySample.Visits { maxDepth := 3 } pos → ∃ t, familySample.TellsAt { maxDepth := 3 } pos t) ∧
      ∃ stats stat, collectFields { maxDepth := 3 } [arraySample, familySample] = .ok stats ∧
        stats.get? "self" = some stat ∧ .circular ∈ stat.tokens := by
  have hjson : familySample.IsJson := Sample.isJson_of_containers (by decide) (by decide)
  have hsize : familySample.reachCount ≤ 3 := Sample.reachCount_le_size (s := familySample) (by decide) (by decide)
  have hcount : (familySample.reachCount : Int) ≤ ({ maxDepth := 3 } : Options).maxDepth := by
    simpa using hsize
  have hself : familySample.HasMember (.text "self") (.container 0) := ⟨0, _, rfl, by simp, by simp⟩
  obtain ⟨_, hshapes, hfields⟩ := shapes_of_graphs { maxDepth := 3 }
  obtain ⟨hshape, htells⟩ := hshapes familySample hjson hcount
  obtain ⟨stats, hstats, hnames⟩ := hfields [arraySample, familySample] (by
    rintro s hs hobject
    simp only [List.mem_cons, List.not_mem_nil, or_false] at hs
    rcases hs with rfl | rfl
    · cases hobject
    · exact ⟨hjson, hcount⟩)
  obtain ⟨hget, htokens⟩ := hnames "self"
  obtain ⟨stat, hstat⟩ := hget.mpr ⟨familySample, by simp, .container 0, hself⟩
  exact ⟨hshape, htells, stats, stat, hstats, hstat,
    (htokens stat hstat).2.mpr ⟨familySample, by simp, 0, rfl, hself⟩⟩

end ShapeScribe
