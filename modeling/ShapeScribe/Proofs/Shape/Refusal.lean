import ShapeScribe.Proofs.Attempt
import ShapeScribe.Proofs.Sample.Position

/-!
Where the walk over a sample fails. It fails exactly when it meets something that no shape can be given to: a value
from outside JSON, a key that is no text, or a container beyond the guard.
-/

namespace ShapeScribe

open Attempt Relation

theorem Leaf.family_of_shape {o : Options} {l : Leaf} {fault : Fault} (h : l.shape o = .error fault) :
    fault.family = .malformed := by
  cases l <;> cases h
  rfl

theorem Leaf.exists_shape {l : Leaf} (h : l.IsScalar) (o : Options) : ∃ t, l.shape o = .ok t := by
  cases l with
  | missing | foreign => exact h.elim
  | _ => exact ⟨_, rfl⟩

namespace Sample

variable {o : Options} {s : Sample} {pos pos' : Position} {path : List Place} {p : Place} {v : Value} {t : Token}
  {fault : Fault} {shapeOf : Value → Except Fault Token} {c : Container} {members : List (Key × Value)}

-- Members are walked up to the first fault of a value or the first key that is no text.
theorem walkMembers_error {α β : Type} (walk : List (Key × Value) → Except Fault (List β)) (step : Value → Except Fault α)
    (named : String → α → β) (hnil : walk [] = .ok [])
    (htext : ∀ name v rest, walk ((.text name, v) :: rest) =
      step v >>= fun a => walk rest >>= fun bs => pure (named name a :: bs))
    (hkey : ∀ key v rest, (∀ name, key ≠ .text name) → walk ((key, v) :: rest) = .error (.keyNotText key.type))
    (h : walk members = .error fault) :
    ∃ m ∈ members, step m.2 = .error fault ∨ (∀ name, m.1 ≠ .text name) ∧ fault = .keyNotText m.1.type := by
  induction members with
  | nil => simp [hnil] at h
  | cons m rest ih =>
      obtain ⟨key, v⟩ := m
      by_cases hname : ∃ name, key = .text name
      · obtain ⟨name, rfl⟩ := hname
        simp only [htext, bind_eq_error] at h
        rcases h with h | ⟨_, _, h | ⟨_, _, h⟩⟩
        · exact ⟨_, List.mem_cons_self, .inl h⟩
        · obtain ⟨m, hm, hfault⟩ := ih h
          exact ⟨m, List.mem_cons_of_mem _ hm, hfault⟩
        · cases h
      · replace hname := not_exists.mp hname
        rw [hkey key v rest hname] at h
        cases h
        exact ⟨_, List.mem_cons_self, .inr ⟨hname, rfl⟩⟩

theorem memberShapes_error (h : memberShapes shapeOf members = .error fault) :
    ∃ m ∈ members, shapeOf m.2 = .error fault ∨ (∀ name, m.1 ≠ .text name) ∧ fault = .keyNotText m.1.type := by
  refine walkMembers_error (memberShapes shapeOf) shapeOf soleField rfl (fun _ _ _ => rfl) (fun key v rest hkey => ?_) h
  cases key with
  | text name => exact absurd rfl (hkey name)
  | _ => rfl

theorem containerShape_error (h : containerShape o shapeOf c = .error fault) :
    (∃ v ∈ c.looked o, shapeOf v = .error fault) ∨
      ∃ members m, c = .object members ∧ m ∈ members ∧ (∀ name, m.1 ≠ .text name) ∧ fault = .keyNotText m.1.type := by
  cases c with
  | array fixed items =>
      simp only [containerShape, bind_eq_error] at h
      rcases h with h | ⟨_, _, h⟩
      · exact .inl (walk_error (itemShapes shapeOf) shapeOf rfl (fun _ _ => rfl) h)
      · cases h
  | object members =>
      simp only [containerShape, bind_eq_error] at h
      rcases h with h | ⟨_, _, h⟩
      · obtain ⟨m, hm, hvalue | ⟨hkey, rfl⟩⟩ := memberShapes_error h
        · exact .inl ⟨m.2, List.mem_map_of_mem hm, hvalue⟩
        · exact .inr ⟨members, m, rfl, hm, hkey, rfl⟩
      · cases h

theorem exists_shape_of_looked (h : containerShape o shapeOf c = .ok t) (hv : v ∈ c.looked o) :
    ∃ u, shapeOf v = .ok u := by
  cases c with
  | array fixed items =>
      obtain ⟨ts, hts, _⟩ := containerShape_array_eq_ok.mp h
      obtain ⟨u, _, hu⟩ := exists_result hts hv
      exact ⟨u, hu⟩
  | object members =>
      obtain ⟨fields, hfields, _⟩ := containerShape_object_eq_ok.mp h
      obtain ⟨m, hm, rfl⟩ := List.mem_map.mp hv
      obtain ⟨_, _, _, u, hu, _⟩ := exists_result hfields hm
      exact ⟨u, hu⟩

-- What the walk says of the value in a position.
def tokenAt (o : Options) (s : Sample) (pos : Position) : Except Fault Token :=
  s.shapeBelow o (o.room pos.path.length) pos.path pos.value

@[simp] theorem tokenAt_leaf (path : List Place) (l : Leaf) : s.tokenAt o ⟨path, .leaf l⟩ = l.shape o := by
  rw [tokenAt]
  cases o.room path.length <;> rfl

theorem tokenAt_again (h : p ∈ path) : s.tokenAt o ⟨path, .container p⟩ = .ok .circular := by
  rw [tokenAt]
  cases o.room path.length <;> simp [shapeBelow, h]

theorem tokenAt_deep (hnew : p ∉ path) (h : o.maxDepth ≤ path.length) :
    s.tokenAt o ⟨path, .container p⟩ = .error (.tooDeep o.maxDepth) := by
  have hroom : o.room path.length = 0 := by
    simp only [Options.room]
    omega
  rw [tokenAt, hroom]
  simp [shapeBelow, hnew]

theorem tokenAt_container (hnew : p ∉ path) (h : path.length < o.maxDepth) :
    s.tokenAt o ⟨path, .container p⟩ =
      containerShape o (fun v => s.tokenAt o ⟨p :: path, v⟩) (s.contents p) := by
  have hroom : o.room path.length = o.room (p :: path).length + 1 := by
    simp only [Options.room, List.length_cons]
    omega
  unfold tokenAt
  simp only [hroom, shapeBelow, hnew, if_false]

-- What stands in the way of a shape in a position itself.
inductive FailsAt (o : Options) (s : Sample) : Position → Fault → Prop
  | leaf {path : List Place} {l : Leaf} {fault : Fault} (h : l.shape o = .error fault) :
    FailsAt o s ⟨path, .leaf l⟩ fault
  | key {path : List Place} {p : Place} {members : List (Key × Value)} {m : Key × Value} (hnew : p ∉ path)
    (hp : s.contents p = .object members) (hm : m ∈ members) (hkey : ∀ name, m.1 ≠ .text name) :
    FailsAt o s ⟨path, .container p⟩ (.keyNotText m.1.type)
  | depth {path : List Place} {p : Place} (hnew : p ∉ path) (h : o.maxDepth ≤ path.length) :
    FailsAt o s ⟨path, .container p⟩ (.tooDeep o.maxDepth)

-- The fault of a walk is one that stands in its way somewhere. The recursion is on the room that is left.
theorem exists_failsAt (path : List Place) (v : Value) (h : s.tokenAt o ⟨path, v⟩ = .error fault) :
    ∃ pos, ReflTransGen (s.Descends o) ⟨path, v⟩ pos ∧ s.FailsAt o pos fault := by
  cases v with
  | leaf l => exact ⟨_, .refl, .leaf (by simpa using h)⟩
  | container p =>
      by_cases hp : p ∈ path
      · simp [tokenAt_again hp] at h
      by_cases hdeep : o.maxDepth ≤ path.length
      · rw [tokenAt_deep hp hdeep] at h
        cases h
        exact ⟨_, .refl, .depth hp hdeep⟩
      rw [tokenAt_container hp (by omega)] at h
      rcases containerShape_error h with ⟨v, hv, hfault⟩ | ⟨members, m, hc, hm, hkey, rfl⟩
      · obtain ⟨pos, hpath, hfails⟩ := exists_failsAt (p :: path) v hfault
        exact ⟨pos, .head (.step hp hv) hpath, hfails⟩
      · exact ⟨_, .refl, .key hp hc hm hkey⟩
termination_by o.room path.length
decreasing_by
  simp only [Options.room, List.length_cons]
  omega

theorem not_failsAt_of_ok (h : s.tokenAt o pos = .ok t) : ¬ s.FailsAt o pos fault := by
  intro hfails
  cases hfails with
  | leaf hl => simp [hl] at h
  | depth hnew hdeep => simp [tokenAt_deep hnew hdeep] at h
  | @key path p members m hnew hp hm hkey =>
      by_cases hdeep : o.maxDepth ≤ path.length
      · simp [tokenAt_deep hnew hdeep] at h
      · rw [tokenAt_container hnew (by omega), hp] at h
        obtain ⟨fields, hfields, _⟩ := containerShape_object_eq_ok.mp h
        obtain ⟨f, _, hname, _⟩ := exists_result hfields hm
        exact hkey f.1 hname

theorem Descends.exists_token (hstep : s.Descends o pos pos') (h : s.tokenAt o pos = .ok t) :
    ∃ u, s.tokenAt o pos' = .ok u := by
  cases hstep with
  | @step path p v hnew hv =>
      by_cases hdeep : o.maxDepth ≤ path.length
      · simp [tokenAt_deep hnew hdeep] at h
      · rw [tokenAt_container hnew (by omega)] at h
        exact exists_shape_of_looked h hv

-- A token for a position takes tokens for everything that is visited below it.
theorem exists_token_of_descends (hpath : ReflTransGen (s.Descends o) pos pos') (h : s.tokenAt o pos = .ok t) :
    ∃ u, s.tokenAt o pos' = .ok u := by
  induction hpath with
  | refl => exact ⟨t, h⟩
  | tail _ hstep ih =>
      obtain ⟨u, hu⟩ := ih
      exact hstep.exists_token hu

theorem tokenAt_fails_iff :
    (∃ fault, s.tokenAt o pos = .error fault) ↔
      ∃ pos' fault, ReflTransGen (s.Descends o) pos pos' ∧ s.FailsAt o pos' fault := by
  constructor
  · rintro ⟨fault, h⟩
    obtain ⟨pos', hpath, hfails⟩ := exists_failsAt pos.path pos.value h
    exact ⟨pos', fault, hpath, hfails⟩
  · rintro ⟨pos', fault, hpath, hfails⟩
    rcases ok_or_error (s.tokenAt o pos) with ⟨t, ht⟩ | herror
    · obtain ⟨u, hu⟩ := exists_token_of_descends hpath ht
      exact absurd hfails (not_failsAt_of_ok hu)
    · exact herror

theorem FailsAt.family (h : s.FailsAt o pos fault) :
    fault.family = .malformed ∨ fault.family = .exceeded := by
  cases h with
  | leaf hl => exact .inl (Leaf.family_of_shape hl)
  | key => exact .inl rfl
  | depth => exact .inr rfl

-- A way from the root is no longer than there are containers within reach.
theorem FailsAt.family_ne_exceeded (h : s.FailsAt o pos fault) (hway : s.OnWay pos)
    (hcount : s.reachCount ≤ o.maxDepth) : fault.family ≠ .exceeded := by
  cases h with
  | leaf hl => simp [Leaf.family_of_shape hl]
  | key => simp [Fault.family]
  | depth hnew hdeep =>
      have hlt := hway.length_lt rfl hnew
      simp only at hlt
      omega

-- In a graph of what JSON is made of only depth stands in the way.
theorem FailsAt.eq_tooDeep (h : s.FailsAt o pos fault) (hway : s.OnWay pos) (hs : s.IsJson) :
    fault = .tooDeep o.maxDepth ∧ o.maxDepth ≤ pos.path.length := by
  cases h with
  | leaf hl =>
      obtain ⟨t, ht⟩ := Leaf.exists_shape (hs.values _ hway.held _ rfl) o
      simp [ht] at hl
  | key _ hp hm hkey =>
      have hkeys := hs.keys _ hway.held.reaches
      rw [hp] at hkeys
      obtain ⟨name, hname⟩ := Key.isText_iff.mp (hkeys _ hm)
      exact absurd hname (hkey name)
  | depth _ hdeep => exact ⟨rfl, hdeep⟩

end Sample

end ShapeScribe
