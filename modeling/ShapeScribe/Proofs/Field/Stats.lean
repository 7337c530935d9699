import Mathlib.Data.List.Induction
import Mathlib.Data.List.Nodup
import ShapeScribe.Proofs.Attempt

/-!
Statistics of fields as a function of the readings that they are made of. What is gathered under a name depends on
the readings of that name alone, in their order.
-/

namespace ShapeScribe

namespace Key

def name? : Key → Option String
  | text s => some s
  | _ => none

theorem name?_eq_some {k : Key} {name : String} : k.name? = some name ↔ k = .text name := by
  cases k <;> simp [name?]

@[simp] theorem same_text {k : Key} {name : String} : k.same (.text name) = true ↔ k = .text name := by
  cases k <;> simp [same, sameNumber, ratio?]

@[simp] theorem text_same {k : Key} {name : String} : (text name).same k = true ↔ k = .text name := by
  cases k with
  | text s => rw [same, beq_iff_eq, text.injEq, eq_comm]
  | _ => simp [same, sameNumber, ratio?]

-- Among texts no two keys count as the same but equal ones.
theorem nodup_of_distinct {α : Type} {members : List (Key × α)} (h : members.Pairwise fun m n => m.1.same n.1 = false)
    (hnamed : ∀ m ∈ members, ∃ name, m.1 = .text name) : (members.map (·.1)).Nodup := by
  rw [List.Nodup, List.pairwise_map]
  apply h.imp_of_mem
  intro m n hm _ hsame hkey
  obtain ⟨name, hname⟩ := hnamed m hm
  rw [← hkey, hname, same_text.mpr rfl] at hsame
  cases hsame

-- What is read of the members of an object goes by a name of its own for each.
theorem nodup_names {α β : Type} {members : List (Key × α)} {named : List (String × β)}
    (hkeys : members.Pairwise fun m n => m.1.same n.1 = false)
    (h : List.Forall₂ (fun m n => m.1 = .text n.1) members named) : (named.map (·.1)).Nodup := by
  have hnamed : ∀ m ∈ members, ∃ name, m.1 = .text name := by
    intro m hm
    obtain ⟨n, _, hkey⟩ := Attempt.exists_result h hm
    exact ⟨n.1, hkey⟩
  have hnames : (named.map (·.1)).map Key.text = members.map (·.1) := by
    rw [← List.forall₂_eq_eq_eq, List.map_map, List.forall₂_map_left_iff, List.forall₂_map_right_iff]
    exact h.flip.imp fun _ _ h => h.symm
  have hnodup := nodup_of_distinct hkeys hnamed
  rw [← hnames] at hnodup
  exact hnodup.of_map _

end Key

-- The readings of one name.
def readingsOf (name : String) (readings : List (Key × Option Token)) : List (Option Token) :=
  (readings.filter fun r => r.1.name? = some name).map (·.2)

theorem mem_readingsOf {name : String} {readings : List (Key × Option Token)} {r : Option Token} :
    r ∈ readingsOf name readings ↔ (.text name, r) ∈ readings := by
  simp [readingsOf, Key.name?_eq_some]

theorem readingsOf_append (name : String) (rs others : List (Key × Option Token)) :
    readingsOf name (rs ++ others) = readingsOf name rs ++ readingsOf name others := by
  simp [readingsOf]

namespace FieldStat

-- The statistics that the readings of one field amount to.
def ofReadings (rs : List (Option Token)) : FieldStat where
  tokens := rs.filterMap id
  present := rs.length
  nullable := rs.contains none

theorem ofReadings_add (rs : List (Option Token)) (r : Option Token) :
    (ofReadings rs).add r = ofReadings (rs ++ [r]) := by
  cases r <;> simp [ofReadings, add]

theorem mem_union {stat : FieldStat} {t : Token} :
    t ∈ stat.union ↔ t ∈ stat.tokens ∨ stat.nullable ∧ t = .null ∨ stat.optional ∧ t = .undefined := by
  cases hn : stat.nullable <;> cases ho : stat.optional <;> simp [union, Token.normalize, List.mem_eraseDups, hn, ho]

end FieldStat

namespace FieldStats

def get? (name : String) (stats : FieldStats) : Option FieldStat :=
  (stats.find? fun f => f.1.same (.text name)).map (·.2)

def Distinct (stats : FieldStats) : Prop := stats.Pairwise fun f g => f.1.same g.1 = false

theorem get?_add_self (name : String) (r : Option Token) (stats : FieldStats) :
    get? name (add (.text name) r stats) = some (((get? name stats).getD {}).add r) := by
  induction stats with
  | nil => simp [add, get?]
  | cons f rest ih =>
      obtain ⟨k, stat⟩ := f
      by_cases hk : k = .text name
      · subst hk
        simp [add, get?]
      · have hsame : k.same (.text name) = false := by simpa [← Key.same_text] using hk
        simpa [add, get?, hsame] using ih

theorem get?_add_of_ne {name : String} {key : Key} (hkey : key ≠ .text name) (r : Option Token)
    (stats : FieldStats) : get? name (add key r stats) = get? name stats := by
  induction stats with
  | nil => simp [add, get?, ← Key.same_text] at hkey ⊢; simp [hkey]
  | cons f rest ih =>
      obtain ⟨k, stat⟩ := f
      by_cases hk : k = .text name
      · subst hk
        have hsame : (Key.text name).same key = false := by simpa [← Key.text_same] using hkey
        simp [add, get?, hsame]
      · have hname : k.same (.text name) = false := by simpa [← Key.same_text] using hk
        simp only [get?] at ih ⊢
        cases hsame : k.same key <;> simp [add, hsame, hname, ih]

theorem get?_of_mem {stats : FieldStats} (h : stats.Distinct) {name : String} {stat : FieldStat}
    (hmem : (.text name, stat) ∈ stats) : get? name stats = some stat := by
  induction stats with
  | nil => simp at hmem
  | cons f rest ih =>
      obtain ⟨hf, hrest⟩ := List.pairwise_cons.mp h
      rcases List.mem_cons.mp hmem with rfl | hmem
      · simp [get?]
      · simpa [get?, hf _ hmem] using ih hrest hmem

theorem keys_add (key : Key) (r : Option Token) (stats : FieldStats) {k : Key} {stat : FieldStat}
    (h : (k, stat) ∈ add key r stats) : k = key ∨ ∃ old, (k, old) ∈ stats := by
  induction stats with
  | nil => exact .inl (by simp_all [add])
  | cons f rest ih =>
      obtain ⟨l, old⟩ := f
      simp only [add] at h
      split at h
      · rcases List.mem_cons.mp h with h | h
        · exact .inr ⟨old, by simp_all⟩
        · exact .inr ⟨stat, by simp [h]⟩
      · rcases List.mem_cons.mp h with h | h
        · exact .inr ⟨old, by simp_all⟩
        · rcases ih h with h | ⟨old, h⟩
          · exact .inl h
          · exact .inr ⟨old, by simp [h]⟩

theorem mem_add_of_mem (key : Key) (r : Option Token) {stats : FieldStats} {k : Key} {stat : FieldStat}
    (h : (k, stat) ∈ stats) : ∃ new, (k, new) ∈ add key r stats := by
  induction stats with
  | nil => simp at h
  | cons f rest ih =>
      obtain ⟨l, old⟩ := f
      simp only [add]
      split
      · rcases List.mem_cons.mp h with h | h
        · cases h
          exact ⟨_, List.mem_cons_self⟩
        · exact ⟨stat, List.mem_cons_of_mem _ h⟩
      · rcases List.mem_cons.mp h with h | h
        · exact ⟨stat, h ▸ List.mem_cons_self⟩
        · obtain ⟨new, hnew⟩ := ih h
          exact ⟨new, List.mem_cons_of_mem _ hnew⟩

-- A reading goes to an entry of its key, or of one that counts as the same.
theorem exists_mem_add (key : Key) (r : Option Token) (stats : FieldStats) :
    ∃ k stat, (k, stat) ∈ add key r stats ∧ (k = key ∨ k.same key = true) := by
  induction stats with
  | nil => exact ⟨key, _, List.mem_cons_self, .inl rfl⟩
  | cons f rest ih =>
      obtain ⟨l, old⟩ := f
      simp only [add]
      split
      · rename_i hsame
        exact ⟨l, _, List.mem_cons_self, .inr hsame⟩
      · obtain ⟨k, stat, hk, hkey⟩ := ih
        exact ⟨k, stat, List.mem_cons_of_mem _ hk, hkey⟩

theorem distinct_add {stats : FieldStats} (h : stats.Distinct) (key : Key) (r : Option Token) :
    (add key r stats).Distinct := by
  induction stats with
  | nil => simp [add, Distinct]
  | cons f rest ih =>
      obtain ⟨l, old⟩ := f
      obtain ⟨hf, hrest⟩ := List.pairwise_cons.mp h
      simp only [add]
      split
      · exact List.pairwise_cons.mpr ⟨hf, hrest⟩
      · rename_i hl
        refine List.pairwise_cons.mpr ⟨?_, ih hrest⟩
        rintro ⟨k, stat⟩ hk
        rcases keys_add key r rest hk with rfl | ⟨old, hk⟩
        · simpa using hl
        · exact hf (k, old) hk

def gathered (readings : List (Key × Option Token)) : FieldStats :=
  readings.foldl (fun stats r => add r.1 r.2 stats) []

theorem gathered_append (readings : List (Key × Option Token)) (r : Key × Option Token) :
    gathered (readings ++ [r]) = add r.1 r.2 (gathered readings) := by
  simp [gathered]

theorem distinct_gathered (readings : List (Key × Option Token)) : (gathered readings).Distinct := by
  induction readings using List.reverseRecOn with
  | nil => exact List.Pairwise.nil
  | append_singleton readings r ih =>
      rw [gathered_append]
      exact distinct_add ih _ _

theorem keys_gathered {readings : List (Key × Option Token)} {k : Key} {stat : FieldStat}
    (h : (k, stat) ∈ gathered readings) : ∃ r ∈ readings, r.1 = k := by
  induction readings using List.reverseRecOn generalizing stat with
  | nil => simp [gathered] at h
  | append_singleton readings r ih =>
      rw [gathered_append] at h
      rcases keys_add _ _ _ h with rfl | ⟨old, h⟩
      · exact ⟨r, by simp, rfl⟩
      · obtain ⟨s, hs, rfl⟩ := ih h
        exact ⟨s, by simp [hs], rfl⟩

theorem exists_mem_gathered {readings : List (Key × Option Token)} {r : Key × Option Token} (h : r ∈ readings) :
    ∃ k stat, (k, stat) ∈ gathered readings ∧ (k = r.1 ∨ k.same r.1 = true) := by
  induction readings using List.reverseRecOn with
  | nil => simp at h
  | append_singleton readings last ih =>
      rw [gathered_append]
      rcases List.mem_append.mp h with h | h
      · obtain ⟨k, stat, hk, hkey⟩ := ih h
        obtain ⟨new, hnew⟩ := mem_add_of_mem last.1 last.2 hk
        exact ⟨k, new, hnew, hkey⟩
      · obtain rfl := List.mem_singleton.mp h
        exact exists_mem_add _ _ _

-- Every reading of a name goes to the same entry, and no other reading touches it.
theorem get?_gathered (name : String) (readings : List (Key × Option Token)) :
    get? name (gathered readings) =
      if readingsOf name readings = [] then none else some (.ofReadings (readingsOf name readings)) := by
  induction readings using List.reverseRecOn with
  | nil => simp [gathered, get?, readingsOf]
  | append_singleton readings r ih =>
      obtain ⟨key, reading⟩ := r
      rw [gathered_append, readingsOf_append]
      by_cases hkey : key = .text name
      · subst hkey
        have hone : readingsOf name [(Key.text name, reading)] = [reading] := by simp [readingsOf, Key.name?]
        rw [get?_add_self, ih, hone]
        split
        · rename_i hempty
          cases reading <;> simp [hempty, FieldStat.ofReadings, FieldStat.add]
        · simp [FieldStat.ofReadings_add]
      · have hnone : readingsOf name [(key, reading)] = [] := by simp [readingsOf, Key.name?_eq_some, hkey]
        rw [get?_add_of_ne hkey, ih, hnone, List.append_nil]

end FieldStats

end ShapeScribe
