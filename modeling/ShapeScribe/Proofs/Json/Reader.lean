import ShapeScribe.Json.Reader
import ShapeScribe.Proofs.Named

/-!
Values that are read from texts. However often a text repeats a name, the object that is read has it once.
-/

namespace ShapeScribe.Json

-- No object has two members of one name, at any depth.
inductive HasDistinctNames : Json → Prop
  | null : HasDistinctNames .null
  | boolean (b : Bool) : HasDistinctNames (.boolean b)
  | integer (n : Int) : HasDistinctNames (.integer n)
  | decimal (x : Binary64) : HasDistinctNames (.decimal x)
  | text (s : String) : HasDistinctNames (.text s)
  | array {items : List Json} (h : ∀ j ∈ items, HasDistinctNames j) : HasDistinctNames (.array items)
  | object {members : List (String × Json)} (hnames : (members.map (·.1)).Nodup)
      (h : ∀ m ∈ members, HasDistinctNames m.2) : HasDistinctNames (.object members)

theorem hasDistinctNames_ofMembers {members : List (String × Json)} (h : ∀ m ∈ members, m.2.HasDistinctNames) :
    (ofMembers members).HasDistinctNames :=
  .object (Named.nodup_ofPairs members) fun m hm => h m (Named.mem_of_mem_ofPairs hm)

theorem number?_hasDistinctNames {negative : Bool} {cs rest : List Char} {j : Json}
    (h : number? negative cs = some (j, rest)) : j.HasDistinctNames := by
  obtain ⟨⟨whole, left⟩, _, h⟩ := Option.bind_eq_some_iff.mp h
  dsimp only at h
  split at h
  · split at h
    · cases h
    · cases h
      exact .integer _
  · cases h
    exact .decimal _

theorem word?_hasDistinctNames {cs rest : List Char} {j : Json} (h : word? cs = some (j, rest)) :
    j.HasDistinctNames := by
  unfold word? at h
  split at h
  all_goals first
    | exact number?_hasDistinctNames h
    | (cases h; constructor)

-- What the three readers bring to light with so much fuel.
structure ReadsDistinct (fuel : Nat) : Prop where
  value : ∀ cs j rest, value? fuel cs = some (j, rest) → j.HasDistinctNames
  items : ∀ cs items rest, items? fuel cs = some (items, rest) → ∀ j ∈ items, j.HasDistinctNames
  members : ∀ cs members rest, members? fuel cs = some (members, rest) → ∀ m ∈ members, m.2.HasDistinctNames

namespace ReadsDistinct

variable {fuel : Nat} {cs rest : List Char}

theorem value_step (ih : ReadsDistinct fuel) {j : Json} (h : value? (fuel + 1) cs = some (j, rest)) :
    j.HasDistinctNames := by
  unfold value? at h
  split at h
  · obtain ⟨_, _, h⟩ := Option.map_eq_some_iff.mp h
    cases h
    exact .text _
  · split at h
    · cases h
      exact .array (by simp)
    · obtain ⟨⟨items, left⟩, hread, h⟩ := Option.map_eq_some_iff.mp h
      cases h
      exact .array (ih.items _ _ _ hread)
  · split at h
    · cases h
      exact .object List.nodup_nil (by simp)
    · obtain ⟨⟨members, left⟩, hread, h⟩ := Option.map_eq_some_iff.mp h
      cases h
      exact hasDistinctNames_ofMembers (ih.members _ _ _ hread)
  · exact word?_hasDistinctNames h

theorem items_step (ih : ReadsDistinct fuel) {items : List Json} (h : items? (fuel + 1) cs = some (items, rest)) :
    ∀ j ∈ items, j.HasDistinctNames := by
  obtain ⟨⟨item, left⟩, hitem, h⟩ := Option.bind_eq_some_iff.mp h
  have hfirst := ih.value _ _ _ hitem
  dsimp only at h
  split at h
  · cases h
    simpa using hfirst
  · obtain ⟨⟨others, left⟩, hothers, h⟩ := Option.bind_eq_some_iff.mp h
    cases h
    exact List.forall_mem_cons.mpr ⟨hfirst, ih.items _ _ _ hothers⟩
  · cases h

theorem members_step (ih : ReadsDistinct fuel) {members : List (String × Json)}
    (h : members? (fuel + 1) cs = some (members, rest)) : ∀ m ∈ members, m.2.HasDistinctNames := by
  simp only [members?] at h
  split at h
  · obtain ⟨⟨name, left⟩, _, h⟩ := Option.bind_eq_some_iff.mp h
    dsimp only at h
    split at h
    · obtain ⟨⟨value, left⟩, hread, h⟩ := Option.bind_eq_some_iff.mp h
      have hfirst := ih.value _ _ _ hread
      dsimp only at h
      split at h
      · cases h
        simpa using hfirst
      · obtain ⟨⟨others, left⟩, hothers, h⟩ := Option.bind_eq_some_iff.mp h
        cases h
        exact List.forall_mem_cons.mpr ⟨hfirst, ih.members _ _ _ hothers⟩
      · cases h
    · cases h
  · cases h

end ReadsDistinct

-- The induction is on the fuel, which the three readers share.
theorem readsDistinct (fuel : Nat) : ReadsDistinct fuel := by
  induction fuel with
  | zero => exact ⟨by simp [value?], by simp [items?], by simp [members?]⟩
  | succ fuel ih =>
      exact ⟨fun _ _ _ h => ih.value_step h, fun _ _ _ h => ih.items_step h, fun _ _ _ h => ih.members_step h⟩

theorem read?_hasDistinctNames {text : String} {j : Json} (h : read? text = some j) : j.HasDistinctNames := by
  simp only [read?] at h
  split at h
  · rename_i hread
    split at h
    · cases h
      exact (readsDistinct _).value _ _ _ hread
    · cases h
  · cases h

end ShapeScribe.Json
