import ShapeScribe.Proofs.Attempt
import ShapeScribe.Proofs.Sample.Graph
import ShapeScribe.Proofs.Token.Order

/-!
The meaning of tokens: which values inhabit them. What the walk over an acyclic sample says about a value is a token
that the value inhabits, provided that the elements of arrays are all looked at.
-/

namespace ShapeScribe

open Attempt

-- The scalar tokens that a leaf inhabits: every text is a string, and some are dates.
def Leaf.Fits : Leaf → Token → Prop
  | .null, t => t = .null
  | .missing, t => t = .undefined
  | .boolean _, t => t = .boolean
  | .integer _, t | .decimal _, t => t = .number
  | .text s, t => t = .string ∨ t = .date ∧ DateText.isDate s
  | .foreign _, _ => False

namespace Sample

mutual

def Inhabits (s : Sample) : Token → Value → Prop
  | .scalar name text, v => ∃ l, v = .leaf l ∧ l.Fits (.scalar name text)
  | .array elements, v =>
    ∃ p fixed items, v = .container p ∧ s.contents p = .array fixed items ∧
      ∀ item ∈ items, InhabitsSome s elements item
  | .record fields, v =>
    ∃ p members, v = .container p ∧ s.contents p = .object members ∧
      (∀ m ∈ members, InhabitsField s fields m.1 m.2) ∧ ∀ f ∈ fields, ∃ m ∈ members, m.1 = .text f.1

def InhabitsSome (s : Sample) : List Token → Value → Prop
  | [], _ => False
  | t :: ts, v => Inhabits s t v ∨ InhabitsSome s ts v

-- The value inhabits the union of the field that has its key for a name.
def InhabitsField (s : Sample) : List (String × List Token) → Key → Value → Prop
  | [], _, _ => False
  | (name, union) :: rest, key, v => key = .text name ∧ InhabitsSome s union v ∨ InhabitsField s rest key v

end

variable {s : Sample} {o : Options}

theorem inhabitsSome_iff {ts : List Token} {v : Value} : s.InhabitsSome ts v ↔ ∃ t ∈ ts, s.Inhabits t v := by
  induction ts with
  | nil => simp [InhabitsSome]
  | cons t ts ih => simp [InhabitsSome, ih]

theorem inhabitsField_iff {fields : List (String × List Token)} {key : Key} {v : Value} :
    s.InhabitsField fields key v ↔ ∃ f ∈ fields, key = .text f.1 ∧ s.InhabitsSome f.2 v := by
  induction fields with
  | nil => simp [InhabitsField]
  | cons f rest ih => simp [InhabitsField, ih]

end Sample

theorem Leaf.fits_of_shape {o : Options} {l : Leaf} {t : Token} (h : l.shape o = .ok t) : l.Fits t := by
  cases l <;> simp only [shape, Except.ok.injEq, reduceCtorEq] at h
  case text s =>
    split at h
    · exact .inr ⟨h.symm, by simp_all⟩
    · exact .inl h.symm
  all_goals exact h.symm

-- Whatever a leaf inhabits is a scalar.
theorem Leaf.Fits.inhabits {s : Sample} {l : Leaf} {t : Token} (h : l.Fits t) : s.Inhabits t (.leaf l) := by
  cases t with
  | scalar name text => exact ⟨l, rfl, h⟩
  | _ => cases l <;> simp [Fits, Token.null, Token.undefined, Token.boolean, Token.number, Token.string, Token.date] at h

namespace Sample

variable {s : Sample} {o : Options}

theorem containerShape_inhabited {shapeOf : Value → Except Fault Token} {p : Place} {t : Token}
    (ho : o.analyzeAllArrayElements = true)
    (hshape : ∀ v ∈ (s.contents p).values, ∀ u, shapeOf v = .ok u → s.Inhabits u v)
    (h : containerShape o shapeOf (s.contents p) = .ok t) : s.Inhabits t (.container p) := by
  cases hc : s.contents p with
  | array fixed items =>
      rw [hc] at h hshape
      obtain ⟨ts, hts, rfl⟩ := containerShape_array_eq_ok.mp h
      rw [Options.sampled_eq ho] at hts
      refine ⟨p, fixed, items, rfl, hc, fun item hitem => inhabitsSome_iff.mpr ?_⟩
      obtain ⟨u, hu, hitemu⟩ := exists_result hts hitem
      exact ⟨u, Token.mem_normalize.mpr hu, hshape item hitem u hitemu⟩
  | object members =>
      rw [hc] at h hshape
      obtain ⟨fields, hfields, rfl⟩ := containerShape_object_eq_ok.mp h
      refine ⟨p, members, rfl, hc, fun m hm => inhabitsField_iff.mpr ?_, fun f hf => ?_⟩
      · obtain ⟨f, hf, hname, u, hu, hunion⟩ := exists_result hfields hm
        have hv := hshape m.2 (List.mem_map_of_mem hm) u hu
        exact ⟨f, List.mem_mergeSort.mpr hf, hname, inhabitsSome_iff.mpr ⟨u, by simp [hunion], hv⟩⟩
      · obtain ⟨m, hm, hname, _⟩ := exists_item hfields (List.mem_mergeSort.mp hf)
        exact ⟨m, hm, hname⟩

-- The induction is on the room that is left. A sample without cycles never falls back on the circular token,
-- because the containers of the path enclose the value.
theorem shapeBelow_inhabited (ho : o.analyzeAllArrayElements = true) (hs : s.Acyclic) {room : Nat}
    {path : List Place} {v : Value} {t : Token} (hpath : s.MeetsBelow path v)
    (h : s.shapeBelow o room path v = .ok t) : s.Inhabits t v := by
  induction room generalizing path v t with
  | zero =>
      cases v with
      | leaf l => exact (Leaf.fits_of_shape h).inhabits
      | container p => simp [shapeBelow, hpath.notMem hs] at h
  | succ room ih =>
      cases v with
      | leaf l => exact (Leaf.fits_of_shape h).inhabits
      | container p =>
          simp only [shapeBelow, hpath.notMem hs, if_false] at h
          exact containerShape_inhabited ho (fun v hv u hu => ih (hpath.step hv) hu) h

theorem shape_inhabited (ho : o.analyzeAllArrayElements = true) (hs : s.Acyclic) {t : Token}
    (h : s.shape o = .ok t) : s.Inhabits t s.root :=
  shapeBelow_inhabited ho hs s.meetsBelow_root h

end Sample

end ShapeScribe
