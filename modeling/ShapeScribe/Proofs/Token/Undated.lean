import ShapeScribe.Proofs.Token.Order
import ShapeScribe.Proofs.Token.Parts

/-!
Tokens without dates. Every date is taken for a string, and the unions of arrays are brought into normal form again:
tokens that differed in nothing but dates have become one, and their texts put them into other places.
-/

namespace ShapeScribe.Token

mutual

def undated : Token → Token
  | .scalar name text => if .scalar name text = date then string else .scalar name text
  | .array elements => .array (normalize (undatedAll elements))
  | .record fields => .record (undatedFields fields)

def undatedAll : List Token → List Token
  | [] => []
  | t :: ts => undated t :: undatedAll ts

def undatedFields : List (String × List Token) → List (String × List Token)
  | [] => []
  | (name, union) :: rest => (name, undatedAll union) :: undatedFields rest

end

def undatedField (f : String × List Token) : String × List Token := (f.1, f.2.map undated)

theorem undatedAll_eq_map (ts : List Token) : undatedAll ts = ts.map undated := by
  induction ts with
  | nil => rfl
  | cons t ts ih =>
      rw [List.map_cons, ← ih]
      rfl

theorem undatedFields_eq_map (fields : List (String × List Token)) : undatedFields fields = fields.map undatedField := by
  induction fields with
  | nil => rfl
  | cons f rest ih =>
      rw [List.map_cons, ← ih, undatedField, ← undatedAll_eq_map]
      rfl

theorem undated_array (elements : List Token) : (array elements).undated = array (normalize (elements.map undated)) := by
  rw [← undatedAll_eq_map]
  rfl

theorem undated_record (fields : List (String × List Token)) :
    (record fields).undated = record (fields.map undatedField) := by
  rw [← undatedFields_eq_map]
  rfl

theorem undated_date : date.undated = string := by
  have hdate : (if date = date then string else date) = string := if_pos rfl
  exact hdate

theorem undated_scalar_of_ne {name text : String} (h : scalar name text ≠ date) :
    (scalar name text).undated = scalar name text := if_neg h

-- Taking the dates away at the end is enough: the normal form only depends on which tokens there are.
theorem normalize_map_normalize (f : Token → Token) (ts : List Token) :
    normalize ((normalize ts).map f) = normalize (ts.map f) := by
  rw [normalize_eq_iff]
  intro t
  simp only [List.mem_map, mem_normalize]

-- No date is left, at any depth.
theorem not_contains_date_undated (t : Token) : ¬ t.undated.Contains date := by
  induction t using induct with
  | scalar name text =>
      by_cases h : scalar name text = date
      · rw [h, undated_date, string, contains_scalar_iff]
        decide
      · rw [undated_scalar_of_ne h, contains_scalar_iff]
        exact Ne.symm h
  | array elements ih =>
      rw [undated_array]
      intro h
      cases h with
      | element ht hpart =>
          obtain ⟨u, hu, rfl⟩ := List.mem_map.mp (mem_normalize.mp ht)
          exact ih u hu hpart
  | record fields ih =>
      rw [undated_record]
      intro h
      cases h with
      | field hf ht hpart =>
          obtain ⟨g, hg, rfl⟩ := List.mem_map.mp hf
          obtain ⟨u, hu, rfl⟩ := List.mem_map.mp ht
          exact ih g hg u hu hpart

-- All the unions of arrays are in normal form.
inductive IsNormal : Token → Prop
  | scalar (name text : String) : IsNormal (.scalar name text)
  | array {elements : List Token} (hnormal : normalize elements = elements) (h : ∀ t ∈ elements, IsNormal t) :
    IsNormal (.array elements)
  | record {fields : List (String × List Token)} (h : ∀ f ∈ fields, ∀ t ∈ f.2, IsNormal t) : IsNormal (.record fields)

-- Where there are no dates nothing is put into another place.
theorem IsNormal.undated_eq {t : Token} (h : t.IsNormal) (hdate : ¬ t.Contains date) : t.undated = t := by
  induction h with
  | scalar name text =>
      rw [contains_scalar_iff] at hdate
      exact undated_scalar_of_ne (Ne.symm hdate)
  | @array elements hnormal _ ih =>
      have hsame : ∀ t ∈ elements, t.undated = id t := fun t ht => ih t ht fun hpart => hdate (.element ht hpart)
      rw [undated_array, List.map_congr_left hsame, List.map_id, hnormal]
  | @record fields _ ih =>
      have hsame : ∀ f ∈ fields, undatedField f = id f := fun f hf => by
        have hunion : ∀ t ∈ f.2, t.undated = id t := fun t ht => ih f hf t ht fun hpart => hdate (.field hf ht hpart)
        rw [undatedField, List.map_congr_left hunion, List.map_id, id]
      rw [undated_record, List.map_congr_left hsame, List.map_id]

end ShapeScribe.Token
