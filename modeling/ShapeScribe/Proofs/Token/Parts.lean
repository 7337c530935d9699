import ShapeScribe.Token.Basic

/-!
The parts of a token: the tokens that it is made of, down to scalars.
-/

namespace ShapeScribe.Token

-- The tokens that a token is made of, itself among them.
inductive Contains : Token → Token → Prop
  | self (t : Token) : Contains t t
  | element {elements : List Token} {t part : Token} : t ∈ elements → Contains t part → Contains (.array elements) part
  | field {fields : List (String × List Token)} {f : String × List Token} {t part : Token} :
      f ∈ fields → t ∈ f.2 → Contains t part → Contains (.record fields) part

@[simp] theorem contains_scalar_iff {name text : String} {part : Token} :
    (scalar name text).Contains part ↔ part = scalar name text := by
  constructor
  · rintro ⟨⟩
    rfl
  · rintro rfl
    exact .self _

def IsPlain (t : Token) : Prop := ∀ part, t.Contains part → part ≠ .circular ∧ part ≠ .undefined

theorem IsPlain.scalar {name text : String} (hcircular : scalar name text ≠ circular)
    (hundefined : scalar name text ≠ undefined) : (scalar name text).IsPlain := by
  rintro _ ⟨⟩
  exact ⟨hcircular, hundefined⟩

theorem IsPlain.array {elements : List Token} (h : ∀ t ∈ elements, t.IsPlain) : (array elements).IsPlain := by
  intro part hpart
  cases hpart with
  | self => simp [circular, undefined]
  | element ht hpart => exact h _ ht part hpart

theorem IsPlain.record {fields : List (String × List Token)} (h : ∀ f ∈ fields, ∀ t ∈ f.2, t.IsPlain) :
    (record fields).IsPlain := by
  intro part hpart
  cases hpart with
  | self => simp [circular, undefined]
  | field hf ht hpart => exact h _ hf _ ht part hpart

end ShapeScribe.Token
