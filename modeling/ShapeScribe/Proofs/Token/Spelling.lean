import ShapeScribe.Proofs.Text.Quoted
import ShapeScribe.Token.Spelling

/-!
The spelling of a token shows the token, whatever it is made of: no two tokens are spelled alike, not even with more
text behind them.
-/

namespace ShapeScribe.Token

section Tuples

variable {α : Type} {text : α → List Char} {xs ys : List α} {r s : List Char}

-- What a tuple ends in depends on its length, because a single item keeps a comma.
def tupleEnd {α : Type} : List α → List Char
  | [_] => [',', ')']
  | _ => [')']

theorem tupled_map (text : α → List Char) (xs : List α) :
    tupled (xs.map text) = '(' :: (joined [',', ' '] (xs.map text) ++ tupleEnd xs) := by
  match xs with
  | [] => rfl
  | [_] => rfl
  | _ :: _ :: _ => rfl

theorem separator_not_leads (xs : List α) (r : List Char) : ¬ [',', ' '] <+: tupleEnd xs ++ r := by
  unfold tupleEnd
  split <;> simp

-- An item that begins with something else is not taken for the end of a tuple.
theorem tupleEnd_nil_append_ne {x : α} (hx : ∃ c rest, text x = c :: rest ∧ c ≠ ')') (r s : List Char) :
    tupleEnd ([] : List α) ++ r ≠ joined [',', ' '] ((x :: xs).map text) ++ s := by
  obtain ⟨c, rest, hc, hne⟩ := hx
  rw [List.map_cons, Text.joined_cons, hc]
  rintro h
  exact hne (List.cons.inj h).1.symm

-- Tuples show their items when every item shows where it ends.
theorem tupled_append_inj (hbegins : ∀ x, ∃ c rest, text x = c :: rest ∧ c ≠ ')')
    (hitem : ∀ x ∈ xs, ∀ y r s, text x ++ r = text y ++ s → x = y ∧ r = s)
    (h : tupled (xs.map text) ++ r = tupled (ys.map text) ++ s) : xs = ys ∧ r = s := by
  simp only [tupled_map, List.cons_append, List.append_assoc, List.cons.injEq, true_and] at h
  have hsame : xs = ys := by
    cases xs with
    | nil =>
        cases ys with
        | nil => rfl
        | cons y ys => exact absurd h (tupleEnd_nil_append_ne (hbegins y) _ _)
    | cons x xs =>
        cases ys with
        | nil => exact absurd h.symm (tupleEnd_nil_append_ne (hbegins x) _ _)
        | cons y ys =>
            obtain ⟨hall, _⟩ := Text.joined_append_inj (R := Eq) (E := fun _ => True) (fun _ => trivial) trivial trivial
              (separator_not_leads _ r) (separator_not_leads _ s)
              (fun a ha b _ r s _ _ hab => hitem a ha b r s hab) h
            rwa [List.forall₂_eq_eq_eq] at hall
  subst hsame
  exact ⟨rfl, by simpa using h⟩

end Tuples

-- A field as it is spelled in its record.
def fieldSpelled (f : String × List Token) : List Char :=
  tupled [Text.quoted f.1.toList, tupled (f.2.map spelled)]

theorem spelledAll_eq_map (ts : List Token) : spelledAll ts = ts.map spelled := by
  induction ts with
  | nil => rfl
  | cons t ts ih => simp [spelledAll, ih]

theorem spelledFields_eq_map (fields : List (String × List Token)) :
    spelledFields fields = fields.map fieldSpelled := by
  induction fields with
  | nil => rfl
  | cons f rest ih => simp [spelledFields, spelledAll_eq_map, fieldSpelled, ih]

theorem spelled_scalar (name text : String) : (scalar name text).spelled =
    "ScalarToken(name=".toList ++ Text.quoted name.toList ++ ", text=".toList ++ Text.quoted text.toList ++ [')'] := rfl

theorem spelled_array (elements : List Token) :
    (array elements).spelled = "ArrayToken(elements=".toList ++ tupled (elements.map spelled) ++ [')'] := by
  rw [← spelledAll_eq_map]
  rfl

theorem spelled_record (fields : List (String × List Token)) :
    (record fields).spelled = "RecordToken(fields=".toList ++ tupled (fields.map fieldSpelled) ++ [')'] := by
  rw [← spelledFields_eq_map]
  rfl

theorem spelled_begins (t : Token) : ∃ c rest, t.spelled = c :: rest ∧ c ≠ ')' := by
  cases t with
  | scalar name text => exact ⟨'S', _, spelled_scalar name text, by decide⟩
  | array elements => exact ⟨'A', _, spelled_array elements, by decide⟩
  | record fields => exact ⟨'R', _, spelled_record fields, by decide⟩

theorem fieldSpelled_begins (f : String × List Token) : ∃ c rest, fieldSpelled f = c :: rest ∧ c ≠ ')' :=
  ⟨'(', _, rfl, by decide⟩

theorem induct {P : Token → Prop} (scalar : ∀ name text, P (.scalar name text))
    (array : ∀ elements, (∀ t ∈ elements, P t) → P (.array elements))
    (record : ∀ fields : List (String × List Token), (∀ f ∈ fields, ∀ t ∈ f.2, P t) → P (.record fields)) (t : Token) :
    P t :=
  @Token.rec P (fun elements => ∀ t ∈ elements, P t) (fun fields => ∀ f ∈ fields, ∀ t ∈ f.2, P t)
    (fun f => ∀ t ∈ f.2, P t) scalar array record
    (by simp) (fun _ _ ht hrest => List.forall_mem_cons.mpr ⟨ht, hrest⟩)
    (by simp) (fun _ _ hf hrest => List.forall_mem_cons.mpr ⟨hf, hrest⟩)
    (fun _ _ hunion => hunion) t

-- Where a token ends, and which one it is, can be seen from its spelling.
def Spells (t : Token) : Prop := ∀ u r s, t.spelled ++ r = u.spelled ++ s → t = u ∧ r = s

theorem fieldSpelled_append_inj {f g : String × List Token} {r s : List Char} (hf : ∀ t ∈ f.2, t.Spells)
    (h : fieldSpelled f ++ r = fieldSpelled g ++ s) : f = g ∧ r = s := by
  have hpair : ∀ (f : String × List Token) (r : List Char), fieldSpelled f ++ r =
      '(' :: (Text.quoted f.1.toList ++ (',' :: ' ' :: (tupled (f.2.map spelled) ++ (')' :: r)))) := fun f r => by
    simp [fieldSpelled, tupled, joined]
  rw [hpair, hpair, List.cons.injEq] at h
  obtain ⟨hname, hrest⟩ := Text.quoted_append_inj h.2
  simp only [List.cons.injEq, true_and] at hrest
  obtain ⟨hunion, hrest⟩ := tupled_append_inj spelled_begins hf hrest
  exact ⟨Prod.ext (String.toList_inj.mp hname) hunion, (List.cons.inj hrest).2⟩

theorem spells_scalar (name text : String) : (scalar name text).Spells := by
  intro u r s h
  cases u with
  | scalar name' text' =>
      simp only [spelled_scalar, List.append_assoc, List.append_cancel_left_eq] at h
      obtain ⟨hname, htext⟩ := Text.quoted_append_inj h
      rw [List.append_cancel_left_eq] at htext
      obtain ⟨htext, hrest⟩ := Text.quoted_append_inj htext
      rw [String.toList_inj.mp hname, String.toList_inj.mp htext]
      exact ⟨rfl, List.append_cancel_left hrest⟩
  | array => simp [spelled_scalar, spelled_array] at h
  | record => simp [spelled_scalar, spelled_record] at h

theorem spells_array {elements : List Token} (helements : ∀ t ∈ elements, t.Spells) : (array elements).Spells := by
  intro u r s h
  cases u with
  | scalar => simp [spelled_scalar, spelled_array] at h
  | array others =>
      simp only [spelled_array, List.append_assoc, List.append_cancel_left_eq] at h
      obtain ⟨rfl, hrest⟩ := tupled_append_inj spelled_begins helements h
      exact ⟨rfl, List.append_cancel_left hrest⟩
  | record => simp [spelled_array, spelled_record] at h

theorem spells_record {fields : List (String × List Token)} (hfields : ∀ f ∈ fields, ∀ t ∈ f.2, t.Spells) :
    (record fields).Spells := by
  intro u r s h
  cases u with
  | scalar => simp [spelled_scalar, spelled_record] at h
  | array => simp [spelled_array, spelled_record] at h
  | record others =>
      simp only [spelled_record, List.append_assoc, List.append_cancel_left_eq] at h
      obtain ⟨rfl, hrest⟩ := tupled_append_inj fieldSpelled_begins
        (fun f hf g r s hfg => fieldSpelled_append_inj (hfields f hf) hfg) h
      exact ⟨rfl, List.append_cancel_left hrest⟩

theorem spells (t : Token) : t.Spells := by
  induction t using induct with
  | scalar name text => exact spells_scalar name text
  | array elements ih => exact spells_array ih
  | record fields ih => exact spells_record ih

theorem spelled_inj {t u : Token} (h : t.spelled = u.spelled) : t = u :=
  (spells t u [] [] (congrArg (· ++ []) h)).1

end ShapeScribe.Token
