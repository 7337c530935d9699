import Mathlib.Data.List.Forall2
import Mathlib.Data.List.TakeWhile
import ShapeScribe.Token.Basic

/-!
Texts put together from parts. When it can be seen where a part ends, a sequence of parts with separators is read
back in only one way, and so is a literal between quotes.
-/

namespace ShapeScribe.Text

theorem joined_cons (separator t : List Char) (ts : List (List Char)) :
    Token.joined separator (t :: ts) = t ++ ts.flatMap (separator ++ ·) := by
  induction ts generalizing t with
  | nil => simp [Token.joined]
  | cons u ts ih => simp [Token.joined, ih]

section Sequence

-- `E` says what may follow a part.
variable {α : Type} {R : α → α → Prop} {text : α → List Char} {separator : List Char} {E : List Char → Prop}
  {x y : α} {xs ys : List α} {r s : List Char}

theorem ends_rest (hends : ∀ rest, E (separator ++ rest)) (hr : E r) :
    E (xs.flatMap (fun x => separator ++ text x) ++ r) := by
  cases xs with
  | nil => exact hr
  | cons x xs =>
      simp only [List.flatMap_cons, List.append_assoc]
      exact hends _

-- What follows the last part is not taken for a separator.
theorem rest_append_inj (hends : ∀ rest, E (separator ++ rest)) (hr : E r) (hs : E s)
    (hrsep : ¬ separator <+: r) (hssep : ¬ separator <+: s)
    (hitem : ∀ x ∈ xs, ∀ y ∈ ys, ∀ r s, E r → E s → text x ++ r = text y ++ s → R x y ∧ r = s)
    (h : xs.flatMap (fun x => separator ++ text x) ++ r = ys.flatMap (fun y => separator ++ text y) ++ s) :
    List.Forall₂ R xs ys ∧ r = s := by
  induction xs generalizing ys with
  | nil =>
      cases ys with
      | nil => exact ⟨.nil, h⟩
      | cons y ys =>
          simp only [List.flatMap_nil, List.nil_append, List.flatMap_cons, List.append_assoc] at h
          exact absurd ⟨_, h.symm⟩ hrsep
  | cons x xs ih =>
      cases ys with
      | nil =>
          simp only [List.flatMap_nil, List.nil_append, List.flatMap_cons, List.append_assoc] at h
          exact absurd ⟨_, h⟩ hssep
      | cons y ys =>
          simp only [List.flatMap_cons, List.append_assoc, List.append_cancel_left_eq] at h
          obtain ⟨hxy, hrest⟩ := hitem x List.mem_cons_self y List.mem_cons_self _ _ (ends_rest hends hr)
            (ends_rest hends hs) h
          obtain ⟨hall, rfl⟩ := ih (fun x hx y hy => hitem x (List.mem_cons_of_mem _ hx) y (List.mem_cons_of_mem _ hy))
            hrest
          exact ⟨.cons hxy hall, rfl⟩

theorem joined_append_inj (hends : ∀ rest, E (separator ++ rest)) (hr : E r) (hs : E s)
    (hrsep : ¬ separator <+: r) (hssep : ¬ separator <+: s)
    (hitem : ∀ a ∈ x :: xs, ∀ b ∈ y :: ys, ∀ r s, E r → E s → text a ++ r = text b ++ s → R a b ∧ r = s)
    (h : Token.joined separator ((x :: xs).map text) ++ r = Token.joined separator ((y :: ys).map text) ++ s) :
    List.Forall₂ R (x :: xs) (y :: ys) ∧ r = s := by
  simp only [List.map_cons, joined_cons, List.flatMap_map, List.append_assoc] at h
  obtain ⟨hxy, hrest⟩ := hitem x List.mem_cons_self y List.mem_cons_self _ _ (ends_rest hends hr) (ends_rest hends hs) h
  obtain ⟨hall, rfl⟩ := rest_append_inj hends hr hs hrsep hssep
    (fun a ha b hb => hitem a (List.mem_cons_of_mem _ ha) b (List.mem_cons_of_mem _ hb)) hrest
  exact ⟨.cons hxy hall, rfl⟩

end Sequence

-- A run of characters of one kind ends where another character follows.
theorem run_append_inj {kind : Char → Bool} {cs ds r s : List Char} (hcs : ∀ c ∈ cs, kind c = true)
    (hds : ∀ c ∈ ds, kind c = true) (hr : ∀ c ∈ r.head?, kind c = false) (hs : ∀ c ∈ s.head?, kind c = false)
    (h : cs ++ r = ds ++ s) : cs = ds ∧ r = s := by
  have htake : ∀ {es t : List Char}, (∀ c ∈ es, kind c = true) → (∀ c ∈ t.head?, kind c = false) →
      (es ++ t).takeWhile kind = es := by
    intro es t hes ht
    rw [List.takeWhile_append_of_pos hes]
    cases t with
    | nil => simp
    | cons c t => simp [ht c (by simp)]
  have hsame : cs = ds := by rw [← htake hcs hr, h, htake hds hs]
  exact ⟨hsame, List.append_cancel_left (hsame ▸ h)⟩

-- The closing quote is the first one that is not part of an escape.
theorem escaped_append_inj {escape : Char → List Char} {quote : Char} {cs ds r s : List Char}
    (hstep : ∀ c d r s, escape c ++ r = escape d ++ s → c = d ∧ r = s) (hquote : ∀ c r s, quote :: r ≠ escape c ++ s)
    (h : cs.flatMap escape ++ quote :: r = ds.flatMap escape ++ quote :: s) : cs = ds ∧ r = s := by
  induction cs generalizing ds with
  | nil =>
      cases ds with
      | nil => simpa using h
      | cons d ds =>
          rw [List.flatMap_cons, List.append_assoc] at h
          exact absurd h (hquote d _ _)
  | cons c cs ih =>
      cases ds with
      | nil =>
          rw [List.flatMap_cons, List.append_assoc] at h
          exact absurd h.symm (hquote c _ _)
      | cons d ds =>
          simp only [List.flatMap_cons, List.append_assoc] at h
          obtain ⟨rfl, hrest⟩ := hstep c d _ _ h
          obtain ⟨rfl, rfl⟩ := ih hrest
          exact ⟨rfl, rfl⟩

end ShapeScribe.Text
