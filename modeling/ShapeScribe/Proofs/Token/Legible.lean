import ShapeScribe.Proofs.Token.FieldName

/-!
Type expressions can be read back. Words, brackets and separators are told apart by what follows them, so that no two
of the tokens that shapes are made of are written alike, whatever the names of their fields.
-/

namespace ShapeScribe.Token

-- The tokens that are written as a fixed word.
def words : List Token := [null, undefined, boolean, number, string, date, circular, array [], record []]

-- Tokens as shapes have them: the scalars are words, and every field of a record has one token.
inductive Legible : Token → Prop
  | word {name text : String} (h : scalar name text ∈ words) : Legible (scalar name text)
  | array {elements : List Token} (h : ∀ t ∈ elements, Legible t) : Legible (array elements)
  | record {fields : List (String × List Token)} (hsole : ∀ f ∈ fields, ∃ t, f.2 = [t])
      (h : ∀ f ∈ fields, ∀ t ∈ f.2, Legible t) : Legible (record fields)

-- A field as it stands in the text of its record.
def fieldText (f : String × List Token) : List Char :=
  FieldName.written f.1.toList ++ [':', ' '] ++ writtenUnion (f.2.map written)

theorem writtenAll_eq_map (ts : List Token) : writtenAll ts = ts.map written := by
  induction ts with
  | nil => rfl
  | cons t ts ih => simp [writtenAll, ih]

theorem writtenFields_eq_map (fields : List (String × List Token)) : writtenFields fields = fields.map fieldText := by
  induction fields with
  | nil => rfl
  | cons f rest ih => simp [writtenFields, writtenAll_eq_map, fieldText, ih]

theorem written_sole (t : Token) : (array [t]).written = t.written ++ ['[', ']'] := rfl

theorem written_several (t u : Token) (ts : List Token) :
    (array (t :: u :: ts)).written = '(' :: (joined bar ((t :: u :: ts).map written) ++ [')', '[', ']']) := by
  rw [← writtenAll_eq_map]
  rfl

theorem written_fields (f : String × List Token) (fs : List (String × List Token)) :
    (record (f :: fs)).written = '{' :: ' ' :: (joined [';', ' '] ((f :: fs).map fieldText) ++ [' ', '}']) := by
  rw [← writtenFields_eq_map]
  rfl

-- What stands behind a token is neither a bracket that belongs to it nor a comment.
def Ends (r : List Char) : Prop := ¬ ['['] <+: r ∧ ¬ [' ', '/'] <+: r

theorem ends_nil : Ends [] := by simp [Ends]

theorem ends_cons {c : Char} (r : List Char) (h : c ≠ '[' ∧ c ≠ ' ') : Ends (c :: r) := by
  simp [Ends, h.1.symm, h.2.symm]

theorem ends_bar (r : List Char) : Ends (bar ++ r) := by simp [Ends, bar]

section Brackets

-- Arrays of arrays: so many pairs of brackets behind the innermost token.
def brackets : Nat → List Char
  | 0 => []
  | n + 1 => '[' :: ']' :: brackets n

def wrapped : Nat → Token → Token
  | 0, t => t
  | n + 1, t => wrapped n (array [t])

theorem brackets_add (m n : Nat) : brackets (m + n) = brackets m ++ brackets n := by
  induction m with
  | zero => simp [brackets]
  | succ m ih => simp [Nat.succ_add, brackets, ih]

theorem written_wrapped (n : Nat) (t : Token) : (wrapped n t).written = t.written ++ brackets n := by
  induction n generalizing t with
  | zero => simp [wrapped, brackets]
  | succ n ih => simp [wrapped, brackets, ih, written_sole]

theorem wrapped_wrapped (m n : Nat) (t : Token) : wrapped n (wrapped m t) = wrapped (m + n) t := by
  induction m generalizing t with
  | zero => simp [wrapped]
  | succ m ih => rw [wrapped, ih, Nat.succ_add, wrapped]

theorem brackets_append_inj {m n : Nat} {r s : List Char} (hr : Ends r) (hs : Ends s)
    (h : brackets m ++ r = brackets n ++ s) : m = n ∧ r = s := by
  induction m generalizing n with
  | zero =>
      cases n with
      | zero => exact ⟨rfl, h⟩
      | succ n => exact absurd ⟨_, h.symm⟩ hr.1
  | succ m ih =>
      cases n with
      | zero => exact absurd ⟨_, h⟩ hs.1
      | succ n =>
          obtain ⟨rfl, hrest⟩ := ih (List.cons.inj (List.cons.inj h).2).2
          exact ⟨rfl, hrest⟩

theorem no_comment_behind_brackets {r : List Char} (hr : Ends r) (n : Nat) : ¬ [' ', '/'] <+: brackets n ++ r := by
  cases n with
  | zero => exact hr.2
  | succ n => simp [brackets]

end Brackets

-- Tokens that are no array of one element: a word, an array that needs brackets around its elements, or a record.
inductive IsCore : Token → Prop
  | word {t : Token} (h : t ∈ words) : IsCore t
  | several (t u : Token) (ts : List Token) : IsCore (array (t :: u :: ts))
  | fields (f : String × List Token) (fs : List (String × List Token)) : IsCore (record (f :: fs))

theorem exists_core {t : Token} (h : t.Legible) : ∃ n core, core.IsCore ∧ core.Legible ∧ t = wrapped n core := by
  induction h with
  | word h => exact ⟨0, _, .word h, .word h, rfl⟩
  | @array elements h ih =>
      match elements with
      | [] => exact ⟨0, _, .word (by decide), .array h, rfl⟩
      | [x] =>
          obtain ⟨n, core, hcore, hlegible, rfl⟩ := ih x List.mem_cons_self
          exact ⟨n + 1, core, hcore, hlegible, (wrapped_wrapped n 1 core)⟩
      | t :: u :: ts => exact ⟨0, _, .several t u ts, .array h, rfl⟩
  | @record fields hsole h _ =>
      match fields with
      | [] => exact ⟨0, _, .word (by decide), .record hsole h, rfl⟩
      | f :: fs => exact ⟨0, _, .fields f fs, .record hsole h, rfl⟩

-- Only one word begins another one: dates are strings with a comment.
theorem words_apart : ∀ t ∈ words, ∀ u ∈ words, t.written <+: u.written → t = u ∨ t = string ∧ u = date := by decide

theorem head?_of_mem_words :
    ∀ t ∈ words, t.written ≠ [] ∧ t.written.head? ≠ some '(' ∧ t.written.head? ≠ some '{' := by decide

theorem word_append_inj {t u : Token} (ht : t ∈ words) (hu : u ∈ words) {x y : List Char} (hx : ¬ [' ', '/'] <+: x)
    (hy : ¬ [' ', '/'] <+: y) (h : t.written ++ x = u.written ++ y) : t = u ∧ x = y := by
  have hcomment : date.written = string.written ++ " /* ISO Date */".toList := by decide
  have hsame : t = u := by
    rcases List.prefix_or_prefix_of_prefix ⟨x, h⟩ (List.prefix_append u.written y) with hbegins | hbegins
    · rcases words_apart t ht u hu hbegins with hsame | ⟨rfl, rfl⟩
      · exact hsame
      · rw [hcomment, List.append_assoc, List.append_cancel_left_eq] at h
        exact absurd ⟨_, h.symm⟩ hx
    · rcases words_apart u hu t ht hbegins with hsame | ⟨rfl, rfl⟩
      · exact hsame.symm
      · rw [hcomment, List.append_assoc, List.append_cancel_left_eq] at h
        exact absurd ⟨_, h⟩ hy
  exact ⟨hsame, List.append_cancel_left (hsame ▸ h)⟩

theorem word_append_ne {t : Token} (ht : t ∈ words) {c : Char} (hc : c = '(' ∨ c = '{') {x y : List Char} :
    t.written ++ x ≠ c :: y := by
  intro h
  obtain ⟨hne, hround, hcurly⟩ := head?_of_mem_words t ht
  have hhead := congrArg List.head? h
  rw [List.head?_append_of_ne_nil _ hne, List.head?_cons] at hhead
  rcases hc with rfl | rfl
  · exact hround hhead
  · exact hcurly hhead

-- Where a token ends, and which one it is, can be seen from its text, also with brackets behind it.
def Readable (t : Token) : Prop :=
  ∀ u m n r s, u.Legible → Ends r → Ends s → t.written ++ (brackets m ++ r) = u.written ++ (brackets n ++ s) →
    wrapped m t = wrapped n u ∧ r = s

theorem Readable.append_inj {t u : Token} (ht : t.Readable) (hu : u.Legible) {r s : List Char} (hr : Ends r)
    (hs : Ends s) (h : t.written ++ r = u.written ++ s) : t = u ∧ r = s :=
  ht u 0 0 r s hu hr hs h

theorem readable_of_core {t : Token}
    (h : ∀ u m n r s, u.IsCore → u.Legible → Ends r → Ends s →
      t.written ++ (brackets m ++ r) = u.written ++ (brackets n ++ s) → t = u ∧ m = n ∧ r = s) : t.Readable := by
  intro u m n r s hu hr hs heq
  obtain ⟨k, core, hcore, hlegible, rfl⟩ := exists_core hu
  rw [written_wrapped, List.append_assoc, ← List.append_assoc (brackets k), ← brackets_add] at heq
  obtain ⟨rfl, rfl, rfl⟩ := h core m (k + n) r s hcore hlegible hr hs heq
  exact ⟨(wrapped_wrapped k n t).symm, rfl⟩

theorem readable_word {t : Token} (ht : t ∈ words) : t.Readable := by
  apply readable_of_core
  intro u m n r s hcore _ hr hs h
  cases hcore with
  | word hu =>
      obtain ⟨rfl, hrest⟩ := word_append_inj ht hu (no_comment_behind_brackets hr m) (no_comment_behind_brackets hs n) h
      exact ⟨rfl, brackets_append_inj hr hs hrest⟩
  | several v w vs =>
      rw [written_several, List.cons_append] at h
      exact absurd h (word_append_ne ht (.inl rfl))
  | fields f fs =>
      rw [written_fields, List.cons_append] at h
      exact absurd h (word_append_ne ht (.inr rfl))

theorem readable_sole {t : Token} (ht : t.Readable) : (array [t]).Readable := by
  intro u m n r s hu hr hs h
  rw [written_sole, List.append_assoc] at h
  exact ht u (m + 1) n r s hu hr hs h

theorem readable_several {t u : Token} {ts : List Token} (h : ∀ x ∈ t :: u :: ts, x.Readable) :
    (array (t :: u :: ts)).Readable := by
  apply readable_of_core
  intro v m n r s hcore hv hr hs heq
  rw [written_several, List.cons_append] at heq
  cases hcore with
  | word hword => exact absurd heq.symm (word_append_ne hword (.inl rfl))
  | several w x ws =>
      simp only [written_several, List.cons_append, List.append_assoc, List.nil_append, List.cons.injEq, true_and] at heq
      cases hv with
      | array hlegible =>
          obtain ⟨hall, hrest⟩ := Text.joined_append_inj (R := Eq) (E := Ends) ends_bar
            (ends_cons _ (by decide)) (ends_cons _ (by decide)) (by simp [bar]) (by simp [bar])
            (fun a ha b hb r s hr hs hab => (h a ha).append_inj (hlegible b hb) hr hs hab) heq
          rw [List.forall₂_eq_eq_eq] at hall
          simp only [List.cons.injEq, true_and] at hrest
          exact ⟨congrArg array hall, brackets_append_inj hr hs hrest⟩
  | fields f fs =>
      rw [written_fields] at heq
      simp at heq

theorem fieldText_append_inj {f g : String × List Token} (hf : ∀ t ∈ f.2, t.Readable) (hg : ∀ t ∈ g.2, t.Legible)
    (hfsole : ∃ t, f.2 = [t]) (hgsole : ∃ t, g.2 = [t]) {r s : List Char} (hr : Ends r) (hs : Ends s)
    (h : fieldText f ++ r = fieldText g ++ s) : f = g ∧ r = s := by
  obtain ⟨name, union⟩ := f
  obtain ⟨other, union'⟩ := g
  obtain ⟨t, rfl⟩ : ∃ t, union = [t] := hfsole
  obtain ⟨u, rfl⟩ : ∃ u, union' = [u] := hgsole
  simp only [fieldText, List.append_assoc, List.cons_append, List.nil_append] at h
  obtain ⟨hname, hunion⟩ := FieldName.written_append_inj h
  obtain rfl := String.toList_inj.mp hname
  obtain ⟨rfl, rfl⟩ := (hf t List.mem_cons_self).append_inj (hg u List.mem_cons_self) hr hs (List.cons.inj hunion).2
  exact ⟨rfl, rfl⟩

theorem readable_fields {f : String × List Token} {fs : List (String × List Token)}
    (hsole : ∀ g ∈ f :: fs, ∃ t, g.2 = [t]) (h : ∀ g ∈ f :: fs, ∀ t ∈ g.2, t.Readable) :
    (record (f :: fs)).Readable := by
  apply readable_of_core
  intro v m n r s hcore hv hr hs heq
  rw [written_fields, List.cons_append] at heq
  cases hcore with
  | word hword => exact absurd heq.symm (word_append_ne hword (.inr rfl))
  | several w x ws =>
      rw [written_several] at heq
      simp at heq
  | fields g gs =>
      simp only [written_fields, List.cons_append, List.append_assoc, List.nil_append, List.cons.injEq, true_and] at heq
      cases hv with
      | record hothers hlegible =>
          obtain ⟨hall, hrest⟩ := Text.joined_append_inj (R := Eq) (E := Ends)
            (fun rest => ends_cons _ (by decide)) (by simp [Ends]) (by simp [Ends]) (by simp) (by simp)
            (fun a ha b hb r s hr hs hab =>
              fieldText_append_inj (h a ha) (hlegible b hb) (hsole a ha) (hothers b hb) hr hs hab) heq
          rw [List.forall₂_eq_eq_eq] at hall
          simp only [List.cons.injEq, true_and] at hrest
          exact ⟨congrArg record hall, brackets_append_inj hr hs hrest⟩

theorem Legible.readable {t : Token} (h : t.Legible) : t.Readable := by
  induction h with
  | word h => exact readable_word h
  | @array elements _ ih =>
      match elements with
      | [] => exact readable_word (by decide)
      | [t] => exact readable_sole (ih t List.mem_cons_self)
      | t :: u :: ts => exact readable_several ih
  | @record fields hsole _ ih =>
      match fields with
      | [] => exact readable_word (by decide)
      | f :: fs => exact readable_fields hsole ih

theorem written_append_inj {t u : Token} (ht : t.Legible) (hu : u.Legible) {r s : List Char} (hr : Ends r) (hs : Ends s)
    (h : t.written ++ r = u.written ++ s) : t = u ∧ r = s :=
  ht.readable.append_inj hu hr hs h

theorem written_inj {t u : Token} (ht : t.Legible) (hu : u.Legible) (h : t.written = u.written) : t = u :=
  (written_append_inj ht hu ends_nil ends_nil (congrArg (· ++ []) h)).1

end ShapeScribe.Token
