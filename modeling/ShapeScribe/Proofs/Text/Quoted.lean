import Mathlib.Algebra.Group.Nat.Defs
import ShapeScribe.Proofs.Text.Sequence
import ShapeScribe.Text.Quoted

/-!
Quoted literals can be read back. The first character is the kind of quote, every escape shows its length, and a quote
of that kind stands alone only at the end.
-/

namespace ShapeScribe.Text

variable {quote c d : Char} {cs ds r s : List Char}

theorem length_hex (width n : Nat) : (hex width n).length = width := by
  induction width generalizing n with
  | zero => rfl
  | succ width ih => rw [hex, List.length_append, ih, List.length_singleton]

theorem hexDigit_inj {m n : Nat} (h : hexDigit m = hexDigit n) : m % 16 = n % 16 := by
  have hdigits : ∀ a < 16, ∀ b < 16, Nat.digitChar a = Nat.digitChar b → a = b := by decide
  exact hdigits _ (Nat.mod_lt _ (by decide)) _ (Nat.mod_lt _ (by decide)) h

theorem hex_inj {width m n : Nat} (hm : m < 16 ^ width) (hn : n < 16 ^ width) (h : hex width m = hex width n) :
    m = n := by
  induction width generalizing m n with
  | zero => omega
  | succ width ih =>
      obtain ⟨hhigh, hlow⟩ := List.append_inj' h rfl
      have hdiv := ih (Nat.div_lt_of_lt_mul (by omega)) (Nat.div_lt_of_lt_mul (by omega)) hhigh
      have hmod := hexDigit_inj (List.cons.inj hlow).1
      omega

-- Escapes of one letter, as the letter and what it stands for.
def letters (quote : Char) : List (Char × Char) := [(quote, quote), ('\\', '\\'), ('n', '\n'), ('r', '\r'), ('t', '\t')]

-- Escapes by number, as the letter and how many digits follow it.
def widths : List (Char × Nat) := [('x', 2), ('u', 4), ('U', 8)]

-- What can stand for a character between quotes.
inductive Escapes (quote c : Char) : List Char → Prop
  | plain (hquote : c ≠ quote) (hslash : c ≠ '\\') : Escapes quote c [c]
  | letter {letter : Char} (h : (letter, c) ∈ letters quote) : Escapes quote c ['\\', letter]
  | number {letter : Char} {width : Nat} (h : (letter, width) ∈ widths) (hc : c.toNat < 16 ^ width) :
    Escapes quote c ('\\' :: letter :: hex width c.toNat)

theorem escapes_escaped (quote c : Char) : Escapes quote c (escaped quote c) := by
  have hchar : c.toNat < 16 ^ 8 := Nat.lt_of_lt_of_le (UInt32.toNat_lt _) (by decide)
  unfold escaped
  split_ifs with hself hfeed hreturn htab hprintable hbyte hpair
  · rcases hself with rfl | rfl
    · exact .letter (by simp [letters])
    · exact .letter (by simp [letters])
  · exact .letter (by simp [letters, hfeed])
  · exact .letter (by simp [letters, hreturn])
  · exact .letter (by simp [letters, htab])
  · exact .plain (fun h => hself (.inl h)) fun h => hself (.inr h)
  · exact .number (by simp [widths]) hbyte
  · exact .number (by simp [widths]) hpair
  · exact .number (by simp [widths]) hchar

theorem letters_inj (hquote : quote = '\'' ∨ quote = '"') {letter : Char} (hc : (letter, c) ∈ letters quote)
    (hd : (letter, d) ∈ letters quote) : c = d := by
  have hfixed : ['\'', '"'].all (fun quote => (letters quote).all fun p =>
      (letters quote).all fun q => p.1 != q.1 || p.2 == q.2) = true := by decide
  simp only [List.all_eq_true, Bool.or_eq_true, bne_iff_ne, beq_iff_eq] at hfixed
  exact (hfixed quote (by simpa using hquote) _ hc _ hd).resolve_left fun hne => hne rfl

theorem notMem_widths (hquote : quote = '\'' ∨ quote = '"') {letter : Char} {width : Nat}
    (hc : (letter, c) ∈ letters quote) : (letter, width) ∉ widths := by
  have hfixed : ['\'', '"'].all (fun quote => (letters quote).all fun p => widths.all fun w => p.1 != w.1) = true := by
    decide
  simp only [List.all_eq_true, bne_iff_ne] at hfixed
  exact fun hwidth => hfixed quote (by simpa using hquote) _ hc _ hwidth rfl

theorem widths_inj {letter : Char} {m n : Nat} (hm : (letter, m) ∈ widths) (hn : (letter, n) ∈ widths) : m = n := by
  have hfixed : ∀ p ∈ widths, ∀ q ∈ widths, p.1 = q.1 → p.2 = q.2 := by decide
  exact hfixed _ hm _ hn rfl

-- The letter behind the backslash tells how far an escape goes.
theorem Escapes.append_inj (hquote : quote = '\'' ∨ quote = '"') {x y : List Char} (hx : Escapes quote c x)
    (hy : Escapes quote d y) (h : x ++ r = y ++ s) : c = d ∧ r = s := by
  cases hx with
  | plain _ hslash =>
      cases hy with
      | plain => simpa using h
      | letter | number => exact absurd (List.cons.inj h).1 hslash
  | letter hc =>
      cases hy with
      | plain _ hslash => exact absurd (List.cons.inj h).1.symm hslash
      | letter hd =>
          simp only [List.cons_append, List.nil_append, List.cons.injEq, true_and] at h
          obtain ⟨rfl, hrest⟩ := h
          exact ⟨letters_inj hquote hc hd, hrest⟩
      | number hwidth =>
          simp only [List.cons_append, List.nil_append, List.cons.injEq, true_and] at h
          exact absurd hwidth (h.1 ▸ notMem_widths hquote hc)
  | number hwidth hc =>
      cases hy with
      | plain _ hslash => exact absurd (List.cons.inj h).1.symm hslash
      | letter hd =>
          simp only [List.cons_append, List.nil_append, List.cons.injEq, true_and] at h
          exact absurd hwidth (h.1 ▸ notMem_widths hquote hd)
      | number hwidth' hd =>
          simp only [List.cons_append, List.cons.injEq, true_and] at h
          obtain ⟨rfl, hdigits⟩ := h
          obtain rfl := widths_inj hwidth hwidth'
          obtain ⟨hnumber, hrest⟩ := List.append_inj hdigits (by rw [length_hex, length_hex])
          exact ⟨Char.toNat_inj.mp (hex_inj hc hd hnumber), hrest⟩

theorem Escapes.quote_ne (hquote : quote = '\'' ∨ quote = '"') {x : List Char} (hx : Escapes quote c x) :
    quote :: r ≠ x ++ s := by
  have hslash : quote ≠ '\\' := by rcases hquote with rfl | rfl <;> decide
  intro h
  cases hx with
  | plain hne => exact hne (List.cons.inj h).1.symm
  | letter | number => exact hslash (List.cons.inj h).1

theorem quoteFor_cases (cs : List Char) : quoteFor cs = '\'' ∨ quoteFor cs = '"' := by
  unfold quoteFor
  split
  · exact .inr rfl
  · exact .inl rfl

theorem quoted_append_inj (h : quoted cs ++ r = quoted ds ++ s) : cs = ds ∧ r = s := by
  simp only [quoted, List.cons_append, List.append_assoc, List.nil_append, List.cons.injEq] at h
  obtain ⟨hsame, hbody⟩ := h
  have hquote := quoteFor_cases ds
  rw [hsame] at hbody
  exact escaped_append_inj
    (fun c d _ _ h => (escapes_escaped _ c).append_inj hquote (escapes_escaped _ d) h)
    (fun c _ _ => (escapes_escaped _ c).quote_ne hquote) hbody

end ShapeScribe.Text
