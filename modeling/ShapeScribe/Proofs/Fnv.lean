import Mathlib.Logic.ExistsUnique
import ShapeScribe.Proofs.Text.Quoted
import ShapeScribe.Signature

/-!
Hashes of code units. Every step of the hash keeps states apart that were apart, and takes different units to different
states. What has been hashed so far is therefore told by the hash of a longer sequence with a known rest, and a single
unit that is exchanged always shows.
-/

namespace ShapeScribe.Fnv

variable {g h : UInt32} {a b : UInt16} {p q rest : List UInt16}

-- The multiplier is odd and so has an inverse: nothing is lost by multiplying.
theorem step_eq_iff : step g a = step h b ↔ g ^^^ a.toUInt32 = h ^^^ b.toUInt32 := by
  have hinverse : (16777619 : UInt32) * 899433627 = 1 := by decide
  constructor
  · intro heq
    have hundone := congrArg (· * 899433627) heq
    simpa only [step, UInt32.mul_assoc, hinverse, UInt32.mul_one] using hundone
  · intro hmixed
    rw [step, step, hmixed]

theorem step_left_inj : step g a = step h a ↔ g = h := by rw [step_eq_iff, UInt32.xor_left_inj]

theorem step_right_inj : step h a = step h b ↔ a = b := by
  rw [step_eq_iff, UInt32.xor_right_inj, UInt16.toUInt32_inj]

-- The induction is on the units behind: each of them keeps the states apart that were apart before it.
theorem foldl_step_inj : rest.foldl step g = rest.foldl step h ↔ g = h := by
  induction rest generalizing g h with
  | nil => rfl
  | cons unit rest ih => rw [List.foldl_cons, List.foldl_cons, ih, step_left_inj]

theorem hash_append (p rest : List UInt16) : hash (p ++ rest) = rest.foldl step (hash p) := List.foldl_append

theorem hash_append_inj : hash (p ++ rest) = hash (q ++ rest) ↔ hash p = hash q := by
  rw [hash_append, hash_append, foldl_step_inj]

-- Behind a common beginning the states agree, and the first step after it tells the units apart.
theorem hash_exchange_inj : hash (p ++ a :: rest) = hash (p ++ b :: rest) ↔ a = b := by
  rw [hash_append, hash_append, List.foldl_cons, List.foldl_cons, foldl_step_inj, step_right_inj]

-- The hash of code units as it is written, also of units that are no text.
def written (units : List UInt16) : String := String.ofList (Text.hex 8 (hash units).toNat)

theorem written_eq_iff : written p = written q ↔ hash p = hash q := by
  have hfits : ∀ h : UInt32, h.toNat < 16 ^ 8 := fun h => h.toNat_lt
  constructor
  · intro heq
    exact UInt32.toNat_inj.mp (Text.hex_inj (hfits _) (hfits _) (String.ofList_injective heq))
  · intro heq
    rw [written, written, heq]

-- As many units, and one place at which they are different ones.
def OneApart (p q : List UInt16) : Prop := p.length = q.length ∧ ∃! i : Nat, p[i]? ≠ q[i]?

theorem OneApart.exists_exchange (hpq : OneApart p q) :
    ∃ before a b after, p = before ++ a :: after ∧ q = before ++ b :: after ∧ a ≠ b := by
  obtain ⟨hlength, i, hi, honly⟩ := hpq
  have hip : i < p.length := by
    by_contra hbeyond
    have hp : p[i]? = none := List.getElem?_eq_none (by omega)
    have hq : q[i]? = none := List.getElem?_eq_none (by omega)
    exact hi (hp.trans hq.symm)
  have hiq : i < q.length := by omega
  have helsewhere : ∀ j, j ≠ i → p[j]? = q[j]? := fun j hj => by
    by_contra hdiffer
    exact hj (honly j hdiffer)
  have hbefore : p.take i = q.take i := by
    apply List.ext_getElem?
    intro j
    by_cases hj : j < i
    · rw [List.getElem?_take_of_lt hj, List.getElem?_take_of_lt hj, helsewhere j (by omega)]
    · rw [List.getElem?_eq_none (by simp; omega), List.getElem?_eq_none (by simp; omega)]
  have hafter : p.drop (i + 1) = q.drop (i + 1) := by
    apply List.ext_getElem?
    intro j
    rw [List.getElem?_drop, List.getElem?_drop, helsewhere _ (by omega)]
  refine ⟨p.take i, p[i], q[i], p.drop (i + 1), ?_, ?_, fun hsame => hi ?_⟩
  · rw [List.getElem_cons_drop, List.take_append_drop]
  · rw [hbefore, hafter, List.getElem_cons_drop, List.take_append_drop]
  · rw [List.getElem?_eq_getElem hip, List.getElem?_eq_getElem hiq, hsame]

theorem OneApart.hash_ne (hpq : OneApart p q) : hash p ≠ hash q := by
  obtain ⟨before, a, b, after, rfl, rfl, hab⟩ := hpq.exists_exchange
  exact fun heq => hab (hash_exchange_inj.mp heq)

end ShapeScribe.Fnv

namespace ShapeScribe

open Fnv

-- Texts that are one unit apart have different hashes, and no units behind two sequences bring their hashes together or
-- apart.
theorem hashText_edits :
    (∀ text, hashText text = written (Text.units text)) ∧
      (∀ s t : String, OneApart (Text.units s) (Text.units t) → hashText s ≠ hashText t) ∧
      ∀ p q rest : List UInt16, written (p ++ rest) = written (q ++ rest) ↔ written p = written q := by
  refine ⟨fun _ => rfl, ?_, ?_⟩
  · intro s t hst heq
    exact hst.hash_ne (written_eq_iff.mp heq)
  · intro p q rest
    rw [written_eq_iff, written_eq_iff, hash_append_inj]

-- Two characters beyond the basic plane whose surrogate pairs begin alike.
theorem hashText_edits_smile :
    OneApart (Text.units "is 😀") (Text.units "is 😁") ∧ hashText "is 😀" ≠ hashText "is 😁" := by
  have hfirst : Text.units "is 😀" = [105, 115, 32, 55357, 56832] := by decide
  have hsecond : Text.units "is 😁" = [105, 115, 32, 55357, 56833] := by decide
  have hapart : OneApart (Text.units "is 😀") (Text.units "is 😁") := by
    rw [hfirst, hsecond]
    refine ⟨rfl, 4, by decide, fun i hi => ?_⟩
    match i with
    | 0 | 1 | 2 | 3 => exact absurd rfl hi
    | 4 => rfl
    | i + 5 => exact absurd rfl hi
  exact ⟨hapart, hashText_edits.2.1 _ _ hapart⟩

end ShapeScribe
