import Mathlib.Data.List.Nodup
import ShapeScribe.Proofs.Token.Spelling
import ShapeScribe.Token.Union

/-!
The order of tokens in a union: by tier, by what is written, by spelling. It tells any two tokens apart, so that the
normal form of a union depends on the set of its tokens alone, neither on their order nor on how often each is given.
-/

namespace ShapeScribe.Token

open Std

theorem lt_iff_of_chars (cs ds : List Char) : cs < ds ↔ ¬ ds < cs ∧ cs ≠ ds := by
  constructor
  · intro hlt
    refine ⟨List.lt_asymm hlt, ?_⟩
    rintro rfl
    exact List.lt_irrefl cs hlt
  · rintro ⟨hnot, hne⟩
    by_contra hlt
    exact hne (List.le_antisymm (List.not_lt.mp hnot) (List.not_lt.mp hlt))

instance : TransCmp compareChars :=
  TransOrd.compareOfLessAndEq_of_lt_trans_of_lt_iff List.lt_trans lt_iff_of_chars

theorem compareChars_eq {cs ds : List Char} : compareChars cs ds = .eq ↔ cs = ds := by
  unfold compareChars compareOfLessAndEq
  split
  · rename_i hlt
    simp only [reduceCtorEq, false_iff]
    rintro rfl
    exact List.lt_irrefl cs hlt
  · simp

-- What the order of tokens looks at: the rank of the tier, what is written, the spelling.
abbrev Rating := Nat × List Char × List Char

def rating (t : Token) : Rating := (t.tier.rank, t.written, t.spelled)

namespace Rating

theorem transCmp_on {α β : Type} (cmp : β → β → Ordering) [TransCmp cmp] (f : α → β) :
    TransCmp fun a b => cmp (f a) (f b) where
  eq_swap := OrientedCmp.eq_swap
  isLE_trans := TransCmp.isLE_trans

def order : Rating → Rating → Ordering :=
  compareLex (fun r s => compare r.1 s.1)
    (compareLex (fun r s => compareChars r.2.1 s.2.1) fun r s => compareChars r.2.2 s.2.2)

instance : TransCmp order :=
  have := transCmp_on compare fun r : Rating => r.1
  have := transCmp_on compareChars fun r : Rating => r.2.1
  have := transCmp_on compareChars fun r : Rating => r.2.2
  inferInstanceAs (TransCmp (compareLex _ (compareLex _ _)))

theorem eq_of_order {r s : Rating} (h : r.order s = .eq) : r = s := by
  simp only [order, compareLex_eq_eq, compareChars_eq] at h
  obtain ⟨htier, hwritten, hspelled⟩ := h
  exact Prod.ext (Std.LawfulEqCmp.eq_of_compare htier) (Prod.ext hwritten hspelled)

end Rating

theorem notAfter_iff {t u : Token} : notAfter t u = true ↔ (t.rating.order u.rating).isLE = true := by
  rw [Ordering.isLE_iff_ne_gt]
  exact bne_iff_ne

theorem notAfter_trans (t u v : Token) (htu : notAfter t u = true) (huv : notAfter u v = true) :
    notAfter t v = true :=
  notAfter_iff.mpr (TransCmp.isLE_trans (notAfter_iff.mp htu) (notAfter_iff.mp huv))

theorem notAfter_total (t u : Token) : (notAfter t u || notAfter u t) = true := by
  have hswap : u.rating.order t.rating = (t.rating.order u.rating).swap := OrientedCmp.eq_swap
  rw [Bool.or_eq_true, notAfter_iff, notAfter_iff, hswap]
  cases t.rating.order u.rating <;> simp

theorem normalize_pairwise (ts : List Token) : (normalize ts).Pairwise fun t u => notAfter t u = true :=
  List.pairwise_mergeSort notAfter_trans notAfter_total _

theorem nodup_eraseDups {α : Type} [BEq α] [LawfulBEq α] : (as : List α) → as.eraseDups.Nodup
  | [] => by simp
  | a :: as => by
    rw [List.eraseDups_cons, List.nodup_cons]
    exact ⟨by simp, nodup_eraseDups (as.filter fun b => !b == a)⟩
termination_by as => as.length
decreasing_by exact Nat.lt_succ_of_le (List.length_filter_le _ _)

theorem nodup_normalize (ts : List Token) : (normalize ts).Nodup :=
  (List.mergeSort_perm _ _).nodup_iff.mpr (nodup_eraseDups ts)

@[simp] theorem mem_normalize {t : Token} {ts : List Token} : t ∈ normalize ts ↔ t ∈ ts := by
  simp [normalize, List.mem_eraseDups]

-- Tokens of one tier that are written alike still differ in their spelling.
theorem rating_inj {t u : Token} (h : t.rating = u.rating) : t = u := spelled_inj (congrArg (fun r => r.2.2) h)

theorem notAfter_antisymm {t u : Token} (htu : notAfter t u = true) (hut : notAfter u t = true) : t = u :=
  rating_inj (Rating.eq_of_order (OrientedCmp.isLE_antisymm (notAfter_iff.mp htu) (notAfter_iff.mp hut)))

theorem eq_of_perm_of_pairwise {ts us : List Token} (h : ts.Perm us) (hts : ts.Pairwise fun t u => notAfter t u = true)
    (hus : us.Pairwise fun t u => notAfter t u = true) : ts = us :=
  h.eq_of_pairwise (fun _ _ _ _ => notAfter_antisymm) hts hus

theorem normalize_eq_iff {ts us : List Token} : normalize ts = normalize us ↔ ∀ t, t ∈ ts ↔ t ∈ us := by
  constructor
  · intro h t
    rw [← mem_normalize, h, mem_normalize]
  · intro h
    refine eq_of_perm_of_pairwise ?_ (normalize_pairwise ts) (normalize_pairwise us)
    exact (List.perm_ext_iff_of_nodup (nodup_normalize ts) (nodup_normalize us)).mpr fun t => by simp [h]

theorem normalize_normalize (ts : List Token) : normalize (normalize ts) = normalize ts :=
  normalize_eq_iff.mpr fun _ => mem_normalize

theorem unionText_congr (fallback : Token) {ts us : List Token} (h : ∀ t, t ∈ ts ↔ t ∈ us) :
    unionText fallback ts = unionText fallback us := by
  rw [unionText, unionText, normalize_eq_iff.mpr h]

end ShapeScribe.Token
