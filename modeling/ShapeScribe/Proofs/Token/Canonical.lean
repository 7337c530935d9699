import ShapeScribe.Proofs.Token.Order

/-!
Unions of any tokens in normal form: the distinct tokens, each once, in the one order that there is for them. The form
is told by the set of the tokens alone, and it is its own normal form.
-/

namespace ShapeScribe.Token

variable {t u : Token} {ts us : List Token}

-- An earlier tier, or the smaller text in the same tier, or the smaller spelling of the same text.
def Precedes (t u : Token) : Prop :=
  t.tier.rank < u.tier.rank ∨
    t.tier.rank = u.tier.rank ∧ (t.written < u.written ∨ t.written = u.written ∧ t.spelled < u.spelled)

theorem compareChars_eq_lt {cs ds : List Char} : compareChars cs ds = .lt ↔ cs < ds := by
  unfold compareChars compareOfLessAndEq
  split_ifs <;> simp_all

theorem precedes_iff : Precedes t u ↔ t.rating.order u.rating = .lt := by
  simp only [Precedes, Rating.order, rating, compareLex, Ordering.then_eq_lt, compareChars_eq_lt, compareChars_eq,
    Nat.compare_eq_lt, Nat.compare_eq_eq]

-- What stands before without being the same stands strictly before.
theorem precedes_of_notAfter (h : notAfter t u = true) (hne : t ≠ u) : Precedes t u := by
  rw [precedes_iff]
  rw [notAfter_iff] at h
  cases horder : t.rating.order u.rating with
  | lt => rfl
  | eq => exact absurd (rating_inj (Rating.eq_of_order horder)) hne
  | gt => simp [horder] at h

theorem normalize_precedes (ts : List Token) : (normalize ts).Pairwise Precedes :=
  (normalize_pairwise ts).imp₂ (fun _ _ => precedes_of_notAfter) (nodup_normalize ts)

theorem mergeSort_eq_normalize_iff : us.mergeSort notAfter = normalize ts ↔ us.Perm (normalize ts) := by
  constructor
  · intro h
    exact h ▸ (List.mergeSort_perm us notAfter).symm
  · intro h
    exact eq_of_perm_of_pairwise ((List.mergeSort_perm us notAfter).trans h)
      (List.pairwise_mergeSort notAfter_trans notAfter_total us) (normalize_pairwise ts)

-- A scalar of the given name, whatever its text.
def IsNamed (name : String) (t : Token) : Prop := ∃ text, t = scalar name text

theorem tier_spec (t : Token) :
    match t.tier with
    | .value => ¬ t.IsNamed "null" ∧ ¬ t.IsNamed "undefined"
    | .null => t.IsNamed "null"
    | .undefined => t.IsNamed "undefined" := by
  cases t with
  | scalar name text =>
      simp only [tier, IsNamed, scalar.injEq]
      split_ifs <;> simp_all
  | array | record => simp [tier, IsNamed]

-- A token that opens a list in order of tiers leaves no room for earlier tiers behind it.
theorem exists_tiers (h : ts.Pairwise fun t u => t.tier.rank ≤ u.tier.rank) :
    ∃ values nulls undefineds, ts = values ++ nulls ++ undefineds ∧ (∀ t ∈ values, t.tier = .value) ∧
      (∀ t ∈ nulls, t.tier = .null) ∧ ∀ t ∈ undefineds, t.tier = .undefined := by
  induction ts with
  | nil => exact ⟨[], [], [], rfl, by simp, by simp, by simp⟩
  | cons t rest ih =>
      obtain ⟨hfirst, hrest⟩ := List.pairwise_cons.mp h
      obtain ⟨values, nulls, undefineds, rfl, hvalues, hnulls, hundefineds⟩ := ih hrest
      have hlater : ∀ {us : List Token} {tier : Tier}, us ⊆ values ++ nulls ++ undefineds → (∀ u ∈ us, u.tier = tier) →
          tier.rank < t.tier.rank → us = [] := fun hsub hus hlt => by
        refine List.eq_nil_iff_forall_not_mem.mpr fun u hu => ?_
        have hle := hfirst u (hsub hu)
        rw [hus u hu] at hle
        omega
      cases htier : t.tier with
      | value => exact ⟨t :: values, nulls, undefineds, rfl, List.forall_mem_cons.mpr ⟨htier, hvalues⟩, hnulls, hundefineds⟩
      | null =>
          obtain rfl := hlater (by simp) hvalues (by simp [htier, Tier.rank])
          exact ⟨[], t :: nulls, undefineds, rfl, by simp, List.forall_mem_cons.mpr ⟨htier, hnulls⟩, hundefineds⟩
      | undefined =>
          obtain rfl := hlater (by simp) hvalues (by simp [htier, Tier.rank])
          obtain rfl := hlater (by simp) hnulls (by simp [htier, Tier.rank])
          exact ⟨[], [], t :: undefineds, rfl, by simp, by simp, List.forall_mem_cons.mpr ⟨htier, hundefineds⟩⟩

-- The normal form of any tokens. However the distinct tokens are arranged at first, sorting gives the same sequence.
theorem normalize_canonical (ts : List Token) :
    (∀ t, t ∈ normalize ts ↔ t ∈ ts) ∧ (normalize ts).Nodup ∧ (normalize ts).Pairwise Precedes ∧
      (∃ values nulls undefineds, normalize ts = values ++ nulls ++ undefineds ∧
        (∀ t ∈ values, ¬ t.IsNamed "null" ∧ ¬ t.IsNamed "undefined") ∧ (∀ t ∈ nulls, t.IsNamed "null") ∧
        ∀ t ∈ undefineds, t.IsNamed "undefined") ∧
      (∀ us, normalize us = normalize ts ↔ ∀ t, t ∈ us ↔ t ∈ ts) ∧
      (∀ us : List Token, us.mergeSort notAfter = normalize ts ↔ us.Perm (normalize ts)) ∧
      normalize (normalize ts) = normalize ts := by
  refine ⟨fun _ => mem_normalize, nodup_normalize ts, normalize_precedes ts, ?_, fun _ => normalize_eq_iff,
    fun _ => mergeSort_eq_normalize_iff, normalize_normalize ts⟩
  have hranks : (normalize ts).Pairwise fun t u => t.tier.rank ≤ u.tier.rank :=
    (normalize_precedes ts).imp fun h => h.elim Nat.le_of_lt fun h => Nat.le_of_eq h.1
  obtain ⟨values, nulls, undefineds, hsplit, hvalues, hnulls, hundefineds⟩ := exists_tiers hranks
  refine ⟨values, nulls, undefineds, hsplit, fun t ht => ?_, fun t ht => ?_, fun t ht => ?_⟩
  · simpa [hvalues t ht] using tier_spec t
  · simpa [hnulls t ht] using tier_spec t
  · simpa [hundefineds t ht] using tier_spec t

-- Tokens that are written alike stand in order of their spelling.
example : Precedes (.scalar "a" "x") (.scalar "b" "x") := by
  refine .inr ⟨rfl, .inr ⟨rfl, ?_⟩⟩
  rw [spelled_scalar, spelled_scalar]
  decide

end ShapeScribe.Token
