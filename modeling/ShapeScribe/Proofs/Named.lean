import Mathlib.Data.List.Nodup
import ShapeScribe.Named

/-!
Pairs in order of their names. Ordering is stable and looks at nothing but the names, and pairs with distinct names
have only one order.
-/

namespace ShapeScribe.Named

variable {α β : Type}

theorem inOrder_perm (pairs : List (String × α)) : (inOrder pairs).Perm pairs := List.mergeSort_perm _ _

@[simp] theorem mem_inOrder {p : String × α} {pairs : List (String × α)} : p ∈ inOrder pairs ↔ p ∈ pairs :=
  List.mem_mergeSort

private theorem le_trans (p q r : String × α) (hpq : decide (p.1 ≤ q.1) = true) (hqr : decide (q.1 ≤ r.1) = true) :
    decide (p.1 ≤ r.1) = true := by
  simp only [decide_eq_true_eq] at hpq hqr ⊢
  exact String.le_trans hpq hqr

private theorem le_total (p q : String × α) : (decide (p.1 ≤ q.1) || decide (q.1 ≤ p.1)) = true := by
  simpa using String.le_total p.1 q.1

theorem inOrder_pairwise (pairs : List (String × α)) : (inOrder pairs).Pairwise fun p q => p.1 ≤ q.1 :=
  (List.pairwise_mergeSort le_trans le_total pairs).imp fun h => by simpa using h

theorem inOrder_map (f : α → β) (pairs : List (String × α)) :
    inOrder (pairs.map fun p => (p.1, f p.2)) = (inOrder pairs).map fun p => (p.1, f p.2) := by
  symm
  apply List.map_mergeSort
  intros
  rfl

theorem inOrder_inOrder (pairs : List (String × α)) : inOrder (inOrder pairs) = inOrder pairs :=
  List.mergeSort_of_pairwise ((inOrder_pairwise pairs).imp fun h => by simpa using h)

-- The pairs of one name keep their order.
theorem filter_inOrder (name : String) (pairs : List (String × α)) :
    (inOrder pairs).filter (·.1 = name) = pairs.filter (·.1 = name) := by
  have hsame : (pairs.filter (·.1 = name)).Pairwise fun p q => (decide (p.1 ≤ q.1)) = true := by
    apply List.pairwise_of_forall_mem_list
    intro p hp q hq
    simp only [List.mem_filter, decide_eq_true_eq] at hp hq
    simp [hp.2, hq.2]
  have hsub : (pairs.filter (·.1 = name)).Sublist (inOrder pairs) :=
    List.sublist_mergeSort le_trans le_total hsame List.filter_sublist
  have hfilter := hsub.filter (·.1 = name)
  rw [List.filter_filter] at hfilter
  simp only [Bool.and_self] at hfilter
  exact (hfilter.eq_of_length ((inOrder_perm pairs).filter _).length_eq.symm).symm

theorem inOrder_eq_of_perm {pairs others : List (String × α)} (h : pairs.Perm others)
    (hnames : (pairs.map (·.1)).Nodup) : inOrder pairs = inOrder others := by
  apply List.Perm.eq_of_pairwise _ (inOrder_pairwise pairs) (inOrder_pairwise others)
  · exact (inOrder_perm pairs).trans (h.trans (inOrder_perm others).symm)
  · intro p q hp hq hpq hqp
    have hq' := h.mem_iff.mpr (mem_inOrder.mp hq)
    exact List.inj_on_of_nodup_map hnames (mem_inOrder.mp hp) hq' (String.le_antisymm hpq hqp)

theorem inOrder_eq_of_sorted {pairs sorted : List (String × α)} (h : pairs.Perm sorted)
    (hsorted : (sorted.map (·.1)).Pairwise (· < ·)) : inOrder pairs = sorted := by
  have hnames : (pairs.map (·.1)).Nodup := (h.map _).nodup_iff.mpr (hsorted.imp String.ne_of_lt)
  rw [inOrder_eq_of_perm h hnames]
  have hle : ∀ p q : String × α, p.1 < q.1 → decide (p.1 ≤ q.1) = true := fun p q hlt =>
    decide_eq_true (String.not_lt.mp (String.lt_asymm hlt))
  exact List.mergeSort_of_pairwise ((List.pairwise_map.mp hsorted).imp fun {p q} => hle p q)

theorem lt_of_le_of_ne {name other : String} (hle : name ≤ other) (hne : name ≠ other) : name < other :=
  String.not_le.mp fun hge => hne (String.le_antisymm hle hge)

theorem inOrder_pairwise_lt {pairs : List (String × α)} (h : (pairs.map (·.1)).Nodup) :
    ((inOrder pairs).map (·.1)).Pairwise (· < ·) := by
  have hnames : ((inOrder pairs).map (·.1)).Nodup := ((inOrder_perm pairs).map _).nodup_iff.mpr h
  rw [List.Nodup, List.pairwise_map] at hnames
  rw [List.pairwise_map]
  exact (inOrder_pairwise pairs).imp₂ (fun _ _ => lt_of_le_of_ne) hnames

-- Pairs with rising names are told by which pairs there are.
theorem eq_of_pairwise_lt {pairs others : List (String × α)} (h : (pairs.map (·.1)).Pairwise (· < ·))
    (h' : (others.map (·.1)).Pairwise (· < ·)) (hmem : ∀ p, p ∈ pairs ↔ p ∈ others) : pairs = others := by
  have hnodup : ∀ {l : List (String × α)}, (l.map (·.1)).Pairwise (· < ·) → l.Nodup := by
    intro l hl
    have hnames : (l.map (·.1)).Nodup := hl.imp String.ne_of_lt
    exact hnames.of_map _
  have hperm : pairs.Perm others := (List.perm_ext_iff_of_nodup (hnodup h) (hnodup h')).mpr hmem
  rw [← inOrder_eq_of_sorted (.refl pairs) h, inOrder_eq_of_sorted hperm h']

theorem inOrder_eq_iff {pairs others : List (String × α)} (h : (pairs.map (·.1)).Nodup)
    (h' : (others.map (·.1)).Nodup) : inOrder pairs = inOrder others ↔ ∀ p, p ∈ pairs ↔ p ∈ others := by
  constructor
  · intro horder p
    rw [← mem_inOrder, horder, mem_inOrder]
  · intro hmem
    refine eq_of_pairwise_lt (inOrder_pairwise_lt h) (inOrder_pairwise_lt h') fun p => ?_
    rw [mem_inOrder, mem_inOrder, hmem p]

@[simp] theorem get?_nil (name : String) : get? name ([] : List (String × α)) = none := rfl

theorem get?_cons (name : String) (p : String × α) (rest : List (String × α)) :
    get? name (p :: rest) = if p.1 = name then some p.2 else get? name rest := by
  by_cases hp : p.1 = name <;> simp [get?, hp]

theorem get?_append (name : String) (pairs others : List (String × α)) :
    get? name (pairs ++ others) = (get? name pairs).or (get? name others) := by
  induction pairs with
  | nil => simp
  | cons p rest ih =>
      rw [List.cons_append, get?_cons, get?_cons, ih]
      split <;> rfl

theorem mem_of_get? {name : String} {value : α} {pairs : List (String × α)} (h : get? name pairs = some value) :
    (name, value) ∈ pairs := by
  induction pairs with
  | nil => simp at h
  | cons p rest ih =>
      rw [get?_cons] at h
      split at h
      · rename_i hp
        cases h
        exact hp ▸ List.mem_cons_self
      · exact List.mem_cons_of_mem _ (ih h)

theorem get?_eq_none {name : String} {pairs : List (String × α)} : get? name pairs = none ↔ name ∉ pairs.map (·.1) := by
  induction pairs with
  | nil => simp
  | cons p rest ih =>
      rw [get?_cons, List.map_cons, List.mem_cons, not_or, ← ih]
      split <;> simp_all [eq_comm]

theorem get?_of_mem {name : String} {value : α} {pairs : List (String × α)} (h : (name, value) ∈ pairs)
    (hnames : (pairs.map (·.1)).Nodup) : get? name pairs = some value := by
  induction pairs with
  | nil => cases h
  | cons p rest ih =>
      obtain ⟨hp, hrest⟩ := List.nodup_cons.mp hnames
      rw [get?_cons]
      rcases List.mem_cons.mp h with rfl | h
      · exact if_pos rfl
      · have hname : p.1 ≠ name := by
          rintro rfl
          exact hp (List.mem_map.mpr ⟨_, h, rfl⟩)
        rw [if_neg hname, ih h hrest]

theorem get?_set (name other : String) (value : α) (pairs : List (String × α)) :
    get? other (set name value pairs) = if name = other then some value else get? other pairs := by
  induction pairs with
  | nil => simp [set, get?_cons]
  | cons p rest ih =>
      rw [set]
      split
      · rename_i hp
        rw [get?_cons, get?_cons, hp]
        split <;> rfl
      · rename_i hp
        rw [get?_cons, ih, get?_cons]
        grind

-- The last value of a name is the one that stays.
theorem get?_foldl_set (name : String) (pairs kept : List (String × α)) :
    get? name (pairs.foldl (fun kept p => set p.1 p.2 kept) kept) = (get? name pairs.reverse).or (get? name kept) := by
  induction pairs generalizing kept with
  | nil => simp
  | cons p rest ih =>
      rw [List.foldl_cons, ih, get?_set, List.reverse_cons, get?_append, Option.or_assoc]
      congr 1
      rw [get?_cons]
      split <;> simp

theorem get?_ofPairs (name : String) (pairs : List (String × α)) : get? name (ofPairs pairs) = get? name pairs.reverse := by
  simp [ofPairs, get?_foldl_set]

theorem get?_reverse {pairs : List (String × α)} (h : (pairs.map (·.1)).Nodup) (name : String) :
    get? name pairs.reverse = get? name pairs := by
  induction pairs with
  | nil => rfl
  | cons p rest ih =>
      obtain ⟨hp, hrest⟩ := List.nodup_cons.mp h
      rw [List.reverse_cons, get?_append, ih hrest, get?_cons, get?_cons]
      split
      · rename_i hname
        rw [get?_eq_none.mpr (hname ▸ hp), Option.none_or]
      · simp

theorem names_set (name : String) (value : α) (pairs : List (String × α)) :
    (set name value pairs).map (·.1) =
      if name ∈ pairs.map (·.1) then pairs.map (·.1) else pairs.map (·.1) ++ [name] := by
  induction pairs with
  | nil => simp [set]
  | cons p rest ih =>
      rw [set]
      split
      · rename_i hp
        simp [hp]
      · rename_i hp
        rw [List.map_cons, ih]
        have hname : name ≠ p.1 := fun h => hp h.symm
        simp only [List.map_cons, List.mem_cons, hname, false_or]
        split <;> simp

theorem set_set (name : String) (value later : α) (pairs : List (String × α)) :
    set name later (set name value pairs) = set name later pairs := by
  induction pairs with
  | nil => simp [set]
  | cons p rest ih =>
      by_cases hp : p.1 = name
      · simp [set, hp]
      · simp [set, hp, ih]

theorem set_of_notMem {name : String} {pairs : List (String × α)} (h : name ∉ pairs.map (·.1)) (value : α) :
    set name value pairs = pairs ++ [(name, value)] := by
  induction pairs with
  | nil => rfl
  | cons p rest ih =>
      rw [List.map_cons, List.mem_cons, not_or] at h
      rw [set, if_neg (Ne.symm h.1), ih h.2, List.cons_append]

theorem nodup_set {pairs : List (String × α)} (h : (pairs.map (·.1)).Nodup) (name : String) (value : α) :
    ((set name value pairs).map (·.1)).Nodup := by
  rw [names_set]
  split
  · exact h
  · rename_i hname
    exact List.nodup_append.mpr ⟨h, by simp, fun n hn m hm => by rintro rfl; simp_all⟩

theorem mem_set {p : String × α} {name : String} {value : α} {pairs : List (String × α)}
    (h : p ∈ set name value pairs) : p = (name, value) ∨ p ∈ pairs := by
  induction pairs with
  | nil => exact .inl (by simpa [set] using h)
  | cons q rest ih =>
      rw [set] at h
      split at h
      · rename_i hq
        rcases List.mem_cons.mp h with h | h
        · exact .inl (hq ▸ h)
        · exact .inr (List.mem_cons_of_mem _ h)
      · rcases List.mem_cons.mp h with h | h
        · exact .inr (h ▸ List.mem_cons_self)
        · exact (ih h).imp_right (List.mem_cons_of_mem _)

theorem foldl_set_spec {pairs kept : List (String × α)} (h : (kept.map (·.1)).Nodup) :
    ((pairs.foldl (fun kept p => set p.1 p.2 kept) kept).map (·.1)).Nodup ∧
      ∀ p ∈ pairs.foldl (fun kept p => set p.1 p.2 kept) kept, p ∈ pairs ∨ p ∈ kept := by
  induction pairs generalizing kept with
  | nil => exact ⟨h, fun p hp => .inr hp⟩
  | cons q rest ih =>
      obtain ⟨hnodup, hmem⟩ := ih (nodup_set h q.1 q.2)
      refine ⟨hnodup, fun p hp => ?_⟩
      rcases hmem p hp with hp | hp
      · exact .inl (List.mem_cons_of_mem _ hp)
      · rcases mem_set hp with rfl | hp
        · exact .inl List.mem_cons_self
        · exact .inr hp

theorem nodup_ofPairs (pairs : List (String × α)) : ((ofPairs pairs).map (·.1)).Nodup :=
  (@foldl_set_spec α pairs [] List.nodup_nil).1

theorem mem_of_mem_ofPairs {p : String × α} {pairs : List (String × α)} (h : p ∈ ofPairs pairs) : p ∈ pairs := by
  simpa using (@foldl_set_spec α pairs [] List.nodup_nil).2 p h

end ShapeScribe.Named
