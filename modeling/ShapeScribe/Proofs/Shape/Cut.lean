import ShapeScribe.Proofs.Attempt
import ShapeScribe.Proofs.Sample.Position
import ShapeScribe.Proofs.Sample.Renaming

/-!
Sampling arrays by their first elements is cutting them. A sample of which only so many elements of every array are
looked at is read as the sample without the other elements is read in full: it has the same shape, or none for the same
reason.
-/

namespace ShapeScribe

open Attempt Relation

namespace Options

variable {α : Type} {limit : Int} {xs kept : List α}

-- The options with a look at the first elements only, and those with a look at all of them.
def firstOnly (o : Options) (limit : Int) : Options :=
  { o with analyzeAllArrayElements := false, maxArraySamples := limit }

def complete (o : Options) : Options := { o with analyzeAllArrayElements := true }

-- The elements up to a limit; a negative limit counts from the end.
structure Slice (limit : Int) (xs kept : List α) : Prop where
  isPrefix : kept <+: xs
  length : (kept.length : Int) = if 0 ≤ limit then min limit xs.length else max 0 (xs.length + limit)

theorem takeSigned_isPrefix (limit : Int) (xs : List α) : takeSigned limit xs <+: xs := by
  unfold takeSigned
  split <;> exact List.take_prefix _ _

theorem slice_iff : Slice limit xs kept ↔ kept = takeSigned limit xs := by
  have hlength : ((takeSigned limit xs).length : Int) =
      if 0 ≤ limit then min limit xs.length else max 0 (xs.length + limit) := by
    unfold takeSigned
    split <;> rw [List.length_take] <;> omega
  constructor
  · intro h
    have hsame : kept.length = (takeSigned limit xs).length := by
      have := h.length
      omega
    rw [List.prefix_iff_eq_take.mp h.isPrefix, List.prefix_iff_eq_take.mp (takeSigned_isPrefix limit xs), hsame]
  · rintro rfl
    exact ⟨takeSigned_isPrefix limit xs, hlength⟩

theorem takeSigned_of_length_le (h : (xs.length : Int) ≤ limit) : takeSigned limit xs = xs := by
  rw [takeSigned, if_pos (by omega), List.take_of_length_le (by omega)]

theorem sampled_firstOnly (o : Options) (limit : Int) (xs : List α) :
    (o.firstOnly limit).sampled xs = takeSigned limit xs := rfl

theorem sampled_complete (o : Options) (xs : List α) : o.complete.sampled xs = xs := rfl

end Options

-- The second container is the first one, cut if it is an array, where the relation says which places stand for which.
inductive Container.CutTo (limit : Int) (R : Place → Place → Prop) : Container → Container → Prop
  | array {fixed fixed' : Bool} {items kept others : List Value} (hkept : Options.Slice limit items kept)
    (h : List.Forall₂ (Value.Alike R) kept others) : CutTo limit R (.array fixed items) (.array fixed' others)
  | object {members others : List (Key × Value)}
    (h : List.Forall₂ (fun m n => m.1 = n.1 ∧ m.2.Alike R n.2) members others) :
    CutTo limit R (.object members) (.object others)

def Container.HoldsAtMost (limit : Int) : Container → Prop
  | .array _ items => items.length ≤ limit
  | .object _ => True

instance (limit : Int) : (c : Container) → Decidable (c.HoldsAtMost limit)
  | .array _ items => inferInstanceAs (Decidable ((items.length : Int) ≤ limit))
  | .object _ => inferInstanceAs (Decidable True)

def Container.cut (limit : Int) : Container → Container
  | .array fixed items => .array fixed (Options.takeSigned limit items)
  | .object members => .object members

namespace Sample

variable {R : Place → Place → Prop} {s s' : Sample} {o : Options} {limit : Int} {shapeOf shapeOf' : Value → Except Fault Token}

-- The second sample is the first one with every array cut. Where its containers lie and which of them are shared does not
-- matter.
def IsCut (limit : Int) (s s' : Sample) : Prop :=
  ∃ R : Place → Place → Prop, s.root.Alike R s'.root ∧ ∀ p q, R p q → (s.contents p).CutTo limit R (s'.contents q)

def cut (limit : Int) (s : Sample) : Sample := ⟨s.containers.map (Container.cut limit), s.root⟩

-- No array within reach has more elements.
def HoldsAtMost (limit : Int) (s : Sample) : Prop := ∀ p, s.Reaches p → (s.contents p).HoldsAtMost limit

theorem itemShapes_congr {items others : List Value} (h : List.Forall₂ (fun v w => shapeOf v = shapeOf' w) items others) :
    itemShapes shapeOf items = itemShapes shapeOf' others := by
  induction h with
  | nil => rfl
  | cons hvw _ ih => simp only [itemShapes, hvw, ih]

theorem memberShapes_congr {members others : List (Key × Value)}
    (h : List.Forall₂ (fun m n => m.1 = n.1 ∧ shapeOf m.2 = shapeOf' n.2) members others) :
    memberShapes shapeOf members = memberShapes shapeOf' others := by
  induction h with
  | nil => rfl
  | @cons m n _ _ hmn _ ih =>
      obtain ⟨key, v⟩ := m
      obtain ⟨key', w⟩ := n
      obtain ⟨rfl, hvalue⟩ := hmn
      cases key <;> simp only [memberShapes, hvalue, ih]

-- One level of the two walks: they look at the same elements.
theorem containerShape_cutTo {c d : Container} (h : c.CutTo limit R d)
    (hvalues : ∀ v ∈ c.values, ∀ w ∈ d.values, v.Alike R w → shapeOf v = shapeOf' w) :
    containerShape (o.firstOnly limit) shapeOf c = containerShape o.complete shapeOf' d := by
  cases h with
  | array hkept h =>
      obtain rfl := Options.slice_iff.mp hkept
      have hitems := forall₂_of_mem h fun v hv w hw => hvalues v ((Options.takeSigned_isPrefix _ _).subset hv) w hw
      simp only [containerShape, Options.sampled_firstOnly, Options.sampled_complete, itemShapes_congr hitems]
  | object h =>
      have hmembers := forall₂_of_mem h fun m hm n hn hmn =>
        And.intro hmn.1 (hvalues m.2 (List.mem_map_of_mem hm) n.2 (List.mem_map_of_mem hn) hmn.2)
      simp only [containerShape, memberShapes_congr hmembers]

-- The induction is on the room that is left. Neither walk ever comes to a container of its own path.
theorem shapeBelow_cutTo (hs : s.Acyclic) (hs' : s'.Acyclic)
    (hcontents : ∀ p q, R p q → (s.contents p).CutTo limit R (s'.contents q)) {room : Nat} {path path' : List Place}
    {v w : Value} (hv : s.MeetsBelow path v) (hw : s'.MeetsBelow path' w) (hvw : v.Alike R w) :
    s.shapeBelow (o.firstOnly limit) room path v = s'.shapeBelow o.complete room path' w := by
  induction room generalizing path path' v w with
  | zero =>
      cases hvw with
      | leaf l => rfl
      | container h =>
          simp only [shapeBelow, hv.notMem hs, hw.notMem hs', if_false]
          rfl
  | succ room ih =>
      cases hvw with
      | leaf l => rfl
      | container h =>
          simp only [shapeBelow, hv.notMem hs, hw.notMem hs', if_false]
          exact containerShape_cutTo (hcontents _ _ h) fun x hx y hy hxy => ih (hv.step hx) (hw.step hy) hxy

theorem shape_eq_of_isCut (hs : s.Acyclic) (hs' : s'.Acyclic) (h : s.IsCut limit s') (o : Options) :
    s.shape (o.firstOnly limit) = s'.shape o.complete := by
  obtain ⟨R, hroot, hcontents⟩ := h
  exact shapeBelow_cutTo hs hs' hcontents s.meetsBelow_root s'.meetsBelow_root hroot

theorem alike_refl {v : Value} (h : ∀ p, v = .container p → R p p) : v.Alike R v := by
  cases v with
  | leaf l => exact .leaf l
  | container p => exact .container (h p rfl)

-- Every place stands for itself when the values in a container do.
theorem cutTo_self {c d : Container} (hvalues : ∀ v ∈ c.values, v.Alike R v) (h : d = c.cut limit) : c.CutTo limit R d := by
  subst h
  cases c with
  | array fixed items =>
      refine .array (Options.slice_iff.mpr rfl) (List.forall₂_same.mpr fun v hv => hvalues v ?_)
      exact (Options.takeSigned_isPrefix _ _).subset hv
  | object members =>
      exact .object (List.forall₂_same.mpr fun m hm => ⟨rfl, hvalues m.2 (List.mem_map_of_mem hm)⟩)

theorem contents_cut (limit : Int) (s : Sample) (p : Place) : (s.cut limit).contents p = (s.contents p).cut limit := by
  by_cases hp : p < s.containers.size
  · simp [cut, contents, Array.getD, hp]
  · simp [cut, contents, Array.getD, hp, Container.cut, Options.takeSigned]

theorem isCut_cut (limit : Int) (s : Sample) : s.IsCut limit (s.cut limit) := by
  refine ⟨Eq, alike_refl fun _ _ => rfl, ?_⟩
  rintro p _ rfl
  exact cutTo_self (fun v _ => alike_refl fun _ _ => rfl) (contents_cut limit s p)

theorem encloses_of_cut {p q : Place} (h : (s.cut limit).Encloses p q) : s.Encloses p q := by
  unfold Encloses at h ⊢
  rw [contents_cut] at h
  cases hc : s.contents p with
  | array fixed items =>
      rw [hc] at h
      exact (Options.takeSigned_isPrefix _ _).subset h
  | object members => rwa [hc] at h

theorem Acyclic.cut (hs : s.Acyclic) (limit : Int) : (s.cut limit).Acyclic := by
  have hbelow : (s.cut limit).Encloses ≤ s.Encloses := fun _ _ => encloses_of_cut
  rintro p ⟨root, hroot, hpath⟩ hcycle
  exact hs p ⟨root, hroot, ReflTransGen.mono hbelow _ _ hpath⟩ (TransGen.mono hbelow _ _ hcycle)

-- Where no array is longer than the limit, nothing is cut.
theorem isCut_self (h : s.HoldsAtMost limit) : s.IsCut limit s := by
  refine ⟨fun p q => p = q ∧ s.Reaches p, alike_refl fun p hp => ⟨rfl, p, hp, .refl⟩, ?_⟩
  rintro p _ ⟨rfl, hp⟩
  refine cutTo_self (fun v hv => alike_refl ?_) ?_
  · rintro q rfl
    obtain ⟨root, hroot, hpath⟩ := hp
    exact ⟨rfl, root, hroot, hpath.tail hv⟩
  · have hshort := h p hp
    cases hc : s.contents p with
    | array fixed items =>
        rw [hc] at hshort
        rw [Container.cut, Options.takeSigned_of_length_le hshort]
    | object members => rfl

theorem holdsAtMost_of_containers (hlimit : 0 ≤ limit) (h : ∀ c ∈ s.containers.toList, c.HoldsAtMost limit) :
    s.HoldsAtMost limit := by
  intro p _
  rcases s.contents_eq_or p with hp | ⟨_, hp⟩
  · simpa [hp, Container.HoldsAtMost] using hlimit
  · exact h _ hp.val

-- Looking at the first elements of every array is looking at all of a sample in which every array is cut there.
theorem shape_firstOnly (hs : s.Acyclic) (limit : Int) (o : Options) :
    s.IsCut limit (s.cut limit) ∧ (s.cut limit).Acyclic ∧
      (∀ s', s'.Acyclic → s.IsCut limit s' → s.shape (o.firstOnly limit) = s'.shape o.complete) ∧
      (s.HoldsAtMost limit → s.shape (o.firstOnly limit) = s.shape o.complete) := by
  refine ⟨isCut_cut limit s, hs.cut limit, fun s' hs' h => shape_eq_of_isCut hs hs' h o, fun h => ?_⟩
  exact shape_eq_of_isCut hs hs (isCut_self h) o

-- One row in two roles, and behind them an element that no shape can be given to.
def stackedRows : Sample :=
  ⟨#[.array true [.leaf (.integer 1), .leaf (.text "x")],
    .array false [.container 0, .container 0, .leaf (.foreign (.bytes []))]], .container 1⟩

-- The rows without their last elements, each in a place of its own.
def cutRows : Sample :=
  ⟨#[.array false [.leaf (.integer 1)], .array false [.leaf (.integer 1)], .array false [.container 0, .container 1]],
    .container 2⟩

theorem shape_firstOnly_stackedRows :
    stackedRows.Acyclic ∧ cutRows.Acyclic ∧ stackedRows.IsCut (-1) cutRows ∧ cutRows.HoldsAtMost 2 ∧
      stackedRows.shape (Options.firstOnly {} (-1)) = cutRows.shape (Options.complete {}) ∧
      cutRows.shape (Options.firstOnly {} 2) = cutRows.shape (Options.complete {}) := by
  have hplaces : ∀ s ∈ [stackedRows, cutRows], ∀ p < s.containers.size, ∀ v ∈ (s.contents p).values, v.IsBefore p := by
    decide
  have hrows : stackedRows.Acyclic := acyclic_of_isBefore (hplaces _ (by simp))
  have hcut : cutRows.Acyclic := acyclic_of_isBefore (hplaces _ (by simp))
  have hleaf : Value.Alike (fun p q => (p, q) ∈ [(0, 0), (0, 1), (1, 2)]) (.leaf (.integer 1)) (.leaf (.integer 1)) :=
    .leaf _
  have hcutTo : stackedRows.IsCut (-1) cutRows := by
    refine ⟨fun p q => (p, q) ∈ [(0, 0), (0, 1), (1, 2)], .container (by simp), fun p q hpq => ?_⟩
    simp only [List.mem_cons, Prod.mk.injEq, List.not_mem_nil, or_false] at hpq
    rcases hpq with ⟨rfl, rfl⟩ | ⟨rfl, rfl⟩ | ⟨rfl, rfl⟩
    · exact .array (Options.slice_iff.mpr rfl) (.cons hleaf .nil)
    · exact .array (Options.slice_iff.mpr rfl) (.cons hleaf .nil)
    · exact .array (Options.slice_iff.mpr rfl) (.cons (.container (by simp)) (.cons (.container (by simp)) .nil))
  have hshort : cutRows.HoldsAtMost 2 := holdsAtMost_of_containers (by decide) (by decide)
  exact ⟨hrows, hcut, hcutTo, hshort, (shape_firstOnly hrows (-1) {}).2.2.1 _ hcut hcutTo,
    (shape_firstOnly hcut 2 {}).2.2.2 hshort⟩

end Sample

end ShapeScribe
