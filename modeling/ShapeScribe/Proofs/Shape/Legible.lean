import ShapeScribe.Proofs.Attempt
import ShapeScribe.Proofs.Named
import ShapeScribe.Proofs.Token.Union

/-!
Shapes are legible, so nothing of them is lost when they are written: unions of the same text have the same tokens, and
interfaces of the same text have the same fields.
-/

namespace ShapeScribe

open Attempt

-- What a walk can say of a value, wherever on its way and whatever the options.
def Token.IsShape (t : Token) : Prop :=
  ∃ (o : Options) (s : Sample) (room : Nat) (path : List Place) (v : Value), s.shapeBelow o room path v = .ok t

theorem Leaf.legible_of_shape {o : Options} {l : Leaf} {t : Token} (h : l.shape o = .ok t) : t.Legible := by
  cases l <;> simp only [shape, Except.ok.injEq, reduceCtorEq] at h
  case text s =>
    subst h
    split
    · exact .word (by decide)
    · exact .word (by decide)
  all_goals
    subst h
    exact .word (by decide)

theorem Sample.legible_of_shapeBelow {o : Options} {s : Sample} {t : Token} {room : Nat} {path : List Place} {v : Value}
    (h : s.shapeBelow o room path v = .ok t) : t.Legible := by
  apply shapeBelow_induct (P := Token.Legible) _ _ _ _ h
  · exact fun _ _ => Leaf.legible_of_shape
  · exact .word (by decide)
  · exact fun ts hts => .array fun t ht => hts t (Token.mem_normalize.mp ht)
  · intro fields hfields
    refine .record (fun f hf => (hfields f hf).imp fun _ => And.left) fun f hf t ht => ?_
    obtain ⟨u, hunion, hu⟩ := hfields f hf
    rw [hunion, List.mem_singleton] at ht
    exact ht ▸ hu

theorem Token.IsShape.legible {t : Token} (h : t.IsShape) : t.Legible := by
  obtain ⟨_, _, _, _, _, hshape⟩ := h
  exact Sample.legible_of_shapeBelow hshape

namespace Definition

-- A field of an interface, from its name to the end of its line.
def entry (f : String × List Token) : List Char :=
  FieldName.written f.1.toList ++ ':' :: ' ' :: ((Token.unionText .unknown f.2).toList ++ [';'])

theorem entry_append_inj {f g : String × List Token} (hf : ∀ t ∈ f.2, t.Legible) (hg : ∀ t ∈ g.2, t.Legible)
    {r s : List Char} (h : entry f ++ r = entry g ++ s) : (f.1 = g.1 ∧ ∀ t, t ∈ f.2 ↔ t ∈ g.2) ∧ r = s := by
  simp only [entry, List.append_assoc, List.cons_append, List.nil_append] at h
  obtain ⟨hname, hunion⟩ := FieldName.written_append_inj h
  have hends : ∀ rest, Token.Ends (';' :: rest) := fun rest => Token.ends_cons rest (by decide)
  obtain ⟨hsame, hrest⟩ := Token.unionText_append_inj hf hg (hends r) (hends s) (by simp [Token.bar])
    (by simp [Token.bar]) (List.cons.inj hunion).2
  exact ⟨⟨String.toList_inj.mp hname, hsame⟩, (List.cons.inj hrest).2⟩

-- What is written as an interface for fields with their unions.
def interfaceText (name : String) (fields : List (String × List Token)) : List Char :=
  interface name (fields.map fun f => (f.1, Token.unionText .unknown f.2))

theorem interfaceText_eq (name : String) (fields : List (String × List Token)) :
    interfaceText name fields = ("interface ".toList ++ name.toList ++ [' ', '\x7b']) ++
      ((Named.inOrder fields).flatMap (fun f => ['\n', ' ', ' '] ++ entry f) ++ ['\n', '\x7d']) := by
  have hlines : (Named.inOrder (fields.map fun f => (f.1, Token.unionText .unknown f.2))).flatMap
      (fun f => line f.1.toList f.2.toList) =
        (Named.inOrder fields).flatMap fun f => ['\n', ' ', ' '] ++ entry f := by
    rw [Named.inOrder_map, List.flatMap_map]
    congr 1
    funext f
    simp [line, entry]
  rw [interfaceText, interface, hlines]
  exact List.append_assoc _ _ _

theorem interfaceText_inj {name : String} {fs gs : List (String × List Token)}
    (hfs : ∀ f ∈ fs, ∀ t ∈ f.2, t.Legible) (hgs : ∀ g ∈ gs, ∀ t ∈ g.2, t.Legible)
    (h : interfaceText name fs = interfaceText name gs) :
    List.Forall₂ (fun f g => f.1 = g.1 ∧ ∀ t, t ∈ f.2 ↔ t ∈ g.2) (Named.inOrder fs) (Named.inOrder gs) := by
  rw [interfaceText_eq, interfaceText_eq, List.append_cancel_left_eq] at h
  exact (Text.rest_append_inj (E := fun _ => True) (fun _ => trivial) trivial trivial (by decide) (by decide)
    (fun f hf g hg r s _ _ hfg => entry_append_inj (hfs f (Named.mem_inOrder.mp hf)) (hgs g (Named.mem_inOrder.mp hg)) hfg)
    h).1

end Definition

-- Equal texts have equal tokens behind them, for unions and for the fields of interfaces, whatever their names.
theorem unions_of_text :
    (∀ ts us : List Token, (∀ t ∈ ts, t.IsShape) → (∀ u ∈ us, u.IsShape) →
      Token.unionText .unknown ts = Token.unionText .unknown us → ∀ t, t ∈ ts ↔ t ∈ us) ∧
    (∀ ts : List Token, (∀ t ∈ ts, t.IsShape) → ((Token.normalize ts).map Token.text).Nodup) ∧
    ∀ (name : String) (fs gs : List (String × List Token)), (∀ f ∈ fs, ∀ t ∈ f.2, t.IsShape) →
      (∀ g ∈ gs, ∀ t ∈ g.2, t.IsShape) →
      Definition.interface name (fs.map fun f => (f.1, Token.unionText .unknown f.2)) =
        Definition.interface name (gs.map fun g => (g.1, Token.unionText .unknown g.2)) →
      (∀ f ∈ fs, ∃ g ∈ gs, f.1 = g.1 ∧ ∀ t, t ∈ f.2 ↔ t ∈ g.2) ∧
        ∀ g ∈ gs, ∃ f ∈ fs, f.1 = g.1 ∧ ∀ t, t ∈ f.2 ↔ t ∈ g.2 := by
  refine ⟨fun ts us hts hus h => ?_, fun ts hts => Token.nodup_texts fun t ht => (hts t ht).legible,
    fun name fs gs hfs hgs h => ?_⟩
  · have hlist : (Token.unionText .unknown ts).toList ++ [] = (Token.unionText .unknown us).toList ++ [] := by rw [h]
    exact (Token.unionText_append_inj (fun t ht => (hts t ht).legible) (fun u hu => (hus u hu).legible) Token.ends_nil
      Token.ends_nil (by decide) (by decide) hlist).1
  · have hall := Definition.interfaceText_inj (fun f hf t ht => (hfs f hf t ht).legible)
      (fun g hg t ht => (hgs g hg t ht).legible) h
    constructor
    · intro f hf
      obtain ⟨g, hg, hfg⟩ := exists_result hall (Named.mem_inOrder.mpr hf)
      exact ⟨g, Named.mem_inOrder.mp hg, hfg⟩
    · intro g hg
      obtain ⟨f, hf, hfg⟩ := exists_item hall (Named.mem_inOrder.mpr hg)
      exact ⟨f, Named.mem_inOrder.mp hf, hfg⟩

-- An object with an array below a name that reads like two fields.
def awkwardSample : Sample :=
  ⟨#[.array false [.leaf .null], .object [(.text "a: string; b", .container 0)]], .container 1⟩

def awkwardTokens : List Token :=
  [.string, .date, .array [], .circular, .record [("a: string; b", [.array [.null]])]]

theorem isShape_awkward : ∀ t ∈ awkwardTokens, t.IsShape := by
  have hsole : Token.normalize [.null] = [.null] := by simp [Token.normalize, List.eraseDups_cons]
  have hempty : Token.normalize [] = [] := by simp [Token.normalize]
  simp only [awkwardTokens, List.forall_mem_cons]
  refine ⟨⟨{}, awkwardSample, 0, [], .leaf (.text ""), rfl⟩, ⟨{}, awkwardSample, 0, [], .leaf (.text "2024-02-29"), rfl⟩,
    ⟨{}, awkwardSample, 1, [], .container 2, ?_⟩, ⟨{}, awkwardSample, 0, [1], .container 1, rfl⟩,
    ⟨{}, awkwardSample, 2, [], .container 1, ?_⟩, by simp⟩
  · rw [← hempty]
    rfl
  · rw [← hsole, ← List.mergeSort_singleton (("a: string; b", _) : String × List Token)]
    rfl

def awkwardFields : List (String × List Token) := [("\"\x7d", [.string, .date]), ("c\n", awkwardTokens)]

def turnedFields : List (String × List Token) :=
  [("c\n", awkwardTokens.reverse), ("\"\x7d", [.date, .string, .string])]

theorem unions_of_turnedFields :
    Token.unionText .unknown awkwardTokens = Token.unionText .unknown awkwardTokens.reverse ∧
      (∀ t, t ∈ awkwardTokens ↔ t ∈ awkwardTokens.reverse) ∧
      ((Token.normalize awkwardTokens).map Token.text).Nodup ∧
      Definition.interface "T" (awkwardFields.map fun f => (f.1, Token.unionText .unknown f.2)) =
        Definition.interface "T" (turnedFields.map fun g => (g.1, Token.unionText .unknown g.2)) ∧
      (∀ f ∈ awkwardFields, ∃ g ∈ turnedFields, f.1 = g.1 ∧ ∀ t, t ∈ f.2 ↔ t ∈ g.2) ∧
      ∀ g ∈ turnedFields, ∃ f ∈ awkwardFields, f.1 = g.1 ∧ ∀ t, t ∈ f.2 ↔ t ∈ g.2 := by
  have hturned : ∀ t ∈ awkwardTokens.reverse, t.IsShape := fun t ht => isShape_awkward t (List.mem_reverse.mp ht)
  have hpair : ∀ t : Token, t = .string ∨ t = .date → t.IsShape := by
    rintro t (rfl | rfl) <;> exact isShape_awkward _ (by decide)
  have hunion : Token.unionText .unknown awkwardTokens = Token.unionText .unknown awkwardTokens.reverse :=
    Token.unionText_congr _ (by simp)
  have hdates : Token.unionText .unknown [.string, .date] = Token.unionText .unknown [.date, .string, .string] :=
    Token.unionText_congr _ (by simp [or_comm])
  have hinterface : Definition.interface "T" (awkwardFields.map fun f => (f.1, Token.unionText .unknown f.2)) =
      Definition.interface "T" (turnedFields.map fun g => (g.1, Token.unionText .unknown g.2)) := by
    rw [Definition.interface, Definition.interface]
    simp only [awkwardFields, turnedFields, List.map_cons, List.map_nil, hunion, hdates]
    rw [Named.inOrder_eq_of_perm (.swap _ _ _) (by decide)]
  obtain ⟨hsets, htexts, hmaps⟩ := unions_of_text
  refine ⟨hunion, hsets _ _ isShape_awkward hturned hunion, htexts _ isShape_awkward, hinterface,
    hmaps "T" awkwardFields turnedFields ?_ ?_ hinterface⟩
  · simp only [awkwardFields, List.forall_mem_cons]
    exact ⟨⟨hpair _ (.inl rfl), hpair _ (.inr rfl), by simp⟩, isShape_awkward, by simp⟩
  · simp only [turnedFields, List.forall_mem_cons]
    exact ⟨hturned, ⟨hpair _ (.inr rfl), hpair _ (.inl rfl), hpair _ (.inl rfl), by simp⟩, by simp⟩

end ShapeScribe
