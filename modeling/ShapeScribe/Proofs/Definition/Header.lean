import ShapeScribe.Proofs.Attempt
import ShapeScribe.Proofs.TypeName

/-!
What a declaration starts with. Every group of a definition is declared under its own name, and the name can be told
from the declaration, which has a space behind it.
-/

namespace ShapeScribe

open Attempt

namespace Definition

variable {o : Options} {a b base name : String} {samples : List Sample} {gs : List Group} {text : List Char}
  {texts : List (List Char)}

-- The text declares the name: as an interface or as another name of a type.
inductive IsDeclarationOf (name : String) : List Char → Prop
  | interface (rest : List Char) : IsDeclarationOf name ("interface ".toList ++ (name.toList ++ ' ' :: '{' :: rest))
  | synonym (rest : List Char) : IsDeclarationOf name ("type ".toList ++ (name.toList ++ ' ' :: '=' :: rest))

theorem isDeclarationOf_interface (name : String) (body : List Char) :
    IsDeclarationOf name (interfaceOf name.toList body) := by
  unfold interfaceOf
  rw [List.append_assoc, List.append_assoc, List.append_assoc]
  exact .interface (body ++ ['\n', '}'])

theorem isDeclarationOf_group (h : group o name samples = .ok text) : IsDeclarationOf name text := by
  unfold group at h
  split_ifs at h with hempty hobject
  · obtain rfl := pure_eq_ok.mp h
    exact isDeclarationOf_interface name _
  · simp only [synonym, bind_eq_ok, pure_eq_ok] at h
    obtain ⟨shapes, _, rfl⟩ := h
    rw [List.append_assoc, List.append_assoc, List.append_assoc]
    exact .synonym (' ' :: ((Token.unionText .unknown shapes).toList ++ [';']))
  · simp only [bind_eq_ok, pure_eq_ok] at h
    obtain ⟨_, _, fields, _, rfl⟩ := h
    exact isDeclarationOf_interface name _

-- The name ends at the first space.
theorem IsDeclarationOf.name_eq (h : IsDeclarationOf a text) (h' : IsDeclarationOf b text)
    (ha : ∀ c ∈ a.toList, (c != ' ') = true) (hb : ∀ c ∈ b.toList, (c != ' ') = true) : a = b := by
  have hname : ∀ {r s : List Char}, a.toList ++ ' ' :: r = b.toList ++ ' ' :: s → a = b := fun heq =>
    String.toList_inj.mp (Text.run_append_inj ha hb (by simp) (by simp) heq).1
  cases h with
  | interface rest =>
      generalize htext : "interface ".toList ++ (a.toList ++ ' ' :: '{' :: rest) = text at h'
      cases h' with
      | interface _ => exact hname (List.append_cancel_left htext)
      | synonym _ => exact absurd (List.cons.inj htext).1 (by decide)
  | synonym rest =>
      generalize htext : "type ".toList ++ (a.toList ++ ' ' :: '=' :: rest) = text at h'
      cases h' with
      | interface _ => exact absurd (List.cons.inj htext).1 (by decide)
      | synonym _ => exact hname (List.append_cancel_left htext)

theorem groups_eq_ok : groups o base gs = .ok texts ↔
    List.Forall₂ (fun g text => group o (declarationName base g.outcome) g.samples = .ok text) gs texts :=
  walk_eq_ok (groups o base) (fun g => group o (declarationName base g.outcome) g.samples) rfl fun _ _ => rfl

theorem exists_texts {definition : String} (h : declarations o base gs = .ok (some definition)) :
    ∃ texts, groups o base (Group.inOrder gs) = .ok texts ∧
      definition = String.ofList (Token.joined ['\n', '\n'] texts) := by
  unfold declarations at h
  split_ifs at h
  · cases h
  · simp only [bind_eq_ok, pure_eq_ok] at h
    obtain ⟨texts, htexts, heq⟩ := h
    exact ⟨texts, htexts, (Option.some.inj heq).symm⟩

end Definition

-- Among ASCII names exactly the plain ones lead to identifiers, in the type name and in every declaration.
theorem isIdentifier_typeNames (name : String) (hascii : Text.IsAscii name.toList) :
    (FieldName.isIdentifier (typeNameOf name).toList = true ↔ TypeName.IsPlain name.toList) ∧
      (∀ outcome, FieldName.isIdentifier (declarationName (baseTypeName name) outcome).toList = true ↔
        TypeName.IsPlain name.toList) ∧
      ∀ o gs definition, Definition.declarations o (baseTypeName name) gs = .ok (some definition) →
        ∃ texts, definition = String.ofList (Token.joined ['\n', '\n'] texts) ∧
          List.Forall₂ (fun g text => Definition.IsDeclarationOf (declarationName (baseTypeName name) g.outcome) text)
            (Group.inOrder gs) texts ∧
          ∀ text ∈ texts, (∃ declared, FieldName.isIdentifier declared.toList = true ∧
            Definition.IsDeclarationOf declared text) ↔ TypeName.IsPlain name.toList := by
  refine ⟨isIdentifier_typeNameOf hascii, isIdentifier_declarationName hascii, fun o gs definition h => ?_⟩
  obtain ⟨texts, hgroups, hdefinition⟩ := Definition.exists_texts h
  have htexts := (Definition.groups_eq_ok.mp hgroups).imp fun _ _ => Definition.isDeclarationOf_group
  refine ⟨texts, hdefinition, htexts, fun text htext => ?_⟩
  obtain ⟨g, _, hg⟩ := exists_item htexts htext
  rw [← isIdentifier_declarationName hascii g.outcome]
  constructor
  · rintro ⟨declared, hdeclared, hhead⟩
    have hspace := fun c hc => ne_space_of_continuesName ((FieldName.isIdentifier_spec hdeclared).1 c hc)
    rwa [← hhead.name_eq hg hspace (ne_space_of_declarationName hascii g.outcome)]
  · exact fun hdeclared => ⟨_, hdeclared, hg⟩

-- A dot separates no words and stays in the name.
theorem isIdentifier_typeNames_dotted :
    FieldName.isIdentifier (typeNameOf "users.list").toList = false ∧
      (∀ outcome, FieldName.isIdentifier (declarationName (baseTypeName "users.list") outcome).toList = false) ∧
      ∃ text, Definition.declarations {} (baseTypeName "users.list") [⟨.ofStatus (some 200), []⟩] =
          .ok (some (String.ofList text)) ∧
        ¬ ∃ declared, FieldName.isIdentifier declared.toList = true ∧ Definition.IsDeclarationOf declared text := by
  obtain ⟨htype, hnames, htexts⟩ := isIdentifier_typeNames "users.list" (by decide)
  have hdot : ¬ TypeName.IsPlain "users.list".toList := by decide
  have hsingle : ∀ g : Group, Group.inOrder [g] = [g] := fun g => List.mergeSort_singleton g
  have hdefinition : ∀ base, Definition.declarations {} base [⟨.ofStatus (some 200), []⟩] =
      .ok (some (String.ofList (Definition.placeholder (declarationName base (.ofStatus (some 200)))))) := by
    intro base
    unfold Definition.declarations
    rw [hsingle]
    rfl
  refine ⟨?_, fun outcome => ?_, _, hdefinition _, ?_⟩
  · rw [Bool.eq_false_iff, ne_eq, htype]
    exact hdot
  · rw [Bool.eq_false_iff, ne_eq, hnames]
    exact hdot
  · obtain ⟨texts, heq, hheads, hlegal⟩ := htexts {} _ _ (hdefinition _)
    rw [hsingle] at hheads
    obtain ⟨text, _, _, hnil, rfl⟩ := List.forall₂_cons_left_iff.mp hheads
    cases hnil
    rw [String.ofList_inj.mp heq, Token.joined, hlegal text List.mem_cons_self]
    exact hdot

end ShapeScribe
