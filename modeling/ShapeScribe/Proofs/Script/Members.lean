import ShapeScribe.Proofs.Script.Literal
import ShapeScribe.Proofs.Shape.Legible
import ShapeScribe.Proofs.Token.Parts

/-!
Members as a reader of declarations sees them: the name of each, and the records in its type with members of their own.
The reader takes one character after another and refuses all that it does not know. What is written for fields whose
names are on one line is read as these fields.
-/

namespace ShapeScribe.Script

-- The name as code units, and the records that are found in the type.
inductive Member
  | mk (name : List UInt16) (records : List (List Member))

def Member.name : Member → List UInt16
  | .mk name _ => name

def Member.records : Member → List (List Member)
  | .mk _ records => records

-- A member whose type is being read, behind those that are done. The brackets are those still to be closed.
structure Frame where
  done : List Member
  name : List UInt16
  records : List (List Member) := []
  brackets : List Char := []

def Frame.members (f : Frame) : List Member := f.done ++ [.mk f.name f.records]

def Frame.add (f : Frame) (records : List (List Member)) : Frame := { f with records := f.records ++ records }

-- Where the reader is, and the members around it, the innermost first.
inductive State
  | members (done : List Member) (outer : List Frame)
  | identifier (done : List Member) (name : List UInt16) (outer : List Frame)
  | literal (done : List Member) (read : List UInt16 × Phase) (outer : List Frame)
  | named (done : List Member) (name : List UInt16) (outer : List Frame)
  | type (frame : Frame) (outer : List Frame)
  | slash (frame : Frame) (outer : List Frame)
  | comment (frame : Frame) (outer : List Frame)
  | star (frame : Frame) (outer : List Frame)
  | finished (members : List Member)

def endRecord (members : List Member) : List Frame → State
  | [] => .finished members
  | frame :: outer => .type (frame.add [members]) outer

def nameStep (done : List Member) (outer : List Frame) (c : Char) : Option State :=
  if Json.isBlank c then some (.members done outer)
  else if c = '}' then some (endRecord done outer)
  else if c = '"' then some (.literal done ([], .plain) outer)
  else if FieldName.startsName c then some (.identifier done (Text.unitsOf c) outer)
  else none

def colonStep (done : List Member) (name : List UInt16) (outer : List Frame) (c : Char) : Option State :=
  if Json.isBlank c then some (.named done name outer)
  else if c = ':' then some (.type { done, name } outer)
  else none

def closing? : Char → Option Char
  | '(' => some ')'
  | '[' => some ']'
  | '<' => some '>'
  | _ => none

def isClosing (c : Char) : Bool := c == ')' || c == ']' || c == '>'

def isInType (c : Char) : Bool := FieldName.isAsciiLetter c || Json.isBlank c || c == '|' || c == ','

-- A type ends at a separator or at the end of its record, but not between brackets.
def typeStep (frame : Frame) (outer : List Frame) (c : Char) : Option State :=
  match closing? c with
  | some close => some (.type { frame with brackets := close :: frame.brackets } outer)
  | none =>
    if isClosing c then
      match frame.brackets with
      | [] => none
      | close :: brackets => if c = close then some (.type { frame with brackets } outer) else none
    else if c = '{' then some (.members [] (frame :: outer))
    else if (c == ';' || c == ',') && frame.brackets.isEmpty then some (.members frame.members outer)
    else if c == '}' && frame.brackets.isEmpty then some (endRecord frame.members outer)
    else if c = '/' then some (.slash frame outer)
    else if isInType c then some (.type frame outer)
    else none

def step : State → Char → Option State
  | .members done outer, c => nameStep done outer c
  | .identifier done name outer, c =>
    if FieldName.continuesName c then some (.identifier done (name ++ Text.unitsOf c) outer)
    else colonStep done name outer c
  | .literal done read outer, c =>
    match literalStep read c with
    | some (name, .closed) => some (.named done name outer)
    | some read => some (.literal done read outer)
    | none => none
  | .named done name outer, c => colonStep done name outer c
  | .type frame outer, c => typeStep frame outer c
  | .slash frame outer, c => if c = '*' then some (.comment frame outer) else none
  | .comment frame outer, c => some (if c = '*' then .star frame outer else .comment frame outer)
  | .star frame outer, c =>
    some (if c = '/' then .type frame outer else if c = '*' then .star frame outer else .comment frame outer)
  | .finished members, c => if Json.isBlank c then some (.finished members) else none

def run (text : List Char) (state : State) : Option State := text.foldlM step state

-- The name that stands in front of a colon.
def name? (text : List Char) : Option (List UInt16) :=
  match run (text ++ [':']) (.members [] []) with
  | some (.type frame []) => some frame.name
  | _ => none

-- The members in the text from behind an opening bracket up to the closing one.
def members? (text : List Char) : Option (List Member) :=
  match run text (.members [] []) with
  | some (.finished members) => some members
  | _ => none

-- The records in the text of a type.
def records? (text : List Char) : Option (List (List Member)) :=
  match run text (.type { done := [], name := [] } []) with
  | some (.type frame []) => if frame.brackets.isEmpty then some frame.records else none
  | _ => none

@[simp] theorem run_nil (state : State) : run [] state = some state := rfl

theorem run_append (text rest : List Char) (state : State) : run (text ++ rest) state = (run text state).bind (run rest) :=
  List.foldlM_append

theorem run_cons (c : Char) (rest : List Char) (state : State) : run (c :: rest) state = (step state c).bind (run rest) :=
  rfl

theorem run_append_of_eq {text : List Char} {state state' : State} (h : run text state = some state') (rest : List Char) :
    run (text ++ rest) state = run rest state' := by
  rw [run_append, h, Option.bind_some]

section Names

variable {done : List Member} {outer : List Frame} {cs text : List Char} {name : List UInt16}
  {read read' : List UInt16 × Phase}

-- The reader of members reads a literal as the reader of literals does.
theorem run_literal (h : text.foldlM literalStep read = some read') (hopen : read'.2 ≠ .closed) :
    run text (.literal done read outer) = some (.literal done read' outer) := by
  induction text generalizing read with
  | nil =>
      cases h
      rfl
  | cons c text ih =>
      obtain ⟨next, hnext, hrest⟩ := Option.bind_eq_some_iff.mp h
      have hstep : step (.literal done read outer) c = some (.literal done next outer) := by
        obtain ⟨units, phase⟩ := next
        cases phase with
        | closed =>
            cases text with
            | nil =>
                cases hrest
                exact absurd rfl hopen
            | cons d text => cases hrest
        | _ => simp [step, hnext]
      rw [run_cons, hstep, Option.bind_some, ih hrest]

theorem run_identifier (h : ∀ c ∈ cs, FieldName.continuesName c = true) :
    run cs (.identifier done name outer) = some (.identifier done (name ++ cs.flatMap Text.unitsOf) outer) := by
  induction cs generalizing name with
  | nil => simp
  | cons c cs ih =>
      obtain ⟨hc, hcs⟩ := List.forall_mem_cons.mp h
      rw [run_cons, step, if_pos hc, Option.bind_some, ih hcs]
      simp

theorem not_blank_of_startsName {c : Char} (h : FieldName.startsName c = true) :
    Json.isBlank c = false ∧ c ≠ '}' ∧ c ≠ '"' := by
  have hne : ∀ d : Char, FieldName.startsName d = false → c ≠ d := fun d hd hc => by simp [hc, hd] at h
  simp [Json.isBlank, hne ' ' (by decide), hne '\t' (by decide), hne '\n' (by decide), hne '\r' (by decide),
    hne '}' (by decide), hne '"' (by decide)]

theorem run_bare (h : FieldName.isIdentifier cs = true) :
    run cs (.members done outer) = some (.identifier done (cs.flatMap Text.unitsOf) outer) := by
  cases cs with
  | nil => cases h
  | cons c cs =>
      simp only [FieldName.isIdentifier, Bool.and_eq_true, List.all_eq_true] at h
      obtain ⟨hblank, hbracket, hquote⟩ := not_blank_of_startsName h.1
      have hstep : step (.members done outer) c = some (.identifier done (Text.unitsOf c) outer) := by
        simp [step, nameStep, hblank, hbracket, hquote, h.1]
      rw [run_cons, hstep, Option.bind_some, run_identifier h.2]
      rfl

theorem run_quoted (h : OnOneLine cs) :
    run ('"' :: cs.flatMap FieldName.escaped ++ ['"']) (.members done outer) =
      some (.named done (cs.flatMap Text.unitsOf) outer) := by
  have hquote : step (.members done outer) '"' = some (.literal done ([], .plain) outer) := rfl
  rw [List.cons_append, run_cons, hquote, Option.bind_some, run_append_of_eq (run_literal (foldlM_name h) (by simp))]
  rfl

theorem isIdentifier_of_isBare (hbare : FieldName.isBare cs = true) (h : OnOneLine cs) :
    FieldName.isIdentifier cs = true := by
  simp only [FieldName.isBare, Bool.or_eq_true, Bool.and_eq_true, beq_iff_eq] at hbare
  rcases hbare with hidentifier | ⟨hlast, _⟩
  · exact hidentifier
  · have hbreak := h '\n' (List.mem_of_getLast? hlast)
    cases hbreak

-- Whatever is written for a name on one line is read as the name.
theorem run_name (h : OnOneLine cs) (rest : List Char) :
    run (FieldName.written cs ++ ':' :: rest) (.members done outer) =
      run rest (.type { done, name := cs.flatMap Text.unitsOf } outer) := by
  unfold FieldName.written
  split
  · rename_i hbare
    rw [run_append_of_eq (run_bare (isIdentifier_of_isBare hbare h))]
    rfl
  · rw [run_append_of_eq (run_quoted h)]
    rfl

theorem name?_written (h : OnOneLine cs) : name? (FieldName.written cs) = some (cs.flatMap Text.unitsOf) := by
  rw [name?, run_name h]
  rfl

theorem exists_lineBreak (h : ¬ OnOneLine cs) :
    ∃ before c after, cs = before ++ c :: after ∧ OnOneLine before ∧ isLineBreak c = true := by
  induction cs with
  | nil => exact absurd (by simp [OnOneLine]) h
  | cons c cs ih =>
      cases hc : isLineBreak c with
      | true => exact ⟨[], c, cs, rfl, by simp [OnOneLine], hc⟩
      | false =>
          obtain ⟨before, d, after, rfl, hbefore, hd⟩ := ih fun hcs => h (List.forall_mem_cons.mpr ⟨hc, hcs⟩)
          exact ⟨c :: before, d, after, rfl, List.forall_mem_cons.mpr ⟨hc, hbefore⟩, hd⟩

-- No literal goes on behind a line break.
theorem run_broken (h : ¬ OnOneLine cs) (rest : List Char) :
    run ('"' :: cs.flatMap FieldName.escaped ++ rest) (.members done outer) = none := by
  obtain ⟨before, c, after, rfl, hbefore, hc⟩ := exists_lineBreak h
  have hquote : step (.members done outer) '"' = some (.literal done ([], .plain) outer) := rfl
  have hescaped : FieldName.escaped c = [c] := by
    unfold FieldName.escaped
    split
    · rename_i hspecial
      rcases hspecial with rfl | rfl <;> cases hc
    · rfl
  have hbreak : ∀ units, step (.literal done (units, .plain) outer) c = none := by
    intro units
    simp only [isLineBreak, Bool.or_eq_true, beq_iff_eq] at hc
    rcases hc with rfl | rfl <;> rfl
  rw [List.flatMap_append, List.flatMap_cons, hescaped, List.cons_append, run_cons, hquote, Option.bind_some,
    List.append_assoc, run_append_of_eq (run_literal (foldlM_name hbefore) (by simp)), List.cons_append, List.cons_append,
    run_cons, hbreak, Option.bind_none]

-- A name with a line break is written as if it were the name without it, or as what is no literal.
theorem name?_broken (h : ¬ OnOneLine cs) :
    (∃ name, FieldName.isIdentifier name = true ∧ cs = name ++ ['\n'] ∧ FieldName.written cs = cs ∧
      name? cs = some (name.flatMap Text.unitsOf)) ∨ name? (FieldName.written cs) = none := by
  cases hbare : FieldName.isBare cs with
  | true =>
      have hspec := hbare
      simp only [FieldName.isBare, Bool.or_eq_true, Bool.and_eq_true, beq_iff_eq] at hspec
      rcases hspec with hidentifier | ⟨hlast, hidentifier⟩
      · refine absurd (fun c hc => ?_) h
        have hcontinues := (FieldName.isIdentifier_spec hidentifier).1 c hc
        cases hbreak : isLineBreak c with
        | false => rfl
        | true =>
            simp only [isLineBreak, Bool.or_eq_true, beq_iff_eq] at hbreak
            rcases hbreak with rfl | rfl <;> cases hcontinues
      · have hcs : cs = cs.dropLast ++ ['\n'] := (List.dropLast_append_getLast? '\n' hlast).symm
        refine .inl ⟨cs.dropLast, hidentifier, hcs, by simp [FieldName.written, hbare], ?_⟩
        rw [name?, hcs, List.dropLast_concat, List.append_assoc, run_append_of_eq (run_bare hidentifier)]
        rfl
  | false =>
      refine .inr ?_
      have hwritten : FieldName.written cs = '"' :: cs.flatMap FieldName.escaped ++ ['"'] := by
        simp [FieldName.written, hbare]
      rw [name?, hwritten, List.append_assoc, run_broken h]

end Names

@[simp] theorem Frame.add_nil (frame : Frame) : frame.add [] = frame := by
  simp [add]

@[simp] theorem Frame.add_add (frame : Frame) (records others : List (List Member)) :
    (frame.add records).add others = frame.add (records ++ others) := by
  simp [add]

end ShapeScribe.Script

namespace ShapeScribe.Token

open Script

mutual

-- The records with members in the text of a token, as a reader finds them.
def records : Token → List (List Member)
  | .scalar .. => []
  | .array elements => recordsAll elements
  | .record [] => []
  | .record (f :: fs) => [members (f :: fs)]

def recordsAll : List Token → List (List Member)
  | [] => []
  | t :: ts => records t ++ recordsAll ts

def members : List (String × List Token) → List Member
  | [] => []
  | (name, union) :: rest => .mk (Text.units name) (recordsAll union) :: members rest

end

-- The names of all fields, however deep they are, are on one line.
def OnOneLine (t : Token) : Prop :=
  ∀ fields, t.Contains (.record fields) → ∀ f ∈ fields, Script.OnOneLine f.1.toList

variable {t : Token} {ts : List Token} {f : String × List Token} {fs fields : List (String × List Token)}

theorem recordsAll_eq_flatMap (ts : List Token) : recordsAll ts = ts.flatMap records := by
  induction ts with
  | nil => rfl
  | cons t ts ih => simp [recordsAll, ih]

theorem members_eq_map (fields : List (String × List Token)) :
    members fields = fields.map fun f => .mk (Text.units f.1) (f.2.flatMap records) := by
  induction fields with
  | nil => rfl
  | cons f rest ih => simp [members, recordsAll_eq_flatMap, ih]

theorem OnOneLine.element (h : (array ts).OnOneLine) (ht : t ∈ ts) : t.OnOneLine := fun fields hpart =>
  h fields (.element ht hpart)

theorem OnOneLine.field (h : (record fields).OnOneLine) (hf : f ∈ fields) (ht : t ∈ f.2) : t.OnOneLine :=
  fun fields hpart => h fields (.field hf ht hpart)

-- The text of a token leaves the reader of a type where it is, but for the records in it.
def ReadAs (text : List Char) (records : List (List Member)) : Prop :=
  ∀ frame outer, run text (.type frame outer) = some (.type (frame.add records) outer)

theorem readAs_word (h : t ∈ words) : ReadAs t.written t.records := by
  intro frame outer
  simp only [words, List.mem_cons, List.not_mem_nil, or_false] at h
  rcases h with rfl | rfl | rfl | rfl | rfl | rfl | rfl | rfl | rfl
  all_goals
    simp only [records, recordsAll, Frame.add_nil, null, undefined, boolean, number, string, date, circular]
    rfl

theorem ReadAs.records?_eq {text : List Char} {records : List (List Member)} (h : ReadAs text records) :
    records? text = some records := by
  rw [records?, h]
  rfl

theorem ReadAs.append {text rest : List Char} {records others : List (List Member)} (h : ReadAs text records)
    (hrest : ReadAs rest others) : ReadAs (text ++ rest) (records ++ others) := by
  intro frame outer
  rw [run_append_of_eq (h frame outer), hrest, Frame.add_add]

theorem readAs_bar : ReadAs bar [] := by
  intro frame outer
  rw [Frame.add_nil]
  rfl

theorem readAs_brackets : ReadAs ['[', ']'] [] := by
  intro frame outer
  rw [Frame.add_nil]
  rfl

theorem readAs_joined (h : ∀ t ∈ ts, ReadAs t.written t.records) : ReadAs (joined bar (ts.map written)) (recordsAll ts) := by
  induction ts with
  | nil => exact fun frame outer => by simp [joined, recordsAll]
  | cons t rest ih =>
      obtain ⟨ht, hrest⟩ := List.forall_mem_cons.mp h
      cases rest with
      | nil => simpa [joined, recordsAll] using ht
      | cons u us =>
          have hjoined : joined bar ((t :: u :: us).map written) =
              t.written ++ (bar ++ joined bar ((u :: us).map written)) := by
            simp [joined]
          rw [hjoined, recordsAll]
          exact ht.append (readAs_bar.append (ih hrest))

theorem readAs_union (h : ∀ t ∈ ts, ReadAs t.written t.records) :
    ReadAs (writtenUnion (ts.map written)) (recordsAll ts) := by
  cases ts with
  | nil =>
      intro frame outer
      rw [recordsAll, Frame.add_nil]
      rfl
  | cons t ts => exact readAs_joined h

theorem readAs_several {u : Token} (h : ∀ x ∈ t :: u :: ts, ReadAs x.written x.records) :
    ReadAs (array (t :: u :: ts)).written (recordsAll (t :: u :: ts)) := by
  intro frame outer
  have hopen : step (.type frame outer) '(' =
      some (.type { frame with brackets := ')' :: frame.brackets } outer) := rfl
  rw [written_several, run_cons, hopen, Option.bind_some, run_append_of_eq (readAs_joined h _ outer)]
  rfl

-- A field up to the end of its type.
theorem run_fieldText (hname : Script.OnOneLine f.1.toList) (h : ∀ t ∈ f.2, ReadAs t.written t.records)
    (done : List Member) (outer : List Frame) :
    run (fieldText f) (.members done outer) =
      some (.type { done, name := Text.units f.1, records := recordsAll f.2 } outer) := by
  have hblank : ∀ frame : Frame, step (.type frame outer) ' ' = some (.type frame outer) := fun _ => rfl
  rw [fieldText, List.append_assoc, List.cons_append, run_name hname, List.cons_append, List.nil_append, run_cons, hblank,
    Option.bind_some, readAs_union h]
  rfl

-- The induction is on the fields that are left.
theorem run_fields (hnames : ∀ g ∈ f :: fs, Script.OnOneLine g.1.toList)
    (h : ∀ g ∈ f :: fs, ∀ t ∈ g.2, ReadAs t.written t.records) (done : List Member) (outer : List Frame) :
    run (joined [';', ' '] ((f :: fs).map fieldText) ++ [' ', '}']) (.members done outer) =
      some (endRecord (done ++ members (f :: fs)) outer) := by
  induction fs generalizing f done with
  | nil =>
      obtain ⟨hname, _⟩ := List.forall_mem_cons.mp hnames
      obtain ⟨hunion, _⟩ := List.forall_mem_cons.mp h
      rw [List.map_cons, List.map_nil, joined, run_append_of_eq (run_fieldText hname hunion done outer)]
      rfl
  | cons g gs ih =>
      obtain ⟨hname, hnames⟩ := List.forall_mem_cons.mp hnames
      obtain ⟨hunion, h⟩ := List.forall_mem_cons.mp h
      have hjoined : joined [';', ' '] ((f :: g :: gs).map fieldText) ++ [' ', '}'] =
          fieldText f ++ ([';', ' '] ++ (joined [';', ' '] ((g :: gs).map fieldText) ++ [' ', '}'])) := by
        simp [joined]
      have hnext : ∀ name records, run [';', ' '] (.type { done, name, records } outer) =
          some (.members (done ++ [.mk name records]) outer) := fun _ _ => rfl
      rw [hjoined, run_append_of_eq (run_fieldText hname hunion done outer), run_append_of_eq (hnext _ _), ih hnames h]
      simp [members]

theorem readAs_fields (hnames : ∀ g ∈ f :: fs, Script.OnOneLine g.1.toList)
    (h : ∀ g ∈ f :: fs, ∀ t ∈ g.2, ReadAs t.written t.records) :
    ReadAs (record (f :: fs)).written [members (f :: fs)] := by
  intro frame outer
  have hopen : run ['{', ' '] (.type frame outer) = some (.members [] (frame :: outer)) := rfl
  have hwritten : (record (f :: fs)).written =
      ['{', ' '] ++ (joined [';', ' '] ((f :: fs).map fieldText) ++ [' ', '}']) := written_fields f fs
  rw [hwritten, run_append_of_eq hopen, run_fields hnames h]
  rfl

-- The induction is on the token, one case for each form that is written in its own way.
theorem Legible.readAs (h : t.Legible) (hlines : t.OnOneLine) : ReadAs t.written t.records := by
  induction h with
  | word h => exact readAs_word h
  | @array elements _ ih =>
      have hall : ∀ u ∈ elements, ReadAs u.written u.records := fun u hu => ih u hu (hlines.element hu)
      match elements with
      | [] => exact readAs_word (by decide)
      | [u] => simpa [records, recordsAll, written_sole] using (hall u List.mem_cons_self).append readAs_brackets
      | u :: v :: us => exact readAs_several hall
  | @record fields _ _ ih =>
      match fields with
      | [] => exact readAs_word (by decide)
      | f :: fs => exact readAs_fields (hlines _ (.self _)) fun g hg u hu => ih g hg u hu (hlines.field hg hu)

end ShapeScribe.Token

namespace ShapeScribe.Definition

open Script

variable {fields : List (String × List Token)}

-- The members of an interface: its fields in order of name, each with the records of its union.
def membersOf (fields : List (String × List Token)) : List Member :=
  Token.members ((Named.inOrder fields).map fun f => (f.1, Token.normalize f.2))

theorem run_line {f : String × List Token} (hname : Script.OnOneLine f.1.toList)
    (h : ∀ t ∈ f.2, t.Legible ∧ t.OnOneLine) (done : List Member) :
    run (['\n', ' ', ' '] ++ entry f) (.members done []) =
      some (.members (done ++ Token.members [(f.1, Token.normalize f.2)]) []) := by
  have hindent : run ['\n', ' ', ' '] (.members done []) = some (.members done []) := rfl
  have hentry : entry f = Token.fieldText (f.1, Token.normalize f.2) ++ [';'] := by
    simp [entry, Token.fieldText, Token.toList_unionText]
  have hunion : ∀ t ∈ Token.normalize f.2, Token.ReadAs t.written t.records := by
    intro t ht
    obtain ⟨hlegible, hlines⟩ := h t (Token.mem_normalize.mp ht)
    exact hlegible.readAs hlines
  rw [run_append_of_eq hindent, hentry,
    run_append_of_eq (Token.run_fieldText (f := (f.1, Token.normalize f.2)) hname hunion done [])]
  rfl

theorem run_lines (hnames : ∀ f ∈ fields, Script.OnOneLine f.1.toList)
    (h : ∀ f ∈ fields, ∀ t ∈ f.2, t.Legible ∧ t.OnOneLine) (done : List Member) :
    run (fields.flatMap fun f => ['\n', ' ', ' '] ++ entry f) (.members done []) =
      some (.members (done ++ Token.members (fields.map fun f => (f.1, Token.normalize f.2))) []) := by
  induction fields generalizing done with
  | nil => simp [Token.members]
  | cons f rest ih =>
      obtain ⟨hname, hnames⟩ := List.forall_mem_cons.mp hnames
      obtain ⟨hf, hrest⟩ := List.forall_mem_cons.mp h
      rw [List.flatMap_cons, run_append_of_eq (run_line hname hf done), ih hnames hrest]
      simp [Token.members]

-- The members of an interface are read as its fields.
theorem members?_interface (name : String) (hnames : ∀ f ∈ fields, Script.OnOneLine f.1.toList)
    (h : ∀ f ∈ fields, ∀ t ∈ f.2, t.Legible ∧ t.OnOneLine) :
    ∃ body, interfaceText name fields = "interface ".toList ++ name.toList ++ [' ', '{'] ++ body ∧
      members? body = some (membersOf fields) := by
  refine ⟨_, interfaceText_eq name fields, ?_⟩
  have hnames' : ∀ f ∈ Named.inOrder fields, Script.OnOneLine f.1.toList := fun f hf =>
    hnames f (Named.mem_inOrder.mp hf)
  have hlines := run_lines hnames' (fun f hf => h f (Named.mem_inOrder.mp hf)) []
  rw [members?, run_append_of_eq hlines]
  rfl

end ShapeScribe.Definition
