import ShapeScribe.Proofs.Attempt
import ShapeScribe.Proofs.Json.Scalar
import ShapeScribe.Proofs.Named

/-!
What the canonical text of a JSON value tells: the value with the members of its objects in order of name, and its
decimal numbers as far as their own texts tell them apart. Different arranged values never have the same text.
-/

namespace ShapeScribe.Json

theorem induct {P : Json → Prop} (null : P .null) (boolean : ∀ b, P (.boolean b)) (integer : ∀ n, P (.integer n))
    (decimal : ∀ x, P (.decimal x)) (text : ∀ s, P (.text s)) (array : ∀ items, (∀ j ∈ items, P j) → P (.array items))
    (object : ∀ members : List (String × Json), (∀ m ∈ members, P m.2) → P (.object members)) (j : Json) : P j :=
  @Json.rec P (fun items => ∀ j ∈ items, P j) (fun members => ∀ m ∈ members, P m.2) (fun m => P m.2)
    null boolean integer decimal text array object
    (by simp) (fun _ _ hj hrest => List.forall_mem_cons.mpr ⟨hj, hrest⟩)
    (by simp) (fun _ _ hm hrest => List.forall_mem_cons.mpr ⟨hm, hrest⟩)
    (fun _ _ hj => hj) j

mutual

-- The members of every object in order of name, and decimal numbers as `decimal` has them.
def arranged (decimal : Binary64 → Binary64) : Json → Json
  | .decimal x => .decimal (decimal x)
  | .array items => .array (arrangedItems decimal items)
  | .object members => .object (Named.inOrder (arrangedMembers decimal members))
  | scalar => scalar

def arrangedItems (decimal : Binary64 → Binary64) : List Json → List Json
  | [] => []
  | j :: rest => arranged decimal j :: arrangedItems decimal rest

def arrangedMembers (decimal : Binary64 → Binary64) : List (String × Json) → List (String × Json)
  | [] => []
  | (name, j) :: rest => (name, arranged decimal j) :: arrangedMembers decimal rest

end

variable {decimal : Binary64 → Binary64}

theorem arrangedItems_eq_map (items : List Json) : arrangedItems decimal items = items.map (arranged decimal) := by
  induction items with
  | nil => rfl
  | cons j rest ih => simp [arrangedItems, ih]

theorem arrangedMembers_eq_map (members : List (String × Json)) :
    arrangedMembers decimal members = members.map fun m => (m.1, m.2.arranged decimal) := by
  induction members with
  | nil => rfl
  | cons m rest ih => simp [arrangedMembers, ih]

theorem arranged_object (members : List (String × Json)) :
    (Json.object members).arranged decimal =
      .object ((Named.inOrder members).map fun m => (m.1, m.2.arranged decimal)) := by
  rw [arranged, arrangedMembers_eq_map, Named.inOrder_map]

theorem arranged_array_inj {items others : List Json} :
    (Json.array items).arranged decimal = (Json.array others).arranged decimal ↔
      List.Forall₂ (fun i l => i.arranged decimal = l.arranged decimal) items others := by
  rw [arranged, arranged, arrangedItems_eq_map, arrangedItems_eq_map, array.injEq, ← List.forall₂_eq_eq_eq,
    List.forall₂_map_left_iff, List.forall₂_map_right_iff]

theorem arranged_object_inj {members others : List (String × Json)} :
    (Json.object members).arranged decimal = (Json.object others).arranged decimal ↔
      List.Forall₂ (fun m n => m.1 = n.1 ∧ m.2.arranged decimal = n.2.arranged decimal)
        (Named.inOrder members) (Named.inOrder others) := by
  rw [arranged_object, arranged_object, object.injEq, ← List.forall₂_eq_eq_eq, List.forall₂_map_left_iff,
    List.forall₂_map_right_iff]
  simp only [Prod.mk.injEq]

theorem arranged_eq_of_member {members others : List (String × Json)}
    (h : (Json.object members).arranged decimal = (Json.object others).arranged decimal) (name : String) {j k : Json}
    (hj : (name, j) ∈ members) (hsole : ∀ l, (name, l) ∈ others → l = k) :
    j.arranged decimal = k.arranged decimal := by
  obtain ⟨⟨n, l⟩, hl, hname, hsame⟩ :=
    Attempt.exists_result (arranged_object_inj.mp h) (Named.mem_inOrder.mpr hj)
  obtain rfl : name = n := hname
  rw [← hsole l (Named.mem_inOrder.mp hl)]
  exact hsame

theorem writtenItems_eq_map (items : List Json) : writtenItems items = items.map written := by
  induction items with
  | nil => rfl
  | cons j rest ih => simp [writtenItems, ih]

theorem writtenMembers_eq_map (members : List (String × Json)) :
    writtenMembers members = members.map fun m => (m.1, m.2.written) := by
  induction members with
  | nil => rfl
  | cons m rest ih => simp [writtenMembers, ih]

-- A member as it stands in the text of its object.
def memberText (m : String × Json) : List Char := writtenText m.1 ++ ':' :: m.2.written

theorem memberText_append_inj {m n : String × Json} {r s : List Char} (h : memberText m ++ r = memberText n ++ s) :
    m.1 = n.1 ∧ m.2.written ++ r = n.2.written ++ s := by
  simp only [memberText, List.append_assoc, List.cons_append] at h
  obtain ⟨hname, hrest⟩ := writtenText_append_inj h
  exact ⟨hname, (List.cons.inj hrest).2⟩

theorem written_array (items : List Json) :
    (Json.array items).written = '[' :: Token.joined [','] (items.map written) ++ [']'] := by
  rw [written, writtenItems_eq_map]

theorem written_object (members : List (String × Json)) :
    (Json.object members).written = '{' :: Token.joined [','] ((Named.inOrder members).map memberText) ++ ['}'] := by
  rw [written, writtenMembers_eq_map, Named.inOrder_map, List.map_map]
  rfl

theorem itemFaults_eq_map (items : List Json) : itemFaults items = items.map fault? := by
  induction items with
  | nil => rfl
  | cons j rest ih => simp [itemFaults, ih]

theorem memberFaults_eq_map (members : List (String × Json)) :
    memberFaults members = members.map fun m => (m.1, m.2.fault?) := by
  induction members with
  | nil => rfl
  | cons m rest ih => simp [memberFaults, ih]

@[simp] theorem fault?_null : null.fault? = none := rfl

@[simp] theorem fault?_boolean (b : Bool) : (boolean b).fault? = none := rfl

@[simp] theorem fault?_text (s : String) : (text s).fault? = none := rfl

@[simp] theorem fault?_array {items : List Json} : (Json.array items).fault? = none ↔ ∀ j ∈ items, j.fault? = none := by
  simp [fault?, itemFaults_eq_map]

@[simp] theorem fault?_object {members : List (String × Json)} :
    (Json.object members).fault? = none ↔ ∀ m ∈ members, m.2.fault? = none := by
  rw [fault?, memberFaults_eq_map, Named.inOrder_map, List.findSome?_eq_none_iff, List.forall_mem_map]
  simp

theorem lt_tenTo {n digits : Nat} (h : n ≤ digits) : n < tenTo digits :=
  Nat.lt_of_lt_of_le (Nat.lt_pow_self (by decide)) (Nat.pow_le_pow_right (by decide) h)

@[simp] theorem fault?_integer {n : Int} (h : n.natAbs ≤ 4300) : (Json.integer n).fault? = none := by
  simp [fault?, scalarFault, lt_tenTo h]

-- The kinds of values that the first character of a text tells apart.
inductive Form
  | null
  | boolean (b : Bool)
  | number
  | text
  | array
  | object
  deriving DecidableEq

def form : Json → Form
  | .null => .null
  | .boolean b => .boolean b
  | .integer _ | .decimal _ => .number
  | .text _ => .text
  | .array _ => .array
  | .object _ => .object

def formOf (c : Char) : Option Form :=
  if c = 'n' then some .null
  else if c = 't' then some (.boolean true)
  else if c = 'f' then some (.boolean false)
  else if c = '"' then some .text
  else if c = '[' then some .array
  else if c = '{' then some .object
  else if inNumber c then some .number
  else none

theorem formOf_of_inNumber {c : Char} (h : inNumber c = true) : formOf c = some .number := by
  have hne : ∀ d : Char, inNumber d = false → c ≠ d := fun d hd hc => by simp [hc, hd] at h
  simp [formOf, h, hne 'n' (by decide), hne 't' (by decide), hne 'f' (by decide), hne '"' (by decide),
    hne '[' (by decide), hne '{' (by decide)]

theorem head?_of_number {cs : List Char} (hne : cs ≠ []) (h : ∀ c ∈ cs, inNumber c = true) :
    cs.head?.bind formOf = some .number := by
  cases cs with
  | nil => exact absurd rfl hne
  | cons c rest => exact formOf_of_inNumber (h c (by simp))

theorem isFinite_of_fault? {x : Binary64} (h : (Json.decimal x).fault? = none) : x.isFinite = true := by
  simpa [fault?, scalarFault] using h

theorem inNumber_of_mem_written {j : Json} (hj : j.fault? = none) (hform : j.form = .number) :
    ∀ c ∈ j.written, inNumber c = true := by
  cases j with
  | integer n => exact fun c hc => inNumber_of_mem_writtenInteger hc
  | decimal x => exact (decimal_spec (isFinite_of_fault? hj)).1
  | _ => simp [form] at hform

theorem head?_written {j : Json} (hj : j.fault? = none) : j.written.head?.bind formOf = some j.form := by
  cases j with
  | null => decide
  | boolean b => cases b <;> decide
  | integer n => exact head?_of_number (writtenInteger_ne_nil n) (inNumber_of_mem_written hj rfl)
  | decimal x =>
      have hne := (decimal_spec (isFinite_of_fault? hj)).2.ne_nil
      exact head?_of_number hne (inNumber_of_mem_written hj rfl)
  | text s => simp [written, writtenScalar, writtenText, formOf, form]
  | array items => simp [written_array, formOf, form]
  | object members => simp [written_object, formOf, form]

theorem arranged_of_number {j k : Json}
    (hdecimal : ∀ x y : Binary64, x.written numberStyle = y.written numberStyle → decimal x = decimal y)
    (hj : j.fault? = none) (hk : k.fault? = none) (hjform : j.form = .number) (hkform : k.form = .number)
    (h : j.written = k.written) : j.arranged decimal = k.arranged decimal := by
  have hcases : ∀ {l : Json}, l.form = .number → (∃ n, l = .integer n) ∨ ∃ x, l = .decimal x := by
    intro l hl
    cases l with
    | integer n => exact .inl ⟨n, rfl⟩
    | decimal x => exact .inr ⟨x, rfl⟩
    | _ => simp [form] at hl
  rcases hcases hjform with ⟨m, rfl⟩ | ⟨x, rfl⟩ <;> rcases hcases hkform with ⟨n, rfl⟩ | ⟨y, rfl⟩
  · rw [writtenInteger_inj h]
  · have htext : writtenInteger m = (y.written numberStyle).toList := h
    exact absurd (htext ▸ (decimal_spec (isFinite_of_fault? hk)).2) (not_isFractional_writtenInteger m)
  · have htext : (x.written numberStyle).toList = writtenInteger n := h
    exact absurd (htext ▸ (decimal_spec (isFinite_of_fault? hj)).2) (not_isFractional_writtenInteger n)
  · rw [arranged, arranged, hdecimal x y (String.toList_inj.mp h)]

section Sequence

variable {α : Type} {R : α → α → Prop} {text : α → List Char} {close : Char} {xs ys : List α} {r s : List Char}

-- A comma and the closing bracket both end a number. No element begins with the closing bracket, so that an empty
-- sequence is told from any other.
theorem joined_append_inj (hclose : inNumber close = false) (hcomma : close ≠ ',')
    (hxs : ∀ x ∈ xs, ∃ c rest, text x = c :: rest ∧ c ≠ close) (hys : ∀ y ∈ ys, ∃ c rest, text y = c :: rest ∧ c ≠ close)
    (hitem : ∀ x ∈ xs, ∀ y ∈ ys, ∀ r s, EndsNumber r → EndsNumber s → text x ++ r = text y ++ s → R x y ∧ r = s)
    (h : Token.joined [','] (xs.map text) ++ close :: r = Token.joined [','] (ys.map text) ++ close :: s) :
    List.Forall₂ R xs ys ∧ r = s := by
  have hends : ∀ rest, EndsNumber ([','] ++ rest) := by simp [EndsNumber, inNumber]
  have hstop : ∀ rest, EndsNumber (close :: rest) := by simp [EndsNumber, hclose]
  have hsep : ∀ rest, ¬ [','] <+: close :: rest := by simp [hcomma.symm]
  cases xs with
  | nil =>
      cases ys with
      | nil => simpa [Token.joined] using h
      | cons y ys =>
          obtain ⟨c, rest, hy, hc⟩ := hys y (by simp)
          simp [Text.joined_cons, Token.joined, hy, hc.symm] at h
  | cons x xs =>
      cases ys with
      | nil =>
          obtain ⟨c, rest, hx, hc⟩ := hxs x (by simp)
          simp [Text.joined_cons, Token.joined, hx, hc] at h
      | cons y ys =>
          obtain ⟨hall, hrest⟩ := Text.joined_append_inj hends (hstop r) (hstop s) (hsep r) (hsep s) hitem h
          exact ⟨hall, (List.cons.inj hrest).2⟩

end Sequence

theorem exists_written {j : Json} (hj : j.fault? = none) :
    ∃ c rest, j.written = c :: rest ∧ formOf c = some j.form := by
  have hhead := head?_written hj
  cases hw : j.written with
  | nil => simp [hw] at hhead
  | cons c rest => exact ⟨c, rest, rfl, by simpa [hw] using hhead⟩

theorem exists_written_ne {j : Json} (hj : j.fault? = none) {close : Char} (hclose : formOf close = none) :
    ∃ c rest, j.written = c :: rest ∧ c ≠ close := by
  obtain ⟨c, rest, hc, hform⟩ := exists_written hj
  refine ⟨c, rest, hc, ?_⟩
  rintro rfl
  simp [hclose] at hform

theorem form_eq_of_written {j k : Json} (hj : j.fault? = none) (hk : k.fault? = none) {r s : List Char}
    (h : j.written ++ r = k.written ++ s) : j.form = k.form := by
  obtain ⟨c, _, hc, hjform⟩ := exists_written hj
  obtain ⟨d, _, hd, hkform⟩ := exists_written hk
  rw [hc, hd, List.cons_append, List.cons_append, List.cons.injEq] at h
  rw [h.1, hkform] at hjform
  exact (Option.some.inj hjform).symm

-- Where a value ends can be seen from its own text and the character behind it.
theorem written_append_inj
    (hdecimal : ∀ x y : Binary64, x.written numberStyle = y.written numberStyle → decimal x = decimal y)
    {j k : Json} (hj : j.fault? = none) (hk : k.fault? = none) {r s : List Char} (hr : EndsNumber r)
    (hs : EndsNumber s) (h : j.written ++ r = k.written ++ s) : j.arranged decimal = k.arranged decimal ∧ r = s := by
  have hform := form_eq_of_written hj hk h
  induction j using induct generalizing k r s with
  | null =>
      cases k with
      | null => exact ⟨rfl, List.append_cancel_left h⟩
      | _ => simp [form] at hform
  | boolean b =>
      cases k with
      | boolean c =>
          obtain rfl : b = c := by simpa [form] using hform
          exact ⟨rfl, List.append_cancel_left h⟩
      | _ => simp [form] at hform
  | integer n | decimal x =>
      obtain ⟨htext, hrest⟩ :=
        Text.run_append_inj (inNumber_of_mem_written hj rfl) (inNumber_of_mem_written hk hform.symm) hr hs h
      exact ⟨arranged_of_number hdecimal hj hk rfl hform.symm htext, hrest⟩
  | text t =>
      cases k with
      | text u =>
          obtain ⟨rfl, hrest⟩ := writtenText_append_inj h
          exact ⟨rfl, hrest⟩
      | _ => simp [form] at hform
  | array items ih =>
      cases k with
      | array others =>
          have hitems := fault?_array.mp hj
          have hothers := fault?_array.mp hk
          simp only [written_array, List.cons_append, List.append_assoc, List.nil_append, List.cons.injEq,
            true_and] at h
          obtain ⟨hall, hrest⟩ := joined_append_inj (R := fun i l => i.arranged decimal = l.arranged decimal)
            (by decide) (by decide) (fun i hi => exists_written_ne (hitems i hi) (by decide))
            (fun l hl => exists_written_ne (hothers l hl) (by decide))
            (fun i hi l hl r s hr hs h => ih i hi (hitems i hi) (hothers l hl) hr hs h
              (form_eq_of_written (hitems i hi) (hothers l hl) h)) h
          exact ⟨arranged_array_inj.mpr hall, hrest⟩
      | _ => simp [form] at hform
  | object members ih =>
      cases k with
      | object others =>
          have hmembers := fault?_object.mp hj
          have hothers := fault?_object.mp hk
          simp only [written_object, List.cons_append, List.append_assoc, List.nil_append, List.cons.injEq,
            true_and] at h
          obtain ⟨hall, hrest⟩ := joined_append_inj
            (R := fun m n : String × Json => m.1 = n.1 ∧ m.2.arranged decimal = n.2.arranged decimal)
            (by decide) (by decide) (fun m _ => ⟨'"', _, rfl, by decide⟩) (fun n _ => ⟨'"', _, rfl, by decide⟩)
            (fun m hm n hn r s hr hs h => by
              have hmfault := hmembers m (Named.mem_inOrder.mp hm)
              have hnfault := hothers n (Named.mem_inOrder.mp hn)
              obtain ⟨hname, h⟩ := memberText_append_inj h
              obtain ⟨hvalue, hrest⟩ := ih m (Named.mem_inOrder.mp hm) hmfault hnfault hr hs h
                (form_eq_of_written hmfault hnfault h)
              exact ⟨⟨hname, hvalue⟩, hrest⟩) h
          exact ⟨arranged_object_inj.mpr hall, hrest⟩
      | _ => simp [form] at hform

theorem canonical_eq_ok {j : Json} {text : String} :
    j.canonical = .ok text ↔ j.fault? = none ∧ text = String.ofList j.written := by
  unfold canonical
  split
  · simp [*]
  · simp [*, render, eq_comm]

-- The text shows nothing but the arranged value.
theorem written_arranged (j : Json) : (j.arranged id).written = j.written := by
  induction j using induct with
  | array items ih =>
      rw [arranged, arrangedItems_eq_map, written_array, written_array, List.map_map]
      congr 3
      exact List.map_congr_left ih
  | object members ih =>
      rw [arranged_object, written_object, written_object, Named.inOrder_map (fun j : Json => j.arranged id),
        Named.inOrder_inOrder, List.map_map]
      congr 3
      apply List.map_congr_left
      intro m hm
      simp [memberText, ih m (Named.mem_inOrder.mp hm)]
  | _ => simp [arranged]

theorem fault?_arranged (j : Json) : (j.arranged id).fault? = none ↔ j.fault? = none := by
  induction j using induct with
  | array items ih =>
      rw [arranged, arrangedItems_eq_map, fault?_array, fault?_array, List.forall_mem_map]
      exact forall₂_congr ih
  | object members ih =>
      rw [arranged_object, fault?_object, fault?_object, List.forall_mem_map]
      simp only [Named.mem_inOrder]
      exact forall₂_congr ih
  | _ => rfl

theorem canonical_of_arranged {j k : Json} {text : String} (h : j.arranged id = k.arranged id)
    (hj : j.canonical = .ok text) : k.canonical = .ok text := by
  obtain ⟨hfault, rfl⟩ := canonical_eq_ok.mp hj
  refine canonical_eq_ok.mpr ⟨?_, ?_⟩
  · rw [← fault?_arranged, ← h, fault?_arranged, hfault]
  · rw [← written_arranged j, h, written_arranged]

theorem arranged_eq_of_canonical
    (hdecimal : ∀ x y : Binary64, x.written numberStyle = y.written numberStyle → decimal x = decimal y)
    {j k : Json} {text : String} (hj : j.canonical = .ok text) (hk : k.canonical = .ok text) :
    j.arranged decimal = k.arranged decimal := by
  obtain ⟨hjfault, rfl⟩ := canonical_eq_ok.mp hj
  obtain ⟨hkfault, htext⟩ := canonical_eq_ok.mp hk
  have hwritten : j.written ++ [] = k.written ++ [] := congrArg (· ++ []) (String.ofList_injective htext)
  exact (written_append_inj hdecimal hjfault hkfault (by simp [EndsNumber]) (by simp [EndsNumber]) hwritten).1

end ShapeScribe.Json
