import Mathlib.Data.Set.Function
import ShapeScribe.Proofs.Store.Isolation

/-!
The store as a map. Whatever has been done with a store that was empty at first, it answers as the map does that takes
each id to the record saved for it last, as long as no two ids share a file. Only ids with names too long for a file
have no answer.
-/

namespace ShapeScribe

open Attempt

namespace Save.Conditions

instance (c : Conditions) : Decidable (∀ step, c.fault? step = none) :=
  decidable_of_iff
    (c.fault? .create = none ∧ c.fault? .write = none ∧ c.fault? .flush = none ∧ c.fault? .sync = none ∧
      c.fault? .replace = none)
    ⟨fun ⟨hcreate, hwrite, hflush, hsync, hreplace⟩ step => by cases step <;> assumption,
      fun h => ⟨h _, h _, h _, h _, h _⟩⟩

-- No step of the save fails, and there is room for what it writes.
def Admits (c : Conditions) (r : Record) : Prop :=
  (∀ step, c.fault? step = none) ∧ r.isWritable = true ∧
    Directory.fits (temporaryName c (fileName r.declaration.routeId)) = true

instance (c : Conditions) (r : Record) : Decidable (c.Admits r) := inferInstanceAs (Decidable (_ ∧ _ ∧ _))

end Save.Conditions

namespace Store

-- What can be asked of a store. Whatever reads files does so at a moment of its own.
inductive Operation
  | save (c : Save.Conditions) (r : Record)
  | delete (id : String)
  | load (now : Moment) (id : String)
  | contains (id : String)
  | signatureOf (now : Moment) (id : String)
  | list (now : Moment)

inductive Answer
  | saved
  | flag (b : Bool)
  | record (found : Option Record)
  | signature (found : Option String)
  | records (found : List Record)

namespace Operation

-- The id that an operation is about.
def id? : Operation → Option String
  | save _ r => some r.declaration.routeId
  | delete id | load _ id | contains id | signatureOf _ id => some id
  | list _ => none

-- The answer, and the directory as it is then.
def perform : Operation → Directory → Except StoreFault Answer × Directory
  | save c r, d =>
    let run := Store.save c r d
    (match run.fault? with
      | none => .ok .saved
      | some fault => .error fault, run.final)
  | delete id, d =>
    match Store.delete id d with
    | .ok (found, e) => (.ok (.flag found), e)
    | .error fault => (.error fault, d)
  | load now id, d => ((Store.load now id d).map .record, d)
  | contains id, d => ((Store.contains id d).map .flag, d)
  | signatureOf now id, d => ((Store.signatureOf now id d).map .signature, d)
  | list now, d => ((Store.list now d).map .records, d)

end Operation

-- Histories have the latest operation in front.
def after : List Operation → Directory
  | [] => .empty
  | op :: earlier => (op.perform (after earlier)).2

def ids (history : List Operation) : Set String := {id | ∃ op ∈ history, op.id? = some id}

-- The record of the latest save for an id, if no delete of the id came later. A save that fails does not count.
def latest (id : String) : List Operation → Option Record
  | [] => none
  | .save c r :: earlier => if r.declaration.routeId = id ∧ c.Admits r then some r else latest id earlier
  | .delete other :: earlier => if other = id then none else latest id earlier
  | .load .. :: earlier | .contains _ :: earlier | .signatureOf .. :: earlier | .list _ :: earlier => latest id earlier

-- What there is to tell about an id, if the file system has room for the name of its file.
def reach {α : Type} (id : String) (a : α) : Except StoreFault α :=
  if Directory.fits (fileName id) then .ok a else .error (.file .nameTooLong)

-- The answer of a map. A save says whether it went through; a list has every record once, in order of route id.
def Operation.Answered (map : String → Option Record) : Operation → Except StoreFault Answer → Prop
  | save c r, answer => answer = .ok .saved ↔ c.Admits r
  | delete id, answer => answer = reach id (.flag (map id).isSome)
  | load _ id, answer => answer = reach id (.record (map id))
  | contains id, answer => answer = reach id (.flag (map id).isSome)
  | signatureOf _ id, answer => answer = reach id (.signature ((map id).map (·.declaration.signature)))
  | list _, answer => ∃ records, answer = .ok (.records records) ∧
      records.Pairwise (fun r s => r.declaration.routeId < s.declaration.routeId) ∧
      ∀ r, r ∈ records ↔ map r.declaration.routeId = some r

variable {c : Save.Conditions} {d e : Directory} {r : Record} {id name : String} {now : Moment} {entry : Entry}
  {op : Operation} {history earlier : List Operation}

theorem saved_of_latest (h : latest id history = some r) :
    r.declaration.routeId = id ∧ ∃ c, .save c r ∈ history ∧ c.Admits r := by
  fun_induction latest id history with
  | case1 => cases h
  | case2 c s earlier hsaved =>
      obtain rfl := Option.some.inj h
      exact ⟨hsaved.1, c, List.mem_cons_self, hsaved.2⟩
  | case4 => cases h
  | case3 _ _ _ _ ih | case5 _ _ _ ih | case6 _ _ _ ih | case7 _ _ ih | case8 _ _ _ ih | case9 _ _ ih =>
      obtain ⟨hid, c, hmem, hadmits⟩ := ih h
      exact ⟨hid, c, List.mem_cons_of_mem _ hmem, hadmits⟩

theorem mem_ids_of_latest (h : latest id history = some r) : id ∈ ids history := by
  obtain ⟨rfl, c, hmem, _⟩ := saved_of_latest h
  exact ⟨_, hmem, rfl⟩

theorem fits_of_latest (h : latest id history = some r) : Directory.fits (fileName id) = true := by
  obtain ⟨rfl, c, _, hadmits⟩ := saved_of_latest h
  exact Save.fits_of_temporaryName hadmits.2.2

theorem ids_subset_cons (op : Operation) (earlier : List Operation) : ids earlier ⊆ ids (op :: earlier) := by
  rintro id ⟨other, hmem, hid⟩
  exact ⟨other, List.mem_cons_of_mem _ hmem, hid⟩

-- What the files of a store say, as an invariant of histories.
def Mirrors (history : List Operation) (d : Directory) : Prop :=
  ∀ name entry, d.get? name = some entry ↔
    ∃ id r, latest id history = some r ∧ fileName id = name ∧ entry = .file r.text

namespace Mirrors

-- No record has the name of a temporary file, so a save finds its way free.
theorem fault?_save (h : Mirrors earlier d) : (save c r d).fault? = none ↔ c.Admits r := by
  have hfree : d.get? (Save.temporaryName c (fileName r.declaration.routeId)) = none := by
    rw [Option.eq_none_iff_forall_ne_some]
    intro entry hentry
    obtain ⟨id, _, _, hname, _⟩ := (h _ _).mp hentry
    exact Save.fileName_ne_temporaryName _ _ hname
  have hplace : d.get? (fileName r.declaration.routeId) ≠ some .folder := by
    intro hfolder
    obtain ⟨_, _, _, _, hentry⟩ := (h _ _).mp hfolder
    cases hentry
  rw [fault?_save_eq_none]
  constructor
  · rintro ⟨hwritable, hpermits, _⟩
    exact ⟨hpermits.steps, hwritable, hpermits.fits⟩
  · rintro ⟨hsteps, hwritable, hfits⟩
    exact ⟨hwritable, ⟨hsteps, hfits, hfree⟩, hplace⟩

-- One id has a new record, or none any more, in the file that no other id has.
theorem update (new : Option Record) (h : Mirrors earlier d)
    (hfiles : Set.InjOn fileName (insert id (ids earlier)))
    (hget : ∀ name, e.get? name = if fileName id = name then new.map (fun r => .file r.text) else d.get? name)
    (hlatest : ∀ other, latest other history = if id = other then new else latest other earlier) :
    Mirrors history e := by
  intro name entry
  rw [hget]
  constructor
  · intro hentry
    split at hentry
    · rename_i hname
      obtain ⟨r, hnew, hentry⟩ := Option.map_eq_some_iff.mp hentry
      exact ⟨id, r, by rw [hlatest, if_pos rfl, hnew], hname, hentry.symm⟩
    · rename_i hname
      obtain ⟨other, r, hr, hother, rfl⟩ := (h name entry).mp hentry
      refine ⟨other, r, ?_, hother, rfl⟩
      rw [hlatest, if_neg fun hsame => hname ((congrArg fileName hsame).trans hother), hr]
  · rintro ⟨other, r, hr, rfl, rfl⟩
    rw [hlatest] at hr
    split at hr
    · rename_i hsame
      rw [if_pos (congrArg fileName hsame), hr, Option.map_some]
    · rename_i hsame
      have hother := Set.mem_insert_of_mem id (mem_ids_of_latest hr)
      rw [if_neg fun hname => hsame (hfiles (Set.mem_insert id _) hother hname)]
      exact (h _ _).mpr ⟨other, r, hr, rfl, rfl⟩

-- The history may go on in any way that leaves the records alone.
theorem of_latest_eq (h : Mirrors earlier d) (hsame : ∀ id, latest id history = latest id earlier) :
    Mirrors history d := by
  intro name entry
  simp only [h name entry, hsame]

-- A file tells of one id only, so its name tells the record.
theorem get?_fileName (h : Mirrors history d) (hfiles : Set.InjOn fileName (insert id (ids history))) :
    d.get? (fileName id) = (latest id history).map fun r => .file r.text := by
  apply Option.ext
  intro entry
  rw [h, Option.map_eq_some_iff]
  constructor
  · rintro ⟨other, r, hlatest, hname, rfl⟩
    have hother := Set.mem_insert_of_mem id (mem_ids_of_latest hlatest)
    obtain rfl := hfiles hother (Set.mem_insert id _) hname
    exact ⟨r, hlatest, rfl⟩
  · rintro ⟨r, hlatest, rfl⟩
    exact ⟨id, r, hlatest, rfl, rfl⟩

end Mirrors

theorem insert_ids_subset (hid : op.id? = some id) : insert id (ids earlier) ⊆ ids (op :: earlier) := by
  rintro other (rfl | hother)
  · exact ⟨op, List.mem_cons_self, hid⟩
  · exact ids_subset_cons op earlier hother

theorem perform_save (c : Save.Conditions) (r : Record) (d : Directory) :
    Operation.perform (.save c r) d =
      (match (save c r d).fault? with
        | none => .ok .saved
        | some fault => .error fault, (save c r d).final) := by
  simp only [Operation.perform]

theorem perform_delete (id : String) (d : Directory) :
    Operation.perform (.delete id) d =
      match delete id d with
      | .ok (found, e) => (.ok (.flag found), e)
      | .error fault => (.error fault, d) := rfl

theorem saved_iff : (Operation.perform (.save c r) d).1 = .ok .saved ↔ (save c r d).fault? = none := by
  rw [perform_save]
  cases (save c r d).fault? <;> simp

theorem directory_save (c : Save.Conditions) (r : Record) (d : Directory) :
    (Operation.perform (.save c r) d).2 = (save c r d).final := by
  rw [perform_save]

theorem mirrors_save (h : Mirrors earlier d) (hfiles : Set.InjOn fileName (ids (.save c r :: earlier))) :
    Mirrors (.save c r :: earlier) (Operation.perform (.save c r) d).2 := by
  rw [directory_save, ends_save c r d]
  split
  · rename_i hthrough
    have hadmits := h.fault?_save.mp hthrough
    refine h.update (some r) (hfiles.mono (insert_ids_subset rfl)) ?_ ?_
    · exact fun name => Directory.get?_put _ name _ d
    · exact fun other => by simp [latest, hadmits]
  · rename_i hfault
    have hadmits : ¬ c.Admits r := fun hadmits => hfault (h.fault?_save.mpr hadmits)
    exact h.of_latest_eq fun other => by simp [latest, hadmits]

theorem map_reach {α β : Type} (id : String) (a : α) (f : α → β) : (reach id a).map f = reach id (f a) := by
  unfold reach
  split <;> rfl

-- Nothing is told about an id whose file cannot be looked for.
theorem eq_reach {α : Type} {answer : Except StoreFault α} {a : α}
    (hfits : Directory.fits (fileName id) = true → answer = .ok a)
    (hlost : find id d = .error (.file .nameTooLong) → answer = .error (.file .nameTooLong)) : answer = reach id a := by
  unfold reach
  split
  · rename_i h
    exact hfits h
  · rename_i h
    exact hlost (by simp [find, Directory.find, h, Except.mapError])

namespace Mirrors

variable (h : Mirrors history d) (hfiles : Set.InjOn fileName (insert id (ids history)))

include h hfiles

theorem contains_eq : contains id d = reach id (latest id history).isSome := by
  refine eq_reach (d := d) (fun hfits => contains_eq_ok.mpr ⟨hfits, ?_⟩) fun hlost => ?_
  · rw [h.get?_fileName hfiles, Option.isSome_map]
  · simp [contains, hlost, bind, Except.bind]

theorem delete_eq : delete id d =
    reach id ((latest id history).isSome, if (latest id history).isSome then d.erase (fileName id) else d) := by
  refine eq_reach (d := d) (fun hfits => delete_eq_ok.mpr ⟨hfits, ?_⟩) fun hlost => ?_
  · rw [h.get?_fileName hfiles]
    cases latest id history with
    | none => exact .inl ⟨rfl, rfl, rfl⟩
    | some r => exact .inr ⟨⟨r.text, rfl⟩, rfl, rfl⟩
  · simp [delete, hlost, bind, Except.bind]

theorem load_eq (hread : ∀ r, latest id history = some r → Record.ofText now r.text = .ok (some r)) :
    load now id d = reach id (latest id history) := by
  refine eq_reach (d := d) (fun hfits => ?_) fun hlost => ?_
  · rw [load, find_eq_ok.mpr ⟨hfits, h.get?_fileName hfiles⟩]
    cases hlatest : latest id history with
    | none => rfl
    | some r =>
        obtain ⟨hid, _⟩ := saved_of_latest hlatest
        simp [read, hread r hlatest, Except.mapError, belongsTo, hid, bind, Except.bind, pure, Except.pure]
  · simp [load, hlost, bind, Except.bind]

theorem signatureOf_eq (hread : ∀ r, latest id history = some r → Record.ofText now r.text = .ok (some r)) :
    signatureOf now id d = reach id ((latest id history).map (·.declaration.signature)) := by
  rw [signatureOf, h.load_eq hfiles hread]
  unfold reach
  split <;> rfl

end Mirrors

-- A delete takes the record away, if there was one.
theorem mirrors_delete (h : Mirrors earlier d) (hfiles : Set.InjOn fileName (ids (.delete id :: earlier))) :
    Mirrors (.delete id :: earlier) (Operation.perform (.delete id) d).2 := by
  have hfiles := hfiles.mono (insert_ids_subset rfl)
  have hlatest : ∀ other, latest other (.delete id :: earlier) = if id = other then none else latest other earlier :=
    fun other => by rw [latest]
  rw [perform_delete, h.delete_eq hfiles]
  cases hrecord : latest id earlier with
  | none =>
      have hsame : Mirrors (.delete id :: earlier) d := by
        apply h.of_latest_eq
        intro other
        rw [hlatest]
        split
        · rename_i hid
          rw [← hid, hrecord]
        · rfl
      by_cases hfits : Directory.fits (fileName id) = true
      · rw [reach, if_pos hfits]
        exact hsame
      · rw [reach, if_neg hfits]
        exact hsame
  | some r =>
      rw [reach, if_pos (fits_of_latest hrecord)]
      exact h.update none hfiles (fun name => Directory.get?_erase _ name d) hlatest

theorem mirrors_after (hfiles : Set.InjOn fileName (ids history)) : Mirrors history (after history) := by
  induction history with
  | nil =>
      intro name entry
      simp [after, latest, Directory.empty, Directory.get?]
  | cons op earlier ih =>
      have hearlier := ih (hfiles.mono (ids_subset_cons op earlier))
      cases op with
      | save c r =>
          rw [after]
          exact mirrors_save hearlier hfiles
      | delete id =>
          rw [after]
          exact mirrors_delete hearlier hfiles
      | load now id => exact hearlier.of_latest_eq fun _ => rfl
      | contains id => exact hearlier.of_latest_eq fun _ => rfl
      | signatureOf now id => exact hearlier.of_latest_eq fun _ => rfl
      | list now => exact hearlier.of_latest_eq fun _ => rfl

theorem nodup_names_after (history : List Operation) : (after history).names.Nodup := by
  induction history with
  | nil => exact List.nodup_nil
  | cons op earlier ih =>
      cases op with
      | save c r =>
          rw [after, directory_save, ends_save c r]
          split
          · exact Named.nodup_set ih _ _
          · exact ih
      | delete id =>
          rw [after, perform_delete]
          split
          · rename_i found e hdelete
            obtain ⟨_, ⟨_, _, rfl⟩ | ⟨_, _, rfl⟩⟩ := delete_eq_ok.mp hdelete
            · exact ih
            · exact ih.sublist (List.filter_sublist.map _)
          · exact ih
      | load now id => exact ih
      | contains id => exact ih
      | signatureOf now id => exact ih
      | list now => exact ih

theorem readAll_eq_ok {files : List (String × Entry)} {records : List Record}
    (h : List.Forall₂ (fun p r => p.2 = .file r.text ∧ Record.ofText now r.text = .ok (some r)) files records) :
    readAll now (files.map (·.2)) = .ok records := by
  induction h with
  | nil => rfl
  | cons hfile _ ih =>
      obtain ⟨hentry, hread⟩ := hfile
      have hfound : ∀ entry r, entry = Entry.file r.text → Record.ofText now r.text = .ok (some r) →
          read now entry = .ok (some r) := by
        rintro _ r rfl hread
        rw [read, hread]
        rfl
      rw [List.map_cons, readAll, hfound _ _ hentry hread, ih]
      rfl

-- The files that count as records, in order of their names.
def recordFiles (d : Directory) : List (String × Entry) := (Named.inOrder d.entries).filter fun p => isRecordName p.1

def inOrderOfId (records : List Record) : List Record :=
  records.mergeSort fun r s => r.declaration.routeId ≤ s.declaration.routeId

theorem list_of_readAll {records : List Record} (h : readAll now ((recordFiles d).map (·.2)) = .ok records) :
    list now d = .ok (inOrderOfId records) := by
  unfold recordFiles at h
  rw [list, h]
  rfl

theorem mem_recordFiles {p : String × Entry} : p ∈ recordFiles d ↔ p ∈ d.entries ∧ isRecordName p.1 = true := by
  rw [recordFiles, List.mem_filter, Named.mem_inOrder]

theorem nodup_recordFiles (h : d.names.Nodup) : ((recordFiles d).map (·.1)).Nodup := by
  have hordered : ((Named.inOrder d.entries).map (·.1)).Nodup :=
    ((Named.inOrder_perm d.entries).map _).nodup_iff.mpr h
  exact hordered.sublist (List.filter_sublist.map _)

-- Where no id is met twice, each comes before the next.
theorem pairwise_inOrderOfId {records : List Record} (h : (records.map (·.declaration.routeId)).Nodup) :
    (inOrderOfId records).Pairwise fun r s => r.declaration.routeId < s.declaration.routeId := by
  have hle : (inOrderOfId records).Pairwise fun r s => r.declaration.routeId ≤ s.declaration.routeId := by
    refine (List.pairwise_mergeSort (fun r s t hrs hst => ?_) (fun r s => ?_) records).imp fun h => by simpa using h
    · simp only [decide_eq_true_eq] at hrs hst ⊢
      exact String.le_trans hrs hst
    · simpa using String.le_total r.declaration.routeId s.declaration.routeId
  have hperm : (inOrderOfId records).Perm records := List.mergeSort_perm _ _
  have hdistinct := (hperm.map (·.declaration.routeId)).nodup_iff.mpr h
  rw [List.Nodup, List.pairwise_map] at hdistinct
  exact hle.imp₂ (fun _ _ => Named.lt_of_le_of_ne) hdistinct

theorem Mirrors.list_eq (h : Mirrors history d) (hnames : d.names.Nodup)
    (hread : ∀ id r, latest id history = some r → Record.ofText now r.text = .ok (some r)) :
    ∃ records, list now d = .ok records ∧
      records.Pairwise (fun r s => r.declaration.routeId < s.declaration.routeId) ∧
      ∀ r, r ∈ records ↔ latest r.declaration.routeId history = some r := by
  -- Every file that counts has a record of its own.
  obtain ⟨records, hrecords⟩ : ∃ records : List Record, List.Forall₂ (fun p r => p.1 = fileName r.declaration.routeId ∧
      p.2 = .file r.text ∧ latest r.declaration.routeId history = some r) (recordFiles d) records := by
    apply exists_results
    intro p hp
    have hentry := Named.get?_of_mem (mem_recordFiles.mp hp).1 hnames
    obtain ⟨id, r, hlatest, hname, hfile⟩ := (h p.1 p.2).mp hentry
    obtain ⟨rfl, _⟩ := saved_of_latest hlatest
    exact ⟨r, hname.symm, hfile, hlatest⟩
  have hall := readAll_eq_ok (hrecords.imp fun _ _ hr => ⟨hr.2.1, hread _ _ hr.2.2⟩)
  have hnamed : (recordFiles d).map (·.1) = records.map fun r => fileName r.declaration.routeId := by
    rw [← List.forall₂_eq_eq_eq, List.forall₂_map_left_iff, List.forall₂_map_right_iff]
    exact hrecords.imp fun _ _ hr => hr.1
  have hdistinct : ((records.map (·.declaration.routeId)).map fileName).Nodup := by
    rw [List.map_map]
    exact hnamed ▸ nodup_recordFiles hnames
  refine ⟨_, list_of_readAll hall, pairwise_inOrderOfId hdistinct.of_map, fun r => ?_⟩
  rw [inOrderOfId, List.mem_mergeSort]
  constructor
  · intro hr
    obtain ⟨_, _, _, _, hlatest⟩ := exists_item hrecords hr
    exact hlatest
  · intro hlatest
    have hentry := (h _ _).mpr ⟨_, r, hlatest, rfl, rfl⟩
    have hfile := mem_recordFiles.mpr ⟨Named.mem_of_get? hentry, isRecordName_fileName r.declaration.routeId⟩
    obtain ⟨s, hs, _, htext, hother⟩ := exists_result hrecords hfile
    have hsame := hread _ s hother
    rw [← Entry.file.inj htext, hread _ r hlatest] at hsame
    cases hsame
    exact hs

-- At every moment the store answers as the map of the latest records does.
theorem answered_after (hfiles : Set.InjOn fileName (ids (op :: history)))
    (hread : ∀ c r, .save c r ∈ history → c.Admits r → ∀ now, Record.ofText now r.text = .ok (some r)) :
    op.Answered (latest · history) (op.perform (after history)).1 := by
  have h := mirrors_after (hfiles.mono (ids_subset_cons op history))
  have hrecord : ∀ id r, latest id history = some r → ∀ now, Record.ofText now r.text = .ok (some r) := by
    intro id r hlatest
    obtain ⟨_, c, hsaved, hadmits⟩ := saved_of_latest hlatest
    exact hread c r hsaved hadmits
  have hfiles : ∀ id, op.id? = some id → Set.InjOn fileName (insert id (ids history)) := fun id hid =>
    hfiles.mono (insert_ids_subset hid)
  cases op with
  | save c r => exact saved_iff.trans h.fault?_save
  | delete id =>
      rw [Operation.Answered, Operation.perform, h.delete_eq (hfiles id rfl)]
      unfold reach
      cases Directory.fits (fileName id) <;> rfl
  | load now id =>
      rw [Operation.Answered, Operation.perform, h.load_eq (hfiles id rfl) fun r hr => hrecord id r hr now, map_reach]
  | contains id => rw [Operation.Answered, Operation.perform, h.contains_eq (hfiles id rfl), map_reach]
  | signatureOf now id =>
      rw [Operation.Answered, Operation.perform, h.signatureOf_eq (hfiles id rfl) fun r hr => hrecord id r hr now, map_reach]
  | list now =>
      obtain ⟨records, hlist, hordered, hmem⟩ :=
        h.list_eq (nodup_names_after history) fun id r hr => hrecord id r hr now
      rw [Operation.Answered, Operation.perform, hlist]
      exact ⟨records, rfl, hordered, hmem⟩

-- A record that is saved, deleted and saved again, and another id with the same slug.
def returningRecord : Record where
  declaration := {
    routeId := "a-b"
    routeName := "n"
    typeName := "t"
    typeDefinition := "d"
    sampleCount := 1
    signature := "s" }
  updated := .midnight ⟨2024, 1, 1⟩

def returningHistory : List Operation :=
  [.delete "a/b", .save { suffix := "1" } returningRecord, .delete "a-b", .save { suffix := "0" } returningRecord]

theorem read_returning : (Record.ofText (.midnight ⟨1, 1, 1⟩) returningRecord.text).toOption = some (some returningRecord) := by
  rw [Record.ofText, Record.text, Yaml.members?_ofList]
  decide +kernel

theorem readable_returning (now : Moment) : Record.ofText now returningRecord.text = .ok (some returningRecord) :=
  Record.ofText_of_ne (toOption_eq_some.mp read_returning) (show returningRecord.updated ≠ _ by decide)

theorem injOn_returning : Set.InjOn fileName (ids (.load returningRecord.updated "a-b" :: returningHistory)) := by
  have hdistinct : fileName "a/b" ≠ fileName "a-b" := by decide +kernel
  have hids : ∀ id ∈ ids (.load returningRecord.updated "a-b" :: returningHistory), id = "a/b" ∨ id = "a-b" := by
    rintro id ⟨op, hop, hid⟩
    simp only [returningHistory, List.mem_cons, List.not_mem_nil, or_false] at hop
    rcases hop with rfl | rfl | rfl | rfl | rfl <;> cases hid <;> simp [returningRecord]
  intro id hid other hother hsame
  rcases hids id hid with rfl | rfl <;> rcases hids other hother with rfl | rfl
  · rfl
  · exact absurd hsame hdistinct
  · exact absurd hsame.symm hdistinct
  · rfl

theorem answered_after_returning :
    Set.InjOn fileName (ids (.load returningRecord.updated "a-b" :: returningHistory)) ∧
      (∀ c r, .save c r ∈ returningHistory → c.Admits r → ∀ now, Record.ofText now r.text = .ok (some r)) ∧
      (Operation.load returningRecord.updated "a-b").Answered (latest · returningHistory)
        (Operation.perform (.load returningRecord.updated "a-b") (after returningHistory)).1 := by
  have hread : ∀ c r, .save c r ∈ returningHistory → c.Admits r → ∀ now, Record.ofText now r.text = .ok (some r) := by
    intro c r hsaved _ now
    simp only [returningHistory, List.mem_cons, List.not_mem_nil, or_false, reduceCtorEq, false_or] at hsaved
    rcases hsaved with hsaved | hsaved <;> cases hsaved <;> exact readable_returning now
  exact ⟨injOn_returning, hread, answered_after injOn_returning hread⟩

end Store

end ShapeScribe
