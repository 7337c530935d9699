import ShapeScribe.Proofs.Store.Map

/-!
Saves are all or nothing, also for whoever reads while they go on. A reader takes several looks at the directory, and a
save may be anywhere on its way at each of them; still the reader finds what it would find before the save or after it,
and never the temporary file.
-/

namespace ShapeScribe

open Attempt

namespace Save

-- Names of temporary files end in eight characters that are drawn at random.
def Conditions.IsDrawn (c : Conditions) : Prop :=
  c.suffix.toList.length = 8 ∧ ∀ ch ∈ c.suffix.toList, Slug.keeps ch = true ∨ ch = '_'

instance (c : Conditions) : Decidable c.IsDrawn := @instDecidableAnd _ _ inferInstance (List.decidableBAll _ _)

theorem not_isRecordName_temporaryName {c : Conditions} (h : c.IsDrawn) (name : String) :
    Store.isRecordName (temporaryName c name) = false := by
  rw [Bool.eq_false_iff]
  intro hrecord
  rw [Store.isRecordName, List.isSuffixOf_iff_suffix, temporaryName, String.toList_append] at hrecord
  have hlonger : ".yaml".toList.length ≤ c.suffix.toList.length := by
    rw [h.1]
    decide
  have hsuffix := List.suffix_of_suffix_length_le hrecord (List.suffix_append _ _) hlonger
  have hdot := h.2 '.' (hsuffix.subset (by decide))
  exact absurd hdot (by decide)

end Save

namespace Store

variable {d new looked : Directory} {opened : String → Directory} {name temporary id : String} {now : Moment}
  {names : List String}

-- A load that looks for the file in one state of the directory and opens it in another.
def loadBetween (now : Moment) (id : String) (looked opened : Directory) : Except StoreFault (Option Record) := do
  match ← find id looked with
  | none => return none
  | some _ =>
    match opened.get? (fileName id) with
    | none => return none
    | some entry => return (← read now entry).filter (belongsTo id)

def recordNames (d : Directory) : List String := (recordFiles d).map (·.1)

-- A list that finds the names in one state of the directory and opens each file in a state of its own. A file that is gone
-- by then is left out.
def listBetween (now : Moment) (looked : Directory) (opened : String → Directory) : Except StoreFault (List Record) := do
  let records ← readAll now ((recordNames looked).filterMap fun name => (opened name).get? name)
  return inOrderOfId records

theorem list_eq (now : Moment) (d : Directory) :
    list now d = readAll now ((recordFiles d).map (·.2)) >>= fun records => pure (inOrderOfId records) := rfl

theorem mem_recordNames : name ∈ recordNames d ↔ d.get? name ≠ none ∧ isRecordName name = true := by
  rw [Directory.get?, Ne, Named.get?_eq_none, not_not]
  simp only [recordNames, List.mem_map, mem_recordFiles]
  constructor
  · rintro ⟨p, ⟨hp, hrecord⟩, rfl⟩
    exact ⟨⟨p, hp, rfl⟩, hrecord⟩
  · rintro ⟨⟨p, hp, rfl⟩, hrecord⟩
    exact ⟨p, ⟨hp, hrecord⟩, rfl⟩

theorem recordNames_pairwise (h : d.names.Nodup) : (recordNames d).Pairwise (· < ·) :=
  (Named.inOrder_pairwise_lt h).sublist (List.filter_sublist.map _)

-- Names that rise and leave out no record of a directory lead to its records in order.
theorem filterMap_get? (hnames : names.Pairwise (· < ·)) (h : d.names.Nodup)
    (hmem : ∀ name, d.get? name ≠ none → (name ∈ names ↔ isRecordName name = true)) :
    names.filterMap d.get? = (recordFiles d).map (·.2) := by
  have hpairs : names.filterMap (fun name => (d.get? name).map fun entry => (name, entry)) = recordFiles d := by
    refine Named.eq_of_pairwise_lt ?_ (recordNames_pairwise h) fun p => ?_
    · rw [List.pairwise_map, List.pairwise_filterMap]
      refine hnames.imp fun hlt p hp q hq => ?_
      obtain ⟨_, _, rfl⟩ := Option.map_eq_some_iff.mp hp
      obtain ⟨_, _, rfl⟩ := Option.map_eq_some_iff.mp hq
      exact hlt
    · rw [List.mem_filterMap, mem_recordFiles]
      constructor
      · rintro ⟨name, hname, hp⟩
        obtain ⟨entry, hentry, rfl⟩ := Option.map_eq_some_iff.mp hp
        exact ⟨Named.mem_of_get? hentry, (hmem name (by simp [hentry])).mp hname⟩
      · rintro ⟨hp, hrecord⟩
        have hentry : d.get? p.1 = some p.2 := Named.get?_of_mem hp h
        exact ⟨p.1, (hmem p.1 (by simp [hentry])).mpr hrecord, by simp [hentry]⟩
  rw [← hpairs, List.map_filterMap]
  simp [Function.comp_def]

-- What a load finds, when it finds that there may be a file.
theorem loadBetween_of_fits {opened : Directory} (hfits : Directory.fits (fileName id) = true) :
    loadBetween now id looked opened =
      match looked.get? (fileName id), opened.get? (fileName id) with
      | some _, some entry => read now entry >>= fun found => pure (found.filter (belongsTo id))
      | _, _ => .ok none := by
  rw [loadBetween, find_eq_ok.mpr ⟨hfits, rfl⟩]
  cases looked.get? (fileName id) <;> cases opened.get? (fileName id) <;> rfl

theorem load_eq_loadBetween (now : Moment) (id : String) (d : Directory) : load now id d = loadBetween now id d d := by
  unfold load loadBetween
  cases hfind : find id d with
  | error fault => rfl
  | ok entry =>
      obtain ⟨_, rfl⟩ := find_eq_ok.mp hfind
      cases hentry : d.get? (fileName id) <;> rfl

-- Two looks at a file that is as before or as after: whichever the second one meets with decides, if the first one
-- finds a file at all.
theorem loadBetween_cases {opened : Directory}
    (hlooked : looked.get? (fileName id) = d.get? (fileName id) ∨ looked.get? (fileName id) = new.get? (fileName id))
    (hopened : opened.get? (fileName id) = d.get? (fileName id) ∨ opened.get? (fileName id) = new.get? (fileName id)) :
    loadBetween now id looked opened = load now id d ∨ loadBetween now id looked opened = load now id new := by
  rw [load_eq_loadBetween, load_eq_loadBetween]
  by_cases hfits : Directory.fits (fileName id) = true
  · simp only [loadBetween_of_fits hfits]
    cases hfirst : looked.get? (fileName id) with
    | none =>
        rw [hfirst] at hlooked
        rcases hlooked with hnone | hnone
        · left
          rw [← hnone]
        · right
          rw [← hnone]
    | some _ =>
        rcases hopened with hsame | hsame
        · left
          rw [hsame]
          cases d.get? (fileName id) <;> rfl
        · right
          rw [hsame]
          cases new.get? (fileName id) <;> rfl
  · left
    simp [loadBetween, find, Directory.find, hfits, Except.mapError, bind, Except.bind]

theorem recordNames_eq (hd : d.names.Nodup) (hlooked : looked.names.Nodup) (hsame : d.SameBut temporary looked)
    (htemporary : isRecordName temporary = false) : recordNames looked = recordNames d := by
  have hmem : ∀ name, name ∈ recordNames looked ↔ name ∈ recordNames d := by
    intro name
    rw [mem_recordNames, mem_recordNames]
    by_cases hname : temporary = name
    · simp [← hname, htemporary]
    · rw [hsame name hname]
  have hperm := (List.perm_ext_iff_of_nodup ((recordNames_pairwise hlooked).imp String.ne_of_lt)
    ((recordNames_pairwise hd).imp String.ne_of_lt)).mpr hmem
  exact hperm.eq_of_pairwise (fun a b _ _ hab hba => absurd hba (String.lt_asymm hab)) (recordNames_pairwise hlooked)
    (recordNames_pairwise hd)

theorem listBetween_of_files (h : (recordNames looked).filterMap (fun name => (opened name).get? name) =
    (recordFiles d).map (·.2)) : listBetween now looked opened = list now d := by
  rw [listBetween, list_eq, h]

-- Whatever stands under one name as before or as after, every other record is the same, so that all looks together
-- find one of the two directories.
theorem listBetween_cases (hd : d.names.Nodup) (hnew : new.names.Nodup) (hsame : d.SameBut name new)
    (hkept : d.get? name ≠ none → new.get? name ≠ none)
    (hlooked : recordNames looked = recordNames d ∨ recordNames looked = recordNames new)
    (hopened : ∀ n ∈ recordNames looked, (opened n).get? n = d.get? n ∨ (opened n).get? n = new.get? n) :
    listBetween now looked opened = list now d ∨ listBetween now looked opened = list now new := by
  have hrising : (recordNames looked).Pairwise (· < ·) := by
    rcases hlooked with h | h
    · exact h ▸ recordNames_pairwise hd
    · exact h ▸ recordNames_pairwise hnew
  have hother : ∀ n, name ≠ n → (d.get? n ≠ none ↔ new.get? n ≠ none) := fun n hn => by rw [hsame n hn]
  by_cases hbefore : ∀ n ∈ recordNames looked, (opened n).get? n = d.get? n
  · left
    apply listBetween_of_files
    rw [List.filterMap_congr hbefore]
    refine filterMap_get? hrising hd fun n hn => ?_
    have hlater : new.get? n ≠ none := by
      by_cases hname : name = n
      · exact hname ▸ hkept (hname ▸ hn)
      · exact (hother n hname).mp hn
    rcases hlooked with h | h
    · simp [h, mem_recordNames, hn]
    · simp [h, mem_recordNames, hlater]
  · right
    apply listBetween_of_files
    -- A file that is not as before is the one that differs, and it is among the names.
    obtain ⟨m, hm, hchanged⟩ : ∃ n ∈ recordNames looked, (opened n).get? n ≠ d.get? n := by simpa using hbefore
    have hafter : (opened m).get? m = new.get? m := (hopened m hm).resolve_left hchanged
    obtain rfl : name = m := by
      by_contra hname
      exact hchanged (hafter.trans (hsame m hname))
    have hopened : ∀ n ∈ recordNames looked, (opened n).get? n = new.get? n := by
      intro n hn
      by_cases hname : name = n
      · exact hname ▸ hafter
      · exact (hopened n hn).elim (fun h => h.trans (hsame n hname).symm) id
    rw [List.filterMap_congr hopened]
    refine filterMap_get? hrising hnew fun n hn => ?_
    rcases hlooked with h | h
    · rw [h, mem_recordNames] at hm
      have hearlier : d.get? n ≠ none := by
        by_cases hname : name = n
        · exact hname ▸ hm.1
        · exact (hother n hname).mpr hn
      simp [h, mem_recordNames, hearlier]
    · simp [h, mem_recordNames, hn]

-- Reading in one state is reading without a save in between.
theorem list_eq_listBetween (now : Moment) (h : d.names.Nodup) : list now d = listBetween now d fun _ => d := by
  refine (listBetween_of_files (filterMap_get? (recordNames_pairwise h) h fun name hname => ?_)).symm
  simp [mem_recordNames, hname]

section Save

variable {c : Save.Conditions} {r : Record} {e : Directory}

def temporaryOf (c : Save.Conditions) (r : Record) : String := Save.temporaryName c (fileName r.declaration.routeId)

-- What can be found while a record is saved: a state that the save passes through, with any text, or part of one, in the
-- temporary file.
def Visible (c : Save.Conditions) (r : Record) (d e : Directory) : Prop :=
  e.names.Nodup ∧ ∃ s ∈ d :: (save c r d).seen, s.SameBut (temporaryOf c r) e

theorem nodup_final (h : d.names.Nodup) : (save c r d).final.names.Nodup := by
  rw [ends_save c r d]
  split
  · exact Named.nodup_set h _ _
  · exact h

theorem visible_of_mem (h : d.names.Nodup) (he : e ∈ d :: (save c r d).seen) : Visible c r d e := by
  refine ⟨?_, e, he, fun _ _ => rfl⟩
  rcases List.mem_cons.mp he with rfl | he
  · exact h
  · rcases (sound_save c r d).passes e he with hbeside | hfinal
    · exact hbeside.2 h
    · rw [hfinal]
      exact nodup_final h

-- Apart from the temporary file everything is as before the save, or everything is as after it.
theorem Visible.sameBut (h : Visible c r d e) :
    d.SameBut (temporaryOf c r) e ∨ (save c r d).final.SameBut (temporaryOf c r) e := by
  obtain ⟨_, s, hs, hsame⟩ := h
  rcases List.mem_cons.mp hs with rfl | hs
  · exact .inl hsame
  · rcases (sound_save c r d).passes s hs with hbeside | hfinal
    · exact .inl fun name hname => (hsame name hname).trans (hbeside.1 name hname)
    · rw [hfinal] at hsame
      exact .inr hsame

theorem Visible.get? (h : Visible c r d e) (hname : temporaryOf c r ≠ name) :
    e.get? name = d.get? name ∨ e.get? name = (save c r d).final.get? name :=
  h.sameBut.imp (fun hsame => hsame name hname) fun hsame => hsame name hname

theorem Visible.recordNames_eq (h : Visible c r d e) (hd : d.names.Nodup) (hdrawn : c.IsDrawn) :
    recordNames e = recordNames d ∨ recordNames e = recordNames (save c r d).final := by
  have htemporary := Save.not_isRecordName_temporaryName hdrawn (fileName r.declaration.routeId)
  exact h.sameBut.imp (fun hsame => Store.recordNames_eq hd h.1 hsame htemporary) fun hsame =>
    Store.recordNames_eq (nodup_final hd) h.1 hsame htemporary

theorem get?_final_ne_none (c : Save.Conditions) (h : d.get? (fileName r.declaration.routeId) ≠ none) :
    (save c r d).final.get? (fileName r.declaration.routeId) ≠ none := by
  rw [ends_save c r d]
  split
  · simp [Directory.get?_put]
  · exact h

-- A save is through or leaves no trace, and whoever looks on sees the one or the other.
theorem save_atomic (hnames : d.names.Nodup) (hdrawn : c.IsDrawn) (r : Record) :
    ((save c r d).fault? = none ∧ (save c r d).final = d.put (fileName r.declaration.routeId) (.file r.text) ∨
        (save c r d).fault? ≠ none ∧ (save c r d).final = d) ∧
      (∀ step, c.fault? step ≠ none → (save c r d).fault? ≠ none) ∧
      (∀ e ∈ d :: (save c r d).seen, Visible c r d e) ∧
      (∀ looked, temporaryOf c r ∉ recordNames looked) ∧ (∀ id, fileName id ≠ temporaryOf c r) ∧
      (∀ now id looked opened, Visible c r d looked → Visible c r d opened →
        loadBetween now id looked opened = load now id d ∨
          loadBetween now id looked opened = load now id (save c r d).final) ∧
      ∀ now looked opened, Visible c r d looked → (∀ name, Visible c r d (opened name)) →
        listBetween now looked opened = list now d ∨ listBetween now looked opened = list now (save c r d).final := by
  have htemporary : isRecordName (temporaryOf c r) = false := Save.not_isRecordName_temporaryName hdrawn _
  have hfile : ∀ id, fileName id ≠ temporaryOf c r := fun id => Save.fileName_ne_temporaryName id _
  refine ⟨?_, ?_, fun e he => visible_of_mem hnames he, ?_, hfile, ?_, ?_⟩
  · have hends := ends_save c r d
    by_cases hthrough : (save c r d).fault? = none
    · exact .inl ⟨hthrough, hends.trans (if_pos hthrough)⟩
    · exact .inr ⟨hthrough, hends.trans (if_neg hthrough)⟩
  · intro step hstep hthrough
    exact hstep ((fault?_save_eq_none.mp hthrough).2.1.steps step)
  · intro looked hmem
    simp [mem_recordNames, htemporary] at hmem
  · intro now id looked opened hlooked hopened
    exact loadBetween_cases (hlooked.get? (hfile id).symm) (hopened.get? (hfile id).symm)
  · intro now looked opened hlooked hopened
    have hopened : ∀ n ∈ recordNames looked,
        (opened n).get? n = d.get? n ∨ (opened n).get? n = (save c r d).final.get? n := by
      intro n hn
      refine (hopened n).get? fun hname => ?_
      rw [← hname, mem_recordNames, htemporary] at hn
      exact absurd hn.2 Bool.false_ne_true
    exact listBetween_cases hnames (nodup_final hnames) (sameBut_save c r d) (get?_final_ne_none c)
      (hlooked.recordNames_eq hnames hdrawn) hopened

-- The device gives out when the new text is to be brought to the disk, over an older file of the route.
def fullDevice : Save.Conditions where
  suffix := "k3v9_x0q"
  fault? step := if step = .sync then some .device else none
  early := 7

def staleStore : Directory := ⟨[("notes.yaml", .folder), (fileName "a-b", .file "route_id: a-b\n")]⟩

theorem save_atomic_fullDevice :
    staleStore.names.Nodup ∧ fullDevice.IsDrawn ∧ (save fullDevice returningRecord staleStore).fault? ≠ none ∧
      (save fullDevice returningRecord staleStore).final = staleStore ∧
      ∀ now looked opened, Visible fullDevice returningRecord staleStore looked →
        (∀ name, Visible fullDevice returningRecord staleStore (opened name)) →
        listBetween now looked opened = list now staleStore := by
  have hnames : staleStore.names.Nodup := by decide +kernel
  have hdrawn : fullDevice.IsDrawn := by decide
  obtain ⟨hends, hsteps, _, _, _, _, hlists⟩ := save_atomic hnames hdrawn returningRecord
  have hfault : (save fullDevice returningRecord staleStore).fault? ≠ none := hsteps .sync (by decide)
  have hfinal : (save fullDevice returningRecord staleStore).final = staleStore :=
    (hends.resolve_left fun hthrough => hfault hthrough.1).2
  refine ⟨hnames, hdrawn, hfault, hfinal, fun now looked opened hlooked hopened => ?_⟩
  simpa [hfinal] using hlists now looked opened hlooked hopened

end Save

end Store

end ShapeScribe
