import ShapeScribe.Proofs.Store.Load
import ShapeScribe.Proofs.Store.Save

/-!
What saves and deletes for one route id do to the others. Files are told apart by slug and hash, and so are ids: those
that share both share a file, and lose their records to one another.
-/

namespace ShapeScribe

open Attempt

namespace Directory

variable {d e : Directory} {name : String}

theorem remove_eq_ok : d.remove name = .ok e ↔
    fits name = true ∧ (∃ text, d.get? name = some (.file text)) ∧ e = d.erase name := by
  simp only [remove, bind_eq_ok, find_eq_ok]
  constructor
  · rintro ⟨entry, ⟨hfits, hentry⟩, h⟩
    split at h
    · cases h
    · cases h
    · exact ⟨hfits, ⟨_, hentry⟩, (pure_eq_ok.mp h).symm⟩
  · rintro ⟨hfits, ⟨text, hentry⟩, rfl⟩
    exact ⟨_, ⟨hfits, hentry⟩, rfl⟩

end Directory

namespace Store

variable {c : Save.Conditions} {d e : Directory} {r : Record} {id other : String} {found : Bool} {now : Moment}

theorem delete_eq_ok : delete id d = .ok (found, e) ↔ Directory.fits (fileName id) = true ∧
    (d.get? (fileName id) = none ∧ found = false ∧ e = d ∨
      (∃ text, d.get? (fileName id) = some (.file text)) ∧ found = true ∧ e = d.erase (fileName id)) := by
  simp only [delete, bind_eq_ok, find_eq_ok]
  constructor
  · rintro ⟨entry, ⟨hfits, hentry⟩, h⟩
    cases entry with
    | none =>
        cases h
        exact ⟨hfits, .inl ⟨hentry, rfl, rfl⟩⟩
    | some entry =>
        obtain ⟨_, hremoved, h⟩ := bind_eq_ok.mp h
        obtain ⟨_, hfile, rfl⟩ := Directory.remove_eq_ok.mp (mapError_eq_ok.mp hremoved)
        cases h
        exact ⟨hfits, .inr ⟨hfile, rfl, rfl⟩⟩
  · rintro ⟨hfits, ⟨hentry, rfl, rfl⟩ | ⟨⟨text, hentry⟩, rfl, rfl⟩⟩
    · exact ⟨none, ⟨hfits, hentry⟩, rfl⟩
    · have hremoved : d.remove (fileName id) = .ok (d.erase (fileName id)) :=
        Directory.remove_eq_ok.mpr ⟨hfits, ⟨text, hentry⟩, rfl⟩
      exact ⟨some (.file text), ⟨hfits, hentry⟩, by simp [hremoved, Except.mapError, pure, Except.pure]⟩

theorem contains_eq_ok : contains id d = .ok found ↔
    Directory.fits (fileName id) = true ∧ (d.get? (fileName id)).isSome = found := by
  simp [contains, find_eq_ok]

-- The stores tell the same about an id.
structure Agree (id : String) (d e : Directory) : Prop where
  load : ∀ now, Store.load now id e = Store.load now id d
  signatureOf : ∀ now, Store.signatureOf now id e = Store.signatureOf now id d
  contains : Store.contains id e = Store.contains id d

theorem agree_of_get? (h : e.get? (fileName id) = d.get? (fileName id)) : Agree id d e where
  load _ := load_congr h
  signatureOf _ := signatureOf_congr h
  contains := contains_congr h

-- No save and no delete for one id, over whatever store, shows in what is told about another.
structure Isolated (id other : String) : Prop where
  save : ∀ c r d, r.declaration.routeId = id → Agree other d (Store.save c r d).final
  delete : ∀ d e found, Store.delete id d = .ok (found, e) → Agree other d e

theorem sameBut_save (c : Save.Conditions) (r : Record) (d : Directory) :
    d.SameBut (fileName r.declaration.routeId) (save c r d).final := by
  rw [ends_save c r d]
  split
  · exact Directory.sameBut_put _ _ d
  · exact fun _ _ => rfl

theorem sameBut_delete (h : delete id d = .ok (found, e)) : d.SameBut (fileName id) e := by
  obtain ⟨_, ⟨_, _, rfl⟩ | ⟨_, _, rfl⟩⟩ := delete_eq_ok.mp h
  · exact fun _ _ => rfl
  · exact Directory.sameBut_erase _ d

theorem isolated_of_fileName_ne (h : fileName id ≠ fileName other) : Isolated id other where
  save c r d hid := agree_of_get? (sameBut_save c r d _ (hid ▸ h))
  delete _ _ _ hdelete := agree_of_get? (sameBut_delete hdelete _ h)

-- Where the file system has no room for the name of the file, nothing is ever done.
theorem isolated_of_not_fits (h : Directory.fits (fileName id) = false) : Isolated id other where
  save c r d hid := by
    apply agree_of_get?
    rw [ends_save c r d, if_neg]
    intro hthrough
    obtain ⟨_, hpermits, _⟩ := fault?_save_eq_none.mp hthrough
    have hfits := Save.fits_of_temporaryName hpermits.fits
    rw [hid, h] at hfits
    cases hfits
  delete _ _ _ hdelete := by
    have hfits := (delete_eq_ok.mp hdelete).1
    rw [h] at hfits
    cases hfits

-- A file that both ids have is there for the other before the delete and not after it.
theorem not_isolated_of_fileName_eq (h : fileName id = fileName other) (hfits : Directory.fits (fileName id) = true) :
    ¬ Isolated id other := by
  intro hisolated
  obtain ⟨d, hfile⟩ : ∃ d : Directory, d.get? (fileName id) = some (.file "") :=
    ⟨Directory.empty.put (fileName id) (.file ""), by rw [Directory.get?_put, if_pos rfl]⟩
  have hdelete : delete id d = .ok (true, d.erase (fileName id)) :=
    delete_eq_ok.mpr ⟨hfits, .inr ⟨⟨"", hfile⟩, rfl, rfl⟩⟩
  have hbefore : contains other d = .ok true := by
    rw [contains_eq_ok, ← h, hfile]
    exact ⟨hfits, rfl⟩
  have hafter : contains other (d.erase (fileName id)) = .ok false := by
    rw [contains_eq_ok, ← h, Directory.get?_erase, if_pos rfl]
    exact ⟨hfits, rfl⟩
  have hsame := (hisolated.delete d _ true hdelete).contains
  rw [hbefore, hafter] at hsame
  cases hsame

-- A record that is saved for one id is not one of the other, and what stood there before is gone.
theorem load_of_fileName_eq (hne : id ≠ other) (h : fileName id = fileName other)
    (hid : r.declaration.routeId = id) (hthrough : (save c r d).fault? = none)
    (hread : Record.ofText now r.text = .ok (some r)) : load now other (save c r d).final = .ok none := by
  have hpermits := (fault?_save_eq_none.mp hthrough).2.1
  have hfits : Directory.fits (fileName other) = true := by
    rw [← h, ← hid]
    exact Save.fits_of_temporaryName hpermits.fits
  have hfile : (save c r d).final.get? (fileName other) = some (.file r.text) := by
    rw [ends_save c r d, if_pos hthrough, Directory.get?_put, hid, h, if_pos rfl]
  have hother : r.declaration.routeId ≠ other := hid ▸ hne
  simp [load, find_eq_ok.mpr ⟨hfits, hfile⟩, read, hread, Except.mapError, belongsTo, hother]

-- Different ids are kept apart by slug and hash, and by nothing else.
theorem isolated_iff (id other : String) :
    (Isolated id other ↔
      slug id ≠ slug other ∨ hashText id ≠ hashText other ∨ Directory.fits (fileName id) = false) ∧
    (id ≠ other ∧ slug id = slug other ∧ hashText id = hashText other → ∀ c r d now,
      r.declaration.routeId = id → (save c r d).fault? = none → Record.ofText now r.text = .ok (some r) →
        load now other (save c r d).final = .ok none) := by
  constructor
  · constructor
    · intro hisolated
      by_contra hshared
      push Not at hshared
      obtain ⟨hslug, hhash, hfits⟩ := hshared
      exact not_isolated_of_fileName_eq (fileName_eq_iff.mpr ⟨hslug, hhash⟩) (by simpa using hfits) hisolated
    · rintro (hslug | hhash | hfits)
      · exact isolated_of_fileName_ne fun h => hslug (fileName_eq_iff.mp h).1
      · exact isolated_of_fileName_ne fun h => hhash (fileName_eq_iff.mp h).2
      · exact isolated_of_not_fits hfits
  · rintro ⟨hne, hshared⟩ c r d now hid hthrough hread
    exact load_of_fileName_eq hne (fileName_eq_iff.mpr hshared) hid hthrough hread

-- Two ids without a letter or digit to keep, and with one hash.
theorem not_isolated_sharedFile : "與怀" ≠ "射鲵" ∧ ¬ Isolated "與怀" "射鲵" := by
  have hslug : slug "與怀" = slug "射鲵" := by decide +kernel
  have hhash : hashText "與怀" = hashText "射鲵" := by decide +kernel
  have hfits : Directory.fits (fileName "與怀") = true := by decide +kernel
  refine ⟨by decide, fun hisolated => ?_⟩
  rcases (isolated_iff "與怀" "射鲵").1.mp hisolated with h | h | h
  · exact h hslug
  · exact h hhash
  · rw [hfits] at h
    cases h

end Store

end ShapeScribe
