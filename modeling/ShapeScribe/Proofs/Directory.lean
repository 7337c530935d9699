import ShapeScribe.Directory
import ShapeScribe.Proofs.Attempt
import ShapeScribe.Proofs.Named

/-!
When an operation on a directory goes through, and what then stands under each name.
-/

namespace ShapeScribe

open Attempt

namespace Directory

variable {d e : Directory} {name other : String}

theorem get?_put (name other : String) (entry : Entry) (d : Directory) :
    (d.put name entry).get? other = if name = other then some entry else d.get? other :=
  Named.get?_set name other entry d.entries

theorem get?_erase (name other : String) (d : Directory) :
    (d.erase name).get? other = if name = other then none else d.get? other := by
  simp only [erase, get?]
  induction d.entries with
  | nil => simp
  | cons p rest ih =>
      rw [List.filter_cons]
      grind [Named.get?_cons]

theorem find_eq_ok {entry : Option Entry} : d.find name = .ok entry ↔ fits name = true ∧ d.get? name = entry := by
  unfold find
  split <;> simp_all

theorem create_eq_ok : d.create name = .ok e ↔ fits name = true ∧ d.get? name = none ∧ e = d.put name (.file "") := by
  simp only [create, bind_eq_ok, find_eq_ok]
  constructor
  · rintro ⟨entry, ⟨hfits, hentry⟩, h⟩
    cases entry with
    | none => exact ⟨hfits, hentry, (pure_eq_ok.mp h).symm⟩
    | some => cases h
  · rintro ⟨hfits, hentry, rfl⟩
    exact ⟨none, ⟨hfits, hentry⟩, rfl⟩

theorem write_eq_ok {text : String} :
    d.write name text = .ok e ↔ fits name = true ∧ d.get? name ≠ some .folder ∧ e = d.put name (.file text) := by
  simp only [write, bind_eq_ok, find_eq_ok]
  constructor
  · rintro ⟨entry, ⟨hfits, rfl⟩, h⟩
    split at h
    · cases h
    · rename_i hfolder
      exact ⟨hfits, hfolder, (pure_eq_ok.mp h).symm⟩
  · rintro ⟨hfits, hfolder, rfl⟩
    refine ⟨_, ⟨hfits, rfl⟩, ?_⟩
    split
    · rename_i hentry
      exact absurd hentry hfolder
    · rfl

theorem rename_eq_ok {source target : String} :
    d.rename source target = .ok e ↔
      fits source = true ∧ fits target = true ∧ d.get? target ≠ some .folder ∧
        ∃ entry, d.get? source = some entry ∧ e = (d.erase source).put target entry := by
  simp only [rename, bind_eq_ok, find_eq_ok]
  constructor
  · rintro ⟨entry, ⟨hsource, rfl⟩, old, ⟨htarget, rfl⟩, h⟩
    split at h
    · cases h
    · cases h
    · rename_i entry hentry hfolder
      exact ⟨hsource, htarget, hfolder, entry, hentry, (pure_eq_ok.mp h).symm⟩
  · rintro ⟨hsource, htarget, hfolder, entry, hentry, rfl⟩
    refine ⟨_, ⟨hsource, rfl⟩, _, ⟨htarget, rfl⟩, ?_⟩
    rw [hentry]
    split
    · contradiction
    · contradiction
    · rename_i heq _
      cases heq
      rfl

-- The directories differ at most in what stands under one name.
def SameBut (name : String) (d e : Directory) : Prop := ∀ other, name ≠ other → e.get? other = d.get? other

theorem SameBut.symm (h : d.SameBut name e) : e.SameBut name d := fun other hother => (h other hother).symm

theorem sameBut_put (name : String) (entry : Entry) (d : Directory) : d.SameBut name (d.put name entry) := by
  intro other hother
  rw [get?_put, if_neg hother]

-- One more name at most, or one other entry, and no name twice if none was.
def Beside (name : String) (d e : Directory) : Prop := d.SameBut name e ∧ (d.names.Nodup → e.names.Nodup)

theorem beside_put (name : String) (entry : Entry) (d : Directory) : d.Beside name (d.put name entry) :=
  ⟨sameBut_put name entry d, fun h => Named.nodup_set h name entry⟩

theorem sameBut_erase (name : String) (d : Directory) : d.SameBut name (d.erase name) := by
  intro other hother
  rw [get?_erase, if_neg hother]

theorem put_put (name : String) (entry later : Entry) (d : Directory) :
    (d.put name entry).put name later = d.put name later := by
  simp only [put, Named.set_set]

-- What is made under a free name and taken away again leaves no trace.
theorem erase_put (h : d.get? name = none) (entry : Entry) : (d.put name entry).erase name = d := by
  have habsent := Named.get?_eq_none.mp h
  have hkept : d.entries.filter (·.1 != name) = d.entries := by
    apply List.filter_eq_self.mpr
    intro p hp
    have hname : p.1 ≠ name := by
      rintro rfl
      exact habsent (List.mem_map_of_mem hp)
    simpa using hname
  simp [erase, put, Named.set_of_notMem habsent, hkept]

end Directory

end ShapeScribe
