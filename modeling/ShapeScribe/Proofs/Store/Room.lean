import ShapeScribe.Proofs.Store.Atomic
import ShapeScribe.Proofs.Store.Slug

/-!
The bytes that names take. The file of an id and the temporary file of its save have names that are longer than the slug by
so many bytes, whatever the id is. What has no room in a name is never cut off, so that a long id cannot be saved.
-/

namespace ShapeScribe

namespace Text

theorem isAscii_hex (width n : Nat) : IsAscii (hex width n) := by
  have hdigit : ∀ n < 16, (Nat.digitChar n).toNat < 128 := by decide
  induction width generalizing n with
  | zero => simp [hex, IsAscii]
  | succ width ih =>
      intro c hc
      rw [hex, List.mem_append, List.mem_singleton] at hc
      rcases hc with hc | rfl
      · exact ih _ c hc
      · exact hdigit _ (Nat.mod_lt _ (by decide))

end Text

theorem utf8ByteSize_hashText (text : String) : (hashText text).utf8ByteSize = 8 := by
  rw [hashText, (Text.isAscii_hex _ _).utf8ByteSize_eq, Text.length_hex]

theorem utf8ByteSize_slug (id : String) : (slug id).utf8ByteSize = (slug id).length := by
  rw [slug, (Slug.isSlug_ofId _).isAscii.utf8ByteSize_eq, String.length_ofList]

theorem isSlug_slug (id : String) : Slug.IsSlug (slug id).toList := by
  rw [slug, String.toList_ofList]
  exact Slug.isSlug_ofId _

theorem slug_of_isSlug {id : String} (h : Slug.IsSlug id.toList) : slug id = id := by
  rw [slug, h.ofId_eq, String.ofList_toList]

theorem length_slug_le (id : String) : (slug id).length ≤ max 5 (2 * id.length - 1) := by
  rw [slug, String.length_ofList, ← String.length_toList]
  exact Slug.length_ofId_le _

theorem utf8ByteSize_fileName (id : String) : (fileName id).utf8ByteSize = (slug id).length + 14 := by
  have hhyphen : "-".utf8ByteSize = 1 := by decide
  have hending : ".yaml".utf8ByteSize = 5 := by decide
  simp only [fileName, String.utf8ByteSize_append, utf8ByteSize_slug, utf8ByteSize_hashText, hhyphen, hending]

theorem Save.Conditions.IsDrawn.utf8ByteSize {c : Save.Conditions} (h : c.IsDrawn) : c.suffix.utf8ByteSize = 8 := by
  have hascii : Text.IsAscii c.suffix.toList := by
    intro ch hch
    rcases h.2 ch hch with hkept | rfl
    · exact Slug.ascii_of_keeps hkept
    · decide
  rw [← String.ofList_toList (s := c.suffix), hascii.utf8ByteSize_eq, h.1]

theorem Directory.create_of_not_fits {name : String} (h : Directory.fits name = false) (d : Directory) :
    d.create name = .error .nameTooLong := by
  rw [create, find, if_neg (by simp [h])]
  rfl

namespace Store

variable {c : Save.Conditions} {r : Record} {d : Directory}

-- But for the lengths of names nothing is in the way of a save.
structure Unhindered (c : Save.Conditions) (r : Record) (d : Directory) : Prop where
  writable : r.isWritable = true
  steps : ∀ step, c.fault? step = none
  free : d.get? (temporaryOf c r) = none
  place : d.get? (fileName r.declaration.routeId) ≠ some .folder

theorem Unhindered.fault?_save (h : Unhindered c r d) :
    (save c r d).fault? = if Directory.fits (temporaryOf c r) then none else some (.file .nameTooLong) := by
  split
  · rename_i hfits
    exact fault?_save_eq_none.mpr ⟨h.writable, ⟨h.steps, hfits, h.free⟩, h.place⟩
  · rename_i hlong
    have hcreate := Directory.create_of_not_fits (Bool.eq_false_of_not_eq_true hlong) d
    have hattempt : Save.attempt c (.create, Directory.create (temporaryOf c r)) d = .error .nameTooLong := by
      rw [Save.attempt, h.steps]
      exact hcreate
    rw [save, if_pos h.writable, Save.run, ← temporaryOf, hattempt]
    rfl

-- Every id has a slug that is its own slug, and it can be saved exactly when that is no longer than the two names
-- leave room for.
theorem room_for_id (hdrawn : c.IsDrawn) (id : String) :
    Slug.IsSlug (slug id).toList ∧ slug (slug id) = slug id ∧ (slug id).length ≤ max 5 (2 * id.length - 1) ∧
      (Directory.fits (fileName id) = true ↔ (slug id).length ≤ 241) ∧
      (Directory.fits (Save.temporaryName c (fileName id)) = true ↔ (slug id).length ≤ 227) ∧
      ∀ r d, r.declaration.routeId = id → Unhindered c r d →
        (save c r d).fault? = if (slug id).length ≤ 227 then none else some (.file .nameTooLong) := by
  have hfile : Directory.fits (fileName id) = true ↔ (slug id).length ≤ 241 := by
    rw [Directory.fits, decide_eq_true_eq, utf8ByteSize_fileName, Directory.nameLimit]
    omega
  have htemporary : Directory.fits (Save.temporaryName c (fileName id)) = true ↔ (slug id).length ≤ 227 := by
    rw [Directory.fits, decide_eq_true_eq, Save.utf8ByteSize_temporaryName, utf8ByteSize_fileName, hdrawn.utf8ByteSize,
      Directory.nameLimit]
    omega
  refine ⟨isSlug_slug id, slug_of_isSlug (isSlug_slug id), length_slug_le id, hfile, htemporary, fun r d hid h => ?_⟩
  subst hid
  rw [h.fault?_save]
  exact if_congr htemporary rfl rfl

-- The name of the file has room for this id, and that of the temporary file has not.
def longId : String := String.ofList (List.replicate 235 'a')

def longRecord : Record := { returningRecord with declaration := { returningRecord.declaration with routeId := longId } }

def drawnConditions : Save.Conditions where
  suffix := "k3v9_x0q"

theorem room_for_longId :
    drawnConditions.IsDrawn ∧ Unhindered drawnConditions longRecord .empty ∧
      slug longId = longId ∧ Directory.fits (fileName longId) = true ∧
      (save drawnConditions longRecord .empty).fault? = some (.file .nameTooLong) := by
  have hdrawn : drawnConditions.IsDrawn := by decide
  have hplace : Directory.empty.get? (fileName longId) = none := rfl
  have hfree : Unhindered drawnConditions longRecord .empty :=
    ⟨by decide +kernel, fun _ => rfl, rfl, by simp [longRecord, hplace]⟩
  have hslug : slug longId = longId := by
    refine slug_of_isSlug ⟨[List.replicate 235 'a'], List.cons_ne_nil _ _, fun w hw => ?_, String.toList_ofList⟩
    obtain rfl := List.mem_singleton.mp hw
    refine ⟨List.cons_ne_nil _ _, fun c hc => ?_⟩
    rw [List.eq_of_mem_replicate hc]
    decide
  have hlength : longId.length = 235 := String.length_ofList.trans List.length_replicate
  obtain ⟨_, _, _, hfile, _, hsave⟩ := room_for_id hdrawn longId
  rw [hslug, hlength] at hfile hsave
  exact ⟨hdrawn, hfree, hslug, hfile.mpr (by decide), hsave longRecord .empty rfl hfree⟩

end Store

end ShapeScribe
