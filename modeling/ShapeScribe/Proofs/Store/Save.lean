import ShapeScribe.Proofs.Directory
import ShapeScribe.Proofs.Store.FileName

/-!
What a save leaves behind. When it is through, the file has its new text and everything else is as before; when it
fails at any step, everything is. Before its end it touches nothing but the temporary file. It goes through when every
step does and nothing is in its way.
-/

namespace ShapeScribe

namespace Save

variable {c : Conditions} {d e goal : Directory} {name text : String} {action : Action} {rest : List Action}

theorem attempt_eq_ok : attempt c action d = .ok e ↔ c.fault? action.1 = none ∧ action.2 d = .ok e := by
  unfold attempt
  split <;> simp_all

-- A run ends where it was meant to, or where it started.
def Ends (d goal : Directory) (r : Run ε) : Prop := r.final = if r.fault? = none then goal else d

-- On the way to its end a run changes nothing but the temporary file.
structure Sound (c : Conditions) (name : String) (d goal : Directory) (r : Run ε) : Prop where
  ends : Ends d goal r
  passes : ∀ e ∈ r.seen, d.Beside (temporaryName c name) e ∨ e = r.final

-- One step of a run: a failure clears the temporary file away, and what follows a success is left to the rest.
theorem sound_follow_cons (hclear : e.erase (temporaryName c name) = d)
    (hrest : ∀ next, action.2 e = .ok next →
      (d.Beside (temporaryName c name) next ∨ next = (follow c name rest next).final) ∧
        Sound c name d goal (follow c name rest next)) :
    Sound c name d goal (follow c name (action :: rest) e) := by
  rw [follow]
  split
  · exact ⟨hclear, fun s hs => .inr (List.mem_singleton.mp hs)⟩
  · rename_i next hnext
    obtain ⟨hstate, hsound⟩ := hrest next (attempt_eq_ok.mp hnext).2
    exact ⟨hsound.ends, List.forall_mem_cons.mpr ⟨hstate, hsound.passes⟩⟩

theorem sound_run (c : Conditions) (name text : String) (d : Directory) :
    Sound c name d (d.put name (.file text)) (run c name text d) := by
  unfold run
  split
  · exact ⟨rfl, by simp⟩
  rename_i made hmade
  obtain ⟨_, habsent, rfl⟩ := Directory.create_eq_ok.mp (attempt_eq_ok.mp hmade).2
  suffices h : Sound c name d (d.put name (.file text))
      (follow c name (actions c name text) (d.put (temporaryName c name) (.file ""))) from
    ⟨h.ends, List.forall_mem_cons.mpr ⟨.inl (Directory.beside_put _ _ d), h.passes⟩⟩
  refine sound_follow_cons (Directory.erase_put habsent _) fun _ hwritten => ?_
  obtain ⟨_, _, rfl⟩ := Directory.write_eq_ok.mp hwritten
  rw [Directory.put_put]
  refine ⟨.inl (Directory.beside_put _ _ d), sound_follow_cons (Directory.erase_put habsent _) fun _ hflushed => ?_⟩
  obtain ⟨_, _, rfl⟩ := Directory.write_eq_ok.mp hflushed
  rw [Directory.put_put]
  refine ⟨.inl (Directory.beside_put _ _ d), sound_follow_cons (Directory.erase_put habsent _) fun _ hsynced => ?_⟩
  obtain rfl := Except.ok.inj hsynced
  refine ⟨.inl (Directory.beside_put _ _ d), sound_follow_cons (Directory.erase_put habsent _) fun _ hreplaced => ?_⟩
  refine ⟨.inr rfl, ?_, by simp [follow]⟩
  obtain ⟨_, _, _, entry, hentry, rfl⟩ := Directory.rename_eq_ok.mp hreplaced
  rw [Directory.get?_put, if_pos rfl, Option.some.injEq] at hentry
  rw [Directory.erase_put habsent, ← hentry]
  rfl

-- Nothing that a save meets with is in its way: no step fails, and the name of the temporary file can be had.
structure Conditions.Permits (c : Conditions) (name : String) (d : Directory) : Prop where
  steps : ∀ step, c.fault? step = none
  fits : Directory.fits (temporaryName c name) = true
  free : d.get? (temporaryName c name) = none

theorem fault?_follow_cons : (follow c name (action :: rest) e).fault? = none ↔
    ∃ next, attempt c action e = .ok next ∧ (follow c name rest next).fault? = none := by
  rw [follow]
  cases attempt c action e <;> simp

theorem fault?_run : (run c name text d).fault? = none ↔
    ∃ made, attempt c (.create, Directory.create (temporaryName c name)) d = .ok made ∧
      (follow c name (actions c name text) made).fault? = none := by
  rw [run]
  cases attempt c (.create, Directory.create (temporaryName c name)) d <;> simp

theorem fault?_run_eq_none : (run c name text d).fault? = none ↔ c.Permits name d ∧ d.get? name ≠ some .folder := by
  have hplace : ∀ entry, (d.put (temporaryName c name) entry).get? name = d.get? name := fun entry => by
    rw [Directory.get?_put, if_neg (ne_temporaryName name).symm]
  have htemporary : ∀ entry : Entry, (d.put (temporaryName c name) entry).get? (temporaryName c name) = some entry :=
    fun entry => by rw [Directory.get?_put, if_pos rfl]
  simp only [fault?_run, actions, fault?_follow_cons, attempt_eq_ok]
  constructor
  · rintro ⟨_, ⟨hcreate, hmade⟩, _, ⟨hwrite, hwritten⟩, _, ⟨hflush, hflushed⟩, _, ⟨hsync, hsynced⟩, _,
      ⟨hreplace, hreplaced⟩, _⟩
    obtain ⟨hfits, hfree, rfl⟩ := Directory.create_eq_ok.mp hmade
    obtain ⟨_, _, rfl⟩ := Directory.write_eq_ok.mp hwritten
    obtain ⟨_, _, rfl⟩ := Directory.write_eq_ok.mp hflushed
    obtain rfl := Except.ok.inj hsynced
    obtain ⟨_, _, hfolder, _⟩ := Directory.rename_eq_ok.mp hreplaced
    rw [Directory.put_put, Directory.put_put, hplace] at hfolder
    refine ⟨⟨fun step => ?_, hfits, hfree⟩, hfolder⟩
    cases step with
    | create => exact hcreate
    | write => exact hwrite
    | flush => exact hflush
    | sync => exact hsync
    | replace => exact hreplace
  · rintro ⟨⟨hsteps, hfits, hfree⟩, hfolder⟩
    have hnofolder : ∀ text : String, some (Entry.file text) ≠ some .folder := by simp
    refine ⟨_, ⟨hsteps _, Directory.create_eq_ok.mpr ⟨hfits, hfree, rfl⟩⟩, _,
      ⟨hsteps _, Directory.write_eq_ok.mpr ⟨hfits, ?_, rfl⟩⟩, _,
      ⟨hsteps _, Directory.write_eq_ok.mpr ⟨hfits, ?_, rfl⟩⟩, _, ⟨hsteps _, rfl⟩, _,
      ⟨hsteps _, Directory.rename_eq_ok.mpr ⟨hfits, fits_of_temporaryName hfits, ?_, .file text, ?_, rfl⟩⟩, rfl⟩
    · rw [htemporary]
      exact hnofolder _
    · rw [Directory.put_put, htemporary]
      exact hnofolder _
    · rw [Directory.put_put, Directory.put_put, hplace]
      exact hfolder
    · rw [Directory.put_put, Directory.put_put]
      exact htemporary _

end Save

namespace Store

variable {c : Save.Conditions} {r : Record} {d : Directory}

theorem sound_save (c : Save.Conditions) (r : Record) (d : Directory) :
    Save.Sound c (fileName r.declaration.routeId) d (d.put (fileName r.declaration.routeId) (.file r.text))
      (save c r d) := by
  unfold save
  split
  · obtain ⟨hends, hpasses⟩ := Save.sound_run c (fileName r.declaration.routeId) r.text d
    exact ⟨by simpa [Save.Ends, Save.Run.mapFault] using hends, hpasses⟩
  · exact ⟨rfl, by simp⟩

theorem ends_save (c : Save.Conditions) (r : Record) (d : Directory) :
    Save.Ends d (d.put (fileName r.declaration.routeId) (.file r.text)) (save c r d) := (sound_save c r d).ends

theorem fault?_save_eq_none : (save c r d).fault? = none ↔ r.isWritable = true ∧
    c.Permits (fileName r.declaration.routeId) d ∧ d.get? (fileName r.declaration.routeId) ≠ some .folder := by
  unfold save
  split <;> simp_all [Save.Run.mapFault, Save.fault?_run_eq_none]

end Store

end ShapeScribe
