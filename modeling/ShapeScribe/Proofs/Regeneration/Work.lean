import ShapeScribe.Proofs.Store.Load
import ShapeScribe.Proofs.Store.Save
import ShapeScribe.Proofs.Synthesis
import ShapeScribe.Regeneration

/-!
Work on one route. It leaves the store as it is or puts a new record into the file of the route, and it says which
signature it has found when it leaves a route alone.
-/

namespace ShapeScribe

open Attempt

variable {observations : List Observation} {o : Options} {route : Route}

namespace Regeneration

variable {m : Machine} {s : Session}

-- A save that fails has changed nothing, whichever step it was that failed.
theorem saveChange_eq (m : Machine) (d : Declaration) (s : Session) :
    saveChange m d s = match (Store.save m.conditions ⟨d, m.now⟩ s.directory).fault? with
      | some fault => (s, some (.store fault))
      | none =>
        ({ s with
            directory := s.directory.put (fileName d.routeId) (.file (Record.text ⟨d, m.now⟩))
            changed := s.changed ++ [d] }, none) := by
  have hends := Store.ends_save m.conditions ⟨d, m.now⟩ s.directory
  unfold saveChange
  generalize Store.save m.conditions ⟨d, m.now⟩ s.directory = run at hends ⊢
  obtain ⟨seen, final, fault⟩ := run
  cases fault with
  | some fault =>
      obtain rfl : final = s.directory := hends
      rfl
  | none =>
      obtain rfl : final = s.directory.put (fileName d.routeId) (.file (Record.text ⟨d, m.now⟩)) := hends
      rfl

-- How work on a route ends, by what it has found and done. When it fails, nothing but the journal has changed.
inductive Turn (m : Machine) (observations : List Observation) (o : Options) (route : Route) (s t : Session) :
    Option Failure → Prop
  | failed (failure : Failure) (hdirectory : t.directory = s.directory) (hchanged : t.changed = s.changed) :
    Turn m observations o route s t (some failure)
  | kept {previous : Option String} {event : Option Event}
    (hprevious : Store.signatureOf m.now route.id s.directory = .ok previous)
    (hresult : synthesize route observations o previous = .ok ⟨event, none⟩) (hdirectory : t.directory = s.directory)
    (hchanged : t.changed = s.changed) : Turn m observations o route s t none
  | saved {previous : Option String} {event : Option Event} {d : Declaration}
    (hprevious : Store.signatureOf m.now route.id s.directory = .ok previous)
    (hresult : synthesize route observations o previous = .ok ⟨event, some d⟩)
    (hthrough : (Store.save m.conditions ⟨d, m.now⟩ s.directory).fault? = none)
    (hdirectory : t.directory = s.directory.put (fileName route.id) (.file (Record.text ⟨d, m.now⟩)))
    (hchanged : t.changed = s.changed ++ [d]) : Turn m observations o route s t none

variable {t : Session} {failure : Option Failure}

theorem turn_workOn (h : workOn m observations o route s = (t, failure)) : Turn m observations o route s t failure := by
  unfold workOn at h
  split at h
  · cases h
    exact .failed _ rfl rfl
  rename_i previous hprevious
  split at h
  · cases h
    exact .failed _ rfl rfl
  rename_i result hresult
  obtain ⟨event, declaration⟩ := result
  cases declaration with
  | none =>
      cases h
      exact .kept hprevious hresult rfl rfl
  | some d =>
      simp only [saveChange_eq] at h
      split at h
      · cases h
        exact .failed _ rfl rfl
      · rename_i hthrough
        cases h
        refine .saved hprevious hresult hthrough ?_ rfl
        rw [Route.routeId_eq_of_synthesize hresult]

theorem turn_regenerateRoute (h : regenerateRoute m observations o route s = (t, failure)) :
    Turn m observations o route s t failure := by
  rw [regenerateRoute] at h
  generalize hwork : workOn m observations o route { s with journal := s.journal.enter route } = result at h
  obtain ⟨mid, ended⟩ := result
  cases h
  cases turn_workOn hwork with
  | failed failure hdirectory hchanged => exact .failed failure hdirectory hchanged
  | kept hprevious hresult hdirectory hchanged => exact .kept hprevious hresult hdirectory hchanged
  | saved hprevious hresult hthrough hdirectory hchanged =>
      exact .saved hprevious hresult hthrough hdirectory hchanged

-- What it does to the store and to the declarations that have changed, told by the payload of the route: it fails, keeps
-- the record in the file of the route, or saves a new one there.
inductive Effect (m : Machine) (observations : List Observation) (o : Options) (route : Route) (d : Directory)
    (changed : List Declaration) : Directory → List Declaration → Option Failure → Prop
  | failed {e : Directory} (failure : Failure) (hsame : ∀ name, e.get? name = d.get? name) :
    Effect m observations o route d changed e changed (some failure)
  | kept {previous : Option String} (hprevious : Store.signatureOf m.now route.id d = .ok previous)
    (hpayload : Synthesis.window route observations o ≠ [] →
      ∃ text, route.payload observations o = .ok text ∧ previous = some (hashText text)) :
    Effect m observations o route d changed d changed none
  | saved {declaration : Declaration} {e : Directory} (hfits : Directory.fits (fileName route.id) = true)
    (hdeclares : route.Declares observations o declaration)
    (hget : ∀ name, e.get? name =
      if fileName route.id = name then some (.file (Record.text ⟨declaration, m.now⟩)) else d.get? name) :
    Effect m observations o route d changed e (changed ++ [declaration]) none

theorem Turn.effect (h : Turn m observations o route s t failure) :
    Effect m observations o route s.directory s.changed t.directory t.changed failure := by
  cases h with
  | failed failure hdirectory hchanged =>
      rw [hdirectory, hchanged]
      exact .failed failure fun _ => rfl
  | kept hprevious hresult hdirectory hchanged =>
      rw [hdirectory, hchanged]
      refine .kept hprevious fun hwindow => ?_
      obtain ⟨text, hpayload, ⟨hsame, _⟩ | ⟨_, _, hsome⟩⟩ := Route.synthesize_cases hwindow hresult
      · exact ⟨text, hpayload, hsame⟩
      · cases hsome
  | saved hprevious hresult hthrough hdirectory hchanged =>
      rw [hdirectory, hchanged]
      have hwindow : Synthesis.window route observations o ≠ [] := by
        intro hempty
        cases Route.declaration_of_empty_window hempty hresult
      obtain ⟨r, hload, _⟩ := Store.signatureOf_eq_ok.mp hprevious
      obtain ⟨text, _, ⟨_, hnone⟩ | ⟨_, hdeclares, hsome⟩⟩ := Route.synthesize_cases hwindow hresult
      · cases hnone
      · cases hsome
        exact .saved (Store.fits_of_load hload) hdeclares fun name => Directory.get?_put _ _ _ _

theorem effect_regenerateRoute (m : Machine) (observations : List Observation) (o : Options) (route : Route)
    (s : Session) :
    Effect m observations o route s.directory s.changed (regenerateRoute m observations o route s).1.directory
      (regenerateRoute m observations o route s).1.changed (regenerateRoute m observations o route s).2 :=
  (turn_regenerateRoute (Prod.eta _).symm).effect

-- What of it the store shows.
inductive Work (m : Machine) (observations : List Observation) (o : Options) (route : Route) (d : Directory) :
    Directory → Option Failure → Prop
  | failed {e : Directory} (failure : Failure) (hsame : ∀ name, e.get? name = d.get? name) :
    Work m observations o route d e (some failure)
  | idle (hwindow : Synthesis.window route observations o = []) : Work m observations o route d d none
  | unchanged {text : String} (hpayload : route.payload observations o = .ok text)
    (hprevious : Store.signatureOf m.now route.id d = .ok (some (hashText text))) : Work m observations o route d d none
  | written {declaration : Declaration} {e : Directory} (hfits : Directory.fits (fileName route.id) = true)
    (hdeclares : route.Declares observations o declaration)
    (hget : ∀ name, e.get? name =
      if fileName route.id = name then some (.file (Record.text ⟨declaration, m.now⟩)) else d.get? name) :
    Work m observations o route d e none

theorem Effect.work {d e : Directory} {changed later : List Declaration} {failure : Option Failure}
    (h : Effect m observations o route d changed e later failure) : Work m observations o route d e failure := by
  cases h with
  | failed failure hsame => exact .failed failure hsame
  | kept hprevious hpayload =>
      by_cases hwindow : Synthesis.window route observations o = []
      · exact .idle hwindow
      · obtain ⟨text, htext, rfl⟩ := hpayload hwindow
        exact .unchanged htext hprevious
  | saved hfits hdeclares hget => exact .written hfits hdeclares hget

variable {machine : Nat → Machine} {previous : Option String} {event : Option Event} {d : Declaration}

theorem regenerateRoute_of_unchanged (hprevious : Store.signatureOf m.now route.id s.directory = .ok previous)
    (h : synthesize route observations o previous = .ok ⟨event, none⟩) :
    ∃ journal, regenerateRoute m observations o route s = ({ s with journal }, none) := by
  refine ⟨((s.journal.enter route).noteAll event.toList).leave, ?_⟩
  simp only [regenerateRoute, workOn, hprevious, h]

-- With something to save, work ends as the save does.
theorem failure_regenerateRoute (hprevious : Store.signatureOf m.now route.id s.directory = .ok previous)
    (h : synthesize route observations o previous = .ok ⟨event, some d⟩) :
    (regenerateRoute m observations o route s).2 =
      (Store.save m.conditions ⟨d, m.now⟩ s.directory).fault?.map .store := by
  simp only [regenerateRoute, workOn, hprevious, h, saveChange_eq]
  cases (Store.save m.conditions ⟨d, m.now⟩ s.directory).fault? <;> rfl

theorem succeeds_regenerateRoute (hprevious : Store.signatureOf m.now route.id s.directory = .ok previous)
    (h : synthesize route observations o previous = .ok ⟨event, some d⟩)
    (hsave : (Store.save m.conditions ⟨d, m.now⟩ s.directory).fault? = none) :
    (regenerateRoute m observations o route s).2 = none := by
  rw [failure_regenerateRoute hprevious h, hsave, Option.map_none]

theorem run_cons_eq_none {rest : List Route} : run machine observations o (route :: rest) s = (t, none) ↔
    ∃ mid, regenerateRoute (machine s.changed.length) observations o route s = (mid, none) ∧
      run machine observations o rest mid = (t, none) := by
  rw [run]
  generalize regenerateRoute (machine s.changed.length) observations o route s = result
  obtain ⟨mid, failure⟩ := result
  cases failure <;> simp

-- What a run over routes can do to the store: one work after another, up to the first that fails.
inductive Works (machine : Nat → Machine) (observations : List Observation) (o : Options) :
    List Route → Directory → Directory → Option Failure → Prop
  | done (d : Directory) : Works machine observations o [] d d none
  | failed {route : Route} {rest : List Route} {d e : Directory} {failure : Failure} {n : Nat}
    (hwork : Work (machine n) observations o route d e (some failure)) :
    Works machine observations o (route :: rest) d e (some failure)
  | step {route : Route} {rest : List Route} {d e f : Directory} {failure : Option Failure} {n : Nat}
    (hwork : Work (machine n) observations o route d e none) (hrest : Works machine observations o rest e f failure) :
    Works machine observations o (route :: rest) d f failure

theorem works_run (machine : Nat → Machine) (observations : List Observation) (o : Options) (routes : List Route)
    (s : Session) :
    Works machine observations o routes s.directory (run machine observations o routes s).1.directory
      (run machine observations o routes s).2 := by
  induction routes generalizing s with
  | nil => exact .done _
  | cons route rest ih =>
      have hwork := (effect_regenerateRoute (machine s.changed.length) observations o route s).work
      rw [run]
      generalize regenerateRoute (machine s.changed.length) observations o route s = result at hwork ⊢
      obtain ⟨t, failure⟩ := result
      cases failure with
      | some failure => exact .failed hwork
      | none => exact .step hwork (ih t)

end Regeneration

end ShapeScribe
