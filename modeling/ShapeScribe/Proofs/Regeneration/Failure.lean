import ShapeScribe.Proofs.Regeneration.Independence

/-!
Runs that fail. A run ends at the first route that fails, and what it leaves is what the routes before have left: the
route at fault has changed nothing, and no temporary file stays behind.
-/

namespace ShapeScribe.Regeneration

open Attempt

variable {machine : Nat → Machine} {m : Machine} {observations : List Observation} {o : Options} {route : Route}
  {routes : List Route} {s t : Session} {failure : Failure}

theorem scope_regenerateRoute (m : Machine) (observations : List Observation) (o : Options) (route : Route) (s : Session) :
    (regenerateRoute m observations o route s).1.journal.scope = none := rfl

-- Once a route has been entered, its scope has been left as well, also where it has failed.
theorem scope_run (machine : Nat → Machine) (observations : List Observation) (o : Options) (routes : List Route)
    (s : Session) :
    (run machine observations o routes s).1.journal.scope = if routes = [] then s.journal.scope else none := by
  induction routes generalizing s with
  | nil => rfl
  | cons route rest ih =>
      have hscope := scope_regenerateRoute (machine s.changed.length) observations o route s
      rw [run, if_neg (List.cons_ne_nil route rest)]
      generalize regenerateRoute (machine s.changed.length) observations o route s = result at hscope ⊢
      obtain ⟨mid, ended⟩ := result
      cases ended with
      | some failure => exact hscope
      | none =>
          rw [ih mid]
          split
          · exact hscope
          · rfl

theorem directory_of_failed (h : regenerateRoute m observations o route s = (t, some failure)) :
    t.directory = s.directory := by
  cases turn_regenerateRoute h with
  | failed _ hdirectory _ => exact hdirectory

-- The routes before the one at fault have been worked on, those after it have not.
theorem exists_of_run_eq_some (h : run machine observations o routes s = (t, some failure)) :
    ∃ done route rest mid, routes = done ++ route :: rest ∧ run machine observations o done s = (mid, none) ∧
      regenerateRoute (machine mid.changed.length) observations o route mid = (t, some failure) := by
  induction routes generalizing s with
  | nil => cases h
  | cons route rest ih =>
      rw [run] at h
      generalize hroute : regenerateRoute (machine s.changed.length) observations o route s = result at h
      obtain ⟨mid, ended⟩ := result
      cases ended with
      | some failure =>
          cases h
          exact ⟨[], route, rest, s, rfl, rfl, hroute⟩
      | none =>
          obtain ⟨done, failing, later, before, hrest, hdone, hfailed⟩ := ih h
          refine ⟨route :: done, failing, later, before, ?_, run_cons_eq_none.mpr ⟨mid, hroute, hdone⟩, hfailed⟩
          rw [hrest, List.cons_append]

theorem temporaryName_notMem (c : Save.Conditions) (name : String) (routes : List Route) :
    Save.temporaryName c name ∉ filesOf routes := by
  intro hmem
  obtain ⟨route, _, hroute⟩ := List.mem_map.mp hmem
  exact Save.fileName_ne_temporaryName route.id name hroute

-- However a run ends, it keeps no route in scope and leaves no temporary file. One that fails has done what the run over
-- the routes before the one at fault does, and nothing else.
theorem run_of_failed (machine : Nat → Machine) (observations : List Observation) (o : Options) (routes : List Route)
    (s : Session) :
    (run machine observations o routes s).1.journal.scope = (if routes = [] then s.journal.scope else none) ∧
      (∀ c name, (run machine observations o routes s).1.directory.get? (Save.temporaryName c name) =
        s.directory.get? (Save.temporaryName c name)) ∧
      ∀ t failure, run machine observations o routes s = (t, some failure) →
        ∃ done route rest mid, routes = done ++ route :: rest ∧ run machine observations o done s = (mid, none) ∧
          (regenerateRoute (machine mid.changed.length) observations o route mid).2 = some failure ∧
          t.directory = mid.directory ∧ ∀ name ∉ filesOf done, t.directory.get? name = s.directory.get? name := by
  refine ⟨scope_run machine observations o routes s, fun c name => ?_, fun t failure h => ?_⟩
  · exact get?_of_run (Prod.eta _).symm (temporaryName_notMem c name routes)
  · obtain ⟨done, route, rest, mid, hroutes, hdone, hfailed⟩ := exists_of_run_eq_some h
    have hdirectory := directory_of_failed hfailed
    refine ⟨done, route, rest, mid, hroutes, hdone, by rw [hfailed], hdirectory, fun name hname => ?_⟩
    rw [hdirectory, get?_of_run hdone hname]

-- A machine on which every file is written, and none can take its place.
def brokenMachine : Machine :=
  ⟨renamedMachine.now, { suffix := "0", fault? := fun step => if step = .replace then some .device else none }⟩

def brokenRoutes : List Route := [⟨"orders", "Orders"⟩, ⟨"users", "Alpha"⟩]

theorem signatureOf_stray {id : String} (hid : id = "orders" ∨ id = "users") :
    Store.signatureOf brokenMachine.now id strayStore = .ok none := by
  apply toOption_eq_some.mp
  rcases hid with rfl | rfl <;> decide +kernel

theorem run_broken :
    ∃ t, run (fun _ => brokenMachine) [renamedObservation] {} brokenRoutes { directory := strayStore } =
      (t, some (.store (.file .device))) := by
  have hidle : Synthesis.window ⟨"orders", "Orders"⟩ [renamedObservation] {} = [] := rfl
  have horders := signatureOf_stray (.inl rfl)
  obtain ⟨journal, hfirst⟩ : ∃ journal, regenerateRoute brokenMachine [renamedObservation] {} ⟨"orders", "Orders"⟩
      { directory := strayStore } = ({ directory := strayStore, journal }, none) :=
    regenerateRoute_of_unchanged horders (Route.synthesize_of_empty_window hidle)
  have husers := signatureOf_stray (.inr rfl)
  have ⟨event, hresult⟩ := declares_renamed (.inl rfl : IsRenamed "Alpha")
  have hsecond : (regenerateRoute brokenMachine [renamedObservation] {} ⟨"users", "Alpha"⟩
      { directory := strayStore, journal }).2 =
        (Store.save brokenMachine.conditions ⟨(renamedRecord "Alpha").declaration, brokenMachine.now⟩
          strayStore).fault?.map .store := failure_regenerateRoute husers hresult
  have hsave : (Store.save brokenMachine.conditions ⟨(renamedRecord "Alpha").declaration, brokenMachine.now⟩
      strayStore).fault? = some (.file .device) := by decide +kernel
  rw [hsave, Option.map_some] at hsecond
  generalize hroute : regenerateRoute brokenMachine [renamedObservation] {} ⟨"users", "Alpha"⟩
    { directory := strayStore, journal } = result at hsecond
  obtain ⟨t, failure⟩ := result
  obtain rfl : failure = some (.store (.file .device)) := hsecond
  refine ⟨t, ?_⟩
  rw [brokenRoutes, run, hfirst]
  simp only [run, hroute]

theorem run_of_failed_broken :
    ∃ t, run (fun _ => brokenMachine) [renamedObservation] {} brokenRoutes { directory := strayStore } =
        (t, some (.store (.file .device))) ∧
      t.journal.scope = none ∧
      t.directory.get? (Save.temporaryName brokenMachine.conditions (fileName "users")) = none ∧
      ∃ done route rest mid, brokenRoutes = done ++ route :: rest ∧
        run (fun _ => brokenMachine) [renamedObservation] {} done { directory := strayStore } = (mid, none) ∧
        t.directory = mid.directory := by
  obtain ⟨t, ht⟩ := run_broken
  obtain ⟨hscope, htemporary, hfailed⟩ :=
    run_of_failed (fun _ => brokenMachine) [renamedObservation] {} brokenRoutes { directory := strayStore }
  obtain ⟨done, route, rest, mid, hroutes, hdone, _, hdirectory, _⟩ := hfailed t _ ht
  rw [ht] at hscope htemporary
  have hfree : strayStore.get? (Save.temporaryName brokenMachine.conditions (fileName "users")) = none := by
    decide +kernel
  exact ⟨t, ht, hscope, (htemporary _ _).trans hfree, done, route, rest, mid, hroutes, hdone, hdirectory⟩

end ShapeScribe.Regeneration
