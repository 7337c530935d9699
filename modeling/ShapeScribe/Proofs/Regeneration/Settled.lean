import ShapeScribe.Proofs.Regeneration.History

/-!
Regeneration comes to rest. After a run that succeeds, whatever the store held before it, the signature in the file of
each route is the one that the next run computes, so that a second run with the same arguments finds nothing to do.
-/

namespace ShapeScribe

open Attempt

namespace Regeneration

variable {machine : Nat → Machine} {m : Machine} {observations : List Observation} {o : Options} {route other : Route}
  {routes rest : List Route} {s t : Session} {d e : Directory}

-- The store has for a route the signature of now, if there is anything to sign.
def Settled (observations : List Observation) (o : Options) (route : Route) (d : Directory) : Prop :=
  ∃ previous, (∀ now, Store.signatureOf now route.id d = .ok previous) ∧
    (Synthesis.window route observations o ≠ [] →
      ∃ text, route.payload observations o = .ok text ∧ previous = some (hashText text))

namespace Settled

theorem congr (h : Settled observations o route d) (hget : e.get? (fileName route.id) = d.get? (fileName route.id)) :
    Settled observations o route e := by
  obtain ⟨previous, hsignature, hpayload⟩ := h
  exact ⟨previous, fun now => (Store.signatureOf_congr hget).trans (hsignature now), hpayload⟩

-- The name of a route has no part in it.
theorem of_id_eq (h : Settled observations o route d) (hid : route.id = other.id) : Settled observations o other d := by
  obtain ⟨id, name⟩ := route
  obtain ⟨_, otherName⟩ := other
  obtain rfl : id = _ := hid
  exact h

theorem synthesize_eq (h : Settled observations o route d) (now : Moment) :
    ∃ previous event, Store.signatureOf now route.id d = .ok previous ∧
      synthesize route observations o previous = .ok ⟨event, none⟩ := by
  obtain ⟨previous, hsignature, hpayload⟩ := h
  by_cases hwindow : Synthesis.window route observations o = []
  · exact ⟨previous, _, hsignature now, Route.synthesize_of_empty_window hwindow⟩
  · obtain ⟨text, htext, rfl⟩ := hpayload hwindow
    exact ⟨_, _, hsignature now, Route.synthesize_of_signed hwindow htext⟩

theorem regenerateRoute_eq (h : Settled observations o route s.directory) (m : Machine) :
    ∃ journal, regenerateRoute m observations o route s = ({ s with journal }, none) := by
  obtain ⟨previous, event, hprevious, hresult⟩ := h.synthesize_eq m.now
  exact regenerateRoute_of_unchanged hprevious hresult

end Settled

-- With every route at rest nothing changes but the journal.
theorem run_of_settled (h : ∀ route ∈ routes, Settled observations o route s.directory) :
    ∃ journal, run machine observations o routes s = ({ s with journal }, none) := by
  induction routes generalizing s with
  | nil => exact ⟨s.journal, rfl⟩
  | cons route rest ih =>
      obtain ⟨journal, hroute⟩ := (h route List.mem_cons_self).regenerateRoute_eq (machine s.changed.length)
      obtain ⟨final, hrest⟩ := ih (s := { s with journal }) fun route hmem => h route (List.mem_cons_of_mem _ hmem)
      exact ⟨final, by rw [run, hroute]; exact hrest⟩

-- Records that were saved are read back as they were written. Each has the moment of its own save.
def ReadBack (machine : Nat → Machine) (changed : List Declaration) : Prop :=
  ∀ n declaration, changed[n]? = some declaration → ∀ now,
    Record.ofText now (Record.text ⟨declaration, (machine n).now⟩) = .ok (some ⟨declaration, (machine n).now⟩)

theorem ReadBack.of_isPrefix {changed later : List Declaration} (h : ReadBack machine later)
    (hstart : changed <+: later) : ReadBack machine changed := by
  obtain ⟨tail, rfl⟩ := hstart
  intro n declaration hn
  have hlength : n < changed.length := (List.getElem?_eq_some_iff.mp hn).1
  exact h n declaration (by rw [List.getElem?_append_left hlength, hn])

namespace Effect

variable {changed later : List Declaration} {failure : Option Failure}

theorem isPrefix_changed (h : Effect m observations o route d changed e later failure) : changed <+: later := by
  cases h with
  | failed _ _ => exact List.prefix_rfl
  | kept _ _ => exact List.prefix_rfl
  | saved _ _ _ => exact List.prefix_append _ _

-- Work that goes through brings its route to rest: it has compared the signatures, or written the new one.
theorem settled (h : Effect (machine changed.length) observations o route d changed e later none)
    (hread : ReadBack machine later) : Settled observations o route e := by
  cases h with
  | @kept previous hprevious hpayload => exact ⟨previous, fun now => Store.signatureOf_later hprevious, hpayload⟩
  | @saved declaration _ hfits hdeclares hget =>
      obtain ⟨_, text, _, hpayload, _, hd⟩ := Route.declares_iff.mp hdeclares
      have hid := hdeclares.routeId_eq
      have hsigned : declaration.signature = hashText text := by rw [hd]; rfl
      refine ⟨some declaration.signature, fun now => ?_, fun _ => ⟨text, hpayload, congrArg some hsigned⟩⟩
      have hfile := hget (fileName route.id)
      rw [if_pos rfl, ← hid] at hfile
      rw [← hid] at hfits ⊢
      have hback := hread changed.length declaration (by simp) now
      exact Store.signatureOf_of_file (r := ⟨declaration, (machine changed.length).now⟩) hfits hfile hback

-- A route at rest stays there: the others have files of their own, and work on its own id brings it back to rest.
theorem settled_other (h : Effect (machine changed.length) observations o route d changed e later none)
    (hread : ReadBack machine later) (hfile : fileName route.id = fileName other.id → route.id = other.id)
    (hother : Settled observations o other d) : Settled observations o other e := by
  by_cases hid : route.id = other.id
  · exact (h.settled hread).of_id_eq hid
  · exact hother.congr (h.work.get?_of_ne fun hname => hid (hfile hname))

end Effect

theorem effect_of_regenerateRoute (h : regenerateRoute m observations o route s = (t, none)) :
    Effect m observations o route s.directory s.changed t.directory t.changed none := by
  have heffect := effect_regenerateRoute m observations o route s
  rwa [h] at heffect

theorem isPrefix_changed_run (h : run machine observations o routes s = (t, none)) : s.changed <+: t.changed := by
  induction routes generalizing s with
  | nil =>
      cases h
      exact List.prefix_rfl
  | cons route rest ih =>
      obtain ⟨mid, hroute, hrest⟩ := run_cons_eq_none.mp h
      exact (effect_of_regenerateRoute hroute).isPrefix_changed.trans (ih hrest)

-- By induction on the routes still to be worked on; the others are at rest already.
theorem settled_run (h : run machine observations o routes s = (t, none)) (hread : ReadBack machine t.changed)
    (hfiles : ∀ route ∈ routes, fileName route.id = fileName other.id → route.id = other.id)
    (hother : other ∈ routes ∨ Settled observations o other s.directory) : Settled observations o other t.directory := by
  induction routes generalizing s with
  | nil =>
      cases h
      exact hother.resolve_left List.not_mem_nil
  | cons route rest ih =>
      obtain ⟨mid, hroute, hrest⟩ := run_cons_eq_none.mp h
      have heffect := effect_of_regenerateRoute hroute
      have hmid := hread.of_isPrefix (isPrefix_changed_run hrest)
      refine ih hrest (fun r hr => hfiles r (List.mem_cons_of_mem _ hr)) ?_
      rcases hother with hother | hother
      · rcases List.mem_cons.mp hother with rfl | hmem
        · exact .inr (heffect.settled hmid)
        · exact .inl hmem
      · exact .inr (heffect.settled_other hmid (hfiles route List.mem_cons_self) hother)

-- Whatever the store held and however often an id occurs, the run that follows one that succeeded saves nothing.
theorem run_again {call : Call} (h : call.run d = (s, none))
    (hfiles : ∀ route ∈ call.routes, ∀ other ∈ call.routes, fileName route.id = fileName other.id → route.id = other.id)
    (hread : ReadBack call.machine s.changed) (machine : Nat → Machine) :
    ∃ journal, Call.run { call with machine } s.directory = (⟨s.directory, journal, []⟩, none) := by
  have hsettled : ∀ other ∈ call.routes, Settled call.observations call.options other s.directory := fun other hother =>
    settled_run h hread (fun route hroute => hfiles route hroute other hother) (.inl hother)
  exact run_of_settled (s := { directory := s.directory }) hsettled

-- One id under two names, over a store in which its file is no record and another entry is no file.
def sharedCall : Call :=
  ⟨[⟨"users", "Alpha"⟩, ⟨"users", "Beta"⟩], [renamedObservation], {}, fun _ => renamedMachine⟩

def strayStore : Directory := ⟨[("orders.yaml", .folder), (fileName "users", .file "- [")]⟩

theorem regenerateRoute_stray :
    ∃ s, regenerateRoute renamedMachine [renamedObservation] {} ⟨"users", "Alpha"⟩ { directory := strayStore } =
      (s, none) ∧ s.changed = [(renamedRecord "Alpha").declaration] := by
  have hprevious : Store.signatureOf renamedMachine.now "users" strayStore = .ok none := by
    apply toOption_eq_some.mp
    decide +kernel
  have hsave : (Store.save renamedMachine.conditions ⟨(renamedRecord "Alpha").declaration, renamedMachine.now⟩
      strayStore).fault? = none := by
    decide +kernel
  have hdeclares := declares_renamed (.inl rfl : IsRenamed "Alpha")
  have ⟨event, hresult⟩ := hdeclares
  have hsuccess : (regenerateRoute renamedMachine [renamedObservation] {} ⟨"users", "Alpha"⟩
      { directory := strayStore }).2 = none := succeeds_regenerateRoute hprevious hresult hsave
  generalize hrun : regenerateRoute renamedMachine [renamedObservation] {} ⟨"users", "Alpha"⟩
    { directory := strayStore } = result at hsuccess ⊢
  obtain ⟨⟨directory, journal, changed⟩, failure⟩ := result
  obtain rfl : failure = none := hsuccess
  refine ⟨_, rfl, ?_⟩
  cases effect_of_regenerateRoute hrun with
  | kept hsame hpayload =>
      obtain ⟨_, _, rfl⟩ := hpayload (window_renamed "Alpha")
      cases hprevious.symm.trans hsame
  | saved _ hother _ => exact congrArg (fun d => [d]) (hother.unique hdeclares)

theorem readBack_renamed : ReadBack (fun _ => renamedMachine) [(renamedRecord "Alpha").declaration] := by
  intro n declaration hn now
  cases n with
  | zero =>
      cases hn
      exact readable_renamed (.inl rfl) now
  | succ n => cases hn

theorem run_again_stray :
    ∃ s, sharedCall.run strayStore = (s, none) ∧ s.changed = [(renamedRecord "Alpha").declaration] ∧
      ∃ journal, sharedCall.run s.directory = (⟨s.directory, journal, []⟩, none) := by
  obtain ⟨s, hfirst, hchanged⟩ := regenerateRoute_stray
  have hread : ReadBack sharedCall.machine s.changed := hchanged ▸ readBack_renamed
  have halpha := (effect_of_regenerateRoute hfirst).settled hread
  have hbeta : ∀ route ∈ [(⟨"users", "Beta"⟩ : Route)], Settled [renamedObservation] {} route s.directory := by
    intro route hroute
    obtain rfl := List.mem_singleton.mp hroute
    exact halpha.of_id_eq rfl
  obtain ⟨journal, hrest⟩ := run_of_settled hbeta
  have hrun : sharedCall.run strayStore = ({ s with journal }, none) := run_cons_eq_none.mpr ⟨s, hfirst, hrest⟩
  exact ⟨_, hrun, hchanged, run_again hrun (by simp [sharedCall]) hread sharedCall.machine⟩

end Regeneration

end ShapeScribe
