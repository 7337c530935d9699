import ShapeScribe.Command.Basic
import ShapeScribe.Proofs.Regeneration.Settled

/-!
Routes are regenerated independently of each other. What a route has to save depends on its own file alone, so a run
leaves of each route what a run over any other choice of the routes leaves of it, but for the moments of the records.
-/

namespace ShapeScribe.Regeneration

open Attempt

variable {machine : Nat → Machine} {m : Machine} {observations : List Observation} {o : Options} {route other : Route}
  {routes rest : List Route} {s t : Session} {d e : Directory} {x y : Option Declaration}

-- What a route has to save over a store, if anything, and that its file can take it.
structure Due (observations : List Observation) (o : Options) (route : Route) (d : Directory) (x : Option Declaration) :
    Prop where
  result : ∃ previous event, (∀ now, Store.signatureOf now route.id d = .ok previous) ∧
    synthesize route observations o previous = .ok ⟨event, x⟩
  writable : ∀ declaration ∈ x, ∀ now, Record.isWritable ⟨declaration, now⟩ = true
  place : x ≠ none → d.get? (fileName route.id) ≠ some .folder

namespace Due

theorem unique (h : Due observations o route d x) (h' : Due observations o route d y) : x = y := by
  obtain ⟨previous, event, hprevious, hresult⟩ := h.result
  obtain ⟨previous', event', hprevious', hresult'⟩ := h'.result
  obtain rfl := Except.ok.inj ((hprevious (.midnight ⟨1, 1, 1⟩)).symm.trans (hprevious' _))
  cases hresult.symm.trans hresult'
  rfl

theorem congr (h : Due observations o route d x) (hget : e.get? (fileName route.id) = d.get? (fileName route.id)) :
    Due observations o route e x where
  result := by
    obtain ⟨previous, event, hprevious, hresult⟩ := h.result
    exact ⟨previous, event, fun now => (Store.signatureOf_congr hget).trans (hprevious now), hresult⟩
  writable := h.writable
  place hx := hget ▸ h.place hx

end Due

-- What stands in a file for which nothing, or a declaration, has been saved. The moment of the save is left open.
def Filed (name : String) (d e : Directory) : Option Declaration → Prop
  | none => e.get? name = d.get? name
  | some declaration => ∃ updated, e.get? name = some (.file (Record.text ⟨declaration, updated⟩))

-- Nothing is in the way of the save, if there is one to make.
def Clear (m : Machine) (route : Route) (d : Directory) (x : Option Declaration) : Prop :=
  x ≠ none → m.conditions.Permits (fileName route.id) d

-- Work that goes through, with what was due.
structure Through (m : Machine) (observations : List Observation) (o : Options) (route : Route) (s t : Session)
    (x : Option Declaration) : Prop where
  due : Due observations o route s.directory x
  clear : Clear m route s.directory x
  changed : t.changed = s.changed ++ x.toList
  sameBut : s.directory.SameBut (fileName route.id) t.directory
  filed : Filed (fileName route.id) s.directory t.directory x

theorem through_of_regenerateRoute (h : regenerateRoute m observations o route s = (t, none)) :
    ∃ x, Through m observations o route s t x := by
  cases turn_regenerateRoute h with
  | @kept previous event hprevious hresult hdirectory hchanged =>
      have hdue : Due observations o route s.directory none :=
        ⟨⟨previous, event, fun _ => Store.signatureOf_later hprevious, hresult⟩, by simp, by simp⟩
      exact ⟨none, hdue, by simp [Clear], by simp [hchanged], by simp [hdirectory, Directory.SameBut],
        congrArg _ hdirectory⟩
  | @saved previous event declaration hprevious hresult hthrough hdirectory hchanged =>
      obtain ⟨hwritable, hpermits, hplace⟩ := Store.fault?_save_eq_none.mp hthrough
      simp only [Route.routeId_eq_of_synthesize hresult] at hpermits hplace
      have hdue : Due observations o route s.directory (some declaration) := by
        refine ⟨⟨previous, event, fun _ => Store.signatureOf_later hprevious, hresult⟩, ?_, fun _ => hplace⟩
        rintro _ ⟨⟩ now
        exact hwritable
      refine ⟨some declaration, hdue, fun _ => hpermits, hchanged, ?_, m.now, ?_⟩
      · rw [hdirectory]
        exact Directory.sameBut_put _ _ _
      · rw [hdirectory, Directory.get?_put, if_pos rfl]

-- Where nothing is in the way of the save, work goes through.
theorem exists_regenerateRoute (h : Due observations o route s.directory x)
    (hclear : Clear m route s.directory x) :
    ∃ t, regenerateRoute m observations o route s = (t, none) := by
  obtain ⟨previous, event, hprevious, hresult⟩ := h.result
  cases x with
  | none =>
      obtain ⟨journal, hroute⟩ := regenerateRoute_of_unchanged (hprevious m.now) hresult
      exact ⟨_, hroute⟩
  | some declaration =>
      have hid : declaration.routeId = route.id := Route.routeId_eq_of_synthesize hresult
      have hthrough : (Store.save m.conditions ⟨declaration, m.now⟩ s.directory).fault? = none := by
        refine Store.fault?_save_eq_none.mpr ⟨h.writable declaration rfl m.now, ?_, ?_⟩
        · exact hid ▸ hclear (by simp)
        · exact hid ▸ h.place (by simp)
      exact ⟨_, Prod.ext rfl (succeeds_regenerateRoute (hprevious m.now) hresult hthrough)⟩

def filesOf (routes : List Route) : List String := routes.map fun route => fileName route.id

theorem fileName_ne_of_nodup (h : (filesOf (route :: rest)).Nodup) (hother : other ∈ rest) :
    fileName route.id ≠ fileName other.id := fun hsame =>
  (List.nodup_cons.mp h).1 (List.mem_map.mpr ⟨other, hother, hsame.symm⟩)

theorem get?_of_run {name : String} {failure : Option Failure} (h : run machine observations o routes s = (t, failure))
    (hname : name ∉ filesOf routes) : t.directory.get? name = s.directory.get? name := by
  have hworks := works_run machine observations o routes s
  rw [h] at hworks
  exact hworks.get?_of_notMem hname

-- What a run leaves, told route by route.
structure RouteByRoute (own : Route → Option Declaration) (routes : List Route) (s t : Session) : Prop where
  changed : t.changed = s.changed ++ routes.filterMap own
  files : ∀ route ∈ routes, Filed (fileName route.id) s.directory t.directory (own route)

variable {own : Route → Option Declaration}

theorem Filed.congr {name : String} {f : Directory} (h : Filed name d e x) (hbefore : f.get? name = d.get? name) :
    Filed name f e x := by
  cases x with
  | none => exact h.trans hbefore.symm
  | some declaration => exact h

theorem Filed.trans {name : String} {f : Directory} (h : Filed name d e x) (hafter : f.get? name = e.get? name) :
    Filed name d f x := by
  cases x with
  | none => exact hafter.trans h
  | some declaration =>
      obtain ⟨updated, hfile⟩ := h
      exact ⟨updated, hafter.trans hfile⟩

-- Before its turn the file of a route is as it was, so what is due is what was due at first.
theorem routeByRoute_of_run (h : run machine observations o routes s = (t, none)) (hfiles : (filesOf routes).Nodup)
    (hdue : ∀ route ∈ routes, Due observations o route s.directory (own route)) : RouteByRoute own routes s t := by
  induction routes generalizing s with
  | nil =>
      cases h
      exact ⟨by simp, by simp⟩
  | cons route rest ih =>
      obtain ⟨hroute, hrest⟩ := List.nodup_cons.mp hfiles
      obtain ⟨mid, hwork, hrun⟩ := run_cons_eq_none.mp h
      obtain ⟨x, hthrough⟩ := through_of_regenerateRoute hwork
      obtain rfl := hthrough.due.unique (hdue route List.mem_cons_self)
      have hkept : ∀ other ∈ rest, mid.directory.get? (fileName other.id) = s.directory.get? (fileName other.id) :=
        fun other hother => hthrough.sameBut _ (fileName_ne_of_nodup hfiles hother)
      have hmid := ih hrun hrest fun other hother =>
        (hdue other (List.mem_cons_of_mem _ hother)).congr (hkept other hother)
      refine ⟨?_, fun other hother => ?_⟩
      · rw [hmid.changed, hthrough.changed, List.append_assoc]
        cases hown : own route <;> simp [hown]
      · rcases List.mem_cons.mp hother with rfl | hother
        · exact hthrough.filed.trans (get?_of_run hrun hroute)
        · exact (hmid.files other hother).congr (hkept other hother).symm

-- Temporary files come and go between the files of the routes: where one can be made now, it could and can be made.
theorem Clear.congr {name : String} (h : Clear m route d x) (hbut : d.SameBut name e)
    (hname : ∀ temporary, name ≠ Save.temporaryName m.conditions temporary) : Clear m route e x := fun hx =>
  have ⟨hsteps, hfits, hfree⟩ := h hx
  ⟨hsteps, hfits, (hbut _ (hname _)).trans hfree⟩

theorem exists_due_of_run (h : run machine observations o routes s = (t, none)) (hfiles : (filesOf routes).Nodup) :
    ∀ route ∈ routes, ∃ x n, Due observations o route s.directory x ∧ Clear (machine n) route s.directory x := by
  induction routes generalizing s with
  | nil => simp
  | cons route rest ih =>
      obtain ⟨mid, hwork, hrun⟩ := run_cons_eq_none.mp h
      obtain ⟨x, hthrough⟩ := through_of_regenerateRoute hwork
      intro other hother
      rcases List.mem_cons.mp hother with rfl | hother
      · exact ⟨x, _, hthrough.due, hthrough.clear⟩
      · obtain ⟨y, n, hdue, hclear⟩ := ih hrun hfiles.of_cons other hother
        have hkept := hthrough.sameBut _ (fileName_ne_of_nodup hfiles hother)
        exact ⟨y, n, hdue.congr hkept.symm, hclear.congr hthrough.sameBut.symm (Save.fileName_ne_temporaryName _)⟩

theorem exists_run (hfiles : (filesOf routes).Nodup)
    (hdue : ∀ route ∈ routes, Due observations o route s.directory (own route))
    (hclear : ∀ n, ∀ route ∈ routes, Clear (machine n) route s.directory (own route)) :
    ∃ t, run machine observations o routes s = (t, none) := by
  induction routes generalizing s with
  | nil => exact ⟨s, rfl⟩
  | cons route rest ih =>
      obtain ⟨mid, hwork⟩ := exists_regenerateRoute (hdue route List.mem_cons_self)
        (hclear s.changed.length route List.mem_cons_self)
      obtain ⟨x, hthrough⟩ := through_of_regenerateRoute hwork
      have hdueLater : ∀ other ∈ rest, Due observations o other mid.directory (own other) := fun other hother =>
        (hdue other (List.mem_cons_of_mem _ hother)).congr (hthrough.sameBut _ (fileName_ne_of_nodup hfiles hother))
      have hclearLater : ∀ n, ∀ other ∈ rest, Clear (machine n) other mid.directory (own other) :=
        fun n other hother => (hclear n other (List.mem_cons_of_mem _ hother)).congr hthrough.sameBut
          (Save.fileName_ne_temporaryName _)
      obtain ⟨t, hrun⟩ := ih hfiles.of_cons hdueLater hclearLater
      exact ⟨t, run_cons_eq_none.mpr ⟨mid, hwork, hrun⟩⟩

-- Two entries are one, or hold one declaration.
def SameButMoment (found other : Option Entry) : Prop :=
  found = other ∨ ∃ declaration updated later, found = some (.file (Record.text ⟨declaration, updated⟩)) ∧
    other = some (.file (Record.text ⟨declaration, later⟩))

theorem Filed.sameButMoment {name : String} {f : Directory} (h : Filed name d e x) (h' : Filed name d f x) :
    SameButMoment (e.get? name) (f.get? name) := by
  cases x with
  | none => exact .inl (Eq.trans h (Eq.symm h'))
  | some declaration =>
      obtain ⟨updated, hfile⟩ := h
      obtain ⟨later, hother⟩ := h'
      exact .inr ⟨declaration, updated, later, hfile, hother⟩

-- A choice of the routes, in whatever order, leaves of each what the run over all of them leaves, and lists it as that
-- does. One route alone goes through because all of them did.
theorem run_independent (h : run machine observations o routes { directory := d } = (s, none))
    (hfiles : (filesOf routes).Nodup) :
    (∀ name ∉ filesOf routes, s.directory.get? name = d.get? name) ∧
      (∀ route ∈ routes, ∃ n t, run (fun _ => machine n) observations o [route] { directory := d } = (t, none)) ∧
      ∃ own : Route → Option Declaration, s.changed = routes.filterMap own ∧
        ∀ others ⊆ routes, (filesOf others).Nodup → ∀ machine : Nat → Machine,
          ((∀ n, ∀ route ∈ others, Clear (machine n) route d (own route)) →
            ∃ t, run machine observations o others { directory := d } = (t, none)) ∧
          ∀ t, run machine observations o others { directory := d } = (t, none) →
            t.changed = others.filterMap own ∧
            (∀ name ∉ filesOf others, t.directory.get? name = d.get? name) ∧
            ∀ route ∈ others,
              SameButMoment (s.directory.get? (fileName route.id)) (t.directory.get? (fileName route.id)) := by
  choose! own turn hdue hclear using exists_due_of_run h hfiles
  have hall := routeByRoute_of_run h hfiles hdue
  refine ⟨fun name hname => get?_of_run h hname, fun route hroute => ⟨turn route, ?_⟩, own, by simpa using hall.changed,
    fun others hothers hnodup machine => ?_⟩
  · exact exists_run (List.nodup_singleton _) (by simpa using hdue route hroute)
      (by simpa using hclear route hroute)
  have hchosen : ∀ route ∈ others, Due observations o route d (own route) := fun route hroute =>
    hdue route (hothers hroute)
  refine ⟨fun hclear => exists_run hnodup hchosen hclear, fun t ht => ?_⟩
  have hleft := routeByRoute_of_run ht hnodup hchosen
  refine ⟨by simpa using hleft.changed, fun name hname => get?_of_run ht hname, fun route hroute => ?_⟩
  exact (hall.files route (hothers hroute)).sameButMoment (hleft.files route hroute)

-- A route that has samples, and one that has none.
def strayRoutes : List Route := [⟨"users", "Alpha"⟩, ⟨"orders", "Orders"⟩]

theorem run_stray :
    ∃ s, run (fun _ => renamedMachine) [renamedObservation] {} strayRoutes { directory := strayStore } = (s, none) := by
  obtain ⟨mid, hfirst, _⟩ := regenerateRoute_stray
  obtain ⟨_, hthrough⟩ := through_of_regenerateRoute hfirst
  have hprevious : Store.signatureOf renamedMachine.now "orders" mid.directory = .ok none := by
    rw [Store.signatureOf_congr (hthrough.sameBut (fileName "orders") (by decide +kernel))]
    apply toOption_eq_some.mp
    decide +kernel
  have hwindow : Synthesis.window ⟨"orders", "Orders"⟩ [renamedObservation] {} = [] := rfl
  obtain ⟨journal, hsecond⟩ : ∃ journal, regenerateRoute renamedMachine [renamedObservation] {} ⟨"orders", "Orders"⟩ mid =
      ({ mid with journal }, none) :=
    regenerateRoute_of_unchanged hprevious (Route.synthesize_of_empty_window hwindow)
  exact ⟨_, run_cons_eq_none.mpr ⟨mid, hfirst, run_cons_eq_none.mpr ⟨_, hsecond, rfl⟩⟩⟩

theorem permits_stray (hroute : route ∈ strayRoutes) :
    renamedMachine.conditions.Permits (fileName route.id) strayStore := by
  have hnames : ∀ name ∈ filesOf strayRoutes, Directory.fits (Save.temporaryName renamedMachine.conditions name) = true ∧
      strayStore.get? (Save.temporaryName renamedMachine.conditions name) = none := by decide +kernel
  obtain ⟨hfits, hfree⟩ := hnames _ (List.mem_map_of_mem hroute)
  exact ⟨fun _ => rfl, hfits, hfree⟩

theorem run_independent_stray : (filesOf strayRoutes).Nodup ∧
    ∃ s, run (fun _ => renamedMachine) [renamedObservation] {} strayRoutes { directory := strayStore } = (s, none) ∧
      s.directory.get? "orders.yaml" = some .folder ∧
      ∀ others, others.Perm strayRoutes ∨ others = Command.chosenRoutes (some "users") strayRoutes →
        ∃ t, run (fun _ => renamedMachine) [renamedObservation] {} others { directory := strayStore } = (t, none) ∧
          ∀ route ∈ others,
            SameButMoment (s.directory.get? (fileName route.id)) (t.directory.get? (fileName route.id)) := by
  have hfiles : (filesOf strayRoutes).Nodup := by decide +kernel
  obtain ⟨s, hrun⟩ := run_stray
  obtain ⟨huntouched, _, own, _, hindependent⟩ := run_independent hrun hfiles
  refine ⟨hfiles, s, hrun, ?_, fun others hothers => ?_⟩
  · rw [huntouched "orders.yaml" (by decide +kernel)]
    rfl
  · obtain ⟨hsubset, hnodup⟩ : others ⊆ strayRoutes ∧ (filesOf others).Nodup := by
      rcases hothers with hperm | rfl
      · exact ⟨hperm.subset, (hperm.map _).nodup_iff.mpr hfiles⟩
      · exact ⟨List.filter_subset_self _, hfiles.sublist (List.filter_sublist.map _)⟩
    obtain ⟨hthrough, hleft⟩ := hindependent others hsubset hnodup fun _ => renamedMachine
    obtain ⟨t, ht⟩ := hthrough fun _ route hroute _ => permits_stray (hsubset hroute)
    exact ⟨t, ht, (hleft t ht).2.2⟩

end ShapeScribe.Regeneration
