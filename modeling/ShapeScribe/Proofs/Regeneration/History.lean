import Mathlib.Data.List.Nodup
import ShapeScribe.Proofs.Regeneration.Work

/-!
Histories of regeneration on one store. Whatever the calls did before, a call that succeeds leaves in the store what
synthesis declares of its routes, under the name that each had when its file was written.
-/

namespace ShapeScribe.Regeneration

open Attempt

-- One call, and what the machine is like from one saved declaration to the next.
structure Call where
  routes : List Route
  observations : List Observation
  options : Options
  machine : Nat → Machine

def Call.run (call : Call) (d : Directory) : Session × Option Failure :=
  Regeneration.run call.machine call.observations call.options call.routes { directory := d }

-- What calls leave in a store that is empty at first. Those that fail leave what they saved before.
def storeAfter (calls : List Call) : Directory :=
  calls.foldl (fun d call => (call.run d).1.directory) .empty

-- Records that calls declare, with the moments of their machines.
def Declared (calls : List Call) (r : Record) : Prop :=
  ∃ call ∈ calls, ∃ route ∈ call.routes, route.Declares call.observations call.options r.declaration ∧
    ∃ n, r.updated = (call.machine n).now

-- Payloads that calls sign.
def Signed (calls : List Call) (text : String) : Prop :=
  ∃ call ∈ calls, ∃ route ∈ call.routes, Synthesis.window route call.observations call.options ≠ [] ∧
    route.payload call.observations call.options = .ok text

-- What is taken for granted: no call has a route twice, no two routes share a file, no two payloads share a
-- signature, and records are read back as they were written.
structure Trusted (calls : List Call) : Prop where
  distinct : ∀ call ∈ calls, (call.routes.map (·.id)).Nodup
  files : ∀ call ∈ calls, ∀ route ∈ call.routes, ∀ other ∈ call.routes,
    fileName route.id = fileName other.id → route.id = other.id
  hashes : ∀ text other, Signed calls text → Signed calls other → hashText text = hashText other → text = other
  readable : ∀ r now, Declared calls r → Record.ofText now r.text = .ok (some r)

-- Every file holds a record of the route whose file it is.
def Kept (calls : List Call) (d : Directory) : Prop :=
  ∀ name entry, d.get? name = some entry →
    ∃ r, Declared calls r ∧ fileName r.declaration.routeId = name ∧ entry = .file r.text

-- The record of a route is what synthesis declares of it now, under the name that the record has. That is the name
-- of the route unless the record was there before.
structure Fresh (calls : List Call) (call : Call) (route : Route) (before after : Directory) (r : Record) : Prop where
  fits : Directory.fits (fileName route.id) = true
  declared : Declared calls r
  declares : Route.Declares ⟨route.id, r.declaration.routeName⟩ call.observations call.options r.declaration
  file : after.get? (fileName route.id) = some (.file r.text)
  named : r.declaration.routeName = route.name ∨ before.get? (fileName route.id) = some (.file r.text)

variable {calls history : List Call} {call : Call} {route : Route} {d e : Directory} {n : Nat}

theorem Trusted.of_subset (h : Trusted history) (hsubset : calls ⊆ history) : Trusted calls where
  distinct c hc := h.distinct c (hsubset hc)
  files c hc := h.files c (hsubset hc)
  hashes text other := by
    rintro ⟨c, hc, htext⟩ ⟨c', hc', hother⟩
    exact h.hashes text other ⟨c, hsubset hc, htext⟩ ⟨c', hsubset hc', hother⟩
  readable r now := by
    rintro ⟨c, hc, hr⟩
    exact h.readable r now ⟨c, hsubset hc, hr⟩

-- A record that is loaded is one that a call has declared.
theorem declared_of_load {now : Moment} {r : Record} {id : String} (htrusted : Trusted calls) (hkept : Kept calls d)
    (h : Store.load now id d = .ok (some r)) : Declared calls r ∧ d.get? (fileName id) = some (.file r.text) := by
  obtain ⟨_, text, hfile, hread, _⟩ := Store.load_eq_some.mp h
  obtain ⟨kept, hdeclared, _, hentry⟩ := hkept _ _ hfile
  obtain rfl := Entry.file.inj hentry
  obtain rfl := Option.some.inj (Except.ok.inj (hread.symm.trans (htrusted.readable kept now hdeclared)))
  exact ⟨hdeclared, hfile⟩

theorem Fresh.load {before after : Directory} {r : Record} (h : Fresh calls call route before after r)
    (htrusted : Trusted calls) (now : Moment) : Store.load now route.id after = .ok (some r) := by
  have hid := h.declares.routeId_eq
  exact Store.load_eq_some.mpr ⟨h.fits, r.text, h.file, htrusted.readable r now h.declared, hid⟩

namespace Work

variable {failure : Option Failure}

theorem get?_of_ne {name : String} {m : Machine} {observations : List Observation} {o : Options}
    (h : Work m observations o route d e failure) (hname : fileName route.id ≠ name) : e.get? name = d.get? name := by
  cases h with
  | failed _ hsame => exact hsame name
  | idle _ => rfl
  | unchanged _ _ => rfl
  | written _ _ hget => rw [hget, if_neg hname]

theorem kept (h : Work (call.machine n) call.observations call.options route d e failure) (hcall : call ∈ calls)
    (hroute : route ∈ call.routes) (hkept : Kept calls d) : Kept calls e := by
  intro name entry hentry
  cases h with
  | failed _ hsame => exact hkept name entry (hsame name ▸ hentry)
  | idle _ => exact hkept name entry hentry
  | unchanged _ _ => exact hkept name entry hentry
  | @written declaration _ _ hdeclares hget =>
      rw [hget] at hentry
      split at hentry
      · rename_i hname
        cases hentry
        refine ⟨⟨declaration, (call.machine n).now⟩, ⟨call, hcall, route, hroute, hdeclares, n, rfl⟩, ?_, rfl⟩
        rw [hdeclares.routeId_eq, hname]
      · exact hkept name entry hentry

-- A route that has been worked on is fresh. When it was left alone, the record in its file was signed with the
-- payload of now, and so it says what would be declared now.
theorem fresh (h : Work (call.machine n) call.observations call.options route d e none) (htrusted : Trusted calls)
    (hcall : call ∈ calls) (hroute : route ∈ call.routes) (hkept : Kept calls d)
    (hwindow : Synthesis.window route call.observations call.options ≠ []) : ∃ r, Fresh calls call route d e r := by
  cases h with
  | idle hidle => exact absurd hidle hwindow
  | @unchanged text hpayload hprevious =>
      obtain ⟨found, hload, hsigned⟩ := Store.signatureOf_eq_ok.mp hprevious
      obtain ⟨r, rfl, hsignature⟩ := Option.map_eq_some_iff.mp hsigned
      obtain ⟨hr, hfile⟩ := declared_of_load htrusted hkept hload
      obtain ⟨hfits, _, _, _, hid⟩ := Store.load_eq_some.mp hload
      have ⟨c, hc, other, hother, hdeclares, _⟩ := hr
      obtain ⟨hwindow', text', _, hpayload', _, hd⟩ := Route.declares_iff.mp hdeclares
      have htext : text' = text := by
        refine htrusted.hashes text' text ⟨c, hc, other, hother, hwindow', hpayload'⟩
          ⟨call, hcall, route, hroute, hwindow, hpayload⟩ ?_
        rw [← hsignature, hd]
        rfl
      have hsame : other.id = route.id := by rw [← hdeclares.routeId_eq, hid]
      refine ⟨r, hfits, hr, ?_, hfile, .inr hfile⟩
      rw [hdeclares.routeName_eq]
      exact Route.declares_of_payload hdeclares hsame hwindow (htext ▸ hpayload') hpayload
  | @written declaration _ hfits hdeclares hget =>
      have hname := hdeclares.routeName_eq
      have hr : Declared calls ⟨declaration, (call.machine n).now⟩ := ⟨call, hcall, route, hroute, hdeclares, n, rfl⟩
      refine ⟨⟨declaration, (call.machine n).now⟩, hfits, hr, ?_, ?_, .inl hname⟩
      · rw [hname]
        exact hdeclares
      · rw [hget, if_pos rfl]

end Work

namespace Works

variable {routes : List Route} {failure : Option Failure}

theorem get?_of_notMem {machine : Nat → Machine} {observations : List Observation} {o : Options} {name : String}
    (h : Works machine observations o routes d e failure)
    (hname : name ∉ routes.map fun route => fileName route.id) : e.get? name = d.get? name := by
  induction h with
  | done _ => rfl
  | failed hwork => exact hwork.get?_of_ne fun h => hname (by simp [h])
  | step hwork _ ih => rw [ih (by simp_all), hwork.get?_of_ne fun h => hname (by simp [h])]

theorem kept (h : Works call.machine call.observations call.options routes d e failure) (hcall : call ∈ calls)
    (hroutes : routes ⊆ call.routes) (hkept : Kept calls d) : Kept calls e := by
  induction h with
  | done _ => exact hkept
  | failed hwork => exact hwork.kept hcall (hroutes List.mem_cons_self) hkept
  | step hwork _ ih =>
      exact ih (List.subset_of_cons_subset hroutes) (hwork.kept hcall (hroutes List.mem_cons_self) hkept)

-- Each route has its own file, so work on the others neither spoils a fresh record nor takes one that was there.
theorem fresh (h : Works call.machine call.observations call.options routes d e none) (htrusted : Trusted calls)
    (hcall : call ∈ calls) (hroutes : routes ⊆ call.routes)
    (hfiles : (routes.map fun route => fileName route.id).Nodup) (hkept : Kept calls d) (hroute : route ∈ routes)
    (hwindow : Synthesis.window route call.observations call.options ≠ []) : ∃ r, Fresh calls call route d e r := by
  generalize hfailure : (none : Option Failure) = failure at h
  induction h with
  | done _ => cases hroute
  | failed _ => cases hfailure
  | @step first rest d mid e failure n hwork hrest ih =>
      obtain ⟨hfirst, hfiles⟩ := List.nodup_cons.mp hfiles
      have hmid := hwork.kept hcall (hroutes List.mem_cons_self) hkept
      rcases List.mem_cons.mp hroute with rfl | hroute
      · obtain ⟨r, hr⟩ := hwork.fresh htrusted hcall (hroutes List.mem_cons_self) hkept hwindow
        refine ⟨r, hr.fits, hr.declared, hr.declares, ?_, hr.named⟩
        rw [hrest.get?_of_notMem hfirst, hr.file]
      · have hne : fileName first.id ≠ fileName route.id := by
          intro hsame
          exact hfirst (List.mem_map.mpr ⟨route, hroute, hsame.symm⟩)
        obtain ⟨r, hr⟩ := ih (List.subset_of_cons_subset hroutes) hfiles hmid hroute hfailure
        refine ⟨r, hr.fits, hr.declared, hr.declares, hr.file, ?_⟩
        rw [← hwork.get?_of_ne hne]
        exact hr.named

end Works

theorem Trusted.nodup_files (h : Trusted calls) (hcall : call ∈ calls) :
    (call.routes.map fun route => fileName route.id).Nodup := by
  have hdistinct := h.distinct call hcall
  refine List.Nodup.map_on (fun route hroute other hother hname => ?_) hdistinct.of_map
  exact List.inj_on_of_nodup_map hdistinct hroute hother (h.files call hcall route hroute other hother hname)

theorem storeAfter_concat (calls : List Call) (call : Call) :
    storeAfter (calls ++ [call]) = (call.run (storeAfter calls)).1.directory := by
  simp [storeAfter]

theorem Call.works_run (call : Call) (d : Directory) :
    Works call.machine call.observations call.options call.routes d (call.run d).1.directory (call.run d).2 :=
  Regeneration.works_run call.machine call.observations call.options call.routes { directory := d }

theorem kept_foldl (hcalls : calls ⊆ history) (hkept : Kept history d) :
    Kept history (calls.foldl (fun d call => (call.run d).1.directory) d) := by
  induction calls generalizing d with
  | nil => exact hkept
  | cons call rest ih =>
      have hstep := (call.works_run d).kept (hcalls List.mem_cons_self) (fun _ h => h) hkept
      exact ih (List.subset_of_cons_subset hcalls) hstep

theorem kept_empty : Kept calls .empty := by
  intro name entry hentry
  cases hentry

theorem kept_storeAfter (hcalls : calls ⊆ history) : Kept history (storeAfter calls) := kept_foldl hcalls kept_empty

-- After a call that succeeds the store has for each route with samples what synthesis alone would declare, but for a
-- name that may be older: a record that was left alone keeps the name that an earlier call gave the route.
theorem load_storeAfter (htrusted : Trusted (calls ++ [call])) (hsuccess : (call.run (storeAfter calls)).2 = none)
    (hroute : route ∈ call.routes) (hwindow : Synthesis.window route call.observations call.options ≠ []) :
    ∃ r : Record,
      (∀ now, Store.load now route.id (storeAfter (calls ++ [call])) = .ok (some r)) ∧
      (∃ event, synthesize ⟨route.id, r.declaration.routeName⟩ call.observations call.options none =
        .ok ⟨event, some r.declaration⟩) ∧
      (r.declaration.routeName = route.name ∨
        (∀ now, Store.load now route.id (storeAfter calls) = .ok (some r)) ∧
          ∃ earlier ∈ calls, ⟨route.id, r.declaration.routeName⟩ ∈ earlier.routes) := by
  have hcall : call ∈ calls ++ [call] := List.mem_append_right calls List.mem_cons_self
  have hbefore : calls ⊆ calls ++ [call] := List.subset_append_left calls [call]
  have hworks := call.works_run (storeAfter calls)
  rw [hsuccess, ← storeAfter_concat] at hworks
  obtain ⟨r, hr⟩ := hworks.fresh htrusted hcall (fun _ h => h) (htrusted.nodup_files hcall) (kept_storeAfter hbefore)
    hroute hwindow
  refine ⟨r, hr.load htrusted, hr.declares, hr.named.imp_right fun hold => ?_⟩
  have hid := hr.declares.routeId_eq
  have hload : ∀ now, Store.load now route.id (storeAfter calls) = .ok (some r) := fun now =>
    Store.load_eq_some.mpr ⟨hr.fits, r.text, hold, htrusted.readable r now hr.declared, hid⟩
  refine ⟨hload, ?_⟩
  have hearlier := htrusted.of_subset hbefore
  obtain ⟨⟨earlier, hmem, other, hother, hdeclares, _⟩, _⟩ :=
    declared_of_load hearlier (kept_storeAfter (fun _ h => h)) (hload (call.machine 0).now)
  refine ⟨earlier, hmem, ?_⟩
  rw [hdeclares.routeName_eq, ← hid, hdeclares.routeId_eq]
  exact hother

variable {previous : Option String} {event : Option Event} {declaration : Declaration}

theorem Call.run_of_unchanged (hroutes : call.routes = [route])
    (hprevious : Store.signatureOf (call.machine 0).now route.id d = .ok previous)
    (h : synthesize route call.observations call.options previous = .ok ⟨event, none⟩) :
    (call.run d).1.directory = d ∧ (call.run d).2 = none := by
  obtain ⟨journal, hroute⟩ := regenerateRoute_of_unchanged (s := { directory := d }) hprevious h
  have hrun : call.run d = (⟨d, journal, []⟩, none) := by
    rw [Call.run, hroutes]
    exact run_cons_eq_none.mpr ⟨_, hroute, rfl⟩
  rw [hrun]
  exact ⟨rfl, rfl⟩

theorem Call.succeeds_of_saved (hroutes : call.routes = [route])
    (hprevious : Store.signatureOf (call.machine 0).now route.id d = .ok previous)
    (h : synthesize route call.observations call.options previous = .ok ⟨event, some declaration⟩)
    (hsave : (Store.save (call.machine 0).conditions ⟨declaration, (call.machine 0).now⟩ d).fault? = none) :
    (call.run d).2 = none := by
  have hsuccess := succeeds_regenerateRoute (s := { directory := d }) hprevious h hsave
  generalize hroute : regenerateRoute (call.machine 0) call.observations call.options route { directory := d } = result
    at hsuccess
  obtain ⟨t, failure⟩ := result
  obtain rfl : failure = none := hsuccess
  have hrun : call.run d = (t, none) := by
    rw [Call.run, hroutes]
    exact run_cons_eq_none.mpr ⟨t, hroute, rfl⟩
  rw [hrun]

-- One observation for a route that two calls know by different names.
def renamedObservation : Observation := ⟨"users", ⟨#[], .leaf (.boolean true)⟩, some 200, default, "GET", none⟩

def renamedMachine : Machine := ⟨.midnight ⟨2024, 1, 1⟩, { suffix := "0" }⟩

def renamedCall (name : String) : Call := ⟨[⟨"users", name⟩], [renamedObservation], {}, fun _ => renamedMachine⟩

def renamedRecord (name : String) : Record where
  declaration := {
    routeId := "users"
    routeName := name
    typeName := name ++ "Response"
    typeDefinition := "type " ++ name ++ "Success2xxResponse = boolean;"
    sampleCount := 1
    signature := "0291c038" }
  updated := renamedMachine.now

def IsRenamed (name : String) : Prop := name = "Alpha" ∨ name = "Beta"

theorem window_renamed (name : String) : Synthesis.window ⟨"users", name⟩ [renamedObservation] {} ≠ [] :=
  List.cons_ne_nil renamedObservation []

theorem groups_renamed (name : String) :
    Group.ofObservations (Synthesis.window ⟨"users", name⟩ [renamedObservation] {}) =
      [⟨.ofStatus (some 200), [⟨#[], .leaf (.boolean true)⟩]⟩] := rfl

theorem payload_renamed (name : String) :
    ∃ text, Route.payload ⟨"users", name⟩ [renamedObservation] {} = .ok text ∧ hashText text = "0291c038" := by
  have hpayload : ∀ a b c : Json, Named.inOrder [("routeId", a), ("options", b), ("normalized", c)] =
      [("normalized", c), ("options", b), ("routeId", a)] := fun _ _ _ =>
    Named.inOrder_eq_of_sorted (List.reverse_perm _).symm
      (show ["normalized", "options", "routeId"].Pairwise (· < ·) by decide)
  have hoptions : ∀ a b c : Json,
      Named.inOrder [("analyzeAllArrayElements", a), ("detectDates", b), ("maxArraySamples", c)] =
        [("analyzeAllArrayElements", a), ("detectDates", b), ("maxArraySamples", c)] := fun _ _ _ =>
    Named.inOrder_eq_of_sorted (.refl _)
      (show ["analyzeAllArrayElements", "detectDates", "maxArraySamples"].Pairwise (· < ·) by decide)
  have hgroup : ∀ a b c d : Json, Named.inOrder [("bucket", a), ("isError", b), ("count", c), ("samples", d)] =
      [("bucket", a), ("count", c), ("isError", b), ("samples", d)] := fun _ _ _ _ =>
    Named.inOrder_eq_of_sorted (.cons _ (.swap _ _ _))
      (show ["bucket", "count", "isError", "samples"].Pairwise (· < ·) by decide)
  refine ⟨_, Signature.payload_eq_ok.mpr ⟨_, by rw [groups_renamed, Group.inOrder, List.mergeSort_singleton]; rfl,
    Json.canonical_eq_ok.mpr ⟨?_, rfl⟩⟩, ?_⟩
  · simp [Signature.optionsJson]
  · simp only [Json.written_object, Json.written_array, Json.memberText, Signature.optionsJson, List.map, hpayload,
      hoptions, hgroup]
    rw [hashText, Text.units, String.toList_ofList]
    decide +kernel

theorem declares_renamed {name : String} (hname : IsRenamed name) :
    Route.Declares ⟨"users", name⟩ [renamedObservation] {} (renamedRecord name).declaration := by
  obtain ⟨text, htext, hhash⟩ := payload_renamed name
  have hbase : baseTypeName name = name := by
    rcases hname with rfl | rfl <;> decide +kernel
  have hdefinition : Definition.declarations {} name [⟨.ofStatus (some 200), [⟨#[], .leaf (.boolean true)⟩]⟩] =
      .ok (some ("type " ++ name ++ "Success2xxResponse = boolean;")) := by
    apply toOption_eq_some.mp
    rcases hname with rfl | rfl <;> decide +kernel
  refine Route.declares_iff.mpr ⟨window_renamed name, text, "type " ++ name ++ "Success2xxResponse = boolean;", htext, ?_, ?_⟩
  · rw [groups_renamed, hbase]
    exact hdefinition
  · rw [hhash, Synthesis.declarationFor, hbase]
    rfl

theorem readable_renamed {name : String} (hname : IsRenamed name) (now : Moment) :
    Record.ofText now (renamedRecord name).text = .ok (some (renamedRecord name)) := by
  have hread : Record.ofText (.midnight ⟨1, 1, 1⟩) (renamedRecord name).text = .ok (some (renamedRecord name)) := by
    apply toOption_eq_some.mp
    rw [Record.ofText, Record.text, Yaml.members?_ofList]
    rcases hname with rfl | rfl <;> decide +kernel
  exact Record.ofText_of_ne hread (show renamedMachine.now ≠ _ by decide)

theorem mem_renamed {call : Call} (hcall : call ∈ [renamedCall "Alpha"] ++ [renamedCall "Beta"]) :
    ∃ name, IsRenamed name ∧ call = renamedCall name := by
  rcases List.mem_append.mp hcall with hcall | hcall
  · exact ⟨"Alpha", .inl rfl, List.mem_singleton.mp hcall⟩
  · exact ⟨"Beta", .inr rfl, List.mem_singleton.mp hcall⟩

theorem renamed_of_declared {r : Record} (h : Declared ([renamedCall "Alpha"] ++ [renamedCall "Beta"]) r) :
    ∃ name, IsRenamed name ∧ r = renamedRecord name := by
  obtain ⟨call, hcall, route, hroute, hdeclares, n, hupdated⟩ := h
  obtain ⟨name, hname, rfl⟩ := mem_renamed hcall
  obtain rfl := List.mem_singleton.mp hroute
  obtain ⟨declaration, updated⟩ := r
  obtain rfl := hdeclares.unique (declares_renamed hname)
  obtain rfl : updated = renamedMachine.now := hupdated
  exact ⟨name, hname, rfl⟩

theorem trusted_renamed : Trusted ([renamedCall "Alpha"] ++ [renamedCall "Beta"]) where
  distinct call hcall := by
    obtain ⟨name, _, rfl⟩ := mem_renamed hcall
    exact List.nodup_singleton _
  files call hcall := by
    obtain ⟨name, _, rfl⟩ := mem_renamed hcall
    simp [renamedCall]
  hashes text other := by
    rintro ⟨call, hcall, route, hroute, _, htext⟩ ⟨call', hcall', route', hroute', _, hother⟩ _
    obtain ⟨name, _, rfl⟩ := mem_renamed hcall
    obtain ⟨name', _, rfl⟩ := mem_renamed hcall'
    obtain rfl := List.mem_singleton.mp hroute
    obtain rfl := List.mem_singleton.mp hroute'
    exact Except.ok.inj (htext.symm.trans hother)
  readable r now h := by
    obtain ⟨name, hname, rfl⟩ := renamed_of_declared h
    exact readable_renamed hname now

theorem succeeds_alpha : ((renamedCall "Alpha").run .empty).2 = none := by
  obtain ⟨event, h⟩ := declares_renamed (.inl rfl)
  have hprevious : Store.signatureOf renamedMachine.now "users" .empty = .ok none := by
    apply toOption_eq_some.mp
    decide +kernel
  have hsave : (Store.save renamedMachine.conditions (renamedRecord "Alpha") .empty).fault? = none := by
    decide +kernel
  exact Call.succeeds_of_saved rfl hprevious h hsave

theorem load_alpha (now : Moment) :
    Store.load now "users" (storeAfter [renamedCall "Alpha"]) = .ok (some (renamedRecord "Alpha")) := by
  have hbefore : [renamedCall "Alpha"] ⊆ [renamedCall "Alpha"] ++ [renamedCall "Beta"] := List.subset_append_left _ _
  have hcall : renamedCall "Alpha" ∈ [renamedCall "Alpha"] ++ [renamedCall "Beta"] := hbefore List.mem_cons_self
  have hworks := (renamedCall "Alpha").works_run .empty
  rw [succeeds_alpha] at hworks
  obtain ⟨r, hr⟩ := hworks.fresh trusted_renamed hcall (fun _ h => h) (trusted_renamed.nodup_files hcall) kept_empty
    List.mem_cons_self (window_renamed "Alpha")
  obtain ⟨name, _, rfl⟩ := renamed_of_declared hr.declared
  obtain rfl : name = "Alpha" := hr.named.resolve_right nofun
  exact hr.load trusted_renamed now

-- The second call finds what it would sign itself.
theorem run_beta :
    ((renamedCall "Beta").run (storeAfter [renamedCall "Alpha"])).1.directory = storeAfter [renamedCall "Alpha"] ∧
      ((renamedCall "Beta").run (storeAfter [renamedCall "Alpha"])).2 = none := by
  obtain ⟨text, htext, hhash⟩ := payload_renamed "Beta"
  have hprevious : Store.signatureOf renamedMachine.now "users" (storeAfter [renamedCall "Alpha"]) =
      .ok (some (hashText text)) :=
    Store.signatureOf_eq_ok.mpr ⟨_, load_alpha _, by rw [hhash]; rfl⟩
  exact Call.run_of_unchanged rfl hprevious (Route.synthesize_of_signed (window_renamed "Beta") htext)

theorem load_storeAfter_renamed :
    Trusted ([renamedCall "Alpha"] ++ [renamedCall "Beta"]) ∧
      ((renamedCall "Beta").run (storeAfter [renamedCall "Alpha"])).2 = none ∧
      ∃ r : Record,
        (∀ now, Store.load now "users" (storeAfter ([renamedCall "Alpha"] ++ [renamedCall "Beta"])) = .ok (some r)) ∧
        (∃ event, synthesize ⟨"users", r.declaration.routeName⟩ [renamedObservation] {} none =
          .ok ⟨event, some r.declaration⟩) ∧
        (r.declaration.routeName = "Beta" ∨
          (∀ now, Store.load now "users" (storeAfter [renamedCall "Alpha"]) = .ok (some r)) ∧
            ∃ earlier ∈ [renamedCall "Alpha"], ⟨"users", r.declaration.routeName⟩ ∈ earlier.routes) :=
  ⟨trusted_renamed, run_beta.2,
    @load_storeAfter [renamedCall "Alpha"] (renamedCall "Beta") ⟨"users", "Beta"⟩ trusted_renamed run_beta.2
      List.mem_cons_self (window_renamed "Beta")⟩

-- The signature does not cover the name of a route, so the name in the store may be out of date.
theorem not_load_eq_synthesize :
    ¬ ∀ (calls : List Call) (call : Call) (route : Route), Trusted (calls ++ [call]) →
      (call.run (storeAfter calls)).2 = none → route ∈ call.routes →
      Synthesis.window route call.observations call.options ≠ [] → ∀ now, ∃ r event,
        Store.load now route.id (storeAfter (calls ++ [call])) = .ok (some r) ∧
          synthesize route call.observations call.options none = .ok ⟨event, some r.declaration⟩ := by
  intro h
  obtain ⟨r, event, hload, hresult⟩ := h [renamedCall "Alpha"] (renamedCall "Beta") ⟨"users", "Beta"⟩ trusted_renamed
    run_beta.2 List.mem_cons_self (window_renamed "Beta") renamedMachine.now
  rw [storeAfter_concat, run_beta.1, load_alpha] at hload
  cases hload
  have hname := Route.Declares.routeName_eq ⟨event, hresult⟩
  simp [renamedRecord] at hname

end ShapeScribe.Regeneration
