import ShapeScribe.Store.Basic

/-!
Regeneration: every route is synthesized anew against the signature in the store, and what has changed is saved.
The first failure ends it; what was saved before stays.
-/

namespace ShapeScribe

-- What the runs had to tell, each event with the route that was being worked on.
structure Journal where
  scope : Option Route := none
  entries : List (Option Route × Event) := []
  deriving DecidableEq, Repr

namespace Journal

def enter (route : Route) (j : Journal) : Journal := { j with scope := some route }

def leave (j : Journal) : Journal := { j with scope := none }

def note (event : Event) (j : Journal) : Journal := { j with entries := j.entries ++ [(j.scope, event)] }

def noteAll (events : List Event) (j : Journal) : Journal := events.foldl (fun j e => j.note e) j

end Journal

namespace Regeneration

inductive Failure
  | sample (fault : Fault)
  | store (fault : StoreFault)
  deriving DecidableEq, Repr

-- The clock, and what a save meets with.
structure Machine where
  now : Moment
  conditions : Save.Conditions

structure Session where
  directory : Directory
  journal : Journal := {}
  changed : List Declaration := []

def saveChange (m : Machine) (d : Declaration) (s : Session) : Session × Option Failure :=
  let run := Store.save m.conditions ⟨d, m.now⟩ s.directory
  let s := { s with directory := run.final }
  match run.fault? with
  | some fault => (s, some (.store fault))
  | none => ({ s with changed := s.changed ++ [d] }, none)

def workOn (m : Machine) (observations : List Observation) (o : Options) (route : Route) (s : Session) :
    Session × Option Failure :=
  match Store.signatureOf m.now route.id s.directory with
  | .error fault => (s, some (.store fault))
  | .ok previous =>
    match synthesize route observations o previous with
    | .error fault => (s, some (.sample fault))
    | .ok result =>
      let s := { s with journal := s.journal.noteAll result.event.toList }
      match result.declaration with
      | none => (s, none)
      | some d => saveChange m d s

-- The scope of the journal is left whatever happens.
def regenerateRoute (m : Machine) (observations : List Observation) (o : Options) (route : Route) (s : Session) :
    Session × Option Failure :=
  let (s, failure) := workOn m observations o route { s with journal := s.journal.enter route }
  ({ s with journal := s.journal.leave }, failure)

-- The machine may change from one saved declaration to the next.
def run (machine : Nat → Machine) (observations : List Observation) (o : Options) :
    List Route → Session → Session × Option Failure
  | [], s => (s, none)
  | route :: rest, s =>
    match regenerateRoute (machine s.changed.length) observations o route s with
    | (s, none) => run machine observations o rest s
    | failed => failed

end Regeneration

end ShapeScribe
