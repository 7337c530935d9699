import ShapeScribe.Definition
import ShapeScribe.Signature

/-!
Synthesis of one route: take its recent observations, group them, sign the groups, and write the definition
when the signature is not the one of the previous run.
-/

namespace ShapeScribe

structure Route where
  id : String
  name : String
  deriving DecidableEq, Repr

structure Declaration where
  routeId : String
  routeName : String
  typeName : String
  typeDefinition : String
  sampleCount : Int
  signature : String
  deriving DecidableEq, Repr

-- What a run has to tell.
inductive Event
  | noSamples (observed : Nat)
  | signatureUnchanged (signature : String)
  | declarationGenerated (signature : String) (previous : Option String) (samples : Nat) (groups : List String)
  deriving DecidableEq, Repr

-- A run tells at most one thing, and nothing when it fails.
structure Synthesis where
  event : Option Event
  declaration : Option Declaration

namespace Synthesis

def window (route : Route) (observations : List Observation) (o : Options) : List Observation :=
  Observation.recent o.windowSize (observations.filter (·.routeId = route.id))

def declarationFor (route : Route) (window : List Observation) (definition signature : String) : Declaration where
  routeId := route.id
  routeName := route.name
  typeName := baseTypeName route.name ++ "Response"
  typeDefinition := definition
  sampleCount := window.length
  signature := signature

end Synthesis

open Synthesis in
def synthesize (route : Route) (observations : List Observation) (o : Options) (previous : Option String) :
    Except Fault Synthesis := do
  let recent := window route observations o
  if recent.isEmpty then
    return ⟨some (.noSamples (observations.filter (·.routeId = route.id)).length), none⟩
  let groups := Group.ofObservations recent
  let signature ← signature route.id groups o
  if previous = some signature then return ⟨some (.signatureUnchanged signature), none⟩
  match ← Definition.declarations o (baseTypeName route.name) groups with
  | none => return ⟨none, none⟩
  | some definition =>
    let event := .declarationGenerated signature previous recent.length (groups.map (·.outcome.label))
    return ⟨some event, some (declarationFor route recent definition signature)⟩

end ShapeScribe
