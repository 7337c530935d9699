import ShapeScribe.Options
import ShapeScribe.Sample.Basic

/-!
Outcomes: the class of a status code together with whether the code counts as an error. Observations are
grouped by outcome, in a fixed order of outcomes and, inside a group, in order of arrival.
-/

namespace ShapeScribe

inductive Bucket
  | success
  | redirect
  | clientError
  | serverError
  | other
  deriving DecidableEq, Repr

namespace Bucket

def all : List Bucket := [success, redirect, clientError, serverError, other]

def label : Bucket → String
  | success => "2xx"
  | redirect => "3xx"
  | clientError => "4xx"
  | serverError => "5xx"
  | other => "other"

def suffix : Bucket → String
  | success => "Success2xx"
  | redirect => "Redirect3xx"
  | clientError => "ClientError4xx"
  | serverError => "ServerError5xx"
  | other => "OtherStatus"

def rank : Bucket → Nat
  | success => 0
  | redirect => 1
  | clientError => 2
  | serverError => 3
  | other => 4

def ofStatus : Option Int → Bucket
  | none => other
  | some code =>
    if 200 ≤ code ∧ code < 300 then success
    else if 300 ≤ code ∧ code < 400 then redirect
    else if 400 ≤ code ∧ code < 500 then clientError
    else if 500 ≤ code ∧ code < 600 then serverError
    else other

end Bucket

-- The error flag comes from the code itself: a code from 600 on is an error in the last bucket.
def isErrorStatus : Option Int → Bool
  | none => false
  | some code => 400 ≤ code

structure Outcome where
  bucket : Bucket
  isError : Bool
  deriving DecidableEq, Repr

namespace Outcome

def ofStatus (status : Option Int) : Outcome := ⟨Bucket.ofStatus status, isErrorStatus status⟩

def rank (o : Outcome) : Nat := 2 * o.bucket.rank + o.isError.toNat

-- Every outcome, in order of rank.
def all : List Outcome := Bucket.all.flatMap fun b => [⟨b, false⟩, ⟨b, true⟩]

def label (o : Outcome) : String := o.bucket.label ++ if o.isError then ":error" else ""

end Outcome

structure Observation where
  routeId : String
  response : Sample
  status : Option Int
  timestamp : Binary64
  method : String
  url : Option String

namespace Observation

def outcome (obs : Observation) : Outcome := .ofStatus obs.status

def hasBody (obs : Observation) : Bool := obs.response.isBody

-- The last observations that carry a body, as many as the window holds.
def recent (window : Int) (observations : List Observation) : List Observation :=
  let bodies := observations.filter hasBody
  bodies.drop (bodies.length - window.toNat)

end Observation

structure Group where
  outcome : Outcome
  samples : List Sample

namespace Group

-- The responses with one outcome, in order of arrival.
def responses (observations : List Observation) (outcome : Outcome) : List Sample :=
  (observations.filter (·.outcome = outcome)).map (·.response)

def ofObservations (observations : List Observation) : List Group :=
  Outcome.all.filterMap fun outcome =>
    match responses observations outcome with
    | [] => none
    | samples => some ⟨outcome, samples⟩

-- Groups in order of outcome; those of one outcome keep their order.
def inOrder (groups : List Group) : List Group := groups.mergeSort fun g h => g.outcome.rank ≤ h.outcome.rank

end Group

end ShapeScribe
