import ShapeScribe.Main
import ShapeScribe.Proofs.Field.Presence
import ShapeScribe.Proofs.Json.Scalar
import ShapeScribe.Proofs.Named
import ShapeScribe.Proofs.Regeneration.History
import ShapeScribe.Proofs.Sample.KeyOrder
import ShapeScribe.Proofs.Settings.Priority
import ShapeScribe.Proofs.Shape.Soundness
import ShapeScribe.Proofs.Field.Record
import ShapeScribe.Proofs.Definition.Shapes
import ShapeScribe.Proofs.Regeneration.Settled
import ShapeScribe.Proofs.Store.Isolation
import ShapeScribe.Proofs.Regeneration.Independence
import ShapeScribe.Proofs.Store.Map
import ShapeScribe.Proofs.Regeneration.Failure
import ShapeScribe.Proofs.Shape.Same
import ShapeScribe.Proofs.Recent
import ShapeScribe.Proofs.Json.Content
import ShapeScribe.Proofs.Shape.Circular
import ShapeScribe.Proofs.Shape.Nesting
import ShapeScribe.Proofs.Field.Refusal
import ShapeScribe.Proofs.Script.Names
import ShapeScribe.Proofs.Token.Canonical
import ShapeScribe.Proofs.Shape.Cut
import ShapeScribe.Proofs.Store.Atomic
import ShapeScribe.Proofs.Definition.Header
import ShapeScribe.Proofs.Fnv
import ShapeScribe.Proofs.Outcome
import ShapeScribe.Proofs.Shape.Undated
import ShapeScribe.Proofs.Capture
import ShapeScribe.Proofs.Calendar.Recognition
import ShapeScribe.Proofs.Store.Room
