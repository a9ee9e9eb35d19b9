import PathQuery.Executor
import PathQuery.Shape
import PathQuery.Spec.Call
import PathQuery.Settings.Load
import PathQuery.Proofs.Completeness
import PathQuery.Proofs.Joins
import PathQuery.Proofs.Trails
import PathQuery.Proofs.Clauses
import PathQuery.Proofs.Operands
import PathQuery.Proofs.Spec.Sequence
import PathQuery.Proofs.Strict.Run
import PathQuery.Proofs.Answers
import PathQuery.Proofs.Prolonged
import PathQuery.Proofs.Permuted
import PathQuery.Proofs.Spec.Refusals
import PathQuery.Proofs.Resolution
import PathQuery.Proofs.Session.Run
import PathQuery.Proofs.Reading.Grammar
import PathQuery.Proofs.Reading.Predicate
import PathQuery.Proofs.Binary64
import PathQuery.Proofs.Literals
import PathQuery.Proofs.Forest
import PathQuery.Proofs.Expansion
import PathQuery.Proofs.Events
import PathQuery.Proofs.Executor
import PathQuery.Proofs.Layers
import PathQuery.Proofs.Convert
import PathQuery.Proofs.Binary64.Integer
import PathQuery.Proofs.Decimal
import PathQuery.Proofs.Display
import PathQuery.Proofs.Reading.Literal
import PathQuery.Proofs.Barren
import PathQuery.Proofs.Assignments
