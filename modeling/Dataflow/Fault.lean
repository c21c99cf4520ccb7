import Dataflow.Plan.Fault
import Dataflow.Job.Graph

/-! # Faults

    What can go wrong with the data of this library, by the kind of data.
-/

namespace Dataflow

/-- A fault of a configuration, a plan, a job graph or an encoding, or a broken invariant. -/
inductive Fault where
  | configuration (fault : SpillPolicy.Fault)
  | plan (fault : Plan.Fault)
  | graph (fault : JobGraph.Fault)
  | encoding (text : String)
  | invariant (text : String)
deriving DecidableEq

namespace Fault

/-- What is at fault. -/
inductive Kind where
  | configuration
  | plan
  | graph
  | encoding
  | invariant

/-- What is said of a fault of a kind with a text. -/
def Kind.message (kind : Kind) (text : String) : String :=
  match kind with
  | configuration => s!"Invalid configuration: {text}"
  | plan => s!"Malformed plan: {text}"
  | graph => s!"Job graph definition error: {text}"
  | encoding => s!"Encoding error: {text}"
  | invariant => s!"Internal invariant failed: {text}"

/-- The text of a fault, behind what its kind says. -/
def message : Fault → String
  | configuration fault => Kind.configuration.message fault.message
  | plan fault => Kind.plan.message fault.message
  | graph fault => Kind.graph.message fault.message
  | encoding text => Kind.encoding.message text
  | invariant text => Kind.invariant.message text

end Fault

end Dataflow
