import Dataflow.Compiler
import Dataflow.Job.Display
import Dataflow.Plan.Builder
import Dataflow.Plan.Encoding
import Dataflow.Proofs.Anchor
import Dataflow.Proofs.Appending
import Dataflow.Proofs.Blueprint
import Dataflow.Proofs.Budgets
import Dataflow.Proofs.Buffers
import Dataflow.Proofs.Flattening
import Dataflow.Proofs.Flow
import Dataflow.Proofs.Freshness
import Dataflow.Proofs.Nesting
import Dataflow.Proofs.Ordering
import Dataflow.Proofs.Outputs
import Dataflow.Proofs.PlanText
import Dataflow.Proofs.Reordering
import Dataflow.Proofs.Routes
import Dataflow.Proofs.SinkOrder
import Dataflow.Proofs.Stepwise
import Dataflow.Proofs.TaskNesting
