import Dataflow.Fault

/-! # Errors of lowering

    A step of lowering fails because the plan breaks a promise of the optimizer,
    because it asks for something that is not supported, because two channels
    of one input disagree, or because a look-up fails. A compilation fails with
    a failed step and the node it was for, or without one.
-/

namespace Dataflow

namespace Lowering

open Plan (Node)

/-! ## Section 1: Steps -/

/-- A promise of the optimizer, or of lowering itself, that does not hold. -/
inductive Violation where
  /-- An operator that could be fused has no input. -/
  | noInput (node : Node)
  /-- An operator has no driver. -/
  | noDriver (node : Node)
  /-- A fused operator has another number of inputs than one. -/
  | fusedInputs (node : Node)
  /-- The input of a fused operator is to be prepared. -/
  | fusedLocalStrategy (node : Node) (strategy : LocalStrategy)
  /-- The input of a fused operator is not forwarded. -/
  | fusedShipStrategy (node : Node) (strategy : ShipStrategy)
  /-- The producer of a fused operator is fused but has no host. -/
  | unhostedProducer (node : Node)
  /-- The producer of a fused operator has not been lowered. -/
  | unloweredProducer (producer : NodeId) (node : Node)
  /-- A chain gets a second host. -/
  | resolvedTwice (node : Node)
  /-- There is no such chain. -/
  | unknownChain (id : ChainId)
  /-- The source of a wire has not been lowered. -/
  | unloweredSource (producer : NodeId)
  /-- The source of a wire is fused but has no host. -/
  | unhostedSource (producer : NodeId)
  /-- A node to be wired has no vertex. -/
  | noVertex (node : Node)
  /-- An input has no branches. -/
  | noBranches (input : Nat) (node : Node)
  /-- A channel to be wired has no ship strategy. -/
  | unsetShipStrategy
  /-- A chain is appended a second time, or there is no such chain. -/
  | appendedTwice (id : ChainId)
  /-- A chain to be appended has no host. -/
  | unhostedChain (name : String)
  /-- A chain is never appended. -/
  | unresolvedChain (name : String)
  /-- A fused node has no place in the end. -/
  | unplaced (node : Node)
deriving DecidableEq

/-- The text of a violation. -/
def Violation.message : Violation → String
  | noInput node => s!"{node.display} has no input channel"
  | noDriver node => s!"{node.display} has no driver strategy"
  | fusedInputs node => s!"chained {node.display} has {node.inputs.length} input channels"
  | fusedLocalStrategy node strategy =>
    s!"chained {node.display} has local strategy {strategy.display} on its input"
  | fusedShipStrategy node strategy =>
    s!"chained {node.display} is fed by ship strategy {strategy.display}"
  | unhostedProducer node =>
    s!"predecessor of chained {node.display} is chained but has no containing vertex"
  | unloweredProducer producer node =>
    s!"predecessor {producer.display} of chained {node.display} was not translated"
  | resolvedTwice node => s!"chain of {node.display} resolved twice"
  | unknownChain id => s!"unknown chain {id.display}"
  | unloweredSource producer =>
    s!"predecessor {producer.display} was not translated before its consumer"
  | unhostedSource producer =>
    s!"chained predecessor {producer.display} has no containing vertex when connecting"
  | noVertex node => s!"{node.display} has no vertex at wiring time"
  | noBranches input node => s!"input {input} of {node.display} is a union without inputs"
  | unsetShipStrategy =>
    s!"unrecognized ship strategy {ShipStrategy.unset.display} on a wired channel"
  | appendedTwice id => s!"chain {id.display} appended twice or unknown"
  | unhostedChain name => s!"chain '{name}' has no containing vertex"
  | unresolvedChain name => s!"chain '{name}' was never resolved"
  | unplaced node => s!"{node.display} was chained but never placed"

/-- What a plan may ask for but lowering does not do. -/
inductive Limit where
  /-- Routing by ranges of keys. -/
  | rangePartitioning
deriving DecidableEq

/-- The text of a limit. -/
def Limit.message : Limit → String
  | rangePartitioning => "range partitioning is not yet supported"

/-- Why a step failed. -/
inductive StepError where
  /-- A promise does not hold. -/
  | violation (violation : Violation)
  /-- The step is not supported. -/
  | unsupported (limit : Limit)
  /-- Two channels of one input are serialized differently. -/
  | serializerMismatch (expected found : Serializer)
  /-- A look-up or a request failed. -/
  | fault (fault : Fault)
deriving DecidableEq

namespace StepError

/-- What is said of a violation with a text. -/
def violationMessage (text : String) : String := s!"optimizer contract violated: {text}"

/-- What is said of a limit with a text. -/
def limitMessage (text : String) : String := s!"not supported: {text}"

/-- The text of a failed step. -/
def message : StepError → String
  | violation v => violationMessage v.message
  | unsupported limit => limitMessage limit.message
  | serializerMismatch expected found =>
    s!"conflicting serializers on one input: expected {expected.display}, found {found.display}"
  | fault f => f.message

/-- Whether a promise does not hold. -/
def isViolation : StepError → Bool
  | violation _ => true
  | _ => false

/-- Whether the step is not supported. -/
def isUnsupported : StepError → Bool
  | unsupported _ => true
  | _ => false

/-- Whether two channels of one input are serialized differently. -/
def isSerializerMismatch : StepError → Bool
  | serializerMismatch .. => true
  | _ => false

end StepError

/-! ## Section 2: Compilations -/

/-- The callback of the walk that a step belongs to. -/
inductive Phase where
  /-- A node is entered and gets a vertex or a chain. -/
  | materialize
  /-- A node is left and its inputs are wired. -/
  | wire
deriving DecidableEq

/-- The name of a phase in messages. -/
def Phase.display : Phase → String
  | materialize => "materialize"
  | wire => "wire"

/-- Why a compilation failed. -/
inductive CompileError where
  /-- A step failed for a node; `node` is its text. -/
  | step (node : String) (id : NodeId) (phase : Phase) (cause : StepError)
  /-- No vertex was made. -/
  | emptyPlan
  /-- A step failed after the walk. -/
  | finalization (cause : StepError)
  /-- The settings of the compiler are not usable. -/
  | settings (fault : Fault)
deriving DecidableEq

namespace CompileError

/-- What is said of a step that failed for a node, its cause given by its text. -/
def stepMessage (node : String) (phase : Phase) (cause : String) : String :=
  s!"error translating node {node} during {phase.display}: {cause}"

/-- What is said of a step that failed after the walk, its cause given by its text. -/
def finalizationMessage (cause : String) : String := s!"error finalizing job graph: {cause}"

/-- What is said of settings that are not usable, their fault given by its text. -/
def settingsMessage (fault : String) : String := s!"invalid generator configuration: {fault}"

/-- The text of a failed compilation. -/
def message : CompileError → String
  | step node _ phase cause => stepMessage node phase cause.message
  | emptyPlan => "the plan produced no vertices"
  | finalization cause => finalizationMessage cause.message
  | settings fault => settingsMessage fault.message

/-- The failed step, if there is one. -/
def cause? : CompileError → Option StepError
  | step _ _ _ cause => some cause
  | finalization cause => some cause
  | emptyPlan | settings _ => none

/-- The node that the failed step was for. -/
def nodeId? : CompileError → Option NodeId
  | step _ id _ _ => some id
  | emptyPlan | finalization _ | settings _ => none

/-- The text of what lies behind the failure. -/
def source? : CompileError → Option String
  | step _ _ _ cause => some cause.message
  | finalization cause => some cause.message
  | settings fault => some fault.message
  | emptyPlan => none

end CompileError

end Lowering

end Dataflow
