import Dataflow.Descriptor
import Dataflow.Strategy
import Dataflow.Handle

/-! # Nodes and channels of a plan

    A plan is a graph of operators. Nodes name their input channels in slot
    order and their outgoing channels; a channel names its two ends and holds
    what the optimizer decided for the records on it.
-/

namespace Dataflow

namespace Plan

/-! ## Section 1: Nodes -/

/-- The kind of a node, with what only that kind has. -/
inductive Kind where
  /-- Reads records from outside. -/
  | source (serializer : Serializer)
  /-- Writes records to outside. -/
  | sink
  /-- An operator with one input. -/
  | singleInput (driver : DriverStrategy) (comparator : Option Comparator)
  /-- An operator with two inputs. -/
  | dualInput (driver : DriverStrategy) (comparator₁ comparator₂ : Option Comparator)
      (pairComparator : Option PairComparator)
  /-- Joins its inputs into one; what reads it reads them. -/
  | union
deriving DecidableEq

namespace Kind

/-- The name of the kind. -/
def label : Kind → String
  | source _ => "Source"
  | sink => "Sink"
  | singleInput .. => "SingleInput"
  | dualInput .. => "DualInput"
  | union => "Union"

/-- The number of inputs of the kind; none if any number but zero will do. -/
def inputCount? : Kind → Option Nat
  | source _ => some 0
  | sink => some 1
  | singleInput .. => some 1
  | dualInput .. => some 2
  | union => none

/-- The algorithm of an operator. -/
def driver? : Kind → Option DriverStrategy
  | singleInput driver _ => some driver
  | dualInput driver .. => some driver
  | source _ | sink | union => none

/-- Whether the kind is a union. -/
def isUnion : Kind → Bool
  | union => true
  | _ => false

/-- Whether the kind is a sink. -/
def isSink : Kind → Bool
  | sink => true
  | _ => false

end Kind

/-- A node of a plan. -/
structure Node where
  /-- Its handle. -/
  id : NodeId
  /-- Its name. -/
  name : String
  /-- Its kind. -/
  kind : Kind
  /-- The number of its subtasks. -/
  parallelism : UInt32
  /-- The number of subtasks on one instance; the runtime chooses if it is not set. -/
  subtasksPerInstance : Option UInt32
  /-- Memory of a subtask in bytes, zero for none of its own. -/
  memory : UInt64
  /-- Its user code. -/
  userCode : UserCode
  /-- Its input channels in slot order. -/
  inputs : List ChannelId
  /-- The channels that start at it. -/
  outgoing : List ChannelId
deriving DecidableEq

namespace Node

/-- Whether the node is a union. -/
def isUnion (n : Node) : Bool := n.kind.isUnion

/-- The text in messages: kind, name, handle and parallelism. -/
def display (n : Node) : String :=
  s!"{n.kind.label} '{n.name}' ({n.id.display}, dop={n.parallelism.toNat})"

end Node

/-! ## Section 2: Channels -/

/-- What a channel carries with it apart from its ends. -/
structure Shipment where
  /-- How records are routed. -/
  ship : ShipStrategy
  /-- The keys that the routing looks at. -/
  shipComparator : Option Comparator := none
  /-- How the consumer prepares them. -/
  localStrategy : LocalStrategy := .nothing
  /-- The order of the preparation. -/
  localComparator : Option Comparator := none
  /-- How records are serialized. -/
  serializer : Serializer
  /-- How they are buffered. -/
  tempMode : TempMode := .nothing
  /-- The memory of the buffer in bytes; it counts only if there is one. -/
  tempMemory : UInt64 := 0
  /-- The memory of the preparation in bytes. -/
  localMemory : UInt64 := 0
deriving DecidableEq

/-- A channel from one node to another. -/
structure Channel extends Shipment where
  /-- Its handle. -/
  id : ChannelId
  /-- The node that it starts at. -/
  source : NodeId
  /-- The node that it ends at. -/
  target : NodeId
deriving DecidableEq

end Plan

end Dataflow
