import Dataflow.Plan.Node

/-! # Faults of plans

    What can be wrong with a plan: handles that do not agree with the arenas, a
    cycle, look-ups of what is not there, and, while a plan is built, nodes
    whose channels do not fit their kind.
-/

namespace Dataflow

namespace Plan

/-- A fault of a plan, or of a request to one. -/
inductive Fault where
  /-- A node does not stand where its handle says. -/
  | misplacedNode (id : NodeId) (position : Nat)
  /-- A node lists a channel that is not there. -/
  | unknownReference (node : NodeId) (channel : ChannelId)
  /-- A node lists as input a channel that ends at another node. -/
  | strayInput (channel : ChannelId) (node : NodeId)
  /-- A node lists as outgoing a channel that starts at another node. -/
  | strayOutgoing (channel : ChannelId) (node : NodeId)
  /-- A channel does not stand where its handle says. -/
  | misplacedChannel (id : ChannelId) (position : Nat)
  /-- An end of a channel is not there. -/
  | danglingChannel (id : ChannelId)
  /-- A sink is not there. -/
  | unknownSink (id : NodeId)
  /-- A node feeds itself, directly or through others. -/
  | cycle (id : NodeId)
  /-- There is no such node. -/
  | unknownNode (id : NodeId)
  /-- There is no such channel. -/
  | unknownChannel (id : ChannelId)
  /-- An end of a channel to be made is not there. -/
  | unknownEnd (source target : NodeId)
  /-- A channel to be made would start and end at one node. -/
  | selfLoop (id : NodeId)
  /-- A node has another number of inputs than its kind. -/
  | inputCount (node : Node) (expected : Nat)
  /-- A union has no inputs. -/
  | noInputs (node : Node)
  /-- The driver of a node takes another number of inputs than the node has. -/
  | driverInputs (node : Node) (driver : DriverStrategy)
  /-- A node has no subtasks. -/
  | zeroParallelism (node : Node)
  /-- A sink has outgoing channels. -/
  | sinkOutgoing (node : Node)
  /-- There are nodes but no sink. -/
  | noSinks
deriving DecidableEq

/-- The text of a fault. -/
def Fault.message : Fault → String
  | misplacedNode id position => s!"node {id.display} stored at position {position}"
  | unknownReference node channel =>
    s!"node {node.display} references unknown channel {channel.display}"
  | strayInput channel node =>
    s!"input {channel.display} of node {node.display} targets another node"
  | strayOutgoing channel node =>
    s!"outgoing {channel.display} of node {node.display} starts at another node"
  | misplacedChannel id position => s!"channel {id.display} stored at position {position}"
  | danglingChannel id => s!"channel {id.display} has a dangling endpoint"
  | unknownSink id => s!"unknown sink {id.display}"
  | cycle id => s!"cycle through node {id.display}"
  | unknownNode id => s!"unknown node {id.display}"
  | unknownChannel id => s!"unknown channel {id.display}"
  | unknownEnd source target =>
    s!"cannot connect {source.display} -> {target.display}: unknown node"
  | selfLoop id => s!"cannot connect {id.display} to itself"
  | inputCount node expected =>
    s!"{node.display} has {node.inputs.length} inputs, expected {expected}"
  | noInputs node => s!"{node.display} has no inputs"
  | driverInputs node driver =>
    s!"{node.display} runs {driver.name}, which takes {driver.inputCount} inputs"
  | zeroParallelism node => s!"{node.display} has zero parallelism"
  | sinkOutgoing node => s!"{node.display} has outgoing channels"
  | noSinks => "plan has no sinks"

end Plan

end Dataflow
