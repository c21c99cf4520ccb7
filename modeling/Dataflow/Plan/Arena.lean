import Dataflow.Plan.Fault

/-! # Arenas of a plan

    The nodes, channels and sinks that a plan is made of, before anything is
    known about them, and the look-ups by handle.
-/

namespace Dataflow

namespace Plan

/-- The raw contents of a plan. -/
structure Parts where
  /-- The name of the job. -/
  jobName : String
  /-- The settings of the whole job. -/
  config : Configuration := .empty
  /-- The type of the instances, if it is set. -/
  instanceType : Option String := none
  /-- The nodes, each at the position that its handle says. -/
  nodes : Array Node := #[]
  /-- The channels, each at the position that its handle says. -/
  channels : Array Channel := #[]
  /-- The nodes that every walk starts from. -/
  sinks : List NodeId := []
deriving DecidableEq

namespace Parts

/-- The node that a handle names. -/
def node? (q : Parts) (id : NodeId) : Option Node := q.nodes[id.index]?

/-- The channel that a handle names. -/
def channel? (q : Parts) (id : ChannelId) : Option Channel := q.channels[id.index]?

/-- The handle of the node that a channel starts at. -/
def source? (q : Parts) (id : ChannelId) : Option NodeId := (q.channel? id).map (·.source)

/-- The node that a handle names. -/
def node (q : Parts) (id : NodeId) : Except Fault Node :=
  match q.node? id with
  | some n => .ok n
  | none => .error (.unknownNode id)

/-- The channel that a handle names. -/
def channel (q : Parts) (id : ChannelId) : Except Fault Channel :=
  match q.channel? id with
  | some c => .ok c
  | none => .error (.unknownChannel id)

/-- The node that a channel starts at. -/
def channelSource (q : Parts) (id : ChannelId) : Except Fault Node := do
  q.node (← q.channel id).source

/-- The input channels of the node that a handle names. -/
def inputsOf (q : Parts) (id : NodeId) : List ChannelId :=
  match q.node? id with
  | some n => n.inputs
  | none => []

/-- Whether one node feeds another: it is the source of one of its input channels. -/
def Feeds (q : Parts) (producer consumer : NodeId) : Prop :=
  ∃ c ∈ q.inputsOf consumer, q.source? c = some producer

/-- Nodes can be ranked so that producers rank below their consumers. -/
def Acyclic (q : Parts) : Prop :=
  ∃ rank : NodeId → Nat, ∀ producer consumer, q.Feeds producer consumer →
    rank producer < rank consumer

end Parts

end Plan

end Dataflow
