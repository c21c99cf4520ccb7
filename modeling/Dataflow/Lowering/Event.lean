import Dataflow.Lowering.Fusion
import Dataflow.Job.Encoding

/-! # Events of a compilation

    What a compilation reports while it runs, in the order in which it happens.
    An event has a level, a text and named fields.
-/

namespace Dataflow

namespace Lowering

/-- The weight of an event. -/
inductive Level where
  | trace
  | debug
  | info
  | warn

/-- The name of a level. -/
def Level.name : Level → String
  | trace => "TRACE"
  | debug => "DEBUG"
  | info => "INFO"
  | warn => "WARN"

/-- Something that a compilation did or decided. -/
inductive Event where
  /-- The compilation begins. -/
  | started (job : String) (nodes sinks : Nat)
  /-- A node with one input is not fused. -/
  | notFused (node : NodeId) (reason : Blocker)
  /-- A node gets a vertex, which may become the anchor. -/
  | vertexMade (node : NodeId) (vertex : VertexId) (parallelism : UInt32) (anchor : Bool)
  /-- A node gets a chain. -/
  | nodeFused (node : NodeId) (chain : ChainId)
  /-- The host of a chain is known. -/
  | chainResolved (node : NodeId) (chain : ChainId) (host : VertexId)
  /-- A wire is made for a channel. -/
  | wireMade (channel : ChannelId) (source target : VertexId) (ship : ShipStrategy)
      (transport : Transport) (pattern : Pattern)
  /-- The plan sets no type of instances. -/
  | noInstanceType (job : String) (anchor : VertexId)
  /-- The compilation is done. -/
  | finished (job : String) (vertices fused : Nat) (anchor : VertexId)

namespace Event

/-- The level of an event. -/
def level : Event → Level
  | started .. | vertexMade .. | nodeFused .. | chainResolved .. => .debug
  | notFused .. | wireMade .. => .trace
  | noInstanceType .. => .warn
  | finished .. => .info

/-- The text of an event. -/
def message : Event → String
  | started .. => "compiling plan"
  | notFused .. => "not chained"
  | vertexMade .. => "vertex materialized"
  | nodeFused .. => "node chained"
  | chainResolved .. => "chain resolved"
  | wireMade .. => "wire connected"
  | noInstanceType .. => "no instance type set for the job"
  | finished .. => "job graph compiled"

/-- The fields of an event as texts. -/
def fields : Event → List (String × String)
  | started job nodes sinks =>
    [("job", job), ("nodes", toString nodes), ("sinks", toString sinks)]
  | notFused node reason => [("node", node.display), ("reason", reason.message)]
  | vertexMade node vertex parallelism anchor =>
    [("node", node.display), ("vertex", vertex.display), ("dop", toString parallelism.toNat),
      ("anchor", toString anchor)]
  | nodeFused node chain => [("node", node.display), ("chain", chain.display)]
  | chainResolved node chain host =>
    [("node", node.display), ("chain", chain.display), ("host", host.display)]
  | wireMade channel source target ship transport pattern =>
    [("channel", channel.display), ("source", source.display), ("target", target.display),
      ("ship", ship.display), ("channel_type", transport.name), ("pattern", pattern.name)]
  | noInstanceType job anchor => [("job", job), ("anchor", anchor.display)]
  | finished job vertices fused anchor =>
    [("job", job), ("vertices", toString vertices), ("chained", toString fused),
      ("anchor", anchor.display)]

end Event

end Lowering

end Dataflow
