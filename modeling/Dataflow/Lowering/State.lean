import Dataflow.Lowering.Event
import Dataflow.Lowering.Wiring

/-! # State of a compilation

    The graph under construction, what became of every node that has been
    entered, the chains and the order in which their hosts became known, and
    the vertex that all others will share instances with. A step changes the
    state or fails with an error; what it reported before it failed stays.
-/

namespace Dataflow

namespace Lowering

/-! ## Section 1: The state -/

/-- What became of a node. A union becomes nothing. -/
inductive Outcome where
  /-- A vertex of its own. -/
  | vertex (id : VertexId)
  /-- A chain, hosted by the vertex of another node. -/
  | fused (id : ChainId)
deriving DecidableEq

/-- The state of a compilation. -/
structure State where
  /-- The graph under construction. -/
  graph : JobGraph
  /-- What became of each node, by its position. -/
  outcomes : Array (Option Outcome)
  /-- The chains, by their handles. -/
  chains : Array Chain := #[]
  /-- The chains with a host, in the order in which it became known. -/
  resolved : Array ChainId := #[]
  /-- The first vertex of the greatest parallelism so far. -/
  anchor : Option VertexId := none
  /-- What has been reported, first to last. -/
  events : Array Event := #[]

namespace State

/-- The state before the walk. -/
def start (job : JobId) (p : Plan) : State where
  graph := { id := job, name := p.jobName, config := p.config }
  outcomes := Array.replicate p.nodes.size none
  events := #[.started p.jobName p.nodes.size p.sinks.length]

/-- What became of a node. -/
def outcome? (s : State) (node : NodeId) : Option Outcome := s.outcomes[node.index]?.join

/-- The vertex of a node. -/
def vertexOf? (s : State) (node : NodeId) : Option VertexId :=
  match s.outcome? node with
  | some (.vertex id) => some id
  | _ => none

/-- The chain of a node. -/
def chainOf? (s : State) (node : NodeId) : Option ChainId :=
  match s.outcome? node with
  | some (.fused id) => some id
  | _ => none

/-- The chain that a handle names. -/
def chain? (s : State) (id : ChainId) : Option Chain := s.chains[id.index]?

/-- The state with one more report. -/
def report (s : State) (event : Event) : State := { s with events := s.events.push event }

/-- The state in which a node has become something. -/
def settle (s : State) (node : NodeId) (outcome : Outcome) : State :=
  { s with outcomes := s.outcomes.setIfInBounds node.index (some outcome) }

/-- Whether a vertex of some parallelism becomes the anchor: there is none yet, or the vertex has
more subtasks. -/
def takesAnchor (s : State) (parallelism : UInt32) : Bool :=
  match s.anchor with
  | none => true
  | some current =>
    match s.graph.vertex? current with
    | none => true
    | some v => v.parallelism < parallelism

end State

/-! ## Section 2: Steps -/

/-- A step of a compilation. -/
abbrev Step := EStateM StepError State

namespace Step

/-- A step that only looks at something. -/
def ofExcept {α : Type} (result : Except StepError α) : Step α := fun s =>
  match result with
  | .ok a => .ok a s
  | .error e => .error e s

/-- Reports an event. -/
def report (event : Event) : Step Unit := fun s => .ok () (s.report event)

/-- Passes a vertex through `f`. -/
def updateVertex (id : VertexId) (f : Vertex → Vertex) : Step Unit := fun s =>
  match s.graph.missing? id with
  | some fault => .error (.fault (.graph fault)) s
  | none => .ok () { s with graph := s.graph.updateVertex id f }

/-- Passes the configuration of a vertex through `f`. -/
def updateConfig (id : VertexId) (f : TaskConfig → TaskConfig) : Step Unit :=
  updateVertex id fun v => { v with config := f v.config }

/-- Makes a wire. -/
def connect (source : VertexId) (wire : Wire) : Step Unit := fun s =>
  match s.graph.unconnectable? source wire.target with
  | some fault => .error (.fault (.graph fault)) s
  | none => .ok () { s with graph := s.graph.addWire source wire }

/-- The chain that a handle names. -/
def chain (id : ChainId) : Step Chain := fun s =>
  match s.chain? id with
  | some chain => .ok chain s
  | none => .error (.violation (.unknownChain id)) s

/-- Passes a chain through `f`. -/
def updateChain (id : ChainId) (f : Chain → Chain) : Step Unit := fun s =>
  if id.index < s.chains.size then .ok () { s with chains := s.chains.modify id.index f }
  else .error (.violation (.unknownChain id)) s

end Step

/-! ## Section 3: Producers -/

/-- The configuration that records what leaves from a node. -/
inductive Owner where
  /-- The one of a vertex. -/
  | vertex (id : VertexId)
  /-- The one of a chain. -/
  | chain (id : ChainId)
deriving DecidableEq

/-- The producing end of a wire. -/
structure Producer where
  /-- The vertex that the wire leaves from. -/
  vertex : VertexId
  /-- The configuration with its output slot. -/
  owner : Owner
deriving DecidableEq

namespace Step

/-- Passes the configuration of an owner through `f`. -/
def updateOwner (owner : Owner) (f : TaskConfig → TaskConfig) : Step Unit :=
  match owner with
  | .vertex id => updateConfig id f
  | .chain id => updateChain id fun chain => { chain with config := f chain.config }

/-- The producing end for a node: its vertex, or the host of its chain. -/
def producer (node : NodeId) : Step Producer := do
  match (← get).outcome? node with
  | some (.vertex id) => return { vertex := id, owner := .vertex id }
  | none => throw (.violation (.unloweredSource node))
  | some (.fused id) =>
    match (← chain id).host with
    | some host => return { vertex := host, owner := .chain id }
    | none => throw (.violation (.unhostedSource node))

end Step

end Lowering

end Dataflow
