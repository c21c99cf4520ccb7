import Dataflow.Lowering.Error
import Dataflow.Plan.Basic

/-! # Fusion

    An operator with one input can run inside the thread of its producer if its
    driver has a form to which records are pushed, and if nothing between the
    two calls for a wire. Whether it can is decided when its node is entered;
    the vertex that hosts it is known when the node is left; and in the end the
    fused tasks are appended to their hosts in the order in which these became
    known.
-/

namespace Dataflow

namespace Lowering

open Plan (Node)

/-! ## Section 1: Eligibility -/

/-- What keeps an operator with one input from being fused. -/
inductive Blocker where
  /-- Records cannot be pushed to the driver. -/
  | noPushDriver (driver : DriverStrategy)
  /-- The producer is a union. -/
  | producerIsUnion
  /-- Records are not forwarded. -/
  | shipStrategy (strategy : ShipStrategy)
  /-- The input is to be prepared. -/
  | localStrategy (strategy : LocalStrategy)
  /-- The producer has another number of consumers than one. -/
  | producerFanOut (consumers : Nat)
  /-- The numbers of subtasks differ. -/
  | parallelismMismatch (node producer : UInt32)
  /-- The numbers of subtasks on one instance differ. -/
  | subtasksMismatch (node producer : Option UInt32)
deriving DecidableEq

namespace Blocker

/-- The name of a blocker. -/
def name : Blocker → String
  | noPushDriver _ => "NoPushDriver"
  | producerIsUnion => "PredecessorIsUnion"
  | shipStrategy _ => "ShipStrategy"
  | localStrategy _ => "LocalStrategy"
  | producerFanOut _ => "PredecessorFanOut"
  | parallelismMismatch .. => "ParallelismMismatch"
  | subtasksMismatch .. => "SubtasksPerInstanceMismatch"

/-- The text of a number that may not be set. -/
def optionalText : Option UInt32 → String
  | none => "None"
  | some n => s!"Some({n.toNat})"

/-- The text of a blocker. -/
def message : Blocker → String
  | noPushDriver driver => s!"driver {driver.name} cannot be chained"
  | producerIsUnion => "predecessor is a union"
  | shipStrategy strategy => s!"ship strategy {strategy.display}"
  | localStrategy strategy => s!"local strategy {strategy.display}"
  | producerFanOut consumers => s!"predecessor has {consumers} consumers"
  | parallelismMismatch node producer => s!"parallelism {node.toNat} vs {producer.toNat}"
  | subtasksMismatch node producer =>
    s!"subtasks per instance {optionalText node} vs {optionalText producer}"

/-- The first blocker between a producer and a consumer, over a channel. -/
def between? (producer : Node) (channel : Plan.Channel) (consumer : Node) : Option Blocker :=
  if producer.isUnion then some producerIsUnion
  else if channel.ship ≠ .forward then some (shipStrategy channel.ship)
  else if channel.localStrategy ≠ .nothing then some (localStrategy channel.localStrategy)
  else if producer.outgoing.length ≠ 1 then some (producerFanOut producer.outgoing.length)
  else if consumer.parallelism ≠ producer.parallelism then
    some (parallelismMismatch consumer.parallelism producer.parallelism)
  else if consumer.subtasksPerInstance ≠ producer.subtasksPerInstance then
    some (subtasksMismatch consumer.subtasksPerInstance producer.subtasksPerInstance)
  else none

end Blocker

/-- The result of a look-up in a plan, as the result of a step. -/
def lookedUp {α : Type} (result : Except Plan.Fault α) : Except StepError α :=
  result.mapError fun fault => .fault (.plan fault)

/-- The first blocker of a node with a driver, looking at its first input. -/
def blocker? (p : Plan) (node : Node) (driver : DriverStrategy) : Except StepError (Option Blocker) :=
  if driver.chainDriver? = none then .ok (some (.noPushDriver driver))
  else match node.inputs with
    | [] => .error (.violation (.noInput node))
    | input :: _ => do
      let channel ← lookedUp (p.channel input)
      let producer ← lookedUp (p.node channel.source)
      return Blocker.between? producer channel node

/-- Whether a node with a driver can be fused. -/
def canFuse (p : Plan) (node : Node) (driver : DriverStrategy) : Except StepError Bool :=
  (blocker? p node driver).map Option.isNone

/-! ## Section 2: Chains -/

/-- A node that is fused into the thread of another vertex. -/
structure Chain where
  /-- The driver that records are pushed to. -/
  driver : String
  /-- Its configuration. -/
  config : TaskConfig
  /-- Its name. -/
  name : String
  /-- The vertex that hosts it, once it is known. -/
  host : Option VertexId := none

/-- The place of a fused task: its vertex and its position there. -/
structure Place where
  /-- The vertex. -/
  host : VertexId
  /-- The position among the fused tasks of the vertex. -/
  position : Nat
deriving DecidableEq

/-- Appends chains in sequence. `pending` holds the chains that have not been appended, `placed` the
places of those that have. -/
def appendFrom (graph : JobGraph) (pending : Array (Option Chain)) (placed : Array (Option Place)) :
    List ChainId → Except StepError (JobGraph × Array (Option Place))
  | [] =>
    match pending.toList.findSome? id with
    | some orphan => .error (.violation (.unresolvedChain orphan.name))
    | none => .ok (graph, placed)
  | id :: rest =>
    match pending[id.index]?.join with
    | none => .error (.violation (.appendedTwice id))
    | some chain =>
      match chain.host with
      | none => .error (.violation (.unhostedChain chain.name))
      | some host =>
        match graph.vertex? host with
        | none => .error (.fault (.graph (.unknownVertex host)))
        | some v =>
          appendFrom
            (graph.updateVertex host fun v =>
              { v with config := v.config.fuse ⟨chain.driver, chain.config, chain.name⟩ })
            (pending.setIfInBounds id.index none)
            (placed.setIfInBounds id.index (some ⟨host, v.config.fused.length⟩)) rest

/-- Appends every chain to its host in the order of a sequence. Answers the graph and the place of
each chain. -/
def appendChains (graph : JobGraph) (chains : Array Chain) (sequence : List ChainId) :
    Except StepError (JobGraph × Array (Option Place)) :=
  appendFrom graph (chains.map some) (Array.replicate chains.size none) sequence

end Lowering

end Dataflow
