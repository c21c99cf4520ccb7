import Dataflow.Lowering.State
import Dataflow.Plan.Branches
import Dataflow.Plan.Walk

/-! # Lowering of nodes

    The visitor that turns a plan into a graph. Entering a node makes its
    vertex or its chain; leaving it, when all its producers are known, makes
    the wires of its inputs or finds the host of its chain. A failed step is
    wrapped with the node it was for.
-/

namespace Dataflow

namespace Lowering

open Plan (Node)

/-! ## Section 1: Configurations at the start -/

/-- The configuration of a source. -/
def sourceConfig (node : Node) (serializer : Serializer) : TaskConfig :=
  { userCode := some node.userCode, outputSerializer := some serializer }

/-- The configuration of a sink. -/
def sinkConfig (node : Node) : TaskConfig :=
  { userCode := some node.userCode, sinkParallelism := some node.parallelism }

/-- The driver comparators of an operator, by input. -/
def comparatorsOf (comparators : List (Option Comparator)) : SortedMap Nat Comparator :=
  .ofList <| comparators.zipIdx.filterMap fun (comparator, input) => comparator.map (input, ·)

/-- The configuration of an operator, without its driver. -/
def operatorConfig (policy : SpillPolicy) (node : Node) (driver : DriverStrategy)
    (comparators : List (Option Comparator)) (pairComparator : Option PairComparator) : TaskConfig :=
  { userCode := some node.userCode
    driverStrategy := some driver
    driverComparators := comparatorsOf comparators
    pairComparator
    driverBudget := policy.budget? node.memory }

/-! ## Section 2: Entering a node -/

/-- Makes the vertex of a node. Zero subtasks on one instance count as not set. -/
def makeVertex (node : Node) (kind : VertexKind) (taskClass : TaskClass) (config : TaskConfig) :
    Step Unit := fun s =>
  let id : VertexId := ⟨s.graph.vertices.size⟩
  let anchor := s.takesAnchor node.parallelism
  let vertex : Vertex :=
    { id, name := node.name, kind, taskClass, config, parallelism := node.parallelism
      subtasksPerInstance := node.subtasksPerInstance.filter fun n => 1 ≤ n }
  let s := { s with graph := (s.graph.push fun _ => vertex).2 }
  let s := s.settle node.id (.vertex id)
  let s := { s with anchor := if anchor then some id else s.anchor }
  .ok () (s.report (.vertexMade node.id id node.parallelism anchor))

/-- Makes the chain of a node. -/
def makeChain (node : Node) (driver : String) (config : TaskConfig) : Step Unit := fun s =>
  let id : ChainId := ⟨s.chains.size⟩
  let s := { s with chains := s.chains.push { driver, config, name := node.name } }
  let s := s.settle node.id (.fused id)
  .ok () (s.report (.nodeFused node.id id))

/-- Makes the vertex of an operator, whose driver must be set. -/
def makeOperator (node : Node) (driver : DriverStrategy) (config : TaskConfig) : Step Unit :=
  match driver.taskDriver? with
  | none => throw (.violation (.noDriver node))
  | some text => makeVertex node .task .regular { config with driver := some text }

/-- Makes what a node becomes. -/
def materialize (policy : SpillPolicy) (p : Plan) (node : Node) : Step Unit :=
  match node.kind with
  | .source serializer => makeVertex node .input .dataSource (sourceConfig node serializer)
  | .sink => makeVertex node .output .dataSink (sinkConfig node)
  | .singleInput driver comparator => do
    let config := operatorConfig policy node driver [comparator] none
    match ← Step.ofExcept (blocker? p node driver), driver.chainDriver? with
    | none, some text => makeChain node text config
    | none, none => makeOperator node driver config
    | some reason, _ =>
      Step.report (.notFused node.id reason)
      makeOperator node driver config
  | .dualInput driver first second pairComparator =>
    makeOperator node driver (operatorConfig policy node driver [first, second] pairComparator)
  | .union => pure ()

/-! ## Section 3: Leaving a node -/

/-- The host for a fused node: the vertex of its producer, which gets an output slot as the entry to
the fused tasks, or the host of its producer's chain. -/
def findHost (node : Node) (producer : NodeId) : Step VertexId := do
  match (← get).outcome? producer with
  | some (.vertex id) =>
    Step.updateConfig id fun config => config.addOutput .forward
    return id
  | some (.fused id) =>
    match (← Step.chain id).host with
    | some host => return host
    | none => throw (.violation (.unhostedProducer node))
  | none => throw (.violation (.unloweredProducer producer node))

/-- Finds the host of a fused node. What was tested when the node was entered must still hold. -/
def resolveChain (p : Plan) (node : Node) (id : ChainId) : Step Unit := do
  match node.inputs with
  | [input] =>
    let channel ← Step.ofExcept (lookedUp (p.channel input))
    if channel.localStrategy ≠ .nothing then
      throw (.violation (.fusedLocalStrategy node channel.localStrategy))
    if channel.ship ≠ .forward then
      throw (.violation (.fusedShipStrategy node channel.ship))
    let host ← findHost node channel.source
    if (← Step.chain id).host.isSome then
      throw (.violation (.resolvedTwice node))
    Step.updateChain id fun chain =>
      { chain with
        host := some host
        config := chain.config.updateInput 0 fun slot =>
          { slot with serializer := some channel.serializer } }
    modify fun s => { s with resolved := s.resolved.push id }
    Step.report (.chainResolved node.id id host)
  | _ => throw (.violation (.fusedInputs node))

/-- Makes the wire for a branch of an input. -/
def wireBranch (target : VertexId) (input : Nat) (branch : Plan.Channel) : Step Unit := do
  let source ← Step.producer branch.source
  let (transport, pattern) ← Step.ofExcept branch.ship.wire
  Step.connect source.vertex { target, transport, pattern }
  Step.updateOwner source.owner fun config => config.addOutputFor branch
  Step.updateConfig target fun config => config.addWire input
  Step.report (.wireMade branch.id source.vertex target branch.ship transport pattern)

/-- The first branch that is serialized differently from the first one of all. -/
def serializerConflict? : List Plan.Channel → Option StepError
  | [] => none
  | first :: rest =>
    (rest.find? fun branch => branch.serializer ≠ first.serializer).map fun branch =>
      .serializerMismatch first.serializer branch.serializer

/-- Makes the wires of an input and describes its slot. -/
def wireInput (policy : SpillPolicy) (p : Plan) (node : Node) (target : VertexId)
    (slot : ChannelId × Nat) : Step Unit := do
  let (channelId, input) := slot
  let channel ← Step.ofExcept (lookedUp (p.channel channelId))
  let branches ← Step.ofExcept (lookedUp (p.branches channel))
  if branches = [] then
    throw (.violation (.noBranches input node))
  match serializerConflict? branches with
  | some conflict => throw conflict
  | none =>
    branches.forM (wireBranch target input)
    Step.updateConfig target fun config => config.describeInput policy channel input

/-- Makes the wires of all inputs of a node, or finds the host of its chain. -/
def wire (policy : SpillPolicy) (p : Plan) (node : Node) : Step Unit := do
  if node.isUnion ∨ node.inputs = [] then
    return
  match (← get).outcome? node.id with
  | some (.fused id) => resolveChain p node id
  | some (.vertex target) => node.inputs.zipIdx.forM (wireInput policy p node target)
  | none => throw (.violation (.noVertex node))

/-! ## Section 4: The visitor -/

/-- A step for a node, its error wrapped with the node. -/
def forNode {α : Type} (node : Node) (phase : Phase) (step : Step α) : EStateM CompileError State α :=
  EStateM.adaptExcept (.step node.display node.id phase) step

/-- The visitor that makes vertices and wires. A node that has become something is not entered
again. -/
def visitor (policy : SpillPolicy) (p : Plan) : Plan.Visitor State CompileError where
  enter node := do
    if ((← get).outcome? node.id).isSome then
      return false
    forNode node .materialize (materialize policy p node)
    return true
  leave node := forNode node .wire (wire policy p node)

end Lowering

end Dataflow
