import Dataflow.Plan.Basic

/-! # Building plans

    Nodes are added and connected one by one; a channel becomes the next input
    of its target. In the end the channels of every node are compared with its
    kind, the sinks are taken in the order of their adding, and the rest is
    the admission of parts.
-/

namespace Dataflow

namespace Plan

/-! ## Section 1: Drafts -/

/-- A node without its place and its channels. -/
structure NodeDraft where
  /-- Its name. -/
  name : String
  /-- Its kind. -/
  kind : Kind
  /-- The number of its subtasks. -/
  parallelism : UInt32 := 1
  /-- The number of subtasks on one instance, if it is set. -/
  subtasksPerInstance : Option UInt32 := none
  /-- Memory of a subtask in bytes. -/
  memory : UInt64 := 0
  /-- Its user code, by default a class named after the node. -/
  userCode : UserCode := { className := name ++ "Stub" }

namespace NodeDraft

/-- The draft with the comparator of the only or the first input; other kinds have none. -/
def withComparator (d : NodeDraft) (comparator : Comparator) : NodeDraft :=
  match d.kind with
  | .singleInput driver _ => { d with kind := .singleInput driver (some comparator) }
  | .dualInput driver _ second pair => { d with kind := .dualInput driver (some comparator) second pair }
  | _ => d

/-- The draft with the comparator of the second input; other kinds have none. -/
def withSecondComparator (d : NodeDraft) (comparator : Comparator) : NodeDraft :=
  match d.kind with
  | .dualInput driver first _ pair => { d with kind := .dualInput driver first (some comparator) pair }
  | _ => d

/-- The draft with the comparator between two inputs; other kinds have none. -/
def withPairComparator (d : NodeDraft) (comparator : PairComparator) : NodeDraft :=
  match d.kind with
  | .dualInput driver first second _ => { d with kind := .dualInput driver first second (some comparator) }
  | _ => d

/-- The node of a draft, without channels. -/
def toNode (d : NodeDraft) (id : NodeId) : Node :=
  { id, name := d.name, kind := d.kind, parallelism := d.parallelism
    subtasksPerInstance := d.subtasksPerInstance, memory := d.memory, userCode := d.userCode
    inputs := [], outgoing := [] }

end NodeDraft

/-! ## Section 2: Builders -/

/-- A plan in the making: parts without sinks. -/
structure Builder where
  /-- What has been added so far. -/
  parts : Parts

namespace Builder

/-- A builder without nodes. -/
def new (jobName : String) (config : Configuration := .empty)
    (instanceType : Option String := none) : Builder :=
  ⟨{ jobName, config, instanceType }⟩

/-- One more node. -/
def add (b : Builder) (draft : NodeDraft) : NodeId × Builder :=
  let id : NodeId := ⟨b.parts.nodes.size⟩
  (id, { b with parts.nodes := b.parts.nodes.push (draft.toNode id) })

/-- One more channel, which becomes the next input of its target. -/
def connect (b : Builder) (source target : NodeId) (shipment : Shipment) :
    Except Fault (ChannelId × Builder) :=
  let count := b.parts.nodes.size
  if source.index < count ∧ target.index < count then
    if source = target then .error (.selfLoop source)
    else
      let id : ChannelId := ⟨b.parts.channels.size⟩
      let channels := b.parts.channels.push { shipment with id, source, target }
      let nodes := b.parts.nodes.modify source.index fun n => { n with outgoing := n.outgoing ++ [id] }
      let nodes := nodes.modify target.index fun n => { n with inputs := n.inputs ++ [id] }
      .ok (id, { b with parts.nodes := nodes, parts.channels := channels })
  else .error (.unknownEnd source target)

/-! ## Section 3: Checks -/

/-- The first respect in which the channels of a node do not fit it: the number of its inputs, the
number that its driver takes, its parallelism, and the outgoing channels of a sink. -/
def nodeMisfit? (n : Node) : Option Fault :=
  let inputs : Option Fault :=
    match n.kind.inputCount? with
    | some expected => if n.inputs.length = expected then none else some (.inputCount n expected)
    | none => if n.inputs = [] then some (.noInputs n) else none
  let driver : Option Fault :=
    n.kind.driver?.bind fun d =>
      if some d.inputCount = n.kind.inputCount? then none else some (.driverInputs n d)
  let parallelism : Option Fault := if n.parallelism = 0 then some (.zeroParallelism n) else none
  let outgoing : Option Fault :=
    if n.kind.isSink ∧ n.outgoing ≠ [] then some (.sinkOutgoing n) else none
  inputs.or (driver.or (parallelism.or outgoing))

/-- The sinks in the order of their adding. -/
def sinks (b : Builder) : List NodeId :=
  (b.parts.nodes.toList.filter fun n => n.kind.isSink).map Node.id

/-- The plan of what has been added, or the first fault. A plan with nodes needs a sink. -/
def build (b : Builder) : Except Fault Plan :=
  match b.parts.nodes.toList.findSome? nodeMisfit? with
  | some fault => .error fault
  | none =>
    if b.sinks = [] ∧ 0 < b.parts.nodes.size then .error .noSinks
    else ofParts { b.parts with sinks := b.sinks }

end Builder

end Plan

end Dataflow
