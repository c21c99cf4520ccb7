import Dataflow.Plan.Basic
import Dataflow.Json.Printer
import Dataflow.Json.Reader

/-! # Encoding of plans

    The JSON form of a plan, and its decoding, which ends in the admission of
    the parts, so that a decoded plan keeps what every plan keeps. A plan comes
    as a text or as part of a greater value; a text leaves more freedom in how
    the kind of a node is written.
-/

namespace Dataflow

namespace Plan

/-! ## Section 1: Nodes and channels -/

namespace Kind

/-- The JSON form. -/
def toJson : Kind → Json
  | source serializer => .object [("Source", .object [("serializer", serializer.toJson)])]
  | sink => .string "Sink"
  | singleInput driver comparator =>
    .object [("SingleInput", .object [("driver", driver.toJson),
      ("comparator", .ofOption Descriptor.toJson comparator)])]
  | dualInput driver comparator₁ comparator₂ pairComparator =>
    .object [("DualInput", .object [("driver", driver.toJson),
      ("comparator1", .ofOption Descriptor.toJson comparator₁),
      ("comparator2", .ofOption Descriptor.toJson comparator₂),
      ("pair_comparator", .ofOption Descriptor.toJson pairComparator)])]
  | union => .string "Union"

/-- The kind of a variant. -/
def ofJson? (origin : Json.Origin) (j : Json) : Option Kind := do
  let (name, content) ← Json.variant? j
  if name = "Source" then
    match ← Json.content? origin ["serializer"] content with
    | [serializer] => return source (← Json.required? Descriptor.ofJson? serializer)
    | _ => none
  else if name = "SingleInput" then
    match ← Json.content? origin ["driver", "comparator"] content with
    | [driver, comparator] =>
      return singleInput (← Json.required? DriverStrategy.ofJson? driver)
        (← Json.optional? Descriptor.ofJson? comparator)
    | _ => none
  else if name = "DualInput" then
    match ← Json.content? origin ["driver", "comparator1", "comparator2", "pair_comparator"] content with
    | [driver, comparator₁, comparator₂, pairComparator] =>
      return dualInput (← Json.required? DriverStrategy.ofJson? driver)
        (← Json.optional? Descriptor.ofJson? comparator₁)
        (← Json.optional? Descriptor.ofJson? comparator₂)
        (← Json.optional? Descriptor.ofJson? pairComparator)
    | _ => none
  else match name, content with
    | "Sink", .null => return sink
    | "Union", .null => return union
    | _, _ => none

end Kind

namespace Node

/-- The names of the fields. -/
def fieldNames : List String :=
  ["id", "name", "kind", "parallelism", "subtasks_per_instance", "memory_per_subtask", "user_code",
    "inputs", "outgoing"]

/-- The JSON form. -/
def toJson (n : Node) : Json :=
  .object [("id", n.id.toJson), ("name", .string n.name), ("kind", n.kind.toJson),
    ("parallelism", .ofNat n.parallelism.toNat),
    ("subtasks_per_instance", .ofOption (fun k => .ofNat k.toNat) n.subtasksPerInstance),
    ("memory_per_subtask", .ofNat n.memory.toNat), ("user_code", n.userCode.toJson),
    ("inputs", .ofList Handle.toJson n.inputs), ("outgoing", .ofList Handle.toJson n.outgoing)]

/-- The node of a record. -/
def ofJson? (origin : Json.Origin) (j : Json) : Option Node := do
  match ← Json.record? fieldNames 0 j with
  | [id, name, kind, parallelism, subtasksPerInstance, memory, userCode, inputs, outgoing] =>
    return {
      id := ← Json.required? Handle.ofJson? id
      name := ← Json.required? Json.string? name
      kind := ← Json.required? (Kind.ofJson? origin) kind
      parallelism := ← Json.required? Json.uint32? parallelism
      subtasksPerInstance := ← Json.optional? Json.uint32? subtasksPerInstance
      memory := ← Json.required? Json.uint64? memory
      userCode := ← Json.required? UserCode.ofJson? userCode
      inputs := ← Json.required? (Json.list? Handle.ofJson?) inputs
      outgoing := ← Json.required? (Json.list? Handle.ofJson?) outgoing }
  | _ => none

end Node

namespace Channel

/-- The names of the fields. -/
def fieldNames : List String :=
  ["id", "source", "target", "ship_strategy", "ship_comparator", "local_strategy",
    "local_comparator", "serializer", "temp_mode", "temp_memory", "local_strategy_memory"]

/-- The JSON form. -/
def toJson (c : Channel) : Json :=
  .object [("id", c.id.toJson), ("source", c.source.toJson), ("target", c.target.toJson),
    ("ship_strategy", c.ship.toJson),
    ("ship_comparator", .ofOption Descriptor.toJson c.shipComparator),
    ("local_strategy", c.localStrategy.toJson),
    ("local_comparator", .ofOption Descriptor.toJson c.localComparator),
    ("serializer", c.serializer.toJson), ("temp_mode", c.tempMode.toJson),
    ("temp_memory", .ofNat c.tempMemory.toNat),
    ("local_strategy_memory", .ofNat c.localMemory.toNat)]

/-- The channel of a record. -/
def ofJson? (j : Json) : Option Channel := do
  match ← Json.record? fieldNames 0 j with
  | [id, source, target, ship, shipComparator, localStrategy, localComparator, serializer, tempMode,
      tempMemory, localMemory] =>
    return {
      id := ← Json.required? Handle.ofJson? id
      source := ← Json.required? Handle.ofJson? source
      target := ← Json.required? Handle.ofJson? target
      ship := ← Json.required? ShipStrategy.ofJson? ship
      shipComparator := ← Json.optional? Descriptor.ofJson? shipComparator
      localStrategy := ← Json.required? LocalStrategy.ofJson? localStrategy
      localComparator := ← Json.optional? Descriptor.ofJson? localComparator
      serializer := ← Json.required? Descriptor.ofJson? serializer
      tempMode := ← Json.required? TempMode.ofJson? tempMode
      tempMemory := ← Json.required? Json.uint64? tempMemory
      localMemory := ← Json.required? Json.uint64? localMemory }
  | _ => none

end Channel

/-! ## Section 2: Parts -/

namespace Parts

/-- The names of the fields. -/
def fieldNames : List String :=
  ["job_name", "config", "instance_type", "nodes", "channels", "sinks"]

/-- The JSON form. -/
def toJson (q : Parts) : Json :=
  .object [("job_name", .string q.jobName), ("config", q.config.toJson),
    ("instance_type", .ofOption .string q.instanceType),
    ("nodes", .ofList Node.toJson q.nodes.toList),
    ("channels", .ofList Channel.toJson q.channels.toList),
    ("sinks", .ofList Handle.toJson q.sinks)]

/-- The parts of a record. -/
def ofJson? (origin : Json.Origin) (j : Json) : Option Parts := do
  match ← Json.record? fieldNames 0 j with
  | [jobName, config, instanceType, nodes, channels, sinks] =>
    return {
      jobName := ← Json.required? Json.string? jobName
      config := ← Json.required? Configuration.ofJson? config
      instanceType := ← Json.optional? Json.string? instanceType
      nodes := (← Json.required? (Json.list? (Node.ofJson? origin)) nodes).toArray
      channels := (← Json.required? (Json.list? Channel.ofJson?) channels).toArray
      sinks := ← Json.required? (Json.list? Handle.ofJson?) sinks }
  | _ => none

end Parts

/-! ## Section 3: Plans -/

/-- Why a value or a text is no plan. -/
inductive Refusal where
  /-- It has not the shape of parts. -/
  | shape
  /-- Its parts are not admitted. -/
  | fault (fault : Fault)

/-- The plan whose parts a JSON value holds. -/
def ofJson (origin : Json.Origin) (j : Json) : Except Refusal Plan :=
  match Parts.ofJson? origin j with
  | none => .error .shape
  | some q => (ofParts q).mapError .fault

/-- The text of a plan. -/
def toText (p : Plan) : String := p.toParts.toJson.render

/-- The plan that a text holds. -/
def ofText (text : String) : Except Refusal Plan :=
  match Json.scan? text.toList with
  | none => .error .shape
  | some j => ofJson .text j

end Plan

end Dataflow
