import Dataflow.Task.Config

/-! # Encoding of task configurations

    Every setting is a field of its own; an absent one is `null`. Input slots
    and driver comparators are objects with positions as keys.
-/

namespace Dataflow

/-! ## Section 1: Parts -/

namespace Budget

/-- The JSON form. -/
def toJson (b : Budget) : Json :=
  .object [("memory_bytes", .ofNat b.memory.toNat), ("max_fan_in", .ofNat b.maxFanIn.toNat),
    ("spilling_threshold", .ofSingle b.threshold)]

/-- The budget of a record. -/
def ofJson? (j : Json) : Option Budget := do
  match ← Json.record? ["memory_bytes", "max_fan_in", "spilling_threshold"] 0 j with
  | [memory, maxFanIn, threshold] =>
    return {
      memory := ← Json.required? Json.uint64? memory
      maxFanIn := ← Json.required? Json.uint32? maxFanIn
      threshold := ← Json.required? Json.single? threshold }
  | _ => none

end Budget

namespace InputSlot

/-- The names of the fields. -/
def fieldNames : List String :=
  ["group_size", "serializer", "local_strategy", "comparator", "resources", "dammed", "replayable",
    "dam_memory"]

/-- The JSON form. -/
def toJson (slot : InputSlot) : Json :=
  .object [("group_size", .ofNat slot.wires.toNat),
    ("serializer", .ofOption Descriptor.toJson slot.serializer),
    ("local_strategy", .ofOption LocalStrategy.toJson slot.localStrategy),
    ("comparator", .ofOption Descriptor.toJson slot.comparator),
    ("resources", .ofOption Budget.toJson slot.budget),
    ("dammed", .bool slot.dammed),
    ("replayable", .bool slot.replayable),
    ("dam_memory", .ofOption (fun m => .ofNat m.toNat) slot.damMemory)]

/-- The slot of a record. -/
def ofJson? (j : Json) : Option InputSlot := do
  match ← Json.record? fieldNames 0 j with
  | [wires, serializer, localStrategy, comparator, budget, dammed, replayable, damMemory] =>
    return {
      wires := ← Json.required? Json.uint32? wires
      serializer := ← Json.optional? Descriptor.ofJson? serializer
      localStrategy := ← Json.optional? LocalStrategy.ofJson? localStrategy
      comparator := ← Json.optional? Descriptor.ofJson? comparator
      budget := ← Json.optional? Budget.ofJson? budget
      dammed := ← Json.required? Json.bool? dammed
      replayable := ← Json.required? Json.bool? replayable
      damMemory := ← Json.optional? Json.uint64? damMemory }
  | _ => none

end InputSlot

namespace OutputSlot

/-- The JSON form. -/
def toJson (slot : OutputSlot) : Json :=
  .object [("ship_strategy", slot.ship.toJson),
    ("comparator", .ofOption Descriptor.toJson slot.comparator)]

/-- The slot of a record. -/
def ofJson? (j : Json) : Option OutputSlot := do
  match ← Json.record? ["ship_strategy", "comparator"] 0 j with
  | [ship, comparator] =>
    return {
      ship := ← Json.required? ShipStrategy.ofJson? ship
      comparator := ← Json.optional? Descriptor.ofJson? comparator }
  | _ => none

end OutputSlot

/-! ## Section 2: Tasks -/

namespace TaskSettings

/-- The members for a task's own settings. -/
def members (t : TaskSettings) : List (String × Json) :=
  [("user_code", .ofOption UserCode.toJson t.userCode),
    ("driver", .ofOption .string t.driver),
    ("driver_strategy", .ofOption DriverStrategy.toJson t.driverStrategy),
    ("driver_comparators", .ofMap toString Descriptor.toJson t.driverComparators),
    ("driver_pair_comparator", .ofOption Descriptor.toJson t.pairComparator),
    ("driver_resources", .ofOption Budget.toJson t.driverBudget),
    ("sink_parallelism", .ofOption (fun p => .ofNat p.toNat) t.sinkParallelism),
    ("inputs", .ofMap toString InputSlot.toJson t.inputs),
    ("outputs", .ofList OutputSlot.toJson t.outputs),
    ("output_serializer", .ofOption Descriptor.toJson t.outputSerializer)]

/-- The names of the members. -/
def fieldNames : List String :=
  ["user_code", "driver", "driver_strategy", "driver_comparators", "driver_pair_comparator",
    "driver_resources", "sink_parallelism", "inputs", "outputs", "output_serializer"]

/-- The settings of the fields, in the order of `fieldNames`. -/
def ofFields? : List (Option Json) → Option TaskSettings
  | [userCode, driver, driverStrategy, driverComparators, pairComparator, driverBudget,
      sinkParallelism, inputs, outputs, outputSerializer] => do
    return {
      userCode := ← Json.optional? UserCode.ofJson? userCode
      driver := ← Json.optional? Json.string? driver
      driverStrategy := ← Json.optional? DriverStrategy.ofJson? driverStrategy
      driverComparators :=
        ← Json.required? (Json.map? Json.naturalKey? Descriptor.ofJson?) driverComparators
      pairComparator := ← Json.optional? Descriptor.ofJson? pairComparator
      driverBudget := ← Json.optional? Budget.ofJson? driverBudget
      sinkParallelism := ← Json.optional? Json.uint32? sinkParallelism
      inputs := ← Json.required? (Json.map? Json.naturalKey? InputSlot.ofJson?) inputs
      outputs := ← Json.required? (Json.list? OutputSlot.ofJson?) outputs
      outputSerializer := ← Json.optional? Descriptor.ofJson? outputSerializer }
  | _ => none

end TaskSettings

mutual

/-- The JSON form. -/
def TaskConfig.toJson : TaskConfig → Json
  | ⟨settings, fused⟩ =>
    .object (settings.members ++ [("chained_tasks", .array (FusedTask.toJsons fused))])

/-- The JSON forms of fused tasks. -/
def FusedTask.toJsons : List FusedTask → List Json
  | [] => []
  | ⟨driver, config, name⟩ :: rest =>
    .object [("driver", .string driver), ("config", config.toJson), ("name", .string name)]
      :: FusedTask.toJsons rest

end

/-! ## Section 3: Decoding nested tasks -/

namespace Json

mutual

/-- The number of values in a value, itself included. -/
def weight : Json → Nat
  | .array items => itemsWeight items + 1
  | .object members => membersWeight members + 1
  | _ => 1

/-- The number of values in items. -/
def itemsWeight : List Json → Nat
  | [] => 0
  | item :: rest => item.weight + itemsWeight rest

/-- The number of values in members. -/
def membersWeight : List (String × Json) → Nat
  | [] => 0
  | (_, value) :: rest => value.weight + membersWeight rest

end

end Json

mutual

/-- The configuration of a record; nesting is followed `depth` deep. -/
def TaskConfig.ofJsonWithin? : (depth : Nat) → Json → Option TaskConfig
  | 0, _ => none
  | depth + 1, j => do
    let fields ← Json.record? (TaskSettings.fieldNames ++ ["chained_tasks"]) 0 j
    let settings ← TaskSettings.ofFields? fields.dropLast
    let fused ← Json.required? (Json.list? (FusedTask.ofJsonWithin? depth)) (← fields.getLast?)
    return { toTaskSettings := settings, fused }

/-- The fused task of a record; nesting is followed `depth` deep. -/
def FusedTask.ofJsonWithin? : (depth : Nat) → Json → Option FusedTask
  | 0, _ => none
  | depth + 1, j => do
    match ← Json.record? ["driver", "config", "name"] 0 j with
    | [driver, config, name] =>
      return {
        driver := ← Json.required? Json.string? driver
        config := ← Json.required? (TaskConfig.ofJsonWithin? depth) config
        name := ← Json.required? Json.string? name }
    | _ => none

end

/-- The configuration of a record. A value is nested less deep than it has parts. -/
def TaskConfig.ofJson? (j : Json) : Option TaskConfig := TaskConfig.ofJsonWithin? j.weight j

end Dataflow
