import Dataflow.Task.Config
import Dataflow.Json.Printer

/-! # Flat task configurations

    The form of a task configuration that the runtime reads: settings under
    string keys. Descriptors are held as JSON texts, counts and sizes as
    integers, and the settings of a fused task stand under a key of its own.

    The flat form is the configuration of a list of entries, which `entries`
    writes down in one pass.
-/

namespace Dataflow

/-- A key and its setting. -/
abbrev Entry := String × Setting

/-! ## Section 1: Parts -/

/-- A descriptor as text. -/
def Descriptor.setting {role : Descriptor.Role} (d : Descriptor role) : Setting :=
  .string d.toJson.render

/-- A natural number as a setting. -/
def Setting.ofNat (n : Nat) : Setting := .integer (Int64.ofNat n)

/-- The entry of an optional value, none if it is absent. -/
def optionalEntry {α : Type} (key : String) (value : Option α) (setting : α → Setting) : List Entry :=
  match value with
  | none => []
  | some a => [(key, setting a)]

/-- The entry of a mark that only shows when it is set. -/
def markEntry (key : String) (mark : Bool) : List Entry :=
  if mark then [(key, .bool true)] else []

namespace Budget

/-- The entries of a budget. The memory is the signed reading of its 64 bits. -/
def entries (b : Budget) (owner : String) : List Entry :=
  [(owner ++ ".memory", .integer b.memory.toInt64),
    (owner ++ ".max-fan", .ofNat b.maxFanIn.toNat),
    (owner ++ ".spill-threshold", .float b.threshold.convert)]

end Budget

namespace InputSlot

/-- The entries of the input at a position. -/
def entries (slot : InputSlot) (position : Nat) : List Entry :=
  let owner := "in." ++ toString position
  [(owner ++ ".group-size", .ofNat slot.wires.toNat)]
    ++ optionalEntry (owner ++ ".serializer") slot.serializer Descriptor.setting
    ++ optionalEntry (owner ++ ".local-strategy") slot.localStrategy (fun s => .string s.display)
    ++ optionalEntry (owner ++ ".comparator") slot.comparator Descriptor.setting
    ++ (match slot.budget with
      | none => []
      | some b => b.entries owner)
    ++ markEntry (owner ++ ".dammed") slot.dammed
    ++ markEntry (owner ++ ".replayable") slot.replayable
    ++ optionalEntry (owner ++ ".dam-memory") slot.damMemory (fun m => .integer m.toInt64)

end InputSlot

namespace OutputSlot

/-- The entries of the output at a position. -/
def entries (slot : OutputSlot) (position : Nat) : List Entry :=
  let owner := "out." ++ toString position
  (owner ++ ".ship-strategy", .string slot.ship.display)
    :: optionalEntry (owner ++ ".comparator") slot.comparator Descriptor.setting

end OutputSlot

namespace UserCode

/-- The entries of the user code. -/
def entries (u : UserCode) : List Entry :=
  ("stub.class", .string u.className)
    :: u.parameters.entries.map fun e => ("stub.param." ++ e.1, e.2)

end UserCode

/-! ## Section 2: Tasks -/

namespace TaskSettings

/-- The entries of a task's own settings. -/
def entries (t : TaskSettings) : List Entry :=
  (match t.userCode with
    | none => []
    | some u => u.entries)
    ++ optionalEntry "driver.class" t.driver .string
    ++ optionalEntry "driver.strategy" t.driverStrategy (fun s => .string s.name)
    ++ t.driverComparators.entries.map
      (fun e => ("driver.comparator." ++ toString e.1, e.2.setting))
    ++ optionalEntry "driver.pair-comparator" t.pairComparator Descriptor.setting
    ++ (match t.driverBudget with
      | none => []
      | some b => b.entries "driver")
    ++ optionalEntry "sink.dop" t.sinkParallelism (fun p => .ofNat p.toNat)
    ++ ("in.num", .ofNat t.inputs.size) :: t.inputs.entries.flatMap (fun e => e.2.entries e.1)
    ++ ("out.num", .ofNat t.outputs.length)
      :: t.outputs.zipIdx.flatMap (fun slot => slot.1.entries slot.2)
    ++ optionalEntry "out.serializer" t.outputSerializer Descriptor.setting

end TaskSettings

/-- The place of the settings of a fused task. -/
def fusedOwner (position : Nat) : String := "chaining." ++ toString position

/-- The number of fused tasks, if there are any. -/
def fusedCountEntry (count : Nat) : List Entry :=
  if count = 0 then [] else [("chaining.num", .ofNat count)]

mutual

/-- Every entry of a task, its own settings first. -/
def TaskConfig.entries : TaskConfig → List Entry
  | ⟨settings, fused⟩ =>
    settings.entries ++ fusedCountEntry fused.length ++ FusedTask.entriesFrom 0 fused

/-- The entries of fused tasks, the first of which stands at `position`. -/
def FusedTask.entriesFrom (position : Nat) : List FusedTask → List Entry
  | [] => []
  | ⟨driver, config, name⟩ :: rest =>
    (fusedOwner position ++ ".class", .string driver)
      :: (fusedOwner position ++ ".name", .string name)
      :: config.entries.map (fun e => (fusedOwner position ++ ".config." ++ e.1, e.2))
      ++ FusedTask.entriesFrom (position + 1) rest

end

/-- The flat form of a task. -/
def TaskConfig.flatten (t : TaskConfig) : Configuration := SortedMap.ofList t.entries

end Dataflow
