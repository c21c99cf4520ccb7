import Dataflow.Descriptor
import Dataflow.Strategy
import Dataflow.SpillPolicy

/-! # Task configurations

    What the runtime needs to know to run one task: its driver and user code,
    its input and output slots, and the tasks fused into its thread. Settings
    are only ever set or added, never removed.
-/

namespace Dataflow

/-! ## Section 1: Slots and budgets -/

/-- Memory for a driver or for the preparation of an input, with the limits of the spill policy. -/
structure Budget where
  /-- The memory in bytes. -/
  memory : UInt64
  /-- The greatest number of runs that are merged at once. -/
  maxFanIn : UInt32
  /-- The part of the memory that may be full before a sorter spills. -/
  threshold : Binary32
deriving DecidableEq

/-- One logical input of a task. -/
structure InputSlot where
  /-- The number of wires that feed the slot. -/
  wires : UInt32 := 0
  /-- How its records are serialized. -/
  serializer : Option Serializer := none
  /-- How it is prepared. -/
  localStrategy : Option LocalStrategy := none
  /-- The order of the preparation. -/
  comparator : Option Comparator := none
  /-- The memory of the preparation. -/
  budget : Option Budget := none
  /-- Whether it is held back until all of it has arrived. -/
  dammed : Bool := false
  /-- Whether it can be read again. -/
  replayable : Bool := false
  /-- The memory of its buffer in bytes. -/
  damMemory : Option UInt64 := none
deriving DecidableEq

/-- One output of a task. -/
structure OutputSlot where
  /-- How its records are routed. -/
  ship : ShipStrategy
  /-- The keys that the routing looks at. -/
  comparator : Option Comparator := none
deriving DecidableEq

/-! ## Section 2: Configurations -/

/-- The settings of a task by itself, without the tasks fused into it. -/
structure TaskSettings where
  /-- The user code. -/
  userCode : Option UserCode := none
  /-- The runtime's driver. -/
  driver : Option String := none
  /-- The algorithm that the driver runs. -/
  driverStrategy : Option DriverStrategy := none
  /-- The driver's comparators by input. -/
  driverComparators : SortedMap Nat Comparator := .empty
  /-- The driver's comparator between its inputs. -/
  pairComparator : Option PairComparator := none
  /-- The driver's memory. -/
  driverBudget : Option Budget := none
  /-- The parallelism of a sink. -/
  sinkParallelism : Option UInt32 := none
  /-- The input slots by position. -/
  inputs : SortedMap Nat InputSlot := .empty
  /-- The output slots in order. -/
  outputs : List OutputSlot := []
  /-- How the output is serialized. -/
  outputSerializer : Option Serializer := none

mutual

/-- The settings of a task and the tasks fused into it. -/
structure TaskConfig extends TaskSettings where
  /-- The tasks that run in the same thread, in the order of execution. -/
  fused : List FusedTask := []

/-- A task that runs inside the thread of another one. -/
structure FusedTask where
  /-- The driver that records are pushed to. -/
  driver : String
  /-- Its own configuration. -/
  config : TaskConfig
  /-- Its name. -/
  name : String

end

instance : Inhabited TaskConfig := ⟨{}⟩

namespace TaskConfig

/-! ## Section 3: Operations -/

/-- The configuration with one input slot passed through `f`; a missing slot is made first. -/
def updateInput (t : TaskConfig) (input : Nat) (f : InputSlot → InputSlot) : TaskConfig :=
  { t with inputs := t.inputs.update input {} f }

/-- One more wire feeds an input. The count is a 32-bit word. -/
def addWire (t : TaskConfig) (input : Nat) : TaskConfig :=
  t.updateInput input fun slot => { slot with wires := slot.wires + 1 }

/-- One more output slot. -/
def addOutput (t : TaskConfig) (ship : ShipStrategy) : TaskConfig :=
  { t with outputs := t.outputs ++ [{ ship }] }

/-- The comparator of an output slot; none if there is no such slot. -/
def setOutputComparator? (t : TaskConfig) (comparator : Comparator) (output : Nat) :
    Option TaskConfig :=
  if output < t.outputs.length then
    some { t with outputs := t.outputs.modify output fun slot => { slot with comparator } }
  else none

/-- One more fused task, behind the others. -/
def fuse (t : TaskConfig) (task : FusedTask) : TaskConfig := { t with fused := t.fused ++ [task] }

end TaskConfig

/-- Memory with the limits of a policy; none for no memory. -/
def SpillPolicy.budget? (p : SpillPolicy) (memory : UInt64) : Option Budget :=
  if memory = 0 then none
  else some { memory, maxFanIn := p.maxFanIn, threshold := p.threshold }

/-! ## Section 4: All tasks of a thread -/

/-- The budgets of a task by itself: that of its driver and those of its inputs. -/
def TaskSettings.budgets (t : TaskSettings) : List Budget :=
  t.driverBudget.toList ++ t.inputs.entries.filterMap fun e => e.2.budget

/-- What holds of a task when it holds of all tasks fused into it holds of every task. -/
theorem TaskConfig.induction {motive : TaskConfig → Prop}
    (step : ∀ t : TaskConfig, (∀ task ∈ t.fused, motive task.config) → motive t) (t : TaskConfig) :
    motive t := by
  apply step
  intro task htask
  exact induction step task.config
termination_by sizeOf t
decreasing_by
  obtain ⟨settings, fused⟩ := t
  obtain ⟨driver, config, name⟩ := task
  have hlt := List.sizeOf_lt_of_mem htask
  simp only [mk.sizeOf_spec, FusedTask.mk.sizeOf_spec] at hlt ⊢
  omega

/-- What holds of the settings of a task and of all tasks in its thread, however they are nested. -/
inductive TaskConfig.Everywhere (P : TaskSettings → Prop) : TaskConfig → Prop where
  | intro {t : TaskConfig} (own : P t.toTaskSettings)
    (fused : ∀ task ∈ t.fused, Everywhere P task.config) : Everywhere P t

theorem TaskConfig.Everywhere.and {P Q : TaskSettings → Prop} {t : TaskConfig}
    (h : t.Everywhere P) (h' : t.Everywhere Q) : t.Everywhere fun s => P s ∧ Q s := by
  induction h with
  | intro own _ ih =>
    obtain ⟨own', fused'⟩ := h'
    exact .intro ⟨own, own'⟩ fun task htask => ih task htask (fused' task htask)

end Dataflow
