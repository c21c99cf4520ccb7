import Dataflow.Proofs.Journal

/-! # Faults of callbacks

    Why entering or leaving a node of a plan fails, read off the plan: these
    faults do not depend on what has been built before.
-/

namespace Dataflow

namespace Plan

open Lowering

variable (p : Plan)

/-! ## Section 1: Faults -/

/-- The fault of a branch: a ship strategy that has no wire. -/
def shipFault? (b : Channel) : Option StepError :=
  match b.ship.wire with
  | .error e => some e
  | .ok _ => none

/-- The fault of an input slot of a node: no branches, branches that disagree, or one without a
wire. -/
def slotFault? (n : Node) (slot : ChannelId × Nat) : Option StepError :=
  if p.branchesOf slot.1 = [] then some (.violation (.noBranches slot.2 n))
  else (serializerConflict? (p.branchesOf slot.1)).or ((p.branchesOf slot.1).findSome? shipFault?)

/-- The fault of an operator that gets a vertex. -/
def driverFault? (n : Node) (driver : DriverStrategy) : Option StepError :=
  if driver.taskDriver? = none then some (.violation (.noDriver n)) else none

/-- The fault of entering a node. -/
def enterFault? (n : Node) : Option StepError :=
  match n.kind with
  | .singleInput driver _ =>
    match blocker? p n driver with
    | .error e => some e
    | .ok none => none
    | .ok (some _) => driverFault? n driver
  | .dualInput driver .. => driverFault? n driver
  | .source _ | .sink | .union => none

/-- The fault of leaving a node. -/
def leaveFault? (n : Node) : Option StepError :=
  if p.fuses n then
    if n.inputs.length = 1 then none else some (.violation (.fusedInputs n))
  else n.inputs.zipIdx.findSome? (p.slotFault? n)

/-- Whether a branch has a wire is read off its shipment. -/
theorem shipFault?_congr {b b' : Channel} (h : b'.toShipment = b.toShipment) :
    shipFault? b' = shipFault? b := by
  simp only [shipFault?, h]

/-- Whether branches disagree is read off their shipments. -/
theorem serializerConflict?_map {f : Channel → Channel}
    (hf : ∀ b, (f b).toShipment = b.toShipment) (branches : List Channel) :
    serializerConflict? (branches.map f) = serializerConflict? branches := by
  cases branches with
  | nil => rfl
  | cons first rest =>
    simp only [List.map_cons, serializerConflict?, List.find?_map, Option.map_map, hf,
      Function.comp_def]

/-- The fault of a callback. -/
def callbackFault? : Callback → Option CompileError
  | .enter n => (p.enterFault? n).map (.step n.display n.id .materialize)
  | .leave n => (p.leaveFault? n).map (.step n.display n.id .wire)

end Plan

end Dataflow
