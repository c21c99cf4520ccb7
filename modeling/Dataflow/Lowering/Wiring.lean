import Dataflow.Lowering.Error

/-! # Wires for channels

    The ship strategy of a channel alone decides the transport and the pattern
    of its wire. What the consumer has to know about an input is read off the
    channel on the consumer's side, once for each input slot.
-/

namespace Dataflow

open Lowering (StepError)

/-! ## Section 1: Transport and pattern -/

/-- The transport and the pattern of the wire for a ship strategy. -/
def ShipStrategy.wire : ShipStrategy → Except StepError (Transport × Pattern)
  | forward | partitionLocalHash => .ok (.inMemory, .pointwise)
  | partitionRandom | broadcast | partitionHash => .ok (.network, .bipartite)
  | partitionRange => .error (.unsupported .rangePartitioning)
  | unset => .error (.violation .unsetShipStrategy)

/-! ## Section 2: Slots -/

/-- The slot of an input as its channel asks for it; the count of wires stays. -/
def InputSlot.describe (slot : InputSlot) (policy : SpillPolicy) (channel : Plan.Channel) :
    InputSlot :=
  let prepared := channel.localStrategy ≠ .nothing
  { slot with
    serializer := some channel.serializer
    localStrategy := if prepared then some channel.localStrategy else slot.localStrategy
    comparator := if prepared then channel.localComparator <|> slot.comparator else slot.comparator
    budget := policy.budget? channel.localMemory <|> slot.budget
    dammed := slot.dammed || channel.tempMode.breaksPipeline
    replayable := slot.replayable || channel.tempMode.isReplayable
    damMemory := if channel.tempMode ≠ .nothing then some channel.tempMemory else slot.damMemory }

/-- The configuration with one input described by its channel. -/
def TaskConfig.describeInput (t : TaskConfig) (policy : SpillPolicy) (channel : Plan.Channel)
    (input : Nat) : TaskConfig :=
  t.updateInput input fun slot => slot.describe policy channel

/-- The configuration with one more output slot, for a channel. The first channel also says how the
output is serialized. -/
def TaskConfig.addOutputFor (t : TaskConfig) (channel : Plan.Channel) : TaskConfig :=
  { t with
    outputs := t.outputs ++ [{ ship := channel.ship, comparator := channel.shipComparator }]
    outputSerializer := if t.outputs = [] then some channel.serializer else t.outputSerializer }

end Dataflow
