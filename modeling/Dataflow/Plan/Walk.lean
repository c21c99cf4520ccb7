import Dataflow.Plan.Basic

/-! # Walks over a plan

    A walk starts at every sink in turn and goes against the flow of records.
    A visitor enters a node before its producers are walked and leaves it after
    them; it may decline to enter, and it may fail, which ends the walk.

    The walk is defined twice: with a stack of its own, which is how it is run,
    and by recursion on the plan, which is how it is understood.
-/

namespace Dataflow

namespace Plan

-- The empty sum is the zero of the core library, whatever else is imported.
attribute [local instance (high)] Zero.ofOfNat0

/-! ## Section 1: Visitors -/

/-- The callbacks of a walk, with a state that outlives a failure. -/
structure Visitor (σ ε : Type) where
  /-- Called before the producers of a node; the answer `false` passes over them and the leaving. -/
  enter : Node → EStateM ε σ Bool
  /-- Called after the producers of a node. -/
  leave : Node → EStateM ε σ Unit

/-! ## Section 2: The walk with a stack -/

/-- A node that has been entered, and the inputs that are still to be walked. -/
structure Visit where
  /-- The node. -/
  node : Node
  /-- Its inputs that are still to be walked. -/
  pending : List ChannelId

/-- The node that a channel starts at. -/
def producer? (p : Plan) (c : ChannelId) : Option Node :=
  (p.channel? c).bind fun ch => p.node? ch.source

/-- The greatest number of steps that a visit still takes. -/
noncomputable def visitWork (p : Plan) (visit : Visit) : Nat :=
  1 + (visit.pending.map p.channelWork).sum

theorem channelWork_pos (p : Plan) (c : ChannelId) : 0 < p.channelWork c := by
  unfold channelWork
  split <;> omega

theorem channelWork_eq (p : Plan) {c : ChannelId} {n : Node} (h : p.producer? c = some n) :
    p.channelWork c = 2 + (n.inputs.map p.channelWork).sum := by
  unfold producer? at h
  obtain ⟨ch, hch, hn⟩ := Option.bind_eq_some_iff.mp h
  simp only [channelWork, hch, p.work_eq hn]
  omega

/-- Goes on with the visits on a stack. -/
def walkFrom {σ ε : Type} (p : Plan) (v : Visitor σ ε) : List Visit → σ → EStateM.Result ε σ Unit
  | [], s => .ok () s
  | ⟨n, []⟩ :: stack, s =>
    match v.leave n s with
    | .error e s => .error e s
    | .ok _ s => p.walkFrom v stack s
  | ⟨n, c :: rest⟩ :: stack, s =>
    match _ : p.producer? c with
    | none => p.walkFrom v (⟨n, rest⟩ :: stack) s
    | some producer =>
      match v.enter producer s with
      | .error e s => .error e s
      | .ok false s => p.walkFrom v (⟨n, rest⟩ :: stack) s
      | .ok true s => p.walkFrom v (⟨producer, producer.inputs⟩ :: ⟨n, rest⟩ :: stack) s
termination_by stack => (stack.map p.visitWork).sum
decreasing_by
  · simp [visitWork]
  · have := p.channelWork_pos c
    simp only [visitWork, List.map_cons, List.sum_cons]
    omega
  · have := p.channelWork_pos c
    simp only [visitWork, List.map_cons, List.sum_cons]
    omega
  · have := p.channelWork_eq (by assumption)
    simp only [visitWork, List.map_cons, List.sum_cons]
    omega

/-- Walks from one node. -/
def walkNode {σ ε : Type} (p : Plan) (v : Visitor σ ε) (id : NodeId) : EStateM ε σ Unit := fun s =>
  match p.node? id with
  | none => .ok () s
  | some n =>
    match v.enter n s with
    | .error e s => .error e s
    | .ok false s => .ok () s
    | .ok true s => p.walkFrom v [⟨n, n.inputs⟩] s

/-- Walks from every sink in order. -/
def walk {σ ε : Type} (p : Plan) (v : Visitor σ ε) : EStateM ε σ Unit := p.sinks.forM (p.walkNode v)

/-! ## Section 3: The walk by recursion -/

/-- Visits a node: enters it, visits the source of every input in slot order, and leaves it. -/
def visit {σ ε : Type} (p : Plan) (v : Visitor σ ε) (id : NodeId) : EStateM ε σ Unit :=
  match hn : p.node? id with
  | none => pure ()
  | some n => do
    if ← v.enter n then
      n.inputs.attach.forM fun ⟨c, hc⟩ =>
        match hch : p.channel? c with
        | none => pure ()
        | some ch =>
          have := p.rank_lt_of_input hn hc hch
          p.visit v ch.source
      v.leave n
termination_by p.rank id

/-- Visits every sink in order. -/
def depthFirst {σ ε : Type} (p : Plan) (v : Visitor σ ε) : EStateM ε σ Unit :=
  p.sinks.forM (p.visit v)

end Plan

end Dataflow
