import Dataflow.Lowering.State

/-! # Placements

    What a finished compilation says beside the graph: where every node of the
    plan is in the graph, which vertex the others share instances with, and
    what the plan left open.
-/

namespace Dataflow

namespace Lowering

open Plan (Node)

/-! ## Section 1: Placements -/

/-- Where a node is in the job graph. -/
inductive Placement where
  /-- It is a vertex. -/
  | vertex (id : VertexId)
  /-- It is a fused task of a vertex. -/
  | chained (place : Place)
  /-- It is a union, which only joins wires. -/
  | spliced
deriving DecidableEq

namespace Placement

/-- Whether a node is a fused task. -/
def isChained : Placement → Bool
  | chained _ => true
  | _ => false

/-- The JSON form. -/
def toJson : Placement → Json
  | vertex id => .object [("Vertex", id.toJson)]
  | chained place =>
    .object [("Chained",
      .object [("host", place.host.toJson), ("position", .ofNat place.position)])]
  | spliced => .string "Spliced"

end Placement

/-- The placement of a node: what became of it, where the places of the chains are known. A node
that no sink can reach has none, unless it is a union. -/
def State.placement? (s : State) (places : Array (Option Place)) (node : Node) :
    Except StepError (Option Placement) :=
  match s.outcome? node.id with
  | some (.vertex id) => .ok (some (.vertex id))
  | some (.fused id) =>
    match places[id.index]?.join with
    | some place => .ok (some (.chained place))
    | none => .error (.violation (.unplaced node))
  | none => .ok (if node.isUnion then some .spliced else none)

/-! ## Section 2: Reports -/

/-- Something that a plan left open and a compilation went on without. -/
inductive Diagnostic where
  /-- The plan sets no type of instances, and so the anchor has none. -/
  | missingInstanceType (anchor : VertexId)
deriving DecidableEq

namespace Diagnostic

/-- The text of a diagnostic. -/
def message : Diagnostic → String
  | missingInstanceType anchor => s!"no instance type set; anchor {anchor.display} has none"

/-- The JSON form. -/
def toJson : Diagnostic → Json
  | missingInstanceType anchor =>
    .object [("MissingInstanceType", .object [("anchor", anchor.toJson)])]

end Diagnostic

/-- What a compilation decided. -/
structure Report where
  /-- What the plan left open. -/
  diagnostics : List Diagnostic
  /-- The placement of each node, by its position. -/
  placements : Array (Option Placement)
  /-- The vertex that all others share instances with. -/
  anchor : VertexId

namespace Report

/-- The placement of a node. -/
def placement? (r : Report) (node : NodeId) : Option Placement := r.placements[node.index]?.join

/-- The number of fused nodes. -/
def chainedCount (r : Report) : Nat := r.placements.countP fun placement => placement.any (·.isChained)

/-- Whether the plan left something open. -/
def hasDiagnostics (r : Report) : Bool := !r.diagnostics.isEmpty

/-- The JSON form. Only nodes with a placement are named. -/
def toJson (r : Report) : Json :=
  let placements := r.placements.toList.zipIdx.filterMap fun (placement, node) =>
    placement.map fun placement => (toString node, placement.toJson)
  .object [("diagnostics", .ofList Diagnostic.toJson r.diagnostics),
    ("placements", .object placements), ("anchor", r.anchor.toJson)]

end Report

end Lowering

end Dataflow
