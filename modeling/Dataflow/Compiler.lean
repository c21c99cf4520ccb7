import Dataflow.Lowering.Placement
import Dataflow.Lowering.Visitor

/-! # Compilers

    A compiler lowers plans to job graphs under one valid spill policy. It walks
    the plan once, appends the fused tasks to their hosts, and lets every vertex
    share the instances of the anchor. A compilation either answers a whole
    graph with its report or an error, and never part of a graph.
-/

namespace Dataflow

open Lowering

/-! ## Section 1: Compilers -/

/-- A compiler. -/
structure Compiler where
  /-- The limits of every memory budget. -/
  policy : SpillPolicy
  /-- The limits are usable. -/
  valid : policy.Valid

namespace Compiler

/-- The compiler with the standard limits. -/
def standard : Compiler where
  policy := {}
  valid := (SpillPolicy.fault?_eq_none_iff _).mp (by decide +kernel)

/-- The compiler with given limits. -/
def ofPolicy (policy : SpillPolicy) : Except CompileError Compiler :=
  match h : policy.fault? with
  | none => .ok ⟨policy, (SpillPolicy.fault?_eq_none_iff policy).mp h⟩
  | some fault => .error (.settings (.configuration fault))

/-- The compiler with the limits of a configuration. -/
def ofConfiguration (c : Configuration) : Except CompileError Compiler :=
  ofPolicy (.ofConfiguration c)

/-! ## Section 2: Compilations -/

/-- What a successful compilation answers. -/
structure Result where
  /-- The job graph. -/
  graph : JobGraph
  /-- What the compilation decided. -/
  report : Report

/-- The graph in which all vertices share the instances of the anchor, and only the anchor has a
type of instances. -/
def shareInstances (graph : JobGraph) (anchor : VertexId) (instanceType : Option String) : JobGraph :=
  { graph with
    vertices := graph.vertices.map fun v =>
      if v.id = anchor then { v with instanceType } else { v with sharesWith := anchor } }

/-- The answer for the state after the walk and its anchor: the chains appended to their hosts, the
instances shared, and the placement of every node. -/
def assemble (p : Plan) (s : State) (anchor : VertexId) : Except StepError Result := do
  let (graph, places) ← appendChains s.graph s.chains s.resolved.toList
  let placements ← p.nodes.mapM (s.placement? places)
  let diagnostics := if p.instanceType.isNone then [.missingInstanceType anchor] else []
  return {
    graph := shareInstances graph anchor p.instanceType
    report := { diagnostics, placements, anchor } }

/-- The answer for the state after the walk. Without an anchor there is no vertex at all. -/
def finish (p : Plan) (s : State) : Except CompileError Result :=
  match s.anchor with
  | none => .error .emptyPlan
  | some anchor => (assemble p s anchor).mapError .finalization

/-- The walk over a plan that makes the vertices and the wires. -/
def lower (c : Compiler) (job : JobId) (p : Plan) : EStateM.Result CompileError State Unit :=
  p.walk (visitor c.policy p) (.start job p)

/-- Lowers a plan to a job graph with a given identifier. -/
def compile (c : Compiler) (job : JobId) (p : Plan) : Except CompileError Result :=
  match c.lower job p with
  | .ok _ s => finish p s
  | .error e _ => .error e

/-! ## Section 3: Reports while it runs -/

/-- What the end of a compilation reports. -/
def closing (r : Result) : List Event :=
  let name := r.graph.name
  (r.report.diagnostics.map fun | .missingInstanceType anchor => .noInstanceType name anchor) ++
    [.finished name r.graph.vertices.size r.report.chainedCount r.report.anchor]

/-- What a compilation reports, first to last, with its answer. -/
def trace (c : Compiler) (job : JobId) (p : Plan) : List Event × Except CompileError Result :=
  match c.lower job p with
  | .ok _ s =>
    match finish p s with
    | .ok r => (s.events.toList ++ closing r, .ok r)
    | .error e => (s.events.toList, .error e)
  | .error e s => (s.events.toList, .error e)

/-- What is reported does not change the answer. -/
theorem trace_snd (c : Compiler) (job : JobId) (p : Plan) : (c.trace job p).2 = c.compile job p := by
  unfold trace compile
  split
  · split <;> simp_all
  · rfl

end Compiler

end Dataflow
