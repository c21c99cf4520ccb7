import Dataflow.Job.Encoding

/-! # Display of job graphs

    One line for the job, one for each vertex, and one for each wire below the
    vertex that it leaves from.
-/

namespace Dataflow

namespace Wire

/-- The line of a wire. -/
def display (w : Wire) : String :=
  s!"    -> {w.target.display} {w.transport.name}/{w.pattern.name}\n"

end Wire

namespace Vertex

/-- The names of the fused tasks, nothing if there are none. -/
def fusedText (v : Vertex) : String :=
  if v.config.fused.isEmpty then ""
  else " chain=[" ++ ", ".intercalate (v.config.fused.map FusedTask.name) ++ "]"

/-- The line of a vertex and those of its wires. -/
def display (v : Vertex) : String :=
  s!"  {v.id.display} '{v.name}' {v.kind.name} dop={v.parallelism.toNat} shares={v.sharesWith.display}"
    ++ v.fusedText ++ "\n" ++ String.join (v.wires.map Wire.display)

end Vertex

namespace JobGraph

/-- The lines of a graph. -/
def display (g : JobGraph) : String :=
  s!"job '{g.name}' ({g.vertices.size} vertices)\n" ++ String.join (g.vertices.toList.map Vertex.display)

end JobGraph

end Dataflow
