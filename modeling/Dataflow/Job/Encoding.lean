import Dataflow.Job.Graph
import Dataflow.Task.Encoding
import Dataflow.Json.Printer
import Dataflow.Json.Reader
import Dataflow.Digest.Blake3

/-! # Encoding of job graphs

    The JSON form of a graph, and the fingerprint: the digest of the JSON text
    of everything but the identifier, so that two graphs have one fingerprint
    if name, configuration and vertices are the same.
-/

namespace Dataflow

/-! ## Section 1: Enumerations -/

namespace Transport

/-- Every value. -/
def all : List Transport := [inMemory, network]

/-- The encoded name. -/
def name : Transport → String
  | inMemory => "InMemory"
  | network => "Network"

/-- The JSON form. -/
def toJson (t : Transport) : Json := .string t.name

/-- The value with an encoded name. -/
def ofJson? : Json → Option Transport := Json.named? all name

end Transport

namespace Pattern

/-- Every value. -/
def all : List Pattern := [pointwise, bipartite]

/-- The encoded name. -/
def name : Pattern → String
  | pointwise => "Pointwise"
  | bipartite => "Bipartite"

/-- The JSON form. -/
def toJson (p : Pattern) : Json := .string p.name

/-- The value with an encoded name. -/
def ofJson? : Json → Option Pattern := Json.named? all name

end Pattern

namespace VertexKind

/-- Every value. -/
def all : List VertexKind := [input, task, output]

/-- The encoded name. -/
def name : VertexKind → String
  | input => "Input"
  | task => "Task"
  | output => "Output"

/-- The JSON form. -/
def toJson (k : VertexKind) : Json := .string k.name

/-- The value with an encoded name. -/
def ofJson? : Json → Option VertexKind := Json.named? all name

end VertexKind

namespace TaskClass

/-- Every value. -/
def all : List TaskClass := [dataSource, regular, dataSink]

/-- The encoded name. -/
def name : TaskClass → String
  | dataSource => "DataSourceTask"
  | regular => "RegularTask"
  | dataSink => "DataSinkTask"

/-- The JSON form. -/
def toJson (c : TaskClass) : Json := .string c.name

/-- The value with an encoded name. -/
def ofJson? : Json → Option TaskClass := Json.named? all name

end TaskClass

/-! ## Section 2: Vertices -/

namespace Wire

/-- The JSON form. -/
def toJson (w : Wire) : Json :=
  .object [("target", w.target.toJson), ("channel_type", w.transport.toJson),
    ("pattern", w.pattern.toJson)]

/-- The wire of a record. -/
def ofJson? (j : Json) : Option Wire := do
  match ← Json.record? ["target", "channel_type", "pattern"] 0 j with
  | [target, transport, pattern] =>
    return {
      target := ← Json.required? Handle.ofJson? target
      transport := ← Json.required? Transport.ofJson? transport
      pattern := ← Json.required? Pattern.ofJson? pattern }
  | _ => none

end Wire

namespace Vertex

/-- The names of the fields. -/
def fieldNames : List String :=
  ["id", "name", "kind", "task_class", "parallelism", "subtasks_per_instance", "config",
    "instance_type", "share_instances_with", "connections"]

/-- The JSON form. -/
def toJson (v : Vertex) : Json :=
  .object [("id", v.id.toJson), ("name", .string v.name), ("kind", v.kind.toJson),
    ("task_class", v.taskClass.toJson), ("parallelism", .ofNat v.parallelism.toNat),
    ("subtasks_per_instance", .ofOption (fun n => .ofNat n.toNat) v.subtasksPerInstance),
    ("config", v.config.toJson), ("instance_type", .ofOption .string v.instanceType),
    ("share_instances_with", v.sharesWith.toJson), ("connections", .ofList Wire.toJson v.wires)]

/-- The vertex of a record. -/
def ofJson? (j : Json) : Option Vertex := do
  match ← Json.record? fieldNames 0 j with
  | [id, name, kind, taskClass, parallelism, subtasksPerInstance, config, instanceType, sharesWith,
      wires] =>
    return {
      id := ← Json.required? Handle.ofJson? id
      name := ← Json.required? Json.string? name
      kind := ← Json.required? VertexKind.ofJson? kind
      taskClass := ← Json.required? TaskClass.ofJson? taskClass
      parallelism := ← Json.required? Json.uint32? parallelism
      subtasksPerInstance := ← Json.optional? Json.uint32? subtasksPerInstance
      config := ← Json.required? TaskConfig.ofJson? config
      instanceType := ← Json.optional? Json.string? instanceType
      sharesWith := ← Json.required? Handle.ofJson? sharesWith
      wires := ← Json.required? (Json.list? Wire.ofJson?) wires }
  | _ => none

end Vertex

/-! ## Section 3: Graphs -/

namespace JobGraph

/-- The JSON form of the vertices. -/
def verticesJson (g : JobGraph) : Json := .ofList Vertex.toJson g.vertices.toList

/-- The members for everything but the identifier. -/
def structureMembers (g : JobGraph) : List (String × Json) :=
  [("name", .string g.name), ("config", g.config.toJson), ("vertices", g.verticesJson)]

/-- The JSON form. -/
def toJson (g : JobGraph) : Json := .object (("id", g.id.toJson) :: g.structureMembers)

/-- The graph of a record. The vertices are taken as they are. -/
def ofJson? (j : Json) : Option JobGraph := do
  match ← Json.record? ["id", "name", "config", "vertices"] 0 j with
  | [id, name, config, vertices] =>
    return {
      id := ← Json.required? JobId.ofJson? id
      name := ← Json.required? Json.string? name
      config := ← Json.required? Configuration.ofJson? config
      vertices := (← Json.required? (Json.list? Vertex.ofJson?) vertices).toArray }
  | _ => none

/-- The text of a graph. -/
def toText (g : JobGraph) : String := g.toJson.render

/-- The text that the fingerprint digests. -/
def fingerprintText (g : JobGraph) : String := (Json.object g.structureMembers).render

/-- A digest of name, configuration and vertices. -/
def fingerprint (g : JobGraph) : Digest := Digest.ofText g.fingerprintText

end JobGraph

end Dataflow
