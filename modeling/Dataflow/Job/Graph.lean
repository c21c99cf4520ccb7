import Dataflow.Task.Config
import Dataflow.Handle
import Dataflow.JobId

/-! # Job graphs

    The physical graph for the cluster runtime: vertices with a task
    configuration each, and typed wires between them, kept at the vertex they
    leave from.

    Main statements:
    - `vertex?_updateVertex`: a modification answers for its own vertex and
      leaves the others
-/

namespace Dataflow

/-! ## Section 1: Wires -/

/-- The physical transport of a wire. -/
inductive Transport where
  | inMemory
  | network
deriving DecidableEq

/-- How the subtasks of producer and consumer are connected. -/
inductive Pattern where
  /-- Each producer subtask feeds the consumer subtask of the same number. -/
  | pointwise
  /-- Each producer subtask feeds every consumer subtask. -/
  | bipartite
deriving DecidableEq

/-- A wire, kept at the vertex that it leaves from. -/
structure Wire where
  /-- The vertex that it ends at. -/
  target : VertexId
  /-- Its transport. -/
  transport : Transport
  /-- Its pattern. -/
  pattern : Pattern
deriving DecidableEq

/-- A wire with both ends. -/
structure Edge where
  /-- The vertex that it leaves from. -/
  source : VertexId
  /-- The vertex that it ends at. -/
  target : VertexId
  /-- Its transport. -/
  transport : Transport
  /-- Its pattern. -/
  pattern : Pattern
deriving DecidableEq

/-! ## Section 2: Vertices -/

/-- The place of a vertex in the flow of records. -/
inductive VertexKind where
  | input
  | task
  | output
deriving DecidableEq

/-- The runtime's task for the subtasks of a vertex. -/
inductive TaskClass where
  | dataSource
  | regular
  | dataSink
deriving DecidableEq

/-- A vertex of a job graph. -/
structure Vertex where
  /-- Its handle. -/
  id : VertexId
  /-- Its name. -/
  name : String
  /-- Its place in the flow of records. -/
  kind : VertexKind
  /-- Its task. -/
  taskClass : TaskClass
  /-- The number of its subtasks. -/
  parallelism : UInt32 := 1
  /-- The number of subtasks on one instance, if it is set. -/
  subtasksPerInstance : Option UInt32 := none
  /-- Its configuration. -/
  config : TaskConfig := {}
  /-- The type of its instances, if it is set. -/
  instanceType : Option String := none
  /-- The vertex whose instances it shares; itself at first. -/
  sharesWith : VertexId := id
  /-- The wires that leave from it, in the order of their making. -/
  wires : List Wire := []

/-- The wires that leave from a vertex, with both ends. -/
def Vertex.edges (v : Vertex) : List Edge :=
  v.wires.map fun w =>
    { source := v.id, target := w.target, transport := w.transport, pattern := w.pattern }

/-! ## Section 3: Graphs -/

/-- A job graph. -/
structure JobGraph where
  /-- Its identifier. -/
  id : JobId
  /-- Its name. -/
  name : String
  /-- The settings of the whole job. -/
  config : Configuration := .empty
  /-- Its vertices, each at the position that its handle says. -/
  vertices : Array Vertex := #[]

namespace JobGraph

/-- What can be wrong with a request to a job graph. -/
inductive Fault where
  /-- There is no such vertex. -/
  | unknownVertex (id : VertexId)
  /-- A vertex is not wired to itself. -/
  | selfLoop (id : VertexId)
deriving DecidableEq

/-- The text of a fault. -/
def Fault.message : Fault → String
  | unknownVertex id => s!"unknown vertex {id.display}"
  | selfLoop id => s!"cannot connect {id.display} to itself"

/-- The vertex that a handle names. -/
def vertex? (g : JobGraph) (id : VertexId) : Option Vertex := g.vertices[id.index]?

/-- The vertex that a handle names. -/
def vertex (g : JobGraph) (id : VertexId) : Except Fault Vertex :=
  match g.vertex? id with
  | some v => .ok v
  | none => .error (.unknownVertex id)

/-- The graph with one more vertex, made for its handle. -/
def push (g : JobGraph) (make : VertexId → Vertex) : VertexId × JobGraph :=
  let id : VertexId := ⟨g.vertices.size⟩
  (id, { g with vertices := g.vertices.push (make id) })

/-- The graph with one more vertex that has one subtask and shares its own instances. -/
def addVertex (g : JobGraph) (name : String) (kind : VertexKind) (taskClass : TaskClass) :
    VertexId × JobGraph :=
  g.push fun id => { id, name, kind, taskClass }

/-- The graph with the vertex of a handle passed through `f`; without such a vertex it stays. -/
def updateVertex (g : JobGraph) (id : VertexId) (f : Vertex → Vertex) : JobGraph :=
  { g with vertices := g.vertices.modify id.index f }

/-- The fault of a request to a vertex that is not there. -/
def missing? (g : JobGraph) (id : VertexId) : Option Fault :=
  if id.index < g.vertices.size then none else some (.unknownVertex id)

/-- The graph with the vertex of a handle passed through `f`. -/
def modifyVertex (g : JobGraph) (id : VertexId) (f : Vertex → Vertex) : Except Fault JobGraph :=
  match g.missing? id with
  | some fault => .error fault
  | none => .ok (g.updateVertex id f)

/-- The fault of a request for a wire: one from a vertex to itself, or one whose target or source is
not there. -/
def unconnectable? (g : JobGraph) (source target : VertexId) : Option Fault :=
  if source = target then some (.selfLoop source) else (g.missing? target).or (g.missing? source)

/-- The graph with one more wire at a vertex. -/
def addWire (g : JobGraph) (source : VertexId) (wire : Wire) : JobGraph :=
  g.updateVertex source fun v => { v with wires := v.wires ++ [wire] }

/-- The graph with one more wire. -/
def connect (g : JobGraph) (source : VertexId) (wire : Wire) : Except Fault JobGraph :=
  match g.unconnectable? source wire.target with
  | some fault => .error fault
  | none => .ok (g.addWire source wire)

/-- The handles of the vertices, as the vertices themselves say them. -/
def vertexIds (g : JobGraph) : List VertexId := g.vertices.toList.map Vertex.id

/-- The first vertex with a name. -/
def vertexByName? (g : JobGraph) (name : String) : Option Vertex :=
  g.vertices.find? fun v => v.name = name

/-- All wires, by the vertex that they leave from and then in the order of their making. -/
def edges (g : JobGraph) : List Edge := g.vertices.toList.flatMap Vertex.edges

/-- The wires that end at a vertex. -/
def incoming (g : JobGraph) (target : VertexId) : List Edge :=
  g.edges.filter fun e => e.target = target

/-! ## Section 4: Modifications -/

/-- A modification answers for its own vertex and leaves the others. -/
theorem vertex?_updateVertex (g : JobGraph) (id id' : VertexId) (f : Vertex → Vertex) :
    (g.updateVertex id f).vertex? id' = if id = id' then (g.vertex? id').map f else g.vertex? id' := by
  obtain ⟨i⟩ := id
  obtain ⟨j⟩ := id'
  simp only [updateVertex, vertex?, Array.getElem?_modify, Handle.mk.injEq]

/-- A modification succeeds exactly on a vertex that exists. -/
theorem missing?_eq_none_iff {g : JobGraph} {id : VertexId} :
    g.missing? id = none ↔ id.index < g.vertices.size := by
  simp [missing?]

end JobGraph

end Dataflow
