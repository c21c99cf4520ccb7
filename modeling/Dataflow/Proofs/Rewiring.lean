import Dataflow.Lowering.Visitor
import Dataflow.Proofs.Frames

/-! # Rewiring

    To leave a node is to add slots, wires and hosts around what has been made. No
    vertex and no chain is made, none loses what has been written down when it
    was made, and no node becomes something. This is shown for any step from any
    state, whether it succeeds or fails.

    Main statement:
    - `rewires_leave`: leaving a node only rewires what there is
-/

namespace Dataflow

open Lowering

/-! ## Section 1: Payloads -/

/-- What is written to the settings of a task when it is made. -/
structure Payload where
  /-- The user code. -/
  userCode : Option UserCode
  /-- The runtime's driver. -/
  driver : Option String
  /-- The algorithm that the driver runs. -/
  driverStrategy : Option DriverStrategy
  /-- The driver's comparators by input. -/
  driverComparators : SortedMap Nat Comparator
  /-- The driver's comparator between its inputs. -/
  pairComparator : Option PairComparator
  /-- The driver's memory. -/
  driverBudget : Option Budget
  /-- The parallelism of a sink. -/
  sinkParallelism : Option UInt32

/-- The payload of some settings. -/
def TaskSettings.payload (t : TaskSettings) : Payload where
  userCode := t.userCode
  driver := t.driver
  driverStrategy := t.driverStrategy
  driverComparators := t.driverComparators
  pairComparator := t.pairComparator
  driverBudget := t.driverBudget
  sinkParallelism := t.sinkParallelism

namespace TaskConfig

variable (t : TaskConfig)

@[simp] theorem payload_addWire (input : Nat) : (t.addWire input).payload = t.payload := rfl

@[simp] theorem payload_describeInput (policy : SpillPolicy) (ch : Plan.Channel) (input : Nat) :
    (t.describeInput policy ch input).payload = t.payload := rfl

@[simp] theorem payload_addOutputFor (ch : Plan.Channel) :
    (t.addOutputFor ch).payload = t.payload := rfl

end TaskConfig

/-- What stays of a vertex. -/
structure VertexPayload where
  /-- Its name. -/
  name : String
  /-- Its place in the flow of records. -/
  kind : VertexKind
  /-- Its task. -/
  taskClass : TaskClass
  /-- The number of its subtasks. -/
  parallelism : UInt32
  /-- The number of subtasks on one instance, if it is set. -/
  subtasksPerInstance : Option UInt32
  /-- The payload of its configuration. -/
  task : Payload

/-- The payload of a vertex. -/
def Vertex.payload (v : Vertex) : VertexPayload where
  name := v.name
  kind := v.kind
  taskClass := v.taskClass
  parallelism := v.parallelism
  subtasksPerInstance := v.subtasksPerInstance
  task := v.config.payload

/-- The payloads of the vertices of a graph, in their order. -/
def JobGraph.payloads (g : JobGraph) : List VertexPayload := g.vertices.toList.map Vertex.payload

/-- What stays of a chain. -/
structure ChainPayload where
  /-- The driver that records are pushed to. -/
  driver : String
  /-- Its name. -/
  name : String
  /-- The payload of its configuration. -/
  task : Payload

/-- The payload of a chain. -/
def Lowering.Chain.payload (chain : Chain) : ChainPayload where
  driver := chain.driver
  name := chain.name
  task := chain.config.payload

/-! ## Section 2: Registrations -/

namespace Lowering

/-- What a node becomes, if the event says so. -/
def Event.registration? : Event → Option (NodeId × Outcome)
  | vertexMade node vertex _ _ => some (node, .vertex vertex)
  | nodeFused node chain => some (node, .fused chain)
  | _ => none

/-- What nodes have become, as it has been reported, first to last. -/
def State.registrations (s : State) : List (NodeId × Outcome) :=
  s.events.toList.filterMap Event.registration?

theorem State.registrations_report (s : State) (event : Event) :
    (s.report event).registrations = s.registrations ++ event.registration?.toList := by
  simp only [registrations, report, Array.toList_push, List.filterMap_append, List.filterMap_cons,
    List.filterMap_nil]
  cases event.registration? <;> rfl

/-! ## Section 3: States that are rewired -/

/-- One state has what another one has made, in the same places and with the same payloads, and no
more. -/
structure State.Rewires (s s' : State) : Prop where
  /-- The vertices have their payloads. -/
  vertices : s'.graph.payloads = s.graph.payloads
  /-- The chains have their payloads. -/
  chains : s'.chains.toList.map Chain.payload = s.chains.toList.map Chain.payload
  /-- The graphs have one name. -/
  name : s'.graph.name = s.graph.name
  /-- The graphs have the same settings. -/
  config : s'.graph.config = s.graph.config
  /-- No node has become something. -/
  registrations : s'.registrations = s.registrations

instance : Std.Refl State.Rewires where
  refl _ := ⟨rfl, rfl, rfl, rfl, rfl⟩

instance : IsTrans State State.Rewires where
  trans _ _ _ h h' := ⟨h'.vertices.trans h.vertices, h'.chains.trans h.chains,
    h'.name.trans h.name, h'.config.trans h.config, h'.registrations.trans h.registrations⟩

/-- Where a function keeps the payload of every element, a modified array has the payloads that it
had. -/
theorem map_toList_modify {α β : Type} {f : α → α} {g : α → β} (h : ∀ a, g (f a) = g a) (a : Array α)
    (i : Nat) : (a.modify i f).toList.map g = a.toList.map g := by
  apply List.ext_getElem?
  intro j
  rw [List.getElem?_map, List.getElem?_map, Array.getElem?_toList, Array.getElem?_toList,
    Array.getElem?_modify]
  by_cases hij : i = j
  · rw [if_pos hij]
    cases a[j]? with
    | none => rfl
    | some x => simp [h]
  · rw [if_neg hij]

theorem payloads_updateVertex (g : JobGraph) (id : VertexId) {f : Vertex → Vertex}
    (h : ∀ v, (f v).payload = v.payload) : (g.updateVertex id f).payloads = g.payloads :=
  map_toList_modify h _ _

/-! ## Section 4: Steps that rewire -/

section
variable {α : Type} {policy : SpillPolicy} {p : Plan}

theorem keeps_ofExcept {rel : State → State → Prop} [Std.Refl rel] (result : Except StepError α) :
    Keeps rel (Step.ofExcept result) := by
  intro s
  unfold Step.ofExcept
  cases result <;> exact Std.Refl.refl s

/-- An event rewires nothing if no node becomes something by it. -/
theorem rewires_report {event : Event} (h : event.registration? = none) :
    Keeps State.Rewires (Step.report event) := by
  intro s
  have hnone : (s.report event).registrations = s.registrations := by
    rw [State.registrations_report, h, Option.toList_none, List.append_nil]
  exact ⟨rfl, rfl, rfl, rfl, hnone⟩

theorem rewires_updateVertex (id : VertexId) {f : Vertex → Vertex}
    (h : ∀ v, (f v).payload = v.payload) : Keeps State.Rewires (Step.updateVertex id f) := by
  intro s
  unfold Step.updateVertex
  cases s.graph.missing? id with
  | some fault => exact Std.Refl.refl s
  | none => exact ⟨payloads_updateVertex _ _ h, rfl, rfl, rfl, rfl⟩

theorem rewires_updateConfig (id : VertexId) {f : TaskConfig → TaskConfig}
    (h : ∀ t, (f t).payload = t.payload) : Keeps State.Rewires (Step.updateConfig id f) := by
  apply rewires_updateVertex
  intro v
  simp only [Vertex.payload, h]

theorem rewires_connect (source : VertexId) (wire : Wire) :
    Keeps State.Rewires (Step.connect source wire) := by
  intro s
  unfold Step.connect
  cases s.graph.unconnectable? source wire.target with
  | some fault => exact Std.Refl.refl s
  | none => exact ⟨payloads_updateVertex _ _ fun _ => rfl, rfl, rfl, rfl, rfl⟩

theorem rewires_chain (id : ChainId) : Keeps State.Rewires (Step.chain id) := by
  intro s
  unfold Step.chain
  cases s.chain? id <;> exact Std.Refl.refl s

theorem rewires_updateChain (id : ChainId) {f : Chain → Chain}
    (h : ∀ chain, (f chain).payload = chain.payload) :
    Keeps State.Rewires (Step.updateChain id f) := by
  intro s
  unfold Step.updateChain
  by_cases hid : id.index < s.chains.size
  · rw [if_pos hid]
    exact ⟨rfl, map_toList_modify h _ _, rfl, rfl, rfl⟩
  · rw [if_neg hid]
    exact Std.Refl.refl s

theorem rewires_updateOwner (owner : Owner) {f : TaskConfig → TaskConfig}
    (h : ∀ t, (f t).payload = t.payload) : Keeps State.Rewires (Step.updateOwner owner f) := by
  cases owner with
  | vertex id => exact rewires_updateConfig id h
  | chain id =>
    apply rewires_updateChain
    intro chain
    simp only [Chain.payload, h]

theorem rewires_producer (id : NodeId) : Keeps State.Rewires (Step.producer id) := by
  unfold Step.producer
  apply Keeps.bind Keeps.get
  intro s
  split
  · exact Keeps.pure _
  · exact Keeps.throw _
  · apply Keeps.bind (rewires_chain _)
    intro chain
    split
    · exact Keeps.pure _
    · exact Keeps.throw _

/-! ## Section 5: Leaving a node -/

theorem rewires_findHost (n : Plan.Node) (producer : NodeId) :
    Keeps State.Rewires (findHost n producer) := by
  unfold findHost
  apply Keeps.bind Keeps.get
  intro s
  split
  · exact Keeps.bind (rewires_updateConfig _ fun _ => rfl) fun _ => Keeps.pure _
  · apply Keeps.bind (rewires_chain _)
    intro chain
    split
    · exact Keeps.pure _
    · exact Keeps.throw _
  · exact Keeps.throw _

theorem rewires_resolveChain (n : Plan.Node) (id : ChainId) :
    Keeps State.Rewires (resolveChain p n id) := by
  unfold resolveChain
  split
  · apply Keeps.bind (keeps_ofExcept _)
    intro channel
    apply Keeps.guarded
    apply Keeps.guarded
    apply Keeps.bind (rewires_findHost _ _)
    intro host
    apply Keeps.bind (rewires_chain _)
    intro chain
    apply Keeps.guarded
    apply Keeps.bind
    · apply rewires_updateChain
      intro chain
      rfl
    · intro _
      apply Keeps.bind (Keeps.modify fun _ => ⟨rfl, rfl, rfl, rfl, rfl⟩)
      intro _
      exact rewires_report rfl
  · exact Keeps.throw _

theorem rewires_wireBranch (target : VertexId) (input : Nat) (branch : Plan.Channel) :
    Keeps State.Rewires (wireBranch target input branch) := by
  unfold wireBranch
  apply Keeps.bind (rewires_producer _)
  intro source
  apply Keeps.bind (keeps_ofExcept _)
  intro wire
  apply Keeps.bind (rewires_connect _ _)
  intro _
  apply Keeps.bind (rewires_updateOwner _ fun t => t.payload_addOutputFor branch)
  intro _
  apply Keeps.bind (rewires_updateConfig _ fun t => t.payload_addWire input)
  intro _
  exact rewires_report rfl

theorem rewires_wireInput (n : Plan.Node) (target : VertexId) (slot : ChannelId × Nat) :
    Keeps State.Rewires (wireInput policy p n target slot) := by
  unfold wireInput
  apply Keeps.bind (keeps_ofExcept _)
  intro channel
  apply Keeps.bind (keeps_ofExcept _)
  intro branches
  apply Keeps.guarded
  split
  · exact Keeps.throw _
  · apply Keeps.bind (Keeps.forM fun branch _ => rewires_wireBranch _ _ branch)
    intro _
    exact rewires_updateConfig _ fun t => t.payload_describeInput policy channel slot.2

theorem rewires_wire (n : Plan.Node) : Keeps State.Rewires (wire policy p n) := by
  unfold wire
  split
  · exact Keeps.pure ()
  · apply Keeps.bind Keeps.get
    intro s
    split
    · exact rewires_resolveChain _ _
    · exact Keeps.forM fun slot _ => rewires_wireInput _ _ slot
    · exact Keeps.throw _

/-- Leaving a node only rewires what there is. -/
theorem rewires_leave (n : Plan.Node) : Keeps State.Rewires ((visitor policy p).leave n) :=
  Keeps.adaptExcept _ (rewires_wire n)

end

end Lowering

end Dataflow
