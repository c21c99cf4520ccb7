import Dataflow.Proofs.Eligibility
import Dataflow.Proofs.Rewiring

/-! # Payloads

    What a node runs is written down when it is made: its user code, its driver,
    what the driver compares with, its memory. Everything that comes later adds
    slots, wires, hosts and fused tasks around it. This is shown twice: for any
    step from any state, with what a walk and the end of a compilation make of
    it; and for the result, where every node is found as it was in the plan.

    Main statements:
    - `retains_enter`, `retains_leave`: no callback alters what has been made
    - `payload_survives`: the nodes of a plan and what runs them in a result
-/

namespace Dataflow

open Lowering

/-! ## Section 1: States that retain payloads -/

namespace Lowering

/-- What one state has made is there in another one, in the same places and with the same payloads. -/
structure State.Retains (s s' : State) : Prop where
  /-- The vertices come first among those of the other state. -/
  vertices : s.graph.payloads <+: s'.graph.payloads
  /-- The chains come first among those of the other state. -/
  chains : s.chains.toList.map Chain.payload <+: s'.chains.toList.map Chain.payload
  /-- The graphs have one name. -/
  name : s'.graph.name = s.graph.name
  /-- The graphs have the same settings. -/
  config : s'.graph.config = s.graph.config

instance : Std.Refl State.Retains where
  refl _ := ⟨List.prefix_rfl, List.prefix_rfl, rfl, rfl⟩

instance : IsTrans State State.Retains where
  trans _ _ _ h h' := ⟨h.vertices.trans h'.vertices, h.chains.trans h'.chains,
    h'.name.trans h.name, h'.config.trans h.config⟩

theorem prefix_map_push {α β : Type} (g : α → β) (a : Array α) (x : α) :
    a.toList.map g <+: (a.push x).toList.map g := by
  rw [Array.toList_push, List.map_append]
  exact List.prefix_append _ _

/-- What is only rewired is retained. -/
theorem State.Rewires.retains {s s' : State} (h : s.Rewires s') : s.Retains s' :=
  ⟨h.vertices ▸ List.prefix_rfl, h.chains ▸ List.prefix_rfl, h.name, h.config⟩

/-! ## Section 2: Callbacks that retain payloads -/

section
variable {policy : SpillPolicy} {p : Plan}

theorem retains_makeVertex (n : Plan.Node) (kind : VertexKind) (taskClass : TaskClass)
    (config : TaskConfig) : Keeps State.Retains (makeVertex n kind taskClass config) :=
  fun _ => ⟨prefix_map_push _ _ _, List.prefix_rfl, rfl, rfl⟩

theorem retains_makeChain (n : Plan.Node) (driver : String) (config : TaskConfig) :
    Keeps State.Retains (makeChain n driver config) :=
  fun _ => ⟨List.prefix_rfl, prefix_map_push _ _ _, rfl, rfl⟩

theorem retains_makeOperator (n : Plan.Node) (driver : DriverStrategy) (config : TaskConfig) :
    Keeps State.Retains (makeOperator n driver config) := by
  unfold makeOperator
  split
  · exact Keeps.throw _
  · exact retains_makeVertex _ _ _ _

theorem retains_materialize (n : Plan.Node) : Keeps State.Retains (materialize policy p n) := by
  unfold materialize
  split
  · exact retains_makeVertex _ _ _ _
  · exact retains_makeVertex _ _ _ _
  · apply Keeps.bind (keeps_ofExcept _)
    intro blocker
    split
    · exact retains_makeChain _ _ _
    · exact retains_makeOperator _ _ _
    · apply Keeps.bind ((rewires_report rfl).mono fun _ _ => State.Rewires.retains)
      intro _
      exact retains_makeOperator _ _ _
  · exact retains_makeOperator _ _ _
  · exact Keeps.pure ()

/-- Entering a node alters nothing that has been made. -/
theorem retains_enter (n : Plan.Node) : Keeps State.Retains ((visitor policy p).enter n) := by
  unfold visitor
  apply Keeps.bind Keeps.get
  intro s
  split
  · exact Keeps.pure _
  · apply Keeps.bind (Keeps.adaptExcept _ (retains_materialize n))
    intro _
    exact Keeps.pure _

/-- Leaving a node alters nothing that has been made. -/
theorem retains_leave (n : Plan.Node) : Keeps State.Retains ((visitor policy p).leave n) :=
  (rewires_leave n).mono fun _ _ => State.Rewires.retains

end

/-! ## Section 3: The end of a compilation -/

/-- A graph completes a state: it has the vertices of the state with their payloads, and what has been
fused into them are chains of the state as they were. -/
structure Completes (s : State) (g : JobGraph) : Prop where
  /-- The vertices are those of the state. -/
  vertices : g.payloads = s.graph.payloads
  /-- A fused task was there before, or it is a chain. -/
  tasks : ∀ v ∈ g.vertices, ∀ t ∈ v.config.fused, (∃ v' ∈ s.graph.vertices, t ∈ v'.config.fused) ∨
    ∃ chain ∈ s.chains, t = ⟨chain.driver, chain.config, chain.name⟩
  /-- The name is that of the state's graph. -/
  name : g.name = s.graph.name
  /-- The settings are those of the state's graph. -/
  config : g.config = s.graph.config

theorem completes_graph (s : State) : Completes s s.graph where
  vertices := rfl
  tasks v hv _ ht := .inl ⟨v, hv, ht⟩
  name := rfl
  config := rfl

theorem mem_updateVertex {g : JobGraph} {id : VertexId} {f : Vertex → Vertex} {v : Vertex}
    (h : v ∈ (g.updateVertex id f).vertices) : v ∈ g.vertices ∨ ∃ v' ∈ g.vertices, v = f v' := by
  obtain ⟨j, hj⟩ := Array.mem_iff_getElem?.mp h
  simp only [JobGraph.updateVertex, Array.getElem?_modify] at hj
  by_cases hij : id.index = j
  · rw [if_pos hij] at hj
    obtain ⟨v', hv', rfl⟩ := Option.map_eq_some_iff.mp hj
    exact .inr ⟨v', Array.mem_of_getElem? hv', rfl⟩
  · rw [if_neg hij] at hj
    exact .inl (Array.mem_of_getElem? hj)

/-- One more chain is appended as it is. -/
theorem Completes.fuse {s : State} {g : JobGraph} (h : Completes s g) {chain : Chain}
    (hchain : chain ∈ s.chains) (host : VertexId) : Completes s (g.updateVertex host fun v =>
      { v with config := v.config.fuse ⟨chain.driver, chain.config, chain.name⟩ }) where
  vertices := by
    refine Eq.trans (payloads_updateVertex g host ?_) h.vertices
    intro v
    rfl
  tasks v hv t ht := by
    rcases mem_updateVertex hv with hv | ⟨v', hv', rfl⟩
    · exact h.tasks v hv t ht
    · rcases List.mem_append.mp ht with ht | ht
      · exact h.tasks v' hv' t ht
      · exact .inr ⟨chain, hchain, List.mem_singleton.mp ht⟩
  name := h.name
  config := h.config

/-- Appending chains in sequence completes a state. The chains that are pending are those of the
state. -/
theorem completes_appendFrom {s : State} {sequence : List ChainId} {g g' : JobGraph}
    {pending : Array (Option Chain)} {placed placed' : Array (Option Place)} (h : Completes s g)
    (hpending : ∀ chain, some chain ∈ pending → chain ∈ s.chains)
    (hrun : appendFrom g pending placed sequence = .ok (g', placed')) : Completes s g' := by
  induction sequence generalizing g pending placed with
  | nil =>
    unfold appendFrom at hrun
    split at hrun
    · simp at hrun
    · simp only [Except.ok.injEq, Prod.mk.injEq] at hrun
      exact hrun.1 ▸ h
  | cons id rest ih =>
    unfold appendFrom at hrun
    split at hrun
    · simp at hrun
    · rename_i chain hchain
      have hmem : chain ∈ s.chains := by
        apply hpending
        exact Array.mem_of_getElem? (Option.join_eq_some_iff.mp hchain)
      split at hrun
      · simp at hrun
      · rename_i host _
        split at hrun
        · simp at hrun
        · apply ih (h.fuse hmem host) _ hrun
          intro other hother
          obtain ⟨j, hj⟩ := Array.mem_iff_getElem?.mp hother
          rw [Array.getElem?_setIfInBounds] at hj
          split at hj
          · split at hj <;> simp at hj
          · exact hpending other (Array.mem_of_getElem? hj)

/-- Sharing instances leaves payloads and fused tasks as they are. -/
theorem Completes.shareInstances {s : State} {g : JobGraph} (h : Completes s g) (anchor : VertexId)
    (instanceType : Option String) :
    Completes s (Compiler.shareInstances g anchor instanceType) where
  vertices := by
    rw [← h.vertices]
    simp only [JobGraph.payloads, Compiler.shareInstances, Array.toList_map, List.map_map]
    apply List.map_congr_left
    intro v _
    simp only [Function.comp_apply]
    split <;> rfl
  tasks v hv t ht := by
    obtain ⟨v', hv', rfl⟩ := Array.mem_map.mp hv
    apply h.tasks v' hv' t
    split at ht <;> exact ht
  name := h.name
  config := h.config

/-- The end of a compilation alters nothing that has been made. -/
theorem completes_finish {p : Plan} {s : State} {r : Compiler.Result}
    (h : Compiler.finish p s = .ok r) : Completes s r.graph := by
  unfold Compiler.finish at h
  split at h
  · simp at h
  · rename_i anchor _
    simp only [Compiler.assemble, appendChains, bind, Except.bind] at h
    cases hrun : appendFrom s.graph (s.chains.map some) (Array.replicate s.chains.size none)
        s.resolved.toList with
    | error e => simp [hrun, Except.mapError] at h
    | ok result =>
      obtain ⟨g, places⟩ := result
      have hg : Completes s g := by
        apply completes_appendFrom (completes_graph s) _ hrun
        intro chain hchain
        simpa using hchain
      simp only [hrun] at h
      cases hplaces : p.nodes.mapM (s.placement? places) with
      | error e => simp [hplaces, Except.mapError] at h
      | ok placements =>
        simp only [hplaces, pure, Except.pure, Except.mapError, Except.ok.injEq] at h
        rw [← h]
        exact hg.shareInstances anchor p.instanceType

end Lowering

/-! ## Section 4: Payloads of nodes -/

namespace Plan

/-- What the driver of a node is to compare with, by input. -/
def Kind.comparators : Kind → List (Option Comparator)
  | singleInput _ comparator => [comparator]
  | dualInput _ comparator₁ comparator₂ _ => [comparator₁, comparator₂]
  | source _ | sink | union => []

/-- What the driver of a node is to compare two inputs with. -/
def Kind.pairComparator? : Kind → Option PairComparator
  | dualInput _ _ _ pairComparator => pairComparator
  | source _ | sink | singleInput .. | union => none

/-- A payload is what a node asks for, under the limits of a policy, with a given driver. -/
structure Node.Asks (n : Node) (policy : SpillPolicy) (driver : Option String) (x : Payload) : Prop where
  /-- The user code is that of the node. -/
  userCode : x.userCode = some n.userCode
  /-- The driver is the given one. -/
  driver : x.driver = driver
  /-- The algorithm is that of the node; only operators have one. -/
  driverStrategy : x.driverStrategy = n.kind.driver?
  /-- The comparators are those of the node, each for its input. -/
  driverComparators : ∀ i, x.driverComparators.get? i = n.kind.comparators[i]?.join
  /-- The comparator between the inputs is that of the node. -/
  pairComparator : x.pairComparator = n.kind.pairComparator?
  /-- The memory is that of the node; only operators have any. -/
  driverBudget : x.driverBudget = n.kind.driver?.bind fun _ => policy.budget? n.memory
  /-- A sink says its parallelism. -/
  sinkParallelism : x.sinkParallelism = if n.kind.isSink then some n.parallelism else none

/-- The nodes of a plan are found in a result as they are in the plan. -/
structure Embodied (p : Plan) (policy : SpillPolicy) (r : Compiler.Result) : Prop where
  /-- The graph has the name of the job. -/
  name : r.graph.name = p.jobName
  /-- The graph has the settings of the job. -/
  config : r.graph.config = p.config
  /-- A vertex is as its node says. Zero subtasks on one instance count as not set. -/
  vertex : ∀ n ∈ p.nodes, ∀ t, r.report.placement? n.id = some (.vertex t) →
    ∃ v, r.graph.vertex? t = some v ∧ v.name = n.name ∧ v.parallelism = n.parallelism ∧
      v.subtasksPerInstance =
        (if n.subtasksPerInstance = some 0 then none else n.subtasksPerInstance) ∧
      v.kind = vertexKind n ∧ v.taskClass = taskClass n ∧
      n.Asks policy (n.kind.driver?.bind DriverStrategy.taskDriver?) v.config.payload
  /-- A fused task is as its node says. Its driver, to which records are pushed, stands beside its
  settings. -/
  task : ∀ n ∈ p.nodes, ∀ place, r.report.placement? n.id = some (.chained place) →
    ∃ v t, r.graph.vertex? place.host = some v ∧ v.config.fused[place.position]? = some t ∧
      t.name = n.name ∧ n.kind.driver?.bind DriverStrategy.chainDriver? = some t.driver ∧
      n.Asks policy none t.config.payload

variable {p : Plan} {policy : SpillPolicy} {job : JobId}

/-- The comparators of an operator are found by their inputs. -/
theorem get?_comparatorsOf (comparators : List (Option Comparator)) (i : Nat) :
    (comparatorsOf comparators).get? i = comparators[i]?.join := by
  have hentries : ∀ i c, (i, c) ∈ (comparators.zipIdx.filterMap fun e => e.1.map (e.2, ·)) ↔
      comparators[i]? = some (some c) := by
    intro i c
    rw [List.mem_filterMap]
    constructor
    · intro h
      obtain ⟨⟨comparator, input⟩, hmem, h⟩ := h
      obtain ⟨d, rfl, heq⟩ := Option.map_eq_some_iff.mp h
      obtain ⟨rfl, rfl⟩ := Prod.mk.inj heq
      exact List.mem_zipIdx_iff_getElem?.mp hmem
    · intro h
      exact ⟨(some c, i), List.mem_zipIdx_iff_getElem?.mpr h, rfl⟩
  have hkeys : KeysDetermine (comparators.zipIdx.filterMap fun e => e.1.map (e.2, ·)) := by
    intro i c d hc hd
    rw [hentries] at hc hd
    simpa using hc.symm.trans hd
  apply Option.ext
  intro c
  show (SortedMap.ofList (comparators.zipIdx.filterMap fun e => e.1.map (e.2, ·))).get? i = _ ↔ _
  rw [SortedMap.get?_ofList_eq_some_iff hkeys, hentries, Option.join_eq_some_iff]

/-- A configuration starts with what its node asks for. -/
theorem asks_baseConfig (policy : SpillPolicy) {n : Node} (hu : n.isUnion = false) :
    n.Asks policy (if p.fuses n then none else n.kind.driver?.bind DriverStrategy.taskDriver?)
      (p.baseConfig policy n).payload := by
  have hfuses : (∀ driver comparator, n.kind ≠ .singleInput driver comparator) → p.fuses n = false := by
    intro hkind
    unfold fuses
    split
    · rename_i driver comparator h
      exact absurd h (hkind driver comparator)
    · rfl
  -- Each kind writes its own settings and leaves the others as they are at first.
  unfold baseConfig
  cases hkind : n.kind with
  | source serializer =>
    constructor <;>
      simp [hkind, hfuses, Kind.driver?, Kind.comparators, Kind.pairComparator?, Kind.isSink,
        TaskSettings.payload, sourceConfig]
  | sink =>
    constructor <;>
      simp [hkind, hfuses, Kind.driver?, Kind.comparators, Kind.pairComparator?, Kind.isSink,
        TaskSettings.payload, sinkConfig]
  | singleInput driver comparator =>
    constructor <;>
      simp [hkind, Kind.driver?, Kind.comparators, Kind.pairComparator?, Kind.isSink,
        TaskSettings.payload, operatorConfig, get?_comparatorsOf]
  | dualInput driver first second pairComparator =>
    constructor <;>
      simp [hkind, hfuses, Kind.driver?, Kind.comparators, Kind.pairComparator?, Kind.isSink,
        TaskSettings.payload, operatorConfig, get?_comparatorsOf]
  | union => simp [Node.isUnion, Kind.isUnion, hkind] at hu

/-- No entry alters the payload of a node. -/
theorem configStep_payload (n : Node) (t : TaskConfig) (e : Entry) :
    (p.configStep policy n t e).payload = t.payload := by
  cases e <;> simp only [configStep]
  case wired m i b => split <;> split <;> rfl
  case described m i ch => split <;> rfl
  case hosted m ch => split <;> [rfl; (split <;> rfl)]

/-- Whatever the entries are, the payload of a node is the one that it started with. -/
theorem configAfter_payload (j : List Entry) (n : Node) :
    (p.configAfter policy j n).payload = (p.baseConfig policy n).payload := by
  induction j using List.reverseRecOn with
  | nil => rfl
  | append_singleton j e ih => rw [configAfter_concat, configStep_payload, ih]

/-! ## Section 5: Payloads of a result -/

/-- In the end a node that is reached has what it asks for. -/
theorem asks_fullLayout (policy : SpillPolicy) {n : Node} (hn : n ∈ p.entered) :
    n.Asks policy (if p.fuses n then none else n.kind.driver?.bind DriverStrategy.taskDriver?)
      ((p.fullLayout policy).config n).payload := by
  show n.Asks policy _ (p.configAfter policy (p.journal p.schedule) n).payload
  rw [configAfter_payload]
  exact asks_baseConfig policy (p.mem_entered.mp hn).2.1

/-- Neither sharing instances nor fusing tasks into it alters the payload of a vertex. -/
theorem payload_sharedVertex (p : Plan) (policy : SpillPolicy) (lead n : Node) :
    (p.sharedVertex policy lead n).payload = (p.vertexIn (p.fullLayout policy) n).payload := by
  unfold sharedVertex
  dsimp only
  split <;> rfl

theorem filter_subtasks (subtasks : Option UInt32) :
    subtasks.filter (fun k => 1 ≤ k) = if subtasks = some 0 then none else subtasks := by
  cases subtasks with
  | none => rfl
  | some k =>
    by_cases hk : k = 0
    · subst hk
      rfl
    · have hle : 1 ≤ k := by
        have : k.toNat ≠ 0 := fun h => hk (UInt32.toNat_inj.mp h)
        exact UInt32.le_iff_toNat_le.mpr (Nat.one_le_iff_ne_zero.mpr this)
      simp [hk, hle]

/-- The answer embodies the nodes of its plan. -/
theorem embodied_answer (policy : SpillPolicy) (job : JobId) (lead : Node) :
    p.Embodied policy (p.answer policy job lead) := by
  have hr : p.Places (p.answer policy job lead).report := places_answer lead
  constructor
  case name => rfl
  case config => rfl
  case vertex =>
    intro n hn t ht
    obtain ⟨hown, rfl⟩ := (hr.vertex_iff (p.node?_of_mem hn) t).mp ht
    obtain ⟨hentered, hf⟩ := p.mem_ownNodes.mp hown
    have hasks := asks_fullLayout policy hentered
    rw [hf, if_neg (by simp)] at hasks
    rw [vertex?_answer lead hown]
    have hpayload := p.payload_sharedVertex policy lead n
    have htask : (p.sharedVertex policy lead n).config.payload =
        ((p.fullLayout policy).config n).payload := congrArg VertexPayload.task hpayload
    exact ⟨_, rfl, congrArg VertexPayload.name hpayload,
      congrArg VertexPayload.parallelism hpayload,
      (congrArg VertexPayload.subtasksPerInstance hpayload).trans (filter_subtasks _),
      congrArg VertexPayload.kind hpayload, congrArg VertexPayload.taskClass hpayload,
      htask ▸ hasks⟩
  case task =>
    intro n hn place hplace
    obtain ⟨hfused, rfl⟩ := (hr.chained_iff (p.node?_of_mem hn) place).mp hplace
    obtain ⟨hentered, hf⟩ := p.mem_fusedNodes.mp hfused
    have hasks := asks_fullLayout policy hentered
    rw [hf, if_pos rfl] at hasks
    obtain ⟨v, hv, ht⟩ := task_answer lead hfused
    exact ⟨v, _, hv, ht, rfl, pushDriver_eq hfused, hasks⟩

/-! ## Section 6: Payloads survive -/

/-- A compilation that succeeds embodies the nodes of its plan, and no callback of the walk, nor the
walk as a whole, nor what comes after it alters what a node has been made with. -/
theorem payload_survives {c : Compiler} {r : Compiler.Result} (h : c.compile job p = .ok r) :
    p.Embodied c.policy r ∧
    (∀ n, Keeps State.Retains ((visitor c.policy p).enter n) ∧
      Keeps State.Retains ((visitor c.policy p).leave n)) ∧
    Keeps State.Retains (p.walk (visitor c.policy p)) ∧
    ∀ s r', Compiler.finish p s = .ok r' → Completes s r'.graph := by
  obtain ⟨lead, -, -, rfl⟩ := answer_of_ok h
  exact ⟨embodied_answer c.policy job lead, fun n => ⟨retains_enter n, retains_leave n⟩,
    keeps_walk retains_enter retains_leave, fun _ _ => completes_finish⟩

/-- In the plan that joins two sources the vertex of the counting and the task of the formatting are as
their nodes say. -/
theorem wordCount_payloads : ∃ r, Compiler.standard.compile .zero wordCount = .ok r ∧
    wordCount.Embodied Compiler.standard.policy r := by
  obtain ⟨r, hr⟩ := wordCount_compiles .standard .zero
  exact ⟨r, hr, (payload_survives hr).1⟩

end Plan

end Dataflow
